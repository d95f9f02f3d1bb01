import Evos.Mm.Invariant

/-! # Growing the kernel's heap

As long as the heap stays in the tables that every directory shares, growing it maps pages of these
tables. Past them the new pages are in no directory but the kernel's, and the first access to them
stops the kernel. -/

namespace Evos
open ByteMemory Segments Outcome
set_option autoImplicit false

/-! ## The page tables -/

section Pages
variable {s t u : Kernel} {top limit : ℕ}

/-- The tables do not read the heap or the list of what was handed out. -/
theorem PagesOK.congr (h : PagesOK s top limit) (hs : t.spaces = s.spaces)
    (hk : t.kernelDirectory = s.kernelDirectory) (hf : t.frames = s.frames)
    (hc : t.cloningBufferPage = s.cloningBufferPage) (hcr : t.created = s.created)
    (hp : ∀ d ∈ s.paging, d ∈ t.paging) (hm : MidpointsOK top t) : PagesOK t top limit := by
  have hat : t.tableAt = s.tableAt := by
    unfold Kernel.tableAt
    rw [hs, hk]
  have hpage : t.pageAt = s.pageAt := by
    unfold Kernel.pageAt
    rw [hat, hs]
  refine ⟨⟨?_, ?_, ?_, ?_⟩, h.topGe, h.topLe, ?_, ?_, ?_, ?_, ?_, ?_, ?_, hm⟩
  · rw [hat]
    exact h.tableNe
  · rw [hs, hat]
    exact h.present
  · rw [hpage]
    exact h.mapped
  · rw [hf]
    exact h.frames
  · rw [hk]
    exact h.kernelOut
  · rw [hat]
    exact h.tableOut
  · rw [hat]
    exact h.cloningNe
  · rw [hat]
    exact h.cloningOut
  · rw [hc, hat]
    exact h.cloning
  · rw [hpage]
    exact h.cloningPresent
  · intro d hd hne
    rw [hcr] at hd
    rw [hk] at hne
    obtain ⟨hsh, hin, hpg⟩ := h.shares d hd hne
    refine ⟨⟨?_, ?_, ?_⟩, hin, hp d hpg⟩
    · rw [hs, hat]
      exact hsh.heap
    · rw [hs]
      exact hsh.none
    · rw [hs, hat]
      exact hsh.cloning

theorem PagesOK.pageAllocated {v i : ℕ} {w : Bool} (h : PagesOK s top limit)
    (hp : PageAllocated s v i w u) : PagesOK u top limit := by
  have hk := hp.kept.kernelDirectory
  have hat := hp.tableAt
  refine ⟨h.toHeapPages.pageAllocated hp, h.topGe, h.topLe, ?_, ?_, ?_, ?_, ?_, ?_, ?_, ?_⟩
  · rw [hk]
    exact h.kernelOut
  · rw [hat]
    exact h.tableOut
  · rw [hat]
    exact h.cloningNe
  · rw [hat]
    exact h.cloningOut
  · rw [hp.kept.cloningBufferPage, hat]
    exact h.cloning
  · unfold Kernel.pageAt
    rw [hat]
    rcases hp.page (s.tableAt (983040 / 1024)) (983040 % 1024) with he | ⟨_, _, hnew, _⟩
    · rw [he]
      exact h.cloningPresent
    · exact hnew
  · intro d hd hne
    rw [hp.kept.created] at hd
    rw [hk] at hne
    obtain ⟨hsh, hin, hpg⟩ := h.shares d hd hne
    rw [hp.paging]
    refine ⟨⟨?_, ?_, ?_⟩, hin, hpg⟩
    · rw [hp.dirs, hat]
      exact hsh.heap
    · rw [hp.dirs]
      exact hsh.none
    · rw [hp.dirs, hat]
      exact hsh.cloning
  · unfold MidpointsOK
    rw [hp.midpoints]
    exact h.midpoints

theorem PageAllocated.pageAt {v : ℕ} {w : Bool} (h : PageAllocated s (s.tableAt (tableIndex (4096 * v)))
    (pageIndex (4096 * v)) w u) : (u.pageAt v).address ≠ 0 := by
  have haddress := h.address
  have hdiv : 4096 * v / 4096 = v := Nat.mul_div_cancel_left v (by omega)
  unfold Kernel.pageAt
  rw [h.tableAt]
  unfold tableIndex pageIndex at haddress
  rw [hdiv] at haddress
  exact haddress

end Pages

/-! ## What a growing heap does to the page tables -/

/-- The page tables are as before, but for pages that had no address. -/
structure Grew (s t : Kernel) : Prop where
  kept : Kept s t
  dirs : t.spaces.dirs = s.spaces.dirs
  pages : ∀ v j, (s.spaces.tables v j).address ≠ 0 → t.spaces.tables v j = s.spaces.tables v j
  paging : t.paging = s.paging

section Grew
variable {s t u : Kernel}

theorem Grew.refl (s : Kernel) : Grew s s := ⟨Kept.refl s, rfl, fun _ _ _ => rfl, rfl⟩

theorem Grew.trans (h : Grew s t) (h' : Grew t u) : Grew s u where
  kept := h.kept.trans h'.kept
  dirs := h'.dirs.trans h.dirs
  pages v j hj := by
    have he := h.pages v j hj
    have he' := h'.pages v j (by rw [he]; exact hj)
    exact he'.trans he
  paging := h'.paging.trans h.paging

theorem PageAllocated.grew {v i : ℕ} {w : Bool} (h : PageAllocated s v i w u) : Grew s u :=
  ⟨h.kept, h.dirs, fun _ _ hj => h.stable hj, h.paging⟩

/-- The arena may change, as long as it keeps its bounds, and points of the run may be recorded. -/
theorem grew_of_eq (hk : Kept s t) (hs : t.spaces = s.spaces) (hp : t.paging = s.paging) :
    Grew s t where
  kept := hk
  dirs := congrArg Spaces.dirs hs
  pages v j _ := congrFun (congrFun (congrArg Spaces.tables hs) v) j
  paging := hp

end Grew

/-! ## Mapping pages of the shared tables -/

section Low
variable {s : Kernel} {alloc : ℕ → KM (ℕ × ℕ)} {top : ℕ}

theorem getPageWith_found {address dir : ℕ}
    (h : (s.spaces.dirs dir).tables (tableIndex address) ≠ 0) :
    getPageWith alloc address dir s =
      .ok (some ((s.spaces.dirs dir).tables (tableIndex address), pageIndex address)) s := by
  have hget : (get : KM Kernel) s = .ok s s := rfl
  unfold getPageWith
  rw [bind_of_ok hget, if_pos h, bind_of_ok hget]
  unfold Kernel.findPage
  rw [if_pos h]
  rfl

theorem mapPage_found (alloc : ℕ → KM (ℕ × ℕ)) {address : ℕ} (hf : FramesOK s.frames)
    (h : s.tableAt (tableIndex address) ≠ 0) :
    Ends ((kernelHost (getPageWith alloc)).mapPage address s)
      (fun _ u => PageAllocated s (s.tableAt (tableIndex address)) (pageIndex address)
        s.arena.heap.pagesWriteable u)
      (fun u => u = s) :=
  ends_get_bind (ends_bind_of_ok (getPageWith_found h) (ends_get_bind (pageAlloc_ends hf _ _ _)))

theorem mapPages_low {start i v count : ℕ} (h : PagesOK s top (4096 * v))
    (hv : start + i = 4096 * v) (hlo : kheapStart ≤ start) (hhi : 4096 * (v + count) ≤ heapTop top) :
    Ends (mapPages (kernelHost (getPageWith alloc)) start i count s)
      (fun _ t => Grew s t ∧ t.heap = s.heap ∧ PagesOK t top (4096 * (v + count)) ∧
        t.midpoints = s.midpoints)
      (fun t => t.midpoints = s.midpoints) := by
  induction count generalizing i v s with
  | zero => exact ends_pure ⟨Grew.refl s, rfl, h, rfl⟩
  | succ count ih =>
    have hend := heapTop_le h.topLe
    have haddr : u32 (start + i) = 4096 * v := by
      rw [u32_of_lt (by omega), hv]
    obtain ⟨h60, htop⟩ := tableIndex_below (show kheapStart ≤ 4096 * v by omega)
      (show 4096 * v < heapTop top by omega)
    have hstep := mapPage_found alloc h.frames (h.tableNe _ h60 htop)
    rw [← haddr] at hstep
    refine ends_bind (hstep.mono (fun _ _ ht => ht) fun u hu => ?_) fun _ t ht => ?_
    · rw [hu]
    · rw [haddr] at ht
      have hpage := ht.pageAt
      have hok := h.pageAllocated ht
      have hnext : PagesOK t top (4096 * (v + 1)) :=
        { hok with mapped := (hok.toHeapPages.extend hpage).mapped }
      have hsum : v + 1 + count = v + (count + 1) := by omega
      have hloop := ih hnext (show start + (i + 4096) = 4096 * (v + 1) by omega) (by omega)
      rw [hsum] at hloop
      refine hloop.mono ?_ fun _ hu => hu.trans ht.midpoints
      rintro _ u ⟨hg, hheap, hp, hm⟩
      exact ⟨ht.grew.trans hg, hheap.trans ht.heap, hp, hm.trans ht.midpoints⟩

end Low

end Evos
