import Evos.Kheap.AlignedCarve
import Evos.Mm.SharedGrowth

/-! # The frames of a growing heap

`expand` maps the new pages in order, and each gets the first free frame. So the block that `kmalloc`
will hand out, and the frames that its pages will have, are known before the call. -/

namespace Evos
open ByteMemory Segments Outcome
set_option autoImplicit false

/-! ## What is known before -/

/-- The frames of `n` pages from `v` on of the kernel's directory once `expand` has mapped them: a page
keeps the frame it has, and another one gets the next free one. -/
def Kernel.framesFrom (s : Kernel) : ℕ → ℕ → List ℕ → List ℕ
  | _, 0, _ => []
  | v, n + 1, ws =>
    if (s.pageAt v).address ≠ 0 then (s.pageAt v).address :: s.framesFrom (v + 1) n ws
    else
      match frameAlloc Words.list ws.length ws with
      | .ok (frame, ws) => frame % 2 ^ 20 :: s.framesFrom (v + 1) n ws
      | .error _ => []

/-- The first page of the heap's addresses. -/
def heapPage : ℕ := kheapStart / 4096

/-- The frame that page `v` has when the heap ends at `stop`. -/
def Kernel.frameOf (s : Kernel) (stop v : ℕ) : ℕ :=
  (s.framesFrom heapPage (stop / 4096 - heapPage) s.frames).getD (v - heapPage) 0

/-- The pages of the heap have the frames that were known before. -/
def Foreseen (s t : Kernel) : Prop :=
  ∀ v, heapPage ≤ v → v < t.arena.heap.allocatedEnd / 4096 →
    s.frameOf t.arena.heap.allocatedEnd v = (t.pageAt v).address

/-- The tables of the kernel's directory are different ones. -/
def Kernel.TablesApart (s : Kernel) : Prop :=
  ∀ i j, s.tableAt i ≠ 0 → s.tableAt i = s.tableAt j → i = j

section Frames
variable {s t : Kernel} {v n m stop : ℕ} {ws : List ℕ}

theorem framesFrom_congr (h : ∀ w, v ≤ w → w < v + n → t.pageAt w = s.pageAt w) :
    t.framesFrom v n ws = s.framesFrom v n ws := by
  induction n generalizing v ws with
  | zero => rfl
  | succ n ih =>
    have hrest := fun ws => @ih (v + 1) ws fun w h1 h2 => h w (by omega) (by omega)
    unfold Kernel.framesFrom
    rw [h v (Nat.le_refl v) (by omega)]
    simp only [hrest]

theorem framesFrom_mapped (h : ∀ w, v ≤ w → w < v + m → (s.pageAt w).address ≠ 0) :
    s.framesFrom v (m + n) ws =
      ((List.range' v m).map fun w => (s.pageAt w).address) ++ s.framesFrom (v + m) n ws := by
  induction m generalizing v with
  | zero =>
    rw [Nat.zero_add]
    rfl
  | succ m ih =>
    have hnext := @ih (v + 1) fun w h1 h2 => h w (by omega) (by omega)
    rw [show m + 1 + n = m + n + 1 by omega, Kernel.framesFrom,
      if_pos (h v (Nat.le_refl v) (by omega)), hnext, List.range'_succ, List.map_cons,
      List.cons_append, show v + 1 + m = v + (m + 1) by omega]

theorem PageAllocated.framesFrom {w : Bool} (h : PageAllocated s (s.tableAt (v / 1024)) (v % 1024) w t)
    (ha : s.TablesApart) (hne : s.tableAt (v / 1024) ≠ 0) :
    s.framesFrom v (n + 1) s.frames = (t.pageAt v).address :: t.framesFrom (v + 1) n t.frames := by
  rw [Kernel.framesFrom]
  rcases h with ⟨haddr, rfl⟩ | ⟨haddr, f, ws, hf, _, _, hlt, rfl⟩
  · exact if_pos haddr
  · have hzero : ¬(s.pageAt v).address ≠ 0 := not_not_intro haddr
    have hpage : (({ s with frames := ws } : Kernel).setPage (s.tableAt (v / 1024)) (v % 1024)
        ⟨true, w, true, f⟩).pageAt v = ⟨true, w, true, f⟩ :=
      (Kernel.setPage_self _).trans (if_pos rfl)
    have hrest : ∀ u, v + 1 ≤ u → u < v + 1 + n →
        (({ s with frames := ws } : Kernel).setPage (s.tableAt (v / 1024)) (v % 1024)
          ⟨true, w, true, f⟩).pageAt u = s.pageAt u := by
      intro u hu _
      change (({ s with frames := ws } : Kernel).setPage _ _ _).spaces.tables
        (s.tableAt (u / 1024)) (u % 1024) = _
      by_cases htable : s.tableAt (u / 1024) = s.tableAt (v / 1024)
      · have hindex := ha _ _ hne htable.symm
        rw [htable, Kernel.setPage_self, if_neg (by omega)]
        unfold Kernel.pageAt
        rw [htable]
      · exact congrFun (Kernel.setPage_of_ne htable) _
    rw [if_neg hzero, hf, hpage, framesFrom_congr hrest]
    dsimp only
    rw [Nat.mod_eq_of_lt hlt]
    rfl

theorem frameOf_eq {f : ℕ → ℕ}
    (h : s.framesFrom heapPage (stop / 4096 - heapPage) s.frames =
      (List.range' heapPage (stop / 4096 - heapPage)).map f)
    (h1 : heapPage ≤ v) (h2 : v < stop / 4096) : s.frameOf stop v = f v := by
  unfold Kernel.frameOf
  rw [h, List.getD_eq_getElem?_getD, List.getElem?_map, List.getElem?_range' (by omega)]
  have hv : heapPage + 1 * (v - heapPage) = v := by omega
  rw [hv]
  rfl

end Frames

/-! ## Where the heap ends -/

section Stop
variable {a a' : Arena} {i p size oldEnd oldLength : ℕ} {pageAlign : Bool}

theorem addHole_stop (h : addHole oldEnd oldLength a = .ok ((), a')) :
    a'.heap.allocatedEnd = a.heap.allocatedEnd := by
  unfold addHole at h
  obtain ⟨_, _, h⟩ := except_bind_ok h
  cases h
  rfl

theorem carve_stop (h : carve i size pageAlign a = .ok (p, a')) :
    a'.heap.allocatedEnd = a.heap.allocatedEnd := by
  unfold carve at h
  obtain ⟨_, _, h⟩ := except_bind_ok h
  obtain ⟨⟨⟨_, _⟩, b⟩, hclaim, h⟩ := except_bind_ok h
  refine (placeBlock_result h).2.trans ?_
  unfold claimHole at hclaim
  split at hclaim
  · unfold splitLeft at hclaim
    obtain ⟨_, _, hclaim⟩ := except_bind_ok hclaim
    obtain ⟨_, _, hclaim⟩ := except_bind_ok hclaim
    obtain ⟨_, _, hclaim⟩ := except_bind_ok hclaim
    cases hclaim
    rfl
  · unfold takeHole at hclaim
    obtain ⟨_, _, hclaim⟩ := except_bind_ok hclaim
    cases hclaim
    rfl

end Stop

/-! ## Growing -/

section Growing
variable {s t : Kernel} {top size i : ℕ} {ts : List Tile} {pageAlign : Bool}
  {alloc : ℕ → KM (ℕ × ℕ)}

theorem Grew.tableAt (h : Grew s t) : t.tableAt = s.tableAt := by
  unfold Kernel.tableAt
  rw [h.dirs, h.kept.kernelDirectory]

theorem Grew.pageAt {w : ℕ} (h : Grew s t) (hw : (s.pageAt w).address ≠ 0) :
    t.pageAt w = s.pageAt w := by
  unfold Kernel.pageAt
  rw [h.tableAt]
  exact h.pages _ _ hw

/-- The loop of `expand` gives the pages the frames that were known before. -/
theorem mapPages_frames {start i v count : ℕ} (h : PagesOK s top (4096 * v)) (ha : s.TablesApart)
    (hv : start + i = 4096 * v) (hlo : kheapStart ≤ start) (hhi : 4096 * (v + count) ≤ heapTop top) :
    Ends (mapPages (kernelHost (getPageWith alloc)) start i count s)
      (fun _ t => s.framesFrom v count s.frames =
        (List.range' v count).map fun w => (t.pageAt w).address) fun _ => True := by
  induction count generalizing i v s with
  | zero => exact ends_pure rfl
  | succ count ih =>
    have hend := heapTop_le h.topLe
    have haddr : u32 (start + i) = 4096 * v := by
      rw [u32_of_lt (by omega), hv]
    obtain ⟨h60, htop⟩ := tableIndex_below (show kheapStart ≤ 4096 * v by omega)
      (show 4096 * v < heapTop top by omega)
    have hne := h.tableNe _ h60 htop
    have hstep := mapPage_found alloc h.frames hne
    rw [← haddr] at hstep
    refine ends_bind (hstep.mono (fun _ _ ht => ht) fun _ _ => trivial) fun _ t ht => ?_
    rw [haddr] at ht
    have hpage := ht.pageAt
    have hok := h.pageAllocated ht
    have hnext : PagesOK t top (4096 * (v + 1)) :=
      { hok with mapped := (hok.toHeapPages.extend hpage).mapped }
    have hapart : t.TablesApart := by
      unfold Kernel.TablesApart
      rw [ht.tableAt]
      exact ha
    have hdiv : 4096 * v / 4096 = v := Nat.mul_div_cancel_left v (by decide)
    unfold tableIndex at hne
    unfold tableIndex pageIndex at ht
    rw [hdiv] at hne ht
    have hoff : start + (i + 4096) = 4096 * (v + 1) := by omega
    have hlast : 4096 * (v + 1 + count) ≤ heapTop top := by omega
    refine ((ih hnext hapart hoff hlast).and
      (@mapPages_low _ alloc _ _ _ _ count hnext hoff hlo hlast)).mono ?_ fun _ _ => trivial
    rintro _ u ⟨hframes, hgrew, _⟩
    have hsame : u.pageAt v = t.pageAt v := hgrew.pageAt hpage
    rw [ht.framesFrom ha hne, hframes, List.range'_succ, List.map_cons, hsame]

theorem frameOf_grown {v count w stop : ℕ} (h : HeapPages s top (4096 * v)) (hv : heapPage ≤ v)
    (hpages : ∀ w, (s.pageAt w).address ≠ 0 → t.pageAt w = s.pageAt w)
    (hframes : s.framesFrom v count s.frames =
      (List.range' v count).map fun w => (t.pageAt w).address)
    (h1 : heapPage ≤ w) (h2 : w < stop / 4096) (hstop : stop = 4096 * (v + count)) :
    s.frameOf stop w = (t.pageAt w).address := by
  have hbase : kheapStart = 4096 * heapPage := rfl
  have hdiv : stop / 4096 = v + count := by
    rw [hstop]
    exact Nat.mul_div_cancel_left _ (by decide)
  have hmapped : ∀ w, heapPage ≤ w → w < heapPage + (v - heapPage) → (s.pageAt w).address ≠ 0 :=
    fun w h1 h2 => h.mapped w (by omega) (by omega)
  have hold : (List.range' heapPage (v - heapPage)).map (fun w => (s.pageAt w).address) =
      (List.range' heapPage (v - heapPage)).map fun w => (t.pageAt w).address := by
    refine List.map_congr_left fun w hw => ?_
    obtain ⟨h1, h2⟩ := List.mem_range'_1.mp hw
    rw [hpages w (hmapped w h1 h2)]
  have hfirst : heapPage + (v - heapPage) = v := Nat.add_sub_cancel' hv
  have hcount : v + count - heapPage = v - heapPage + count := Nat.sub_add_comm hv
  have hjoin : List.range' heapPage (v - heapPage) ++ List.range' v count =
      List.range' heapPage (v - heapPage + count) := by
    rw [← List.range'_append_1, hfirst]
  refine frameOf_eq (f := fun w => (t.pageAt w).address) ?_ h1 h2
  rw [hdiv, hcount, framesFrom_mapped hmapped, hold, hfirst, hframes, ← List.map_append, hjoin]

theorem KInv.foreseen {a : Arena} (h : KInv s top ts)
    (hstop : a.heap.allocatedEnd = s.arena.heap.allocatedEnd) : Foreseen s (s.setArena a) := by
  obtain ⟨v, hv⟩ : ∃ v, s.arena.heap.allocatedEnd = 4096 * v :=
    ⟨_, (Nat.mul_div_cancel' (Nat.dvd_of_mod_eq_zero h.endPage)).symm⟩
  have hpages := h.pages.toHeapPages
  rw [hv] at hpages
  have hbase : kheapStart = 4096 * heapPage := rfl
  have hstart := h.start
  have hle : s.arena.heap.allocatedStart ≤ s.arena.heap.allocatedEnd := h.tiled.heap.tiles.le
  have hstop' : a.heap.allocatedEnd = 4096 * (v + 0) := hstop.trans hv
  have hnone : s.framesFrom v 0 s.frames = (List.range' v 0).map fun w => (s.pageAt w).address := rfl
  have hsame : ∀ w, (s.setArena a).pageAt w = s.pageAt w := fun _ => rfl
  intro w h1 h2
  rw [Kernel.setArena_arena] at h2 ⊢
  rw [hsame]
  exact frameOf_grown hpages (by omega) (fun _ _ => rfl) hnone h1 h2 hstop'

theorem Foreseen.withArena {a : Arena} (h : Foreseen s t)
    (hstop : a.heap.allocatedEnd = t.arena.heap.allocatedEnd) : Foreseen s (t.setArena a) := by
  intro v h1 h2
  rw [Kernel.setArena_arena, hstop] at h2 ⊢
  exact h v h1 h2

theorem enterPages_foreseen {gp : ℕ → ℕ → KM (Option (ℕ × ℕ))} {newEnd : ℕ} (hheap : t.heap = s.heap)
    (hexp : expand Arena.host (u32 (sub32 s.arena.heap.allocatedEnd s.arena.heap.allocatedStart +
      (size + 20) + 4096)) s.arena = .ok () (s.arena.extended newEnd))
    (hframes : ∀ w, heapPage ≤ w → w < newEnd / 4096 → s.frameOf newEnd w = (t.pageAt w).address) :
    Ends ((kernelHost gp).enterPages s.arena.heap.allocatedEnd newEnd (t.extended newEnd))
      (fun _ u => True ∧ ∀ a, addHole s.arena.heap.allocatedEnd
          (sub32 s.arena.heap.allocatedEnd s.arena.heap.allocatedStart) u.arena = .ok ((), a) →
        True ∧ ∀ i, findHole a (size + 20) pageAlign = some i →
          growHeap Arena.host (size + 20) pageAlign s.arena = .ok i (u.setArena a).arena ∧
            Foreseen s (u.setArena a)) fun _ => True := by
  have harena : (t.extended newEnd).recorded.arena = s.arena.extended newEnd :=
    congrArg (fun x => Arena.extended (HeapState.arena x) newEnd) hheap
  refine (enterPages_ends _ _ trivial).mono ?_ fun _ hu => hu
  rintro _ _ ⟨rfl, _⟩
  refine ⟨trivial, fun a hadd => ⟨trivial, fun i hf => ⟨?_, fun w h1 h2 => ?_⟩⟩⟩
  · rw [harena] at hadd
    exact growHeap_of_stages (H := Arena.host) hexp rfl hadd hf
  · have hstop : a.heap.allocatedEnd = newEnd := (addHole_stop hadd).trans (t.extended_stop newEnd)
    rw [Kernel.setArena_arena, hstop] at h2 ⊢
    exact hframes w h1 h2

/-- Growing the heap of the kernel is growing the heap on its own, and gives the new pages the frames
that were known before. -/
theorem growHeap_foreseen (ha : AllocSound top alloc) (hs : s.Sound top) (h : KInv s top ts)
    (hapart : s.TablesApart) (hsize : size + 20 < 2 ^ 31) :
    Ends (growHeap (kernelHost (getPageWith alloc)) (size + 20) pageAlign s)
      (fun i t => growHeap Arena.host (size + 20) pageAlign s.arena = .ok i t.arena ∧ Foreseen s t)
      fun _ => True := by
  by_cases hlow : grownEnd s.arena size ≤ heapTop top
  swap
  · exact (growHeap_behind ha hs h hsize (Nat.lt_of_not_le hlow)).mono (fun _ _ hf => hf.elim)
      fun _ _ => trivial
  obtain ⟨hold, _, _, _, hmod⟩ := h.expand_sizes hsize
  have hstart := h.start
  have hle : s.arena.heap.allocatedStart ≤ s.arena.heap.allocatedEnd := h.tiled.heap.tiles.le
  have hsum : s.arena.heap.allocatedStart +
      (s.arena.heap.allocatedEnd - s.arena.heap.allocatedStart) = s.arena.heap.allocatedEnd := by
    omega
  obtain ⟨v, hv⟩ : ∃ v, s.arena.heap.allocatedEnd = 4096 * v :=
    ⟨_, (Nat.mul_div_cancel' (Nat.dvd_of_mod_eq_zero h.endPage)).symm⟩
  have hpages := h.pages
  rw [hv] at hpages
  have hbase : kheapStart = 4096 * heapPage := rfl
  refine h.ends_growHeap trivial hsize fun hmax count hcount => ?_
  have hgrown : grownEnd s.arena size = 4096 * (v + count) := by
    omega
  have hlo : kheapStart ≤ s.arena.heap.allocatedStart := by
    rw [hstart]
    exact Nat.le_add_right _ _
  have hhi : 4096 * (v + count) ≤ heapTop top := by
    rw [← hgrown]
    exact hlow
  have hexp : expand Arena.host (u32 (sub32 s.arena.heap.allocatedEnd s.arena.heap.allocatedStart +
      (size + 20) + 4096)) s.arena = .ok () (s.arena.extended (grownEnd s.arena size)) :=
    h.tiled.heap.expand_host (hmax.trans h.max.ge)
  refine ((@mapPages_low _ alloc _ _ _ _ count hpages (hsum.trans hv) hlo hhi).and
    (@mapPages_frames _ _ alloc _ _ _ count hpages hapart (hsum.trans hv) hlo hhi)).mono
      ?_ fun _ _ => trivial
  rintro _ t ⟨⟨hgrew, hheap, _, _⟩, hframes⟩
  refine ⟨hgrew.kept, trivial, ?_⟩
  rw [← hold]
  exact enterPages_foreseen hheap hexp fun w h1 h2 =>
    frameOf_grown hpages.toHeapPages (by omega) (fun _ hw => hgrew.pageAt hw) hframes h1 h2 hgrown

/-- `kmalloc` hands out the block that `heap_alloc` finds on the heap on its own, in pages whose frames
were known before. -/
theorem kmallocAt_foreseen (depth : ℕ) (hs : s.Sound top) (hapart : s.TablesApart)
    (hsize : size + 20 < 2 ^ 31) (align wantPhysical : Bool) :
    Ends (kmallocAt depth size align wantPhysical s)
      (fun block t => heapAlloc Arena.host size align s.arena = .ok block.1 t.arena ∧ Foreseen s t)
      fun _ => True := by
  obtain ⟨ts, h⟩ := hs.inv
  have hwrap : u32 (size + 20) = size + 20 := u32_of_lt (by omega)
  cases depth with
  | zero => exact ends_throw trivial
  | succ depth =>
    refine ends_get_bind ?_
    rw [if_pos h.on]
    refine ends_bind (Q := fun p t => heapAlloc Arena.host size align s.arena = .ok p t.arena ∧
      Foreseen s t) (ends_heapAlloc ?_ ?_) fun p t ht => ends_modify_bind ?_
    · rw [hwrap]
      intro i hf
      refine ⟨trivial, fun p a hc => ⟨?_, h.foreseen (carve_stop hc)⟩⟩
      rw [← hwrap] at hf hc
      exact heapAlloc_of_choose (H := Arena.host) (chooseHole_of_found (H := Arena.host) hf) hc
    · rw [hwrap]
      intro hnone
      refine (growHeap_foreseen (allocSound_kmallocAt top depth) hs h hapart hsize).mono ?_ fun _ hu => hu
      rintro i t ⟨hgrow, hforeseen⟩
      refine ⟨trivial, fun p a hc => ⟨?_, hforeseen.withArena (carve_stop hc)⟩⟩
      rw [← hwrap] at hnone hgrow hc
      refine heapAlloc_of_choose (H := Arena.host) ?_ hc
      exact (chooseHole_of_none (H := Arena.host) hnone).trans hgrow
    · cases wantPhysical with
      | false => exact ends_pure ht
      | true =>
        refine ends_bind (physicalOf_kept p (t.tookBlock p size) |>.mono (fun _ _ hu => hu)
          fun _ _ => trivial) fun _ u hu => ends_pure ?_
        rw [hu]
        exact ht

end Growing

end Evos
