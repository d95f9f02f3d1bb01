import Evos.Mm.KernelGrow

/-! # The paged kernel between two calls

Between the calls of its users the kernel's directory has no table behind those that the directories
share, and the cloning page lies in none of the heap's. One lemma for each kind of change: blocks
taken, pages mapped, directories and tables set up in new blocks. -/

namespace Evos
open ByteMemory Segments Outcome
set_option autoImplicit false

/-- The kernel with its page tables between two calls. -/
structure Kernel.Paged (s : Kernel) (top : ℕ) : Prop where
  inv : ∃ ts, KInv s top ts
  low : ∀ i, top ≤ i → i < 64 → s.tableAt i = 0
  apart : ∀ i, 60 ≤ i → i < top → s.tableAt i ≠ s.tableAt 960
  kernel : s.kernelDirectory ∈ s.created

/-! ## What the invariant reads -/

/-- Nothing that the invariant reads has changed: the directories made, the tables of the heap and
the presence of the cloning page. -/
structure SamePaging (top : ℕ) (s t : Kernel) : Prop where
  on : t.kernelHeap = s.kernelHeap
  heap : t.heap = s.heap
  frames : t.frames = s.frames
  kernelDirectory : t.kernelDirectory = s.kernelDirectory
  cloningBufferPage : t.cloningBufferPage = s.cloningBufferPage
  created : t.created = s.created
  midpoints : t.midpoints = s.midpoints
  dirs : ∀ d ∈ s.created, t.spaces.dirs d = s.spaces.dirs d
  tables : ∀ i, 60 ≤ i → i < top → t.spaces.tables (s.tableAt i) = s.spaces.tables (s.tableAt i)
  cloning : (s.spaces.tables (s.tableAt 960) 0).present = true →
    (t.spaces.tables (s.tableAt 960) 0).present = true
  paging : ∀ p ∈ s.paging, p ∈ t.paging
  blocks : ∀ p ∈ t.paging, p ∈ s.paging ∨ ∃ n, (p, n) ∈ s.heap.live

section Same
variable {s t : Kernel} {top limit : ℕ} {ts : List Tile}

theorem SamePaging.tableAt (h : SamePaging top s t) (hk : s.kernelDirectory ∈ s.created) :
    t.tableAt = s.tableAt := by
  unfold Kernel.tableAt
  rw [h.kernelDirectory, h.dirs _ hk]

theorem SamePaging.pagesOK (h : SamePaging top s t) (hk : s.kernelDirectory ∈ s.created)
    (hp : PagesOK s top limit) (hle : limit ≤ heapTop top) : PagesOK t top limit := by
  have hat := h.tableAt hk
  have hbase : kheapStart = 4096 * 61440 := rfl
  refine ⟨⟨?_, ?_, ?_, ?_⟩, hp.topGe, hp.topLe, ?_, ?_, ?_, ?_, ?_, ?_, ?_, ?_⟩
  · rw [hat]
    exact hp.tableNe
  · intro i h1 h2
    rw [hat, h.tables i h1 h2]
    exact hp.present i h1 h2
  · intro v h1 h2
    have hv : v / 1024 < top := by
      unfold heapTop at hle
      omega
    unfold Kernel.pageAt
    rw [hat, h.tables _ (by omega) hv]
    exact hp.mapped v h1 h2
  · rw [h.frames]
    exact hp.frames
  · rw [h.kernelDirectory]
    exact hp.kernelOut
  · rw [hat]
    exact hp.tableOut
  · rw [hat]
    exact hp.cloningNe
  · rw [hat]
    exact hp.cloningOut
  · rw [h.cloningBufferPage, hat]
    exact hp.cloning
  · unfold Kernel.pageAt
    rw [hat]
    exact h.cloning hp.cloningPresent
  · intro d hd hne
    rw [h.created] at hd
    rw [h.kernelDirectory] at hne
    obtain ⟨hsh, hin, hpg⟩ := hp.shares d hd hne
    have hdir := h.dirs d hd
    refine ⟨⟨?_, ?_, ?_⟩, hin, h.paging d hpg⟩
    · rw [hdir, hat]
      exact hsh.heap
    · rw [hdir]
      exact hsh.none
    · rw [hdir, hat]
      exact hsh.cloning
  · unfold MidpointsOK
    rw [h.midpoints]
    exact hp.midpoints

theorem SamePaging.kinv (h : SamePaging top s t) (hk : s.kernelDirectory ∈ s.created)
    (hi : KInv s top ts) : KInv t top ts := by
  have harena : t.arena = s.arena := congrArg HeapState.arena h.heap
  refine ⟨h.on.trans hi.on, ?_, ?_, ?_, ?_, ?_, ?_, ?_⟩
  · rw [h.heap]
    exact hi.tiled
  · rw [harena]
    exact hi.start
  · rw [harena]
    exact hi.max
  · rw [harena]
    exact hi.endLe
  · rw [harena]
    exact hi.endPage
  · rw [harena]
    exact h.pagesOK hk hi.pages hi.endLe
  · intro p hp
    rw [h.heap]
    rcases h.blocks p hp with hold | hl
    · exact hi.paging p hold
    · exact Or.inr hl

theorem Kernel.Paged.same (hs : s.Paged top) (h : SamePaging top s t) : t.Paged top := by
  obtain ⟨ts, hi⟩ := hs.inv
  have hat := h.tableAt hs.kernel
  refine ⟨⟨ts, h.kinv hs.kernel hi⟩, ?_, ?_, ?_⟩
  · rw [hat]
    exact hs.low
  · rw [hat]
    exact hs.apart
  · rw [h.kernelDirectory, h.created]
    exact hs.kernel

theorem Kernel.Paged.midpointsOK (hs : s.Paged top) : MidpointsOK top s := by
  obtain ⟨ts, h⟩ := hs.inv
  exact h.pages.midpoints

theorem Kernel.Paged.topLe (hs : s.Paged top) : top ≤ 64 := by
  obtain ⟨ts, h⟩ := hs.inv
  exact h.pages.topLe

theorem Kernel.Paged.framesOK (hs : s.Paged top) : FramesOK s.frames := by
  obtain ⟨ts, h⟩ := hs.inv
  exact h.pages.frames

theorem Kernel.Paged.live_inside {p n : ℕ} (hs : s.Paged top) (hl : (p, n) ∈ s.heap.live) :
    ¬Outside p := by
  obtain ⟨ts, h⟩ := hs.inv
  exact h.live_inside hl

/-- Neither the tables of the heap nor that of the cloning page are blocks of the heap. -/
theorem Kernel.Paged.table_ne {p n i : ℕ} (hs : s.Paged top) (hl : (p, n) ∈ s.heap.live)
    (hi : 60 ≤ i ∧ i < top ∨ i = 960) : s.tableAt i ≠ p := by
  obtain ⟨ts, h⟩ := hs.inv
  rintro rfl
  rcases hi with ⟨h1, h2⟩ | rfl
  · exact h.live_inside hl (h.pages.tableOut i h1 h2)
  · exact h.live_inside hl h.pages.cloningOut

theorem Kernel.Paged.fresh {p : ℕ} (hs : s.Paged top) (hfresh : ∀ n, (p, n) ∉ s.heap.live)
    (hin : ¬Outside p) : p ∉ s.created ∧ p ∉ s.paging := by
  obtain ⟨ts, h⟩ := hs.inv
  have hpaging : p ∉ s.paging := by
    intro hp
    rcases h.paging p hp with hout | ⟨n, hl⟩
    · exact hin hout
    · exact hfresh n hl
  refine ⟨fun hp => ?_, hpaging⟩
  by_cases hk : p = s.kernelDirectory
  · rw [hk] at hin
    exact hin h.pages.kernelOut
  · exact hpaging (h.pages.shares p hp hk).2.2

end Same

/-! ## Blocks and pages -/

section Changes
variable {s t : Kernel} {top size p n v i d : ℕ} {w pageAlign : Bool}

theorem Took.tableAt (h : Took s top size pageAlign p t) : t.tableAt = s.tableAt := by
  unfold Kernel.tableAt
  rw [h.grew.dirs, h.grew.kept.kernelDirectory]

theorem Kernel.Paged.took (hs : s.Paged top) (h : Took s top size pageAlign p t) : t.Paged top := by
  have hat := h.tableAt
  refine ⟨h.sound.inv, ?_, ?_, ?_⟩
  · rw [hat]
    exact hs.low
  · rw [hat]
    exact hs.apart
  · rw [h.grew.kept.kernelDirectory, h.grew.kept.created]
    exact hs.kernel

theorem Kernel.Paged.pageAllocated (hs : s.Paged top) (h : PageAllocated s v i w t) :
    t.Paged top := by
  obtain ⟨ts, hi⟩ := hs.inv
  have hat := h.tableAt
  refine ⟨⟨ts, hi.pageAllocated h⟩, ?_, ?_, ?_⟩
  · rw [hat]
    exact hs.low
  · rw [hat]
    exact hs.apart
  · rw [h.kept.kernelDirectory, h.kept.created]
    exact hs.kernel

theorem Kernel.Paged.pointCloningPage (hs : s.Paged top) (f : ℕ) :
    (s.pointCloningPage f).Paged top := by
  obtain ⟨ts, h⟩ := hs.inv
  have hcloning := h.pages.cloning
  refine hs.same ⟨rfl, rfl, rfl, rfl, rfl, rfl, rfl, fun _ _ => rfl, ?_, fun _ => ?_,
    fun _ hp => hp, fun _ hp => Or.inl hp⟩
  · intro i h1 h2
    unfold Kernel.pointCloningPage
    rw [hcloning]
    exact Kernel.setPage_of_ne (hs.apart i h1 h2)
  · unfold Kernel.pointCloningPage
    rw [hcloning, Kernel.setPage_self, if_pos rfl]

theorem Kernel.Paged.writeRam (hs : s.Paged top) (f offset size : ℕ) (src : ℕ → UInt8) :
    (s.writeRam f offset size src).Paged top :=
  hs.same ⟨rfl, rfl, rfl, rfl, rfl, rfl, rfl, fun _ _ => rfl, fun _ _ _ => rfl, fun h => h,
    fun _ hp => hp, fun _ hp => Or.inl hp⟩

/-! ## Directories and tables -/

theorem Kernel.Paged.setDir (hs : s.Paged top) (hd : d ∉ s.created) (x : PageDirectory) :
    (s.setDir d x).Paged top := by
  refine hs.same ⟨rfl, rfl, rfl, rfl, rfl, rfl, rfl, fun e he => ?_, fun _ _ _ => rfl, fun h => h,
    fun _ hp => hp, fun _ hp => Or.inl hp⟩
  exact Kernel.setDir_of_ne fun heq => hd (heq ▸ he)

theorem Kernel.Paged.addDirectory (hs : s.Paged top) (hl : (d, n) ∈ s.heap.live)
    (hd : d ∉ s.created) (physical : ℕ) : (s.addDirectory d physical).Paged top := by
  refine hs.same ⟨rfl, rfl, rfl, rfl, rfl, rfl, rfl, fun e he => ?_, fun _ _ _ => rfl, fun h => h,
    fun _ hp => List.mem_cons_of_mem _ hp, fun p hp => ?_⟩
  · exact Kernel.setDir_of_ne fun heq => hd (heq ▸ he)
  · rcases List.mem_cons.mp hp with rfl | hold
    · exact Or.inr ⟨n, hl⟩
    · exact Or.inl hold

/-- A cleared table in a live block. -/
def Kernel.newTable (p : ℕ) (s : Kernel) : Kernel :=
  { s.setTable p PageTable.zero with paging := p :: s.paging }

theorem Kernel.Paged.newTable (hs : s.Paged top) (hl : (p, n) ∈ s.heap.live) :
    (s.newTable p).Paged top := by
  refine hs.same ⟨rfl, rfl, rfl, rfl, rfl, rfl, rfl, fun _ _ => rfl, fun i h1 h2 => ?_, fun h => ?_,
    fun _ hp => List.mem_cons_of_mem _ hp, fun q hq => ?_⟩
  · exact Kernel.setTable_of_ne (hs.table_ne hl (Or.inl ⟨h1, h2⟩))
  · have hne := hs.table_ne hl (Or.inr rfl)
    have htable : (s.newTable p).spaces.tables (s.tableAt 960) = s.spaces.tables (s.tableAt 960) :=
      Kernel.setTable_of_ne hne
    rw [htable]
    exact h
  · rcases List.mem_cons.mp hq with rfl | hold
    · exact Or.inr ⟨n, hl⟩
    · exact Or.inl hold

/-- A table entered in any directory, away from the heap's and that of the cloning page. -/
theorem Kernel.Paged.addTable {dir index : ℕ} (hs : s.Paged top) (hl : (p, n) ∈ s.heap.live)
    (physical : ℕ) (hindex : index < 60 ∨ 64 ≤ index) (h960 : index ≠ 960) :
    (s.addTable dir index p physical).Paged top := by
  obtain ⟨ts, h⟩ := hs.inv
  have htop := h.pages.topLe
  have hge := h.pages.topGe
  have hat : ∀ j, j ≠ index → (s.addTable dir index p physical).tableAt j = s.tableAt j := by
    intro j hj
    unfold Kernel.tableAt
    rw [Kernel.addTable_kernelDirectory, Kernel.addTable_entry, if_neg fun he => hj he.2]
  refine ⟨⟨ts, h.addTable hl dir physical (by omega) h960 fun _ => hindex⟩, ?_, ?_, hs.kernel⟩
  · intro i h1 h2
    rw [hat i (by omega)]
    exact hs.low i h1 h2
  · intro i h1 h2
    rw [hat i (by omega), hat 960 h960.symm]
    exact hs.apart i h1 h2

/-- A directory that shares the kernel's tables is one more of those made. -/
theorem Kernel.Paged.addCreated (hs : s.Paged top) (hsh : Shares s top d) (hd : d ∈ s.paging)
    (hin : ¬Outside d) : ({ s with created := d :: s.created } : Kernel).Paged top := by
  obtain ⟨ts, h⟩ := hs.inv
  refine ⟨⟨ts, { h with pages := { h.pages with shares := ?_ } }⟩, hs.low, hs.apart,
    List.mem_cons_of_mem _ hs.kernel⟩
  intro e he hk
  rcases List.mem_cons.mp he with rfl | hold
  · exact ⟨⟨hsh.heap, hsh.none, hsh.cloning⟩, hin, hd⟩
  · obtain ⟨hsh', hrest⟩ := h.pages.shares e hold hk
    exact ⟨⟨hsh'.heap, hsh'.none, hsh'.cloning⟩, hrest⟩

/-! ## The heap -/

/-- Another heap of the same extent, in which the blocks of tables and directories are still live. -/
theorem Kernel.Paged.withHeap {h : HeapState} {ts : List Tile} (hs : s.Paged top) (ht : Tiled h ts)
    (hext : SameExtent s.heap.arena.heap h.arena.heap)
    (hlive : ∀ p ∈ s.paging, ∀ n, (p, n) ∈ s.heap.live → (p, n) ∈ h.live) :
    ({ s with heap := h } : Kernel).Paged top := by
  obtain ⟨_, hi⟩ := hs.inv
  refine ⟨⟨ts, hi.on, ht, ?_, ?_, ?_, ?_, ?_, ?_⟩, hs.low, hs.apart, hs.kernel⟩
  · exact hext.start.trans hi.start
  · exact hext.max.trans hi.max
  · exact hext.stop.le.trans hi.endLe
  · change h.arena.heap.allocatedEnd % 4096 = 0
    rw [hext.stop]
    exact hi.endPage
  · change PagesOK _ _ h.arena.heap.allocatedEnd
    rw [hext.stop]
    exact hi.pages.congr rfl rfl rfl rfl rfl (fun _ hd => hd) hi.pages.midpoints
  · intro p hp
    rcases hi.paging p hp with hout | ⟨n, hl⟩
    · exact Or.inl hout
    · exact Or.inr ⟨n, hlive p hp n hl⟩

theorem Kernel.Paged.freed {h : HeapState} (hs : s.Paged top) (hp : p ∉ s.paging)
    (hj : JoinsHoles s.arena p) (hf : freeStep p s.heap = some h) :
    ({ s with heap := h } : Kernel).Paged top := by
  obtain ⟨ts, hi⟩ := hs.inv
  obtain ⟨_, _, _, _, _, _, _, _, _, hfreed, hlive, htiled⟩ := freeStep_some hi.tiled hj hf
  refine hs.withHeap htiled hfreed.extent fun q hq n hl => ?_
  have hne : q ≠ p := fun he => hp (he ▸ hq)
  rw [hlive]
  exact (List.mem_erase_of_ne fun he => hne (congrArg Prod.fst he)).mpr hl

theorem kfree_ends (hs : s.Paged top)
    (hp : p ≠ 0 → (∃ n, (p, n) ∈ s.heap.live) ∧ p ∉ s.paging ∧ JoinsHoles s.arena p) :
    Ends (kfree p s) (fun _ t => t.Paged top ∧ ∃ h, t = { s with heap := h }) fun t => t = s := by
  obtain ⟨ts, hi⟩ := hs.inv
  unfold kfree
  rw [if_pos hi.on]
  by_cases h0 : p = 0
  · subst h0
    have hnone : (s.heap.live.find? fun block => block.1 == 0) = none := by
      refine List.find?_eq_none.mpr fun block hmem he => ?_
      obtain ⟨q, n⟩ := block
      have := (hi.live_bounds hmem).1
      have hq : q = 0 := by simpa using he
      omega
    have hfree : heapFree 0 s.arena = .ok s.arena := rfl
    have hwithout : s.heap.without 0 = s.heap.live := by
      unfold HeapState.without
      rw [hnone]
    rw [hfree]
    dsimp only
    rw [hwithout]
    exact ends_ok ⟨hs, s.heap, rfl⟩
  · obtain ⟨⟨n, hl⟩, hpaging, hj⟩ := hp h0
    cases hf : heapFree p s.arena with
    | error e => exact ends_error rfl
    | ok a =>
      have hf' : heapFree p s.heap.arena = .ok a := hf
      have hstep : freeStep p s.heap = some ⟨a, s.heap.without p⟩ := by
        obtain ⟨block, hb⟩ : ∃ block, (s.heap.live.find? fun block => block.1 == p) = some block := by
          refine Option.isSome_iff_exists.mp (List.find?_isSome.mpr ⟨(p, n), hl, ?_⟩)
          exact beq_self_eq_true p
        unfold freeStep HeapState.without
        rw [hb, hf']
      exact ends_ok ⟨hs.freed hpaging hj hstep, _, rfl⟩

theorem Kernel.Paged.written {h : HeapState} {x : ℕ} {b : UInt8} (hs : s.Paged top)
    (hw : writeStep x b s.heap = some h) : ({ s with heap := h } : Kernel).Paged top := by
  obtain ⟨ts, hi⟩ := hs.inv
  obtain ⟨htiled, hheap, hlive⟩ := writeStep_some hi.tiled hw
  refine hs.withHeap htiled ?_ fun _ _ _ hl => ?_
  · rw [hheap]
    exact SameExtent.refl _
  · rw [hlive]
    exact hl

end Changes

end Evos
