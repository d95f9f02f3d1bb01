import Evos.Mm.Growth

/-! # New page tables while the heap grows

`expand` maps the pages of a growing heap with `get_page`, which allocates a table where there is
none. Each such call meets the invariant, and leaves it for the next. -/

namespace Evos
open ByteMemory Segments Outcome
set_option autoImplicit false

/-- The kernel between two calls of its users. -/
structure Kernel.Sound (s : Kernel) (top : ℕ) : Prop where
  inv : ∃ ts, KInv s top ts
  own : OwnSpaces s

/-! ## The blocks of the heap -/

section Blocks
variable {s t : Kernel} {top : ℕ} {ts : List Tile} {p n : ℕ}

theorem KInv.live_bounds (h : KInv s top ts) (hl : (p, n) ∈ s.heap.live) :
    kheapStart + 8192 + 12 ≤ p ∧ p + n + 8 ≤ s.arena.heap.allocatedEnd := by
  obtain ⟨t, ht, _, hp, hlen⟩ := h.tiled.tile hl
  have hb := h.tiled.heap.bounds ht
  have hstart : s.heap.arena.heap.allocatedStart = kheapStart + 8192 := h.start
  have hend : s.heap.arena.heap.allocatedEnd = s.arena.heap.allocatedEnd := rfl
  omega

theorem KInv.live_range (h : KInv s top ts) (hl : (p, n) ∈ s.heap.live) :
    kheapStart ≤ p ∧ p < s.arena.heap.allocatedEnd ∧ p < heapTop top := by
  obtain ⟨hlo, hhi⟩ := h.live_bounds hl
  have hend := h.endLe
  omega

theorem KInv.live_inside (h : KInv s top ts) (hl : (p, n) ∈ s.heap.live) : ¬Outside p := by
  obtain ⟨hlo, _, hhi⟩ := h.live_range hl
  have htop := heapTop_le h.pages.topLe
  unfold Outside
  omega

theorem KInv.congr (h : KInv s top ts) (hk : Kept s t) (hheap : t.heap = s.heap)
    (hpages : PagesOK t top s.arena.heap.allocatedEnd) (hp : t.paging = s.paging) :
    KInv t top ts := by
  have harena : t.arena = s.arena := congrArg HeapState.arena hheap
  refine ⟨hk.kernelHeap.trans h.on, ?_, ?_, ?_, ?_, ?_, ?_, ?_⟩
  · rw [hheap]
    exact h.tiled
  · rw [harena]
    exact h.start
  · rw [harena]
    exact h.max
  · rw [harena]
    exact h.endLe
  · rw [harena]
    exact h.endPage
  · rw [harena]
    exact hpages
  · rw [hp, hheap]
    exact h.paging

theorem KInv.pageAllocated {v i : ℕ} {w : Bool} (h : KInv s top ts)
    (hp : PageAllocated s v i w t) : KInv t top ts :=
  h.congr hp.kept hp.heap (h.pages.pageAllocated hp) hp.paging

/-! ## A new table -/

/-- A table may be entered anywhere but at the heap's tables and at that of the cloning page, and in
a clone not behind the heap's either. -/
theorem PagesOK.addTable {limit dir index physical : ℕ} (h : PagesOK s top limit)
    (hlimit : limit ≤ heapTop top) (hp : ¬Outside p) (hheap : index < 60 ∨ top ≤ index)
    (h960 : index ≠ 960) (hclone : dir ≠ s.kernelDirectory → index < 60 ∨ 64 ≤ index) :
    PagesOK (s.addTable dir index p physical) top limit := by
  have hentry := Kernel.addTable_entry s dir index p physical
  have htables := Kernel.addTable_tables s dir index p physical
  have hat : ∀ i, i ≠ index → (s.addTable dir index p physical).tableAt i = s.tableAt i := by
    intro i hi
    unfold Kernel.tableAt
    rw [Kernel.addTable_kernelDirectory, hentry, if_neg fun he => hi he.2]
  have hlow : ∀ i, 60 ≤ i → i < top → (s.addTable dir index p physical).tableAt i = s.tableAt i :=
    fun i h1 h2 => hat i (by omega)
  have hne : ∀ i, 60 ≤ i → i < top → s.tableAt i ≠ p :=
    fun i h1 h2 he => hp (he ▸ h.tableOut i h1 h2)
  have h960' := hat 960 h960.symm
  have hne' : s.tableAt 960 ≠ p := fun he => hp (he ▸ h.cloningOut)
  have htop := h.topLe
  refine ⟨⟨?_, ?_, ?_, h.frames⟩, h.topGe, h.topLe, h.kernelOut, ?_, ?_, ?_, ?_, ?_, ?_,
    h.midpoints⟩
  · intro i h1 h2
    rw [hlow i h1 h2]
    exact h.tableNe i h1 h2
  · intro i h1 h2
    rw [hlow i h1 h2, htables, if_neg (hne i h1 h2)]
    exact h.present i h1 h2
  · intro v h1 h2
    have hbase : kheapStart = 4096 * 61440 := rfl
    have hv : v / 1024 < top := by
      unfold heapTop at hlimit
      omega
    have hmapped := h.mapped v h1 h2
    unfold Kernel.pageAt
    rw [hlow _ (by omega) hv, htables, if_neg (hne _ (by omega) hv)]
    exact hmapped
  · intro i h1 h2
    rw [hlow i h1 h2]
    exact h.tableOut i h1 h2
  · rw [h960']
    exact h.cloningNe
  · rw [h960']
    exact h.cloningOut
  · rw [h960']
    exact h.cloning
  · unfold Kernel.pageAt
    rw [h960', htables, if_neg hne']
    exact h.cloningPresent
  · intro d hd hdk
    obtain ⟨hsh, hin, hpg⟩ := h.shares d hd hdk
    have hentry' : ∀ i, i ≠ index → ((s.addTable dir index p physical).spaces.dirs d).tables i =
        (s.spaces.dirs d).tables i := by
      intro i hi
      rw [hentry, if_neg fun he => hi he.2]
    refine ⟨⟨?_, ?_, ?_⟩, hin, List.mem_cons_of_mem _ hpg⟩
    · intro i h1 h2
      rw [hlow i h1 h2, hentry' i (by omega)]
      exact hsh.heap i h1 h2
    · intro i h1 h2
      rw [hentry, if_neg]
      · exact hsh.none i h1 h2
      · rintro ⟨rfl, rfl⟩
        have := hclone hdk
        have := h.topGe
        omega
    · rw [h960', hentry' 960 h960.symm]
      exact hsh.cloning

theorem KInv.addTable (h : KInv s top ts) (hl : (p, n) ∈ s.heap.live) (dir : ℕ) {index : ℕ}
    (physical : ℕ) (hheap : index < 60 ∨ top ≤ index) (h960 : index ≠ 960)
    (hclone : dir ≠ s.kernelDirectory → index < 60 ∨ 64 ≤ index) :
    KInv (s.addTable dir index p physical) top ts := by
  refine ⟨h.on, h.tiled, h.start, h.max, h.endLe, h.endPage,
    h.pages.addTable h.endLe (h.live_inside hl) hheap h960 hclone, ?_⟩
  intro q hq
  rcases List.mem_cons.mp hq with rfl | hq
  · exact Or.inr ⟨n, hl⟩
  · exact h.paging q hq

end Blocks

/-! ## Mapping pages of any table -/

section Mapping
variable {s : Kernel} {top : ℕ} {alloc : ℕ → KM (ℕ × ℕ)}

theorem Kernel.Sound.pageAllocated {t : Kernel} {v i : ℕ} {w : Bool} (hs : s.Sound top)
    (hp : PageAllocated s v i w t) : t.Sound top := by
  obtain ⟨ts, h⟩ := hs.inv
  exact ⟨⟨ts, h.pageAllocated hp⟩, hp.kept.ownSpaces hs.own⟩

theorem Kernel.Sound.midpointsOK (hs : s.Sound top) : MidpointsOK top s := by
  obtain ⟨ts, h⟩ := hs.inv
  exact h.pages.midpoints

/-- What a nested `kmalloc` does for a new page table. -/
def AllocSound (top : ℕ) (alloc : ℕ → KM (ℕ × ℕ)) : Prop :=
  ∀ s : Kernel, s.Sound top → Ends (alloc pageTableSize s)
    (fun block t => t.Sound top ∧ Kept s t ∧ ∃ n, (block.1, n) ∈ t.heap.live) (MidpointsOK top)

theorem mapPage_sound (ha : AllocSound top alloc) (hs : s.Sound top) {address : ℕ}
    (hlo : kheapStart ≤ address) (hhi : address < 0x10000000) :
    Ends ((kernelHost (getPageWith alloc)).mapPage address s)
      (fun _ t => t.Sound top ∧ Kept s t) (MidpointsOK top) := by
  obtain ⟨ts, h⟩ := hs.inv
  by_cases hne : s.tableAt (tableIndex address) ≠ 0
  · refine (mapPage_found alloc h.pages.frames hne).mono (fun _ _ hp => ?_) fun u hu => ?_
    · exact ⟨hs.pageAllocated hp, hp.kept⟩
    · rw [hu]
      exact hs.midpointsOK
  · have hbehind : heapTop top ≤ address := by
      by_contra hlow
      obtain ⟨h1, h2⟩ := tableIndex_below hlo (Nat.lt_of_not_le hlow)
      exact hne (h.pages.tableNe _ h1 h2)
    obtain ⟨hindex, hindex'⟩ := tableIndex_behind hbehind hhi
    refine ends_get_bind (ends_bind (Q := fun page t => ∃ u j, page = some (u, j) ∧ t.Sound top ∧
      Kept s t) ?_ ?_)
    · refine ends_get_bind ?_
      rw [if_neg (show ¬(s.spaces.dirs s.kernelDirectory).tables (tableIndex address) ≠ 0 from hne)]
      refine ends_bind (ha s hs) ?_
      rintro block t ⟨ht, hkept, n, hl⟩
      obtain ⟨ts', h'⟩ := ht.inv
      have hsame : s.kernelDirectory = t.kernelDirectory := hkept.kernelDirectory.symm
      have hadded := h'.addTable hl s.kernelDirectory block.2 (Or.inr hindex) (by omega) fun hd =>
        absurd hsame hd
      have hkept' : Kept s (t.addTable s.kernelDirectory (tableIndex address) block.1 block.2) := by
        rw [hsame]
        exact hkept.trans (kept_addTable _ _ _)
      refine ends_modify_bind (ends_get_bind (ends_pure ?_))
      have hblock : block.1 ≠ 0 := by
        have := (h'.live_bounds hl).1
        omega
      exact ⟨block.1, pageIndex address, t.findPage_addTable _ _ _ hblock,
        ⟨⟨ts', hadded⟩, hkept'.ownSpaces hs.own⟩, hkept'⟩
    · rintro page t ⟨u, j, rfl, ht, hkept⟩
      obtain ⟨ts', h'⟩ := ht.inv
      refine ends_get_bind ((pageAlloc_ends h'.pages.frames u j _).mono (fun _ _ hp => ?_) ?_)
      · exact ⟨ht.pageAllocated hp, hkept.trans hp.kept⟩
      · intro v hv
        rw [hv]
        exact ht.midpointsOK

theorem mapPages_sound (ha : AllocSound top alloc) (hs : s.Sound top) {start i count : ℕ}
    (hlo : kheapStart ≤ start) (hhi : start + i + 4096 * count ≤ 0x10000000) :
    Ends (mapPages (kernelHost (getPageWith alloc)) start i count s)
      (fun _ t => t.Sound top ∧ Kept s t) (MidpointsOK top) := by
  induction count generalizing i s with
  | zero => exact ends_pure ⟨hs, Kept.refl s⟩
  | succ count ih =>
    have haddr : u32 (start + i) = start + i := u32_of_lt (by omega)
    have hstep := mapPage_sound ha hs (show kheapStart ≤ start + i by omega) (by omega)
    rw [← haddr] at hstep
    refine ends_bind hstep ?_
    rintro _ t ⟨ht, hkept⟩
    refine (ih ht (by omega)).mono ?_ fun _ hu => hu
    rintro _ u ⟨hu, hkept'⟩
    exact ⟨hu, hkept.trans hkept'⟩

end Mapping

end Evos
