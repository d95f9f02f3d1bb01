import Evos.Mm.Kept

/-! # The invariant of the paged kernel

Once `init_paging` has returned, every directory in use shares the page tables of the heap's addresses
that `kernel_directory` has, and has no table for the others. The kernel's directory has the first of
these tables, up to table `top`: just the one that `init_paging` makes, or all of them if the identity
mapping goes beyond the heap. -/

namespace Evos
open ByteMemory Segments Outcome
set_option autoImplicit false

/-- The end of the addresses of the tables below `top`. -/
def heapTop (top : ℕ) : ℕ := 0x400000 * top

/-- The end of the addresses that the first page table of the heap covers. -/
def heapTableEnd : ℕ := 0x0f400000

/-! ## Coherence -/

/-- Every directory in use maps the heap as `kernel_directory` does. -/
def Midpoint.Coherent (v : Midpoint) : Prop :=
  ∀ d ∈ v.inUse, ∀ a, v.heapStart ≤ a → a < v.heapEnd →
    ∃ f, v.spaces.translate v.kernelDirectory a = some f ∧ v.spaces.translate d a = some f

/-- Coherent exactly while the heap ends in the tables that are shared. -/
def Midpoint.OK (top : ℕ) (v : Midpoint) : Prop := v.Coherent ↔ v.heapEnd ≤ heapTop top

def MidpointsOK (top : ℕ) (s : Kernel) : Prop := ∀ v ∈ s.midpoints, v.OK top

/-! ## The invariant -/

/-- A directory shares the kernel's tables for the heap and the cloning page. -/
structure Shares (s : Kernel) (top d : ℕ) : Prop where
  heap : ∀ i, 60 ≤ i → i < top → (s.spaces.dirs d).tables i = s.tableAt i
  none : ∀ i, top ≤ i → i < 64 → (s.spaces.dirs d).tables i = 0
  cloning : (s.spaces.dirs d).tables 960 = s.tableAt 960

/-- The words of the bitmap, with frame 0 taken. -/
structure FramesOK (ws : List ℕ) : Prop where
  length : ws.length ≤ 2 ^ 15
  word : ∀ w ∈ ws, w < 2 ^ 32
  zero : isSet Words.list ws 0 = true

/-- The page tables of the heap, with the pages below `limit` mapped. -/
structure HeapPages (s : Kernel) (top limit : ℕ) : Prop where
  tableNe : ∀ i, 60 ≤ i → i < top → s.tableAt i ≠ 0
  present : ∀ i, 60 ≤ i → i < top → ∀ j, (s.spaces.tables (s.tableAt i) j).address ≠ 0 →
    (s.spaces.tables (s.tableAt i) j).present = true
  mapped : ∀ v, kheapStart ≤ 4096 * v → 4096 * v < limit → (s.pageAt v).address ≠ 0
  frames : FramesOK s.frames

/-- An address that is not one of the heap's. -/
def Outside (p : ℕ) : Prop := p < kheapStart ∨ 0x10000000 ≤ p

/-- The page tables and directories, with the pages of the heap below `limit` mapped. -/
structure PagesOK (s : Kernel) (top limit : ℕ) : Prop extends HeapPages s top limit where
  topGe : 61 ≤ top
  topLe : top ≤ 64
  kernelOut : Outside s.kernelDirectory
  tableOut : ∀ i, 60 ≤ i → i < top → Outside (s.tableAt i)
  cloningNe : s.tableAt 960 ≠ 0
  cloningOut : Outside (s.tableAt 960)
  cloning : s.cloningBufferPage = (s.tableAt 960, 0)
  cloningPresent : (s.pageAt 983040).present = true
  shares : ∀ d ∈ s.created, d ≠ s.kernelDirectory → Shares s top d ∧ ¬Outside d ∧ d ∈ s.paging
  midpoints : MidpointsOK top s

/-- The kernel with its heap. -/
structure KInv (s : Kernel) (top : ℕ) (ts : List Tile) : Prop where
  on : s.kernelHeap = true
  tiled : Tiled s.heap ts
  start : s.arena.heap.allocatedStart = kheapStart + 8192
  max : s.arena.heap.maxAddr = kheapMaxAddress
  endLe : s.arena.heap.allocatedEnd ≤ heapTop top
  endPage : s.arena.heap.allocatedEnd % 4096 = 0
  pages : PagesOK s top s.arena.heap.allocatedEnd
  paging : ∀ p ∈ s.paging, Outside p ∨ ∃ n, (p, n) ∈ s.heap.live

/-- What is loaded or in use are directories made by `clone_directory`. -/
def OwnSpaces (s : Kernel) : Prop :=
  ∀ d ∈ s.cr3 :: s.inUse, d ∈ s.created ∧ d ≠ s.kernelDirectory

/-! ## Addresses of the heap -/

theorem tableIndex_heap {a : ℕ} (h1 : kheapStart ≤ a) (h2 : a < heapTableEnd) :
    tableIndex a = 60 := by
  unfold tableIndex kheapStart heapTableEnd at *
  omega

theorem tableIndex_below {a top : ℕ} (h1 : kheapStart ≤ a) (h2 : a < heapTop top) :
    60 ≤ tableIndex a ∧ tableIndex a < top := by
  unfold tableIndex kheapStart heapTop at *
  omega

theorem tableIndex_behind {a top : ℕ} (h1 : heapTop top ≤ a) (h2 : a < 0x10000000) :
    top ≤ tableIndex a ∧ tableIndex a < 64 := by
  unfold tableIndex heapTop at *
  omega

theorem Spaces.translate_of_table {m : Spaces} {d a : ℕ} {t : ℕ}
    (ht : (m.dirs d).tables (tableIndex a) = t) (hne : t ≠ 0)
    (hp : (m.tables t (pageIndex a)).present = true) :
    m.translate d a = some (m.tables t (pageIndex a)).address := by
  unfold Spaces.translate
  dsimp only
  rw [ht, if_neg hne, if_pos hp]

theorem Spaces.translate_none {m : Spaces} {d a : ℕ} (ht : (m.dirs d).tables (tableIndex a) = 0) :
    m.translate d a = none := by
  unfold Spaces.translate
  dsimp only
  rw [if_pos ht]

/-! ## Coherence from the invariant -/

section Coherence
variable {s : Kernel} {top limit : ℕ}

theorem HeapPages.translate (h : HeapPages s top limit) {d a : ℕ}
    (hd : (s.spaces.dirs d).tables (tableIndex a) = s.tableAt (tableIndex a)) (h1 : kheapStart ≤ a)
    (h2 : a < limit) (h3 : a < heapTop top) :
    s.spaces.translate d a = some (s.pageAt (a / 4096)).address := by
  obtain ⟨hlo, hhi⟩ := tableIndex_below h1 h3
  have hbase : kheapStart = 4096 * 61440 := rfl
  have hmapped := h.mapped (a / 4096) (by omega) (by omega)
  exact Spaces.translate_of_table hd (h.tableNe _ hlo hhi) (h.present _ hlo hhi _ hmapped)

theorem PagesOK.translate (h : PagesOK s top limit) {d a : ℕ} (hd : d ∈ s.created)
    (h1 : kheapStart ≤ a) (h2 : a < limit) (h3 : a < heapTop top) :
    s.spaces.translate d a = some (s.pageAt (a / 4096)).address := by
  obtain ⟨hlo, hhi⟩ := tableIndex_below h1 h3
  refine h.toHeapPages.translate ?_ h1 h2 h3
  by_cases hk : d = s.kernelDirectory
  · rw [hk]
    rfl
  · exact (h.shares d hd hk).1.heap _ hlo hhi

/-- A directory made by `clone_directory` maps nothing behind the tables of the heap. -/
theorem PagesOK.translate_behind (h : PagesOK s top limit) {d a : ℕ} (hd : d ∈ s.created)
    (hk : d ≠ s.kernelDirectory) (h1 : heapTop top ≤ a) (h2 : a < 0x10000000) :
    s.spaces.translate d a = none := by
  obtain ⟨hlo, hhi⟩ := tableIndex_behind h1 h2
  exact Spaces.translate_none ((h.shares d hd hk).1.none _ hlo hhi)

theorem heapTop_ge {top : ℕ} (h : 61 ≤ top) : heapTableEnd ≤ heapTop top := by
  unfold heapTableEnd heapTop
  omega

theorem heapTop_le {top : ℕ} (h : top ≤ 64) : heapTop top ≤ 0x10000000 := by
  unfold heapTop
  omega

theorem heapTop_mod (top : ℕ) : heapTop top % 4096 = 0 := by
  unfold heapTop
  omega

/-- The invariant makes the state coherent up to the mapped pages, and no further. -/
theorem PagesOK.midpoint_ok (h : PagesOK s top limit) (hu : OwnSpaces s)
    (hstart : kheapStart ≤ s.arena.heap.allocatedStart)
    (hstart' : s.arena.heap.allocatedStart ≤ heapTableEnd)
    (hmax : s.arena.heap.allocatedEnd ≤ 0x10000000)
    (hlim : s.arena.heap.allocatedEnd ≤ heapTop top → s.arena.heap.allocatedEnd ≤ limit) :
    s.midpoint.OK top := by
  have hge := heapTop_ge h.topGe
  constructor
  · intro hc
    by_contra hgt
    have hgt' : ¬s.arena.heap.allocatedEnd ≤ heapTop top := hgt
    have hmem : s.currentDirectory ∈ s.inUse := List.mem_cons_self
    obtain ⟨hcr, hk⟩ := hu _ (List.mem_cons_of_mem _ hmem)
    have hnone : s.spaces.translate s.currentDirectory (heapTop top) = none :=
      h.translate_behind hcr hk (Nat.le_refl _) (by omega)
    obtain ⟨f, _, hf⟩ := hc s.currentDirectory hmem (heapTop top)
      (show s.arena.heap.allocatedStart ≤ heapTop top by omega)
      (show heapTop top < s.arena.heap.allocatedEnd by omega)
    have hf' : s.spaces.translate s.currentDirectory (heapTop top) = some f := hf
    rw [hnone] at hf'
    cases hf'
  · intro hle d hd a h1 h2
    have hle' : s.arena.heap.allocatedEnd ≤ heapTop top := hle
    have h2' : a < s.arena.heap.allocatedEnd := h2
    have h1' : s.arena.heap.allocatedStart ≤ a := h1
    have hlim' := hlim hle'
    obtain ⟨hcr, _⟩ := hu d (List.mem_cons_of_mem _ hd)
    exact ⟨_, h.toHeapPages.translate rfl (by omega) (by omega) (by omega),
      h.translate hcr (by omega) (by omega) (by omega)⟩

theorem KInv.midpoint_ok {ts : List Tile} (h : KInv s top ts) (hu : OwnSpaces s) :
    s.midpoint.OK top := by
  have hbase : kheapStart + 8192 ≤ heapTableEnd := by decide
  refine h.pages.midpoint_ok hu ?_ ?_ ?_ fun _ => Nat.le_refl _
  · rw [h.start]
    exact Nat.le_add_right _ _
  · rw [h.start]
    exact hbase
  · exact h.endLe.trans (heapTop_le h.pages.topLe)

end Coherence

theorem Kept.ownSpaces {s t : Kernel} (h : Kept s t) (hu : OwnSpaces s) : OwnSpaces t := by
  intro d hd
  rw [h.cr3, h.inUse] at hd
  rw [h.created, h.kernelDirectory]
  exact hu d hd

/-! ## `page_alloc` -/

theorem FramesOK.alloc {ws ws' : List ℕ} {f : ℕ} (h : FramesOK ws)
    (hf : frameAlloc Words.list ws.length ws = .ok (f, ws')) :
    FramesOK ws' ∧ 0 < f ∧ f < 2 ^ 20 := by
  have L := Words.list_lawful ws.length
  have hv : (fun ws' : List ℕ => ws'.length = ws.length ∧ ∀ w ∈ ws', w < 2 ^ 32) ws :=
    ⟨rfl, h.word⟩
  obtain ⟨ho, hclear, _, _⟩ := frameAlloc_ok hf
  obtain ⟨hlen, hword⟩ := frameAlloc_valid L hv hf
  have hlt : f < 32 * ws.length := outerIndex_lt_iff.mp ho
  have hbound := h.length
  have h0 : outerIndex 0 < ws.length := outerIndex_lt_iff.mpr (by omega)
  refine ⟨⟨by rw [hlen]; exact hbound, hword, ?_⟩, ?_, by omega⟩
  · rw [isSet_frameAlloc L hv hf h0, h.zero]
    rfl
  · by_contra hz
    have hfz : f = 0 := by omega
    rw [hfz, h.zero] at hclear
    cases hclear

/-- What `page_alloc` does: a page that has an address is left alone, another one gets a frame. -/
def PageAllocated (s : Kernel) (t i : ℕ) (w : Bool) (u : Kernel) : Prop :=
  ((s.spaces.tables t i).address ≠ 0 ∧ u = s) ∨
  ((s.spaces.tables t i).address = 0 ∧ ∃ f ws,
    frameAlloc Words.list s.frames.length s.frames = .ok (f, ws) ∧ FramesOK ws ∧ 0 < f ∧
      f < 2 ^ 20 ∧ u = { s with frames := ws }.setPage t i ⟨true, w, true, f⟩)

section PageAllocated
variable {s u : Kernel} {t i top limit : ℕ} {w : Bool}

theorem pageAlloc_ends (h : FramesOK s.frames) (t i : ℕ) (w : Bool) :
    Ends (pageAlloc (some (t, i)) w s) (fun _ u => PageAllocated s t i w u) fun u => u = s := by
  refine ends_pageAlloc (fun ha => Or.inl ⟨ha, rfl⟩) (fun f ws ha hf => ?_) fun _ _ _ => rfl
  obtain ⟨hok, hpos, hlt⟩ := h.alloc hf
  rw [Nat.mod_eq_of_lt hlt]
  exact Or.inr ⟨ha, f, ws, hf, hok, hpos, hlt, rfl⟩

theorem PageAllocated.heap (h : PageAllocated s t i w u) : u.heap = s.heap := by
  rcases h with ⟨_, rfl⟩ | ⟨_, f, ws, _, _, _, _, rfl⟩ <;> rfl

theorem PageAllocated.dirs (h : PageAllocated s t i w u) : u.spaces.dirs = s.spaces.dirs := by
  rcases h with ⟨_, rfl⟩ | ⟨_, f, ws, _, _, _, _, rfl⟩ <;> rfl

theorem PageAllocated.paging (h : PageAllocated s t i w u) : u.paging = s.paging := by
  rcases h with ⟨_, rfl⟩ | ⟨_, f, ws, _, _, _, _, rfl⟩ <;> rfl

theorem PageAllocated.midpoints (h : PageAllocated s t i w u) : u.midpoints = s.midpoints := by
  rcases h with ⟨_, rfl⟩ | ⟨_, f, ws, _, _, _, _, rfl⟩ <;> rfl

theorem PageAllocated.kept (h : PageAllocated s t i w u) : Kept s u := by
  rcases h with ⟨_, rfl⟩ | ⟨_, f, ws, hf, _, _, _, rfl⟩
  · exact Kept.refl _
  · exact (kept_withFrames (frameAlloc_length hf)).trans (kept_setPage _ _ _)

theorem PageAllocated.frames (h : PageAllocated s t i w u) (hf : FramesOK s.frames) :
    FramesOK u.frames := by
  rcases h with ⟨_, rfl⟩ | ⟨_, f, ws, _, hok, _, _, rfl⟩
  · exact hf
  · exact hok

theorem PageAllocated.page (h : PageAllocated s t i w u) (v j : ℕ) :
    u.spaces.tables v j = s.spaces.tables v j ∨
      ((v, j) = (t, i) ∧ (s.spaces.tables v j).address = 0 ∧
        (u.spaces.tables v j).present = true ∧ (u.spaces.tables v j).address ≠ 0) := by
  rcases h with ⟨_, rfl⟩ | ⟨ha, f, ws, _, _, hpos, _, rfl⟩
  · exact Or.inl rfl
  · by_cases hv : v = t
    · subst hv
      rw [Kernel.setPage_self]
      by_cases hj : j = i
      · subst hj
        rw [if_pos rfl]
        exact Or.inr ⟨rfl, ha, rfl, Nat.ne_of_gt hpos⟩
      · rw [if_neg hj]
        exact Or.inl rfl
    · rw [Kernel.setPage_of_ne hv]
      exact Or.inl rfl

theorem PageAllocated.stable (h : PageAllocated s t i w u) {v j : ℕ}
    (ha : (s.spaces.tables v j).address ≠ 0) : u.spaces.tables v j = s.spaces.tables v j := by
  rcases h.page v j with he | ⟨_, h0, _⟩
  · exact he
  · exact absurd h0 ha

theorem PageAllocated.address (h : PageAllocated s t i w u) : (u.spaces.tables t i).address ≠ 0 := by
  rcases h with ⟨ha, rfl⟩ | ⟨_, f, ws, _, _, hpos, _, rfl⟩
  · exact ha
  · rw [Kernel.setPage_self, if_pos rfl]
    exact Nat.ne_of_gt hpos

theorem PageAllocated.tableAt (h : PageAllocated s t i w u) : u.tableAt = s.tableAt := by
  unfold Kernel.tableAt
  rw [h.dirs, h.kept.kernelDirectory]

theorem HeapPages.pageAllocated (hp : HeapPages s top limit) (h : PageAllocated s t i w u) :
    HeapPages u top limit := by
  have ht := h.tableAt
  refine ⟨by rw [ht]; exact hp.tableNe, ?_, ?_, h.frames hp.frames⟩
  · intro k h1 h2 j hj
    rw [ht] at hj ⊢
    rcases h.page (s.tableAt k) j with he | ⟨_, _, hnew, _⟩
    · rw [he] at hj ⊢
      exact hp.present k h1 h2 j hj
    · exact hnew
  · intro v h1 h2
    have ha := hp.mapped v h1 h2
    unfold Kernel.pageAt at ha ⊢
    rw [ht, h.stable ha]
    exact ha

theorem HeapPages.extend {v : ℕ} (hp : HeapPages s top (4096 * v)) (ha : (s.pageAt v).address ≠ 0) :
    HeapPages s top (4096 * (v + 1)) := by
  refine ⟨hp.tableNe, hp.present, ?_, hp.frames⟩
  intro x h1 h2
  by_cases hx : x = v
  · rw [hx]
    exact ha
  · exact hp.mapped x h1 (by omega)

end PageAllocated

end Evos
