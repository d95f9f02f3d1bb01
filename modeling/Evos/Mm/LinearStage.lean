import Evos.Foundations.Bump
import Evos.Mm.Init
import Evos.Mm.Kept

/-! # The kernel before it has a heap

Until `kernel_heap` is set `kmalloc` moves `mem_first_unused` and cannot fail, so `get_page` always
returns. -/

namespace Evos
open ByteMemory Outcome Bump
set_option autoImplicit false

/-! ## A table that is there, or is made -/

/-- The kernel's directory with a table for the pages from `1024 * j` on. -/
def Kernel.withTable (j : ℕ) (s : Kernel) : Kernel :=
  if s.tableAt j ≠ 0 then s
  else (s.tookLinear pageTableSize true).addTable s.kernelDirectory j
    (pageRoundUp s.memFirstUnused) (pageRoundUp s.memFirstUnused)

section Linear
variable {s : Kernel}

/-! ## `kmalloc` and `get_page` -/

theorem kmallocAt_linear (depth : ℕ) (hk : s.kernelHeap = false) (size : ℕ) (align wantPhysical : Bool) :
    kmallocAt (depth + 1) size align wantPhysical s =
      .ok ((linearKmalloc size align s.memFirstUnused).1,
        (linearKmalloc size align s.memFirstUnused).1) (s.tookLinear size align) := by
  have hget : (get : KM Kernel) s = .ok s s := rfl
  rw [kmallocAt, bind_of_ok hget, hk]
  rfl

theorem getPage_linear (depth : ℕ) (hk : s.kernelHeap = false) (address : ℕ) :
    getPage (depth + 1) address s.kernelDirectory s =
      .ok ((s.withTable (tableIndex address)).findPage address s.kernelDirectory)
        (s.withTable (tableIndex address)) := by
  have hget : (get : KM Kernel) s = .ok s s := rfl
  unfold getPage getPageWith kmallocAp
  rw [bind_of_ok hget]
  by_cases ht : s.tableAt (tableIndex address) ≠ 0
  · have ht' : (s.spaces.dirs s.kernelDirectory).tables (tableIndex address) ≠ 0 := ht
    rw [if_pos ht', Kernel.withTable, if_pos ht]
    rfl
  · have ht' : ¬(s.spaces.dirs s.kernelDirectory).tables (tableIndex address) ≠ 0 := ht
    rw [if_neg ht', Kernel.withTable, if_neg ht, bind_of_ok (kmallocAt_linear depth hk _ _ _)]
    rfl

/-! ## What a new table changes -/

theorem Kernel.withTable_of_ne {j : ℕ} (h : s.tableAt j ≠ 0) : s.withTable j = s := if_pos h

theorem Kernel.withTable_of_eq {j : ℕ} (h : s.tableAt j = 0) :
    s.withTable j = (s.tookLinear pageTableSize true).addTable s.kernelDirectory j
      (pageRoundUp s.memFirstUnused) (pageRoundUp s.memFirstUnused) :=
  if_neg (not_not_intro h)

section Fields
variable (j table physical size : ℕ) (align : Bool)

@[simp] theorem Kernel.tookLinear_created : (s.tookLinear size align).created = s.created := rfl
@[simp] theorem Kernel.tookLinear_paging : (s.tookLinear size align).paging = s.paging := rfl
@[simp] theorem Kernel.tookLinear_midpoints :
    (s.tookLinear size align).midpoints = s.midpoints := rfl
@[simp] theorem Kernel.tookLinear_tasks : (s.tookLinear size align).tasks = s.tasks := rfl
@[simp] theorem Kernel.tookLinear_kernelHeap :
    (s.tookLinear size align).kernelHeap = s.kernelHeap := rfl
@[simp] theorem Kernel.tookLinear_heap : (s.tookLinear size align).heap = s.heap := rfl
@[simp] theorem Kernel.tookLinear_frames : (s.tookLinear size align).frames = s.frames := rfl
@[simp] theorem Kernel.tookLinear_spaces : (s.tookLinear size align).spaces = s.spaces := rfl
@[simp] theorem Kernel.tookLinear_kernelDirectory :
    (s.tookLinear size align).kernelDirectory = s.kernelDirectory := rfl
@[simp] theorem Kernel.tookLinear_tableAt : (s.tookLinear size align).tableAt = s.tableAt := rfl

theorem Kernel.addTable_tableAt {dir : ℕ} (hdir : dir = s.kernelDirectory) (k : ℕ) :
    (s.addTable dir j table physical).tableAt k = if k = j then table else s.tableAt k := by
  unfold Kernel.tableAt
  rw [Kernel.addTable_kernelDirectory, Kernel.addTable_entry]
  by_cases hk : k = j
  · rw [if_pos hk, if_pos ⟨hdir.symm, hk⟩]
  · rw [if_neg hk, if_neg fun he => hk he.2]

end Fields

@[simp] theorem Kernel.withTable_kernelHeap (j : ℕ) :
    (s.withTable j).kernelHeap = s.kernelHeap := by
  unfold Kernel.withTable
  split <;> simp

@[simp] theorem Kernel.withTable_heap (j : ℕ) : (s.withTable j).heap = s.heap := by
  unfold Kernel.withTable
  split <;> simp

@[simp] theorem Kernel.withTable_frames (j : ℕ) : (s.withTable j).frames = s.frames := by
  unfold Kernel.withTable
  split <;> simp

@[simp] theorem Kernel.withTable_kernelDirectory (j : ℕ) :
    (s.withTable j).kernelDirectory = s.kernelDirectory := by
  unfold Kernel.withTable
  split <;> simp

/-! A new table is the next page behind the memory used. -/

theorem roundUp_of_mod {n : ℕ} (h : n % 4096 = 0) : roundUp n = n := by
  unfold roundUp
  omega

theorem linearKmalloc_align {size first : ℕ} (hroom : roundUp first + size < 2 ^ 32) :
    linearKmalloc size true first = (roundUp first, roundUp first + size) := by
  have hround : pageRoundUp first = roundUp first := pageRoundUp_eq (by omega)
  unfold linearKmalloc
  rw [if_pos rfl, hround]
  exact congrArg (Prod.mk _) (u32_of_lt hroom)

section NewTable
variable {j : ℕ} (h : s.tableAt j = 0) (hroom : roundUp s.memFirstUnused + pageTableSize < 2 ^ 32)
include h hroom

theorem Kernel.withTable_memFirstUnused :
    (s.withTable j).memFirstUnused = roundUp s.memFirstUnused + pageTableSize := by
  rw [Kernel.withTable_of_eq h, Kernel.addTable_memFirstUnused, Kernel.tookLinear,
    linearKmalloc_align hroom]

theorem Kernel.withTable_linear :
    (s.withTable j).linear = (roundUp s.memFirstUnused, pageTableSize) :: s.linear := by
  rw [Kernel.withTable_of_eq h, Kernel.addTable_linear, Kernel.tookLinear,
    linearKmalloc_align hroom]

theorem Kernel.withTable_tableAt (k : ℕ) :
    (s.withTable j).tableAt k = if k = j then roundUp s.memFirstUnused else s.tableAt k := by
  have hround : pageRoundUp s.memFirstUnused = roundUp s.memFirstUnused := pageRoundUp_eq (by omega)
  have hdir := Kernel.tookLinear_kernelDirectory (s := s) pageTableSize true
  rw [Kernel.withTable_of_eq h, hround, Kernel.addTable_tableAt _ _ _ hdir.symm,
    Kernel.tookLinear_tableAt]

theorem Kernel.withTable_tables (t : ℕ) :
    (s.withTable j).spaces.tables t =
      if t = roundUp s.memFirstUnused then PageTable.zero else s.spaces.tables t := by
  have hround : pageRoundUp s.memFirstUnused = roundUp s.memFirstUnused := pageRoundUp_eq (by omega)
  rw [Kernel.withTable_of_eq h, hround, Kernel.addTable_tables, Kernel.tookLinear_spaces]

end NewTable

/-! ## The stage -/

/-- Where `init_paging` puts the page directory. -/
def Kernel.bootBase (o : Kernel) : ℕ := roundUp o.memFirstUnused

/-- The blocks taken since `o`: laid out from the page directory on, with no page between them. -/
def LinearSince (o s : Kernel) : Prop :=
  ∃ blocks, s.linear = blocks ++ o.linear ∧ Laid o.bootBase s.memFirstUnused blocks ∧
    Covers 4096 o.bootBase s.memFirstUnused blocks

/-- What `init_paging` has entered in the kernel's directory: tables behind it, each with its own
address as the physical one. -/
structure Recorded (o s : Kernel) : Prop where
  directory : s.kernelDirectory = o.bootBase
  aligned : ∀ j, s.tableAt j % 4096 = 0
  base : ∀ j, s.tableAt j ≠ 0 → o.bootBase + 8192 < s.tableAt j
  physical : ∀ j, (s.spaces.dirs s.kernelDirectory).tablesPhysicalAddr j =
    if s.tableAt j = 0 then 0 else s.tableAt j ||| 7
  ismeta : (s.spaces.dirs s.kernelDirectory).ismetaTablesPhysicalAddr = o.bootBase + 4096
  created : s.created = [o.bootBase]
  paging : ∀ p ∈ s.paging, p ∈ o.paging ∨ (o.bootBase ≤ p ∧ p < s.memFirstUnused)
  midpoints : s.midpoints = o.midpoints
  tasks : s.tasks = o.tasks

theorem Recorded.congr {o t : Kernel} (h : Recorded o s) (hdirs : t.spaces.dirs = s.spaces.dirs)
    (hk : t.kernelDirectory = s.kernelDirectory) (hfirst : t.memFirstUnused = s.memFirstUnused)
    (hcreated : t.created = s.created) (hpaging : t.paging = s.paging)
    (hmidpoints : t.midpoints = s.midpoints) (htasks : t.tasks = s.tasks) : Recorded o t := by
  have hat : t.tableAt = s.tableAt := by
    unfold Kernel.tableAt
    rw [hdirs, hk]
  refine ⟨hk.trans h.directory, ?_, ?_, ?_, ?_, hcreated.trans h.created, ?_,
    hmidpoints.trans h.midpoints, htasks.trans h.tasks⟩
  · rw [hat]
    exact h.aligned
  · rw [hat]
    exact h.base
  · rw [hat, hdirs, hk]
    exact h.physical
  · rw [hdirs, hk]
    exact h.ismeta
  · rw [hpaging, hfirst]
    exact h.paging

/-- `init_paging` has started at `o`, and pages below `n` are mapped to the frames of the same
numbers. -/
structure Staged (o : Kernel) (n : ℕ) (s : Kernel) : Prop where
  noHeap : s.kernelHeap = false
  heap : s.heap = o.heap
  below : ∀ j, s.tableAt j < s.memFirstUnused
  apart : ∀ j k, s.tableAt j = s.tableAt k → s.tableAt j ≠ 0 → j = k
  mapped : ∀ v < n, s.tableAt (v / 1024) ≠ 0 ∧ (s.pageAt v).present = true ∧ (s.pageAt v).address = v
  linear : LinearSince o s
  recorded : Recorded o s

theorem Staged.translate {o : Kernel} {n : ℕ} (h : Staged o n s) {x : ℕ} (hx : x / 4096 < n) :
    s.spaces.translate s.kernelDirectory x = some (x / 4096) := by
  obtain ⟨htable, hpresent, haddress⟩ := h.mapped (x / 4096) hx
  have ht : ¬(s.spaces.dirs s.kernelDirectory).tables (tableIndex x) = 0 := htable
  have hp : (s.spaces.tables ((s.spaces.dirs s.kernelDirectory).tables (tableIndex x))
    (pageIndex x)).present = true := hpresent
  unfold Spaces.translate
  rw [if_neg ht, if_pos hp]
  exact congrArg some haddress

theorem Staged.setPage {o : Kernel} {n : ℕ} (h : Staged o n s) {j i : ℕ} (p : Page)
    (hout : ∀ v < n, v / 1024 = j → v % 1024 ≠ i) :
    Staged o n (s.setPage (s.tableAt j) i p) := by
  refine ⟨h.noHeap, h.heap, h.below, h.apart, ?_, h.linear,
    h.recorded.congr rfl rfl rfl rfl rfl rfl rfl⟩
  intro v hv
  obtain ⟨htable, hpage⟩ := h.mapped v hv
  refine ⟨htable, ?_⟩
  have hsame : (s.setPage (s.tableAt j) i p).pageAt v = s.pageAt v := by
    change (s.setPage (s.tableAt j) i p).spaces.tables (s.tableAt (v / 1024)) (v % 1024) = _
    by_cases hjv : v / 1024 = j
    · rw [← hjv, Kernel.setPage_self, if_neg (hout v hv hjv)]
      rfl
    · rw [Kernel.setPage_of_ne fun heq => hjv (h.apart _ _ heq htable)]
      rfl
  rw [hsame]
  exact hpage

theorem Staged.withFrames {o : Kernel} {n : ℕ} (h : Staged o n s) (ws : List ℕ) :
    Staged o n { s with frames := ws } :=
  ⟨h.noHeap, h.heap, h.below, h.apart, h.mapped, h.linear,
    h.recorded.congr rfl rfl rfl rfl rfl rfl rfl⟩

theorem Recorded.withTable {o : Kernel} (h : Recorded o s) {j : ℕ}
    (hbase : o.bootBase + 8192 < s.memFirstUnused)
    (hroom : roundUp s.memFirstUnused + pageTableSize < 2 ^ 32) (hj : s.tableAt j = 0) :
    Recorded o (s.withTable j) := by
  have hround := le_roundUp s.memFirstUnused
  have hmod := roundUp_mod s.memFirstUnused
  have hpage : pageRoundUp s.memFirstUnused = roundUp s.memFirstUnused := pageRoundUp_eq (by omega)
  have htableAt := Kernel.withTable_tableAt hj hroom
  have hfirst := Kernel.withTable_memFirstUnused hj hroom
  have hkernel := Kernel.withTable_kernelDirectory (s := s) j
  have heq := Kernel.withTable_of_eq hj
  rw [hpage] at heq
  have hsize : pageTableSize = 4096 := rfl
  have hdir : (s.withTable j).spaces.dirs s.kernelDirectory =
      (s.spaces.dirs s.kernelDirectory).setEntry j (roundUp s.memFirstUnused)
        (roundUp s.memFirstUnused ||| 7) := by
    rw [heq, Kernel.addTable_dir, Kernel.tookLinear_spaces]
  refine ⟨hkernel.trans h.directory, ?_, ?_, ?_, ?_, ?_, ?_, ?_, ?_⟩
  · intro k
    have hk := h.aligned k
    rw [htableAt]
    split <;> omega
  · intro k hk
    have hold := h.base k
    rw [htableAt] at hk ⊢
    split
    · omega
    · rename_i hne
      rw [if_neg hne] at hk
      exact hold hk
  · intro k
    have hold := h.physical k
    rw [hkernel, hdir, htableAt]
    by_cases hk : k = j
    · rw [if_pos hk, if_neg (by omega)]
      exact if_pos hk
    · rw [if_neg hk, ← hold]
      exact if_neg hk
  · rw [hkernel, hdir]
    exact h.ismeta
  · rw [heq, Kernel.addTable_created, Kernel.tookLinear_created]
    exact h.created
  · intro p hp
    rw [heq, Kernel.addTable_paging, Kernel.tookLinear_paging] at hp
    rw [hfirst]
    rcases List.mem_cons.mp hp with hnew | hold
    · right
      omega
    · rcases h.paging p hold with hin | hin
      · exact Or.inl hin
      · right
        omega
  · rw [heq, Kernel.addTable_midpoints, Kernel.tookLinear_midpoints]
    exact h.midpoints
  · rw [heq, Kernel.addTable_tasks, Kernel.tookLinear_tasks]
    exact h.tasks

theorem Staged.withTable {o : Kernel} {n : ℕ} (h : Staged o n s) {j : ℕ}
    (hbase : o.bootBase + 8192 < s.memFirstUnused)
    (hroom : roundUp s.memFirstUnused + pageTableSize < 2 ^ 32) (hj : s.tableAt j = 0) :
    Staged o n (s.withTable j) := by
  have hround := le_roundUp s.memFirstUnused
  have htableAt := Kernel.withTable_tableAt hj hroom
  have htables := Kernel.withTable_tables hj hroom
  have hfirst := Kernel.withTable_memFirstUnused hj hroom
  have hsize : pageTableSize = 4096 := rfl
  refine ⟨?_, ?_, ?_, ?_, ?_, ?_, h.recorded.withTable hbase hroom hj⟩
  · rw [Kernel.withTable_kernelHeap]
    exact h.noHeap
  · rw [Kernel.withTable_heap]
    exact h.heap
  · intro k
    have hk := h.below k
    rw [htableAt, hfirst]
    split <;> omega
  · intro k l heq hne
    have hk := h.below k
    have hl := h.below l
    rw [htableAt, htableAt] at heq
    rw [htableAt] at hne
    by_cases hkj : k = j <;> by_cases hlj : l = j
    · rw [hkj, hlj]
    · rw [if_pos hkj, if_neg hlj] at heq
      omega
    · rw [if_neg hkj, if_pos hlj] at heq
      omega
    · rw [if_neg hkj, if_neg hlj] at heq
      rw [if_neg hkj] at hne
      exact h.apart k l heq hne
  · intro v hv
    obtain ⟨hne, hrest⟩ := h.mapped v hv
    have hvj : v / 1024 ≠ j := fun heq => hne (heq ▸ hj)
    have hbelow := h.below (v / 1024)
    have hold : s.tableAt (v / 1024) ≠ roundUp s.memFirstUnused := by omega
    unfold Kernel.pageAt
    rw [htableAt, if_neg hvj, htables, if_neg hold]
    exact ⟨hne, hrest⟩
  · obtain ⟨blocks, hlin, hlaid, hcov⟩ := h.linear
    refine ⟨(roundUp s.memFirstUnused, pageTableSize) :: blocks, ?_, ?_, ?_⟩
    · rw [Kernel.withTable_linear hj hroom, hlin, List.cons_append]
    · rw [hfirst]
      exact hlaid.push (by omega) hround
    · rw [hfirst]
      refine hcov.push fun a ha hle => ?_
      unfold roundUp
      omega

end Linear

end Evos
