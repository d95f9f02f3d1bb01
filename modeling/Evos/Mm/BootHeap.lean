import Evos.Kheap.Safety
import Evos.Mm.BootMapping
import Evos.Mm.Invariant

/-! # `init_paging` until the heap is there

Before the loop: the page directory and the table of the heap. Behind it: the pages of the heap, the
cloning page and `heap_t`, which fit into the four pages the loop mapped ahead. -/

namespace Evos
open ByteMemory Outcome Bump
set_option autoImplicit false

variable {o s : Kernel} {n : ℕ}

/-! ## Before the loop -/

/-- A directory that becomes the kernel's. -/
def Kernel.enterDirectory (dir : ℕ) (s : Kernel) : Kernel :=
  { s.addDirectory dir dir with kernelDirectory := dir, created := [dir] }

/-- The kernel with its page directory. -/
def Kernel.withDirectory (o : Kernel) : Kernel :=
  (o.tookLinear pageDirectorySize true).enterDirectory o.bootBase

theorem directory_block (ho : o.HasRoom) :
    linearKmalloc pageDirectorySize true o.memFirstUnused =
      (o.bootBase, o.bootBase + pageDirectorySize) := by
  have hbase := ho.bootBase
  have hsize : pageDirectorySize = 8196 := rfl
  refine linearKmalloc_align ?_
  change o.bootBase + pageDirectorySize < 2 ^ 32
  omega

theorem makeKernelDirectory_linear (depth : ℕ) (ho : o.HasRoom) (hk : o.kernelHeap = false) :
    makeKernelDirectory (depth + 1) o = .ok () o.withDirectory := by
  have hkmalloc := kmallocAt_linear depth hk pageDirectorySize true true
  rw [directory_block ho] at hkmalloc
  unfold makeKernelDirectory kmallocAp
  rw [bind_of_ok hkmalloc]
  rfl

section Directory
variable (dir : ℕ) (s)

@[simp] theorem enterDirectory_kernelHeap : (s.enterDirectory dir).kernelHeap = s.kernelHeap := rfl
@[simp] theorem enterDirectory_heap : (s.enterDirectory dir).heap = s.heap := rfl
@[simp] theorem enterDirectory_frames : (s.enterDirectory dir).frames = s.frames := rfl
@[simp] theorem enterDirectory_linear : (s.enterDirectory dir).linear = s.linear := rfl
@[simp] theorem enterDirectory_memFirstUnused :
    (s.enterDirectory dir).memFirstUnused = s.memFirstUnused := rfl

@[simp] theorem enterDirectory_kernelDirectory :
    (s.enterDirectory dir).kernelDirectory = dir := rfl
@[simp] theorem enterDirectory_created : (s.enterDirectory dir).created = [dir] := rfl
@[simp] theorem enterDirectory_paging : (s.enterDirectory dir).paging = dir :: s.paging := rfl
@[simp] theorem enterDirectory_midpoints : (s.enterDirectory dir).midpoints = s.midpoints := rfl
@[simp] theorem enterDirectory_tasks : (s.enterDirectory dir).tasks = s.tasks := rfl

theorem enterDirectory_dir : (s.enterDirectory dir).spaces.dirs dir =
    { PageDirectory.zero with ismetaTablesPhysicalAddr := u32 (dir + 4096) } := by
  unfold Kernel.enterDirectory Kernel.addDirectory
  dsimp only
  rw [Kernel.setDir_self]

theorem enterDirectory_tableAt (j : ℕ) : (s.enterDirectory dir).tableAt j = 0 := by
  unfold Kernel.enterDirectory Kernel.tableAt Kernel.addDirectory
  dsimp only
  rw [Kernel.setDir_self]
  rfl

end Directory

theorem withDirectory_kernelHeap (o : Kernel) : o.withDirectory.kernelHeap = o.kernelHeap := by
  rw [Kernel.withDirectory, enterDirectory_kernelHeap, Kernel.tookLinear_kernelHeap]

theorem withDirectory_heap (o : Kernel) : o.withDirectory.heap = o.heap := by
  rw [Kernel.withDirectory, enterDirectory_heap, Kernel.tookLinear_heap]

theorem withDirectory_frames (o : Kernel) : o.withDirectory.frames = o.frames := by
  rw [Kernel.withDirectory, enterDirectory_frames, Kernel.tookLinear_frames]

theorem withDirectory_tableAt (o : Kernel) (j : ℕ) : o.withDirectory.tableAt j = 0 :=
  enterDirectory_tableAt _ _ j

theorem withDirectory_memFirstUnused (ho : o.HasRoom) :
    o.withDirectory.memFirstUnused = o.bootBase + 8196 := by
  rw [Kernel.withDirectory, enterDirectory_memFirstUnused, Kernel.tookLinear, directory_block ho]
  rfl

theorem withDirectory_linear (ho : o.HasRoom) :
    o.withDirectory.linear = (o.bootBase, 8196) :: o.linear := by
  rw [Kernel.withDirectory, enterDirectory_linear, Kernel.tookLinear, directory_block ho]
  rfl

theorem recorded_withDirectory (ho : o.HasRoom) : Recorded o o.withDirectory := by
  have hbase := ho.bootBase
  have hat := withDirectory_tableAt o
  have hdirectory : o.withDirectory.kernelDirectory = o.bootBase := by
    rw [Kernel.withDirectory, enterDirectory_kernelDirectory]
  have hdir : o.withDirectory.spaces.dirs o.bootBase =
      { PageDirectory.zero with ismetaTablesPhysicalAddr := u32 (o.bootBase + 4096) } := by
    rw [Kernel.withDirectory, enterDirectory_dir]
  refine ⟨hdirectory, ?_, ?_, ?_, ?_, ?_, ?_, ?_, ?_⟩
  · intro j
    rw [hat]
  · intro j hj
    exact absurd (hat j) hj
  · intro j
    rw [hdirectory, hdir, hat, if_pos rfl]
    rfl
  · rw [hdirectory, hdir]
    exact u32_of_lt (by omega)
  · rw [Kernel.withDirectory, enterDirectory_created]
  · intro p hp
    rw [Kernel.withDirectory, enterDirectory_paging, Kernel.tookLinear_paging] at hp
    rw [withDirectory_memFirstUnused ho]
    rcases List.mem_cons.mp hp with hnew | hold
    · right
      omega
    · exact Or.inl hold
  · rw [Kernel.withDirectory, enterDirectory_midpoints, Kernel.tookLinear_midpoints]
  · rw [Kernel.withDirectory, enterDirectory_tasks, Kernel.tookLinear_tasks]

theorem staged_withDirectory (ho : o.HasRoom) (hk : o.kernelHeap = false) :
    Staged o 0 o.withDirectory := by
  have hfirst := withDirectory_memFirstUnused ho
  refine ⟨?_, withDirectory_heap o, ?_, ?_, ?_, ?_, recorded_withDirectory ho⟩
  · rw [withDirectory_kernelHeap]
    exact hk
  · intro j
    rw [withDirectory_tableAt, hfirst]
    omega
  · intro j k _ hne
    exact absurd (withDirectory_tableAt o j) hne
  · intro v hv
    omega
  · refine ⟨[(o.bootBase, 8196)], withDirectory_linear ho, ?_, ?_⟩
    · rw [hfirst]
      exact (laid_nil o.bootBase o.bootBase).push (Nat.le_refl _) (Nat.le_refl _)
    · rw [hfirst]
      exact (covers_nil 4096 o.bootBase).push fun a _ ha => ha

theorem Kernel.Clear.framesBelow (hc : o.Clear) : FramesBelow o 0 o.frames := by
  refine ⟨rfl, ?_, ?_⟩
  · intro w hw
    rw [hc.words w hw]
    decide
  · intro i hi
    have hread : Words.list.read o.frames (outerIndex i) = 0 := by
      change o.frames.getD (outerIndex i) 0 = 0
      rw [List.getD_eq_getElem _ _ hi]
      exact hc.words _ (List.getElem_mem hi)
    unfold isSet
    rw [hread, Nat.zero_testBit]
    rfl

theorem Kernel.Bitmap.since (hb : o.Bitmap) : FramesSince o 0 o.frames := by
  refine ⟨rfl, hb.word, fun i _ => ?_, fun i hi => absurd hi (Nat.not_lt_zero i)⟩
  rw [decide_eq_false (Nat.not_lt_zero i), Bool.or_false]

theorem booting_start (ho : o.HasRoom) (hk : o.kernelHeap = false) :
    Booting o 0 0 (o.withDirectory.withTable 60) := by
  have hbase := ho.bootBase
  have hmod := bootBase_mod o
  have hfirst := withDirectory_memFirstUnused ho
  have hnone := withDirectory_tableAt o 60
  have hround : roundUp o.withDirectory.memFirstUnused = o.bootBase + 0x3000 := by
    rw [hfirst]
    unfold roundUp
    omega
  have hsize : pageTableSize = 4096 := rfl
  have hroom : roundUp o.withDirectory.memFirstUnused + pageTableSize < 2 ^ 32 := by omega
  have htableAt := Kernel.withTable_tableAt hnone hroom
  have htables := Kernel.withTable_tables hnone hroom
  have hat : ∀ j, (o.withDirectory.withTable 60).tableAt j =
      if j = 60 then o.bootBase + 0x3000 else 0 := by
    intro j
    rw [htableAt, hround, withDirectory_tableAt]
  have hframes : (o.withDirectory.withTable 60).frames = o.frames := by
    rw [Kernel.withTable_frames, withDirectory_frames]
  refine { toStaged := ?_, first := ?_, tables := ?_, fresh := ?_, frames := ?_, since := ?_ }
  · exact (staged_withDirectory ho hk).withTable (by omega) hroom hnone
  · have hzero : tablesBelow 0 = 0 := by decide
    rw [Kernel.withTable_memFirstUnused hnone hroom, hround]
    omega
  · intro j
    rw [hat]
    split <;> omega
  · intro v _ hne
    rw [hat] at hne
    have hj : v / 1024 = 60 := by
      by_contra hj
      exact hne (if_neg hj)
    unfold Kernel.pageAt
    rw [hat, if_pos hj, htables, hround, if_pos rfl]
    rfl
  · intro hc
    rw [hframes]
    exact hc.framesBelow
  · intro hb
    rw [hframes]
    exact hb.since

theorem prepareHeapPages_linear (depth : ℕ) (hk : s.kernelHeap = false) (h60 : s.tableAt 60 ≠ 0)
    {count i : ℕ} (hi : kheapStart ≤ i) (hend : i + 4096 * count ≤ heapTableEnd) :
    prepareHeapPages (depth + 1) i count s = .ok () s := by
  induction count generalizing i with
  | zero => rfl
  | succ count ih =>
    have hindex : tableIndex i = 60 := tableIndex_heap hi (by omega)
    have hpage := getPage_linear depth hk i
    rw [hindex, Kernel.withTable_of_ne h60] at hpage
    have hget : (get : KM Kernel) s = .ok s s := rfl
    unfold prepareHeapPages
    rw [bind_of_ok hget, bind_of_ok hpage]
    exact ih (by omega) (by omega)

theorem prepareHeapPages_start (depth : ℕ) (hk : s.kernelHeap = false)
    (h60 : (s.withTable 60).tableAt 60 ≠ 0) :
    prepareHeapPages (depth + 1) kheapStart (kheapInitialSize / 4096) s =
      .ok () (s.withTable 60) := by
  have hcount : kheapInitialSize / 4096 = 15 + 1 := by decide
  have hindex : tableIndex kheapStart = 60 := by decide
  have hpage := getPage_linear depth hk kheapStart
  have hget : (get : KM Kernel) s = .ok s s := rfl
  rw [hindex] at hpage
  rw [hcount, prepareHeapPages, bind_of_ok hget, bind_of_ok hpage]
  refine prepareHeapPages_linear depth ?_ h60 (by decide) (by decide)
  rw [Kernel.withTable_kernelHeap]
  exact hk

theorem initIdentity_ends (depth : ℕ) (ho : o.HasRoom) (hk : o.kernelHeap = false) :
    Ends (initIdentity (depth + 1) o)
      (fun _ t => ∃ m, Booting o m m t ∧ 4096 * m = t.memFirstUnused + 0x4000 ∧
        ∀ v < m, ¬BehindIdentity o.bootBase v)
      (fun t => Stopped o t ∧ ¬o.Clear) := by
  have hstart := booting_start ho hk
  have hk' : o.withDirectory.kernelHeap = false := by
    rw [withDirectory_kernelHeap]
    exact hk
  have h60 : (o.withDirectory.withTable 60).tableAt 60 ≠ 0 := (hstart.tables 60).mpr (Or.inl rfl)
  have hfuel : 2 ^ 20 ≤ 2 ^ 20 + 1 + 0 := by omega
  have hloop := identityMap_ends depth ho hstart (by omega)
    (fun v hv => absurd hv (Nat.not_lt_zero v)) hfuel
  rw [Nat.mul_zero] at hloop
  unfold initIdentity
  exact ends_bind_of_ok (makeKernelDirectory_linear depth ho hk)
    (ends_bind_of_ok (prepareHeapPages_start depth hk' h60) hloop)

/-! ## Behind the loop -/

/-- The loop has mapped `n` pages, at most `k` frames were taken since, and the memory used ends at
`first`. -/
structure Finishing (o : Kernel) (n k first : ℕ) (s : Kernel) : Prop extends Staged o n s where
  heapTable : s.tableAt 60 ≠ 0
  first : s.memFirstUnused = first
  frames : o.Clear → ∃ m, m ≤ n + k ∧ FramesBelow o m s.frames

/-- `page_alloc` on a page behind the first table changes none of the `n` pages. -/
theorem Finishing.pageAlloc {k first j i : ℕ} (h : Finishing o n k first s)
    (hfirst : first ≤ o.bootBase + 0x410000) (hk : 4096 * (n + k) ≤ o.bootBase + 0x500000)
    (hj : j ≠ 0) (hne : s.tableAt j ≠ 0) :
    Ends (pageAlloc (some (s.tableAt j, i)) true s)
      (fun _ t => Finishing o n (k + 1) first t ∧ t.tableAt = s.tableAt)
      (fun t => Stopped o t ∧ ¬o.Clear) := by
  refine ends_pageAlloc ?_ ?_ ?_
  · intro _
    refine ⟨?_, rfl⟩
    refine { toStaged := h.toStaged, heapTable := h.heapTable, first := h.first, frames := ?_ }
    intro hc
    obtain ⟨m, hm, hbelow⟩ := h.frames hc
    exact ⟨m, by omega, hbelow⟩
  · intro f ws h0 hf
    have hout : ∀ v < n, v / 1024 = j → v % 1024 ≠ i := by
      intro v hv hvj hvi
      obtain ⟨_, _, haddress⟩ := h.mapped v hv
      unfold Kernel.pageAt at haddress
      rw [hvj, hvi, h0] at haddress
      omega
    have hstaged := (h.toStaged.withFrames ws).setPage (j := j)
      ⟨true, true, true, f % 2 ^ 20⟩ hout
    refine ⟨?_, rfl⟩
    refine { toStaged := hstaged, heapTable := h.heapTable, first := h.first, frames := ?_ }
    intro hc
    obtain ⟨m, hm, hbelow⟩ := h.frames hc
    obtain ⟨ws', hok, hbelow'⟩ := hbelow.alloc (hc.lt (by omega))
    rw [hf] at hok
    cases hok
    exact ⟨f + 1, by omega, hbelow'⟩
  · intro e _ hf
    have hstop := h.first
    refine ⟨⟨h.heap, h.linear, by omega⟩, fun hc => ?_⟩
    obtain ⟨m, hm, hbelow⟩ := h.frames hc
    obtain ⟨ws, hok, _⟩ := hbelow.alloc (hc.lt (by omega))
    rw [hf] at hok
    cases hok

/-- The pages of the heap are mapped, unless the loop has done so. -/
theorem mapHeapPages_ends {k first count i : ℕ} (h : Finishing o n k first s)
    (hfirst : first ≤ o.bootBase + 0x410000)
    (hk : 4096 * (n + k + count) ≤ o.bootBase + 0x500000)
    (hi : kheapStart ≤ i) (hend : i + 4096 * count ≤ heapTableEnd) :
    Ends (mapHeapPages i count s)
      (fun _ t => Finishing o n (k + count) first t ∧ t.tableAt = s.tableAt)
      (fun t => Stopped o t ∧ ¬o.Clear) := by
  induction count generalizing k i s with
  | zero => exact ends_pure ⟨h, rfl⟩
  | succ count ih =>
    have hindex : tableIndex i = 60 := tableIndex_heap hi (by omega)
    have hfind : s.findPage i s.kernelDirectory = some (s.tableAt 60, pageIndex i) := by
      have h60 : (s.spaces.dirs s.kernelDirectory).tables 60 ≠ 0 := h.heapTable
      unfold Kernel.findPage
      rw [hindex, if_pos h60]
      rfl
    refine ends_get_bind ?_
    rw [hfind]
    refine ends_bind (h.pageAlloc hfirst (by omega) (by decide) h.heapTable) ?_
    rintro ⟨⟩ t ⟨ht, htables⟩
    have hcount : k + (count + 1) = k + 1 + count := by omega
    rw [hcount, ← htables]
    exact ih ht (by omega) (by omega) (by omega)

theorem Finishing.withTable {k first j : ℕ} (h : Finishing o n k first s)
    (hbase : o.bootBase + 8192 < first) (hpage : first % 4096 = 0)
    (hroom : first + 4096 < 2 ^ 32) :
    (s.withTable j).tableAt j ≠ 0 ∧
      Finishing o n k (if s.tableAt j = 0 then first + 4096 else first) (s.withTable j) := by
  have hfirst := h.first
  by_cases hj : s.tableAt j = 0
  · have hround : roundUp s.memFirstUnused = first := by
      rw [hfirst]
      exact roundUp_of_mod hpage
    have hsize : pageTableSize = 4096 := rfl
    have hroom' : roundUp s.memFirstUnused + pageTableSize < 2 ^ 32 := by omega
    have htableAt := Kernel.withTable_tableAt hj hroom'
    have hpos := h.below 60
    rw [hround] at htableAt
    rw [if_pos hj]
    refine ⟨?_, { toStaged := ?_, heapTable := ?_, first := ?_, frames := ?_ }⟩
    · rw [htableAt, if_pos rfl]
      omega
    · exact h.toStaged.withTable (by omega) hroom' hj
    · rw [htableAt]
      have h60 := h.heapTable
      split
      · omega
      · exact h60
    · rw [Kernel.withTable_memFirstUnused hj hroom', hround, hsize]
    · rw [Kernel.withTable_frames]
      exact h.frames
  · rw [if_neg hj, Kernel.withTable_of_ne hj]
    exact ⟨hj, h⟩

theorem makeCloningPage_ends (depth : ℕ) {k first : ℕ} (h : Finishing o n k first s)
    (hbase : o.bootBase + 8192 < first) (hpage : first % 4096 = 0)
    (hfirst : first + 4096 ≤ o.bootBase + 0x410000) (ho : o.HasRoom)
    (hk : 4096 * (n + k) ≤ o.bootBase + 0x500000) :
    Ends (makeCloningPage (depth + 1) s)
      (fun _ t => Finishing o n (k + 1) (if s.tableAt 960 = 0 then first + 4096 else first) t)
      (fun t => Stopped o t ∧ ¬o.Clear) := by
  have hbound := ho.bootBase
  obtain ⟨hne, hfin⟩ := h.withTable (j := 960) hbase hpage (by omega)
  have hindex : tableIndex pageCloningBuffer = 960 := by decide
  have hpg := getPage_linear depth h.noHeap pageCloningBuffer
  have hfind : (s.withTable 960).findPage pageCloningBuffer s.kernelDirectory =
      some ((s.withTable 960).tableAt 960, pageIndex pageCloningBuffer) := by
    have hdir := Kernel.withTable_kernelDirectory (s := s) 960
    have hne' : ((s.withTable 960).spaces.dirs s.kernelDirectory).tables 960 ≠ 0 := by
      rw [← hdir]
      exact hne
    unfold Kernel.findPage
    rw [hindex, if_pos hne']
    unfold Kernel.tableAt
    rw [hdir]
  rw [hindex, hfind] at hpg
  unfold makeCloningPage
  refine ends_get_bind (ends_bind_of_ok hpg (ends_modify_bind ?_))
  have hmarked : Finishing o n k (if s.tableAt 960 = 0 then first + 4096 else first)
      { s.withTable 960 with
        cloningBufferPage := ((s.withTable 960).tableAt 960, pageIndex pageCloningBuffer) } :=
    { noHeap := hfin.noHeap, heap := hfin.heap, below := hfin.below, apart := hfin.apart,
      mapped := hfin.mapped, linear := hfin.linear, heapTable := hfin.heapTable,
      first := hfin.first, frames := hfin.frames
      recorded := hfin.recorded.congr rfl rfl rfl rfl rfl rfl rfl }
  refine (hmarked.pageAlloc (by split <;> omega) hk (by decide) hne).mono ?_ fun _ he => he
  exact fun _ _ ht => ht.1

/-- The heap is there: the first `n` pages are still mapped to the frames of their numbers, and
`heap_t` is the last block taken. -/
structure HeapReady (o : Kernel) (n first : ℕ) (t : Kernel) : Prop where
  on : t.kernelHeap = true
  first : t.memFirstUnused = first + 36
  mapped : ∀ x, x / 4096 < n → t.spaces.translate t.kernelDirectory x = some (x / 4096)
  heapTable : t.tableAt 60 ≠ 0
  linear : LinearSince o t
  heap : ∃ mem a, t.heap = ⟨a, []⟩ ∧
    Created mem kheapStart (kheapStart + kheapInitialSize) kheapMaxAddress a

theorem heap_block {first : ℕ} (hroom : first + 36 < 2 ^ 32) :
    linearKmalloc heapSize false first = (first, first + 36) := by
  unfold linearKmalloc
  rw [if_neg (by decide)]
  exact congrArg (Prod.mk first) (u32_of_lt hroom)

/-- The kernel with its heap. -/
def Kernel.startHeap (a : Arena) (s : Kernel) : Kernel :=
  { s.tookLinear heapSize false with heap := ⟨a, []⟩, kernelHeap := true }

theorem makeHeap_eq (depth : ℕ) (hk : s.kernelHeap = false) :
    ∃ a, makeHeap (depth + 1) s = .ok () (s.startHeap a) ∧
      Created s.arena.mem kheapStart (kheapStart + kheapInitialSize) kheapMaxAddress a := by
  have hkmalloc := kmallocAt_linear depth hk heapSize false false
  have hstop : (kheapStart + kheapInitialSize) % 4096 = 0 := by decide
  obtain ⟨a, ha⟩ := heapCreate_total (s.tookLinear heapSize false).arena.mem kheapMaxAddress false
    true (show kheapStart % 4096 = 0 by decide) hstop
  have hget : (get : KM Kernel) (s.tookLinear heapSize false) =
      .ok (s.tookLinear heapSize false) (s.tookLinear heapSize false) := rfl
  refine ⟨a, ?_, by decide, by decide, by decide, false, true, ha⟩
  unfold makeHeap kmalloc
  rw [bind_of_ok hkmalloc, bind_of_ok hget, ha]
  rfl

theorem Finishing.startHeap {k first : ℕ} {a : Arena} (h : Finishing o n k first s)
    (hbase : o.bootBase ≤ first) (hroom : first + 36 < 2 ^ 32)
    (hcreated : Created s.arena.mem kheapStart (kheapStart + kheapInitialSize) kheapMaxAddress a) :
    HeapReady o n first (s.startHeap a) := by
  have hfirst := h.first
  have hblock := heap_block hroom
  rw [← hfirst] at hblock
  refine ⟨rfl, ?_, ?_, h.heapTable, ?_, ⟨_, a, rfl, hcreated⟩⟩
  · change (linearKmalloc heapSize false s.memFirstUnused).2 = _
    rw [hblock, hfirst]
  · intro x hx
    exact h.translate hx
  · obtain ⟨blocks, hlin, hlaid, hcov⟩ := h.linear
    refine ⟨(s.memFirstUnused, 36) :: blocks, ?_, ?_, ?_⟩
    · change ((linearKmalloc heapSize false s.memFirstUnused).1, heapSize) :: s.linear = _
      rw [hblock, hlin, List.cons_append]
      rfl
    · change Laid o.bootBase (linearKmalloc heapSize false s.memFirstUnused).2 _
      rw [hblock]
      exact hlaid.push (by omega) (Nat.le_refl _)
    · change Covers 4096 o.bootBase (linearKmalloc heapSize false s.memFirstUnused).2 _
      rw [hblock]
      exact hcov.push fun b _ hb => hb

/-- The pages of the tables, of `heap_t` and of the slack behind them. -/
def Kernel.lastTable (o : Kernel) (n : ℕ) : ℕ :=
  o.bootBase + 0x4000 + 4096 * tablesBelow n + if 1024 * 960 < n then 0 else 4096

theorem Booting.lastTable_bounds (h : Booting o n n s) (ho : o.HasRoom)
    (hend : 4096 * n = s.memFirstUnused + 0x4000) :
    o.bootBase ≤ o.lastTable n ∧ o.lastTable n ≤ o.bootBase + 0x410000 ∧
      o.lastTable n ≤ s.memFirstUnused + 4096 := by
  obtain ⟨_, htables, _⟩ := h.bound ho (by omega)
  have hfirst := h.first
  unfold Kernel.lastTable
  split <;> omega

/-- `init_paging` behind the identity mapping, until `kernel_heap` is set. -/
theorem initHeap_finishing (depth : ℕ) (ho : o.HasRoom) (h : Booting o n n s)
    (hend : 4096 * n = s.memFirstUnused + 0x4000) :
    Ends (initHeap (depth + 1) s)
      (fun _ t => ∃ v a, Finishing o n 17 (o.lastTable n) v ∧
        Created v.arena.mem kheapStart (kheapStart + kheapInitialSize) kheapMaxAddress a ∧
        t = v.startHeap a)
      (fun t => Stopped o t ∧ ¬o.Clear) := by
  obtain ⟨_, htables, hle⟩ := h.bound ho (by omega)
  have hbase := ho.bootBase
  have hmod := bootBase_mod o
  have hfirst := h.first
  have hfin : Finishing o n 0 s.memFirstUnused s :=
    { toStaged := h.toStaged, heapTable := (h.tables 60).mpr (Or.inl rfl), first := rfl
      frames := fun hc => ⟨n, by omega, h.frames hc⟩ }
  have h960 : s.tableAt 960 = 0 ↔ ¬1024 * 960 < n := by
    have hiff := h.tables 960
    omega
  have hcount : kheapInitialSize / 4096 = 16 := by decide
  have hheap : kheapStart + 4096 * 16 ≤ heapTableEnd := by decide
  have hslack : s.memFirstUnused + 4096 ≤ o.bootBase + 0x410000 := by omega
  unfold initHeap
  rw [hcount]
  refine ends_bind (mapHeapPages_ends hfin (by omega) (by omega) (Nat.le_refl _) hheap) ?_
  rintro ⟨⟩ t ⟨ht, hsame⟩
  refine ends_bind (makeCloningPage_ends depth ht (by omega) (by omega) hslack ho (by omega)) ?_
  rintro ⟨⟩ u hu
  have hlast : (if t.tableAt 960 = 0 then s.memFirstUnused + 4096 else s.memFirstUnused) =
      o.lastTable n := by
    unfold Kernel.lastTable
    rw [hsame]
    split <;> split <;> omega
  rw [hlast] at hu
  have hswitched : Finishing o n (0 + 16 + 1) (o.lastTable n)
      { u with currentDirectory := u.kernelDirectory, cr3 := u.kernelDirectory } :=
    { noHeap := hu.noHeap, heap := hu.heap, below := hu.below, apart := hu.apart,
      mapped := hu.mapped, linear := hu.linear, heapTable := hu.heapTable, first := hu.first
      frames := hu.frames, recorded := hu.recorded.congr rfl rfl rfl rfl rfl rfl rfl }
  obtain ⟨a, ha, hcreated⟩ := makeHeap_eq depth hswitched.noHeap
  refine ends_get_bind (ends_modify_bind ?_)
  rw [ha]
  exact ends_ok ⟨_, a, hswitched, hcreated, rfl⟩

theorem initHeap_ends (depth : ℕ) (ho : o.HasRoom) (h : Booting o n n s)
    (hend : 4096 * n = s.memFirstUnused + 0x4000) :
    Ends (initHeap (depth + 1) s) (fun _ t => HeapReady o n (o.lastTable n) t)
      (fun t => Stopped o t ∧ ¬o.Clear) := by
  have hbase := ho.bootBase
  obtain ⟨hlo, hhi, _⟩ := h.lastTable_bounds ho hend
  refine (initHeap_finishing depth ho h hend).mono ?_ fun _ he => he
  rintro _ _ ⟨v, a, hv, hcreated, rfl⟩
  exact hv.startHeap hlo (by omega) hcreated

/-! ## The whole stage -/

/-- With a clear bitmap the identity mapping ends and its assertion does not fire, and when
`kernel_heap` is set every byte that `__linear_kmalloc` returned is mapped to itself. -/
theorem initPaging_identity (hk : o.kernelHeap = false) (ho : o.HasRoom) (hc : o.Clear) (depth : ℕ) :
    ∃ s t, initIdentity (depth + 1) o = .ok () s ∧ initHeap (depth + 1) s = .ok () t ∧
      (∀ x, x < s.memFirstUnused + 4 * 4096 →
        s.spaces.translate s.kernelDirectory x = some (x / 4096)) ∧
      t.kernelHeap = true ∧
      ∃ blocks, t.linear = blocks ++ o.linear ∧ ∀ b ∈ blocks, ∀ x, b.1 ≤ x → x < b.1 + b.2 →
        t.spaces.translate t.kernelDirectory x = some (x / 4096) := by
  obtain ⟨_, s, hs, n, hboot, hend, _⟩ :=
    (initIdentity_ends depth ho hk).returns fun t he => he.2 hc
  obtain ⟨_, t, ht, hready⟩ :=
    (initHeap_ends depth ho hboot hend).returns fun t he => he.2 hc
  have hlast := (hboot.lastTable_bounds ho hend).2.2
  obtain ⟨blocks, hlin, hlaid, _⟩ := hready.linear
  refine ⟨s, t, hs, ht, ?_, hready.on, blocks, hlin, ?_⟩
  · intro x hx
    exact hboot.translate (by omega)
  · intro b hb x _ hx
    have hupper := hlaid.upper b hb
    have htop := hready.first
    exact hready.mapped x (by omega)

/-- The kernel before `init_paging`, with `words` clear words of bitmap. -/
def lowKernel (memFirstUnused words : ℕ) : Kernel :=
  { afterInitFrames (fun _ => 0) ⟨0, 0, 0⟩ with
    memFirstUnused := memFirstUnused, frames := List.replicate words 0 }

theorem lowKernel_hasRoom {memFirstUnused words : ℕ} (h : memFirstUnused ≤ 2 ^ 32 - 15 * 2 ^ 20) :
    (lowKernel memFirstUnused words).HasRoom := h

theorem lowKernel_clear {memFirstUnused words : ℕ}
    (h : memFirstUnused + 15 * 2 ^ 20 ≤ 4096 * (32 * words)) :
    (lowKernel memFirstUnused words).Clear := by
  refine ⟨fun w hw => List.eq_of_mem_replicate hw, ?_⟩
  have hlength : (lowKernel memFirstUnused words).frames.length = words := List.length_replicate
  rw [hlength]
  exact h

theorem initPaging_identity_lowKernel :
    ∃ s t, initIdentity 1 (lowKernel 0x110000 256) = .ok () s ∧ initHeap 1 s = .ok () t ∧
      (∀ x, x < s.memFirstUnused + 4 * 4096 →
        s.spaces.translate s.kernelDirectory x = some (x / 4096)) ∧
      t.kernelHeap = true ∧
      ∃ blocks, t.linear = blocks ++ (lowKernel 0x110000 256).linear ∧
        ∀ b ∈ blocks, ∀ x, b.1 ≤ x → x < b.1 + b.2 →
          t.spaces.translate t.kernelDirectory x = some (x / 4096) :=
  initPaging_identity rfl (lowKernel_hasRoom (by decide)) (lowKernel_clear (by decide)) 0

end Evos
