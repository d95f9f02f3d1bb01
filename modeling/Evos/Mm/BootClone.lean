import Evos.Kheap.AlignedCarve
import Evos.Mm.BootHeap

/-! # The directory that `init_paging` ends with

The clone of the kernel's page directory is the first block of the heap. Every table is the kernel's
own, so none is copied and nothing else is taken. -/

namespace Evos
open ByteMemory Outcome Bump
set_option autoImplicit false

/-! ## The first block of the heap -/

/-- Where the heap puts the clone of the page directory. -/
def cloneAddress : ℕ := 0x0f003000

section FirstBlock
variable {mem : Mem} {a : Arena}

/-- The first page-aligned block of a new heap, whatever memory held before. -/
theorem Created.carve_directory
    (h : Created mem kheapStart (kheapStart + kheapInitialSize) kheapMaxAddress a) :
    findHole a (u32 (pageDirectorySize + 20)) true = some 0 ∧
      ∃ a', carve 0 (u32 (pageDirectorySize + 20)) true a = .ok (cloneAddress, a') ∧
        a'.heap.allocatedEnd = a.heap.allocatedEnd := by
  obtain ⟨_, _, hend, _, hindex, hmem⟩ := h.eq
  have hstart : kheapStart + 8192 = 0x0f002000 := by decide
  have hstop : kheapStart + kheapInitialSize = 0x0f010000 := by decide
  have hreq : u32 (pageDirectorySize + 20) = 8216 := by decide
  rw [hstart, hstop] at hmem
  rw [hstart] at hindex
  rw [hstop] at hend
  have hsize : headerSize a.mem 0x0f002000 = 0xe000 := by
    rw [hmem]
    exact headerSize_writeHeader _ _ _ (by decide)
  have hoff : leftOffset 0x0f002000 true = 0xff4 := by decide
  rw [hreq]
  constructor
  · have hfits : holeFits a.mem 8216 true 0x0f002000 = true := by
      unfold holeFits
      rw [if_pos rfl, hsize]
      decide
    unfold findHole
    rw [hindex]
    exact List.findIdx?_cons.trans (if_pos hfits)
  · have hroom : a.heap.index.array.length < a.heap.index.maxSize := by
      rw [hindex]
      decide
    have hin : 0 < a.heap.index.array.length := by
      rw [hindex]
      decide
    have hi : a.heap.index.array[0]? = some 0x0f002000 := by rw [hindex]; rfl
    obtain ⟨a₁, hclaim, hc⟩ := @claimHole_total a 0 0x0f002000 0xe000 true (by decide)
      (by rw [hoff]; decide) (by decide) hin hroom
    rw [hoff] at hclaim
    have hstop₁ : a₁.heap.allocatedEnd = 0x0f010000 := by rw [hc.extent.stop, hend]
    have hright : sub32 0xd00c 8216 > 20 →
        sub32 (u32 (0x0f002ff4 + 0xd00c)) 8 < a₁.heap.allocatedEnd := by
      intro _
      rw [hstop₁]
      decide
    have hfoot : 0x0f002ff4 + 8216 < a₁.heap.allocatedEnd + 8 := by
      rw [hstop₁]
      decide
    obtain ⟨⟨p, a'⟩, hplace⟩ := (placeBlock_total_iff (by decide) (by decide) hc.room hright).mpr
      ⟨hfoot, Or.inr (by decide)⟩
    obtain ⟨hp, hend'⟩ := placeBlock_result hplace
    refine ⟨a', ?_, by rw [hend', hstop₁, hend]⟩
    unfold carve
    rw [except_bind_of_ok (orderedArrayIndex_of_getElem? hi)]
    dsimp only
    rw [hsize, if_neg (by decide), except_bind_of_ok hclaim]
    have hlen : sub32 0xe000 0xff4 = 0xd00c := by decide
    dsimp only
    rw [hlen, hplace, hp]
    rfl

end FirstBlock

/-! ## Cloning the kernel's own directory -/

/-- The same blocks, and the same directory is the kernel's. -/
structure SameBlocks (s t : Kernel) : Prop where
  linear : t.linear = s.linear
  heap : t.heap = s.heap
  kernelDirectory : t.kernelDirectory = s.kernelDirectory

theorem SameBlocks.refl (s : Kernel) : SameBlocks s s := ⟨rfl, rfl, rfl⟩

theorem SameBlocks.trans {s t u : Kernel} (h : SameBlocks s t) (h' : SameBlocks t u) :
    SameBlocks s u :=
  ⟨h'.linear.trans h.linear, h'.heap.trans h.heap, h'.kernelDirectory.trans h.kernelDirectory⟩

section Clone

theorem cloneEntry_kernel (depth dir i : ℕ) (s : Kernel) :
    ∃ t, cloneEntry depth s.kernelDirectory dir i s = .ok () t ∧ SameBlocks s t := by
  have hget : (get : KM Kernel) s = .ok s s := rfl
  unfold cloneEntry
  rw [bind_of_ok hget]
  by_cases h : (s.spaces.dirs s.kernelDirectory).tables i ≠ 0
  · rw [if_pos h, if_pos rfl]
    exact ⟨_, rfl, ⟨rfl, rfl, rfl⟩⟩
  · rw [if_neg h]
    exact ⟨s, rfl, SameBlocks.refl s⟩

theorem cloneEntries_kernel (depth dir count i : ℕ) (s : Kernel) :
    ∃ t, cloneEntries depth s.kernelDirectory dir i count s = .ok () t ∧ SameBlocks s t := by
  induction count generalizing i s with
  | zero => exact ⟨s, rfl, SameBlocks.refl s⟩
  | succ count ih =>
    obtain ⟨t, ht, hsame⟩ := cloneEntry_kernel depth dir i s
    obtain ⟨u, hu, hsame'⟩ := ih (i + 1) t
    rw [hsame.kernelDirectory] at hu
    refine ⟨u, ?_, hsame.trans hsame'⟩
    unfold cloneEntries
    rw [bind_of_ok ht]
    exact hu

/-- The block of the clone is the only one the heap has handed out. -/
structure Cloned (s : Kernel) (t : Kernel) : Prop where
  linear : t.linear = s.linear
  live : t.heap.live = [(cloneAddress, pageDirectorySize)]
  start : t.arena.heap.allocatedStart = kheapStart + 8192
  stop : t.arena.heap.allocatedEnd = kheapStart + kheapInitialSize

theorem kmallocAp_directory (depth : ℕ) {o : Kernel} {n first : ℕ} {s : Kernel}
    (h : HeapReady o n first s) :
    ∃ physical t, kmallocAp (depth + 1) pageDirectorySize s = .ok (cloneAddress, physical) t ∧
      Cloned s t := by
  obtain ⟨mem, a, hheap, hcreated⟩ := h.heap
  have harena : s.arena = a := by
    unfold Kernel.arena
    rw [hheap]
  obtain ⟨hfound, a', hcarve, hend⟩ := hcreated.carve_directory
  rw [← harena] at hfound hcarve hend hcreated
  set H := kernelHost (getPageWith fun n => kmallocAt depth n true true)
  have halloc : heapAlloc H pageDirectorySize true s = .ok cloneAddress (s.setArena a') :=
    heapAlloc_of_choose (chooseHole_of_found hfound) hcarve
  have hget : (get : KM Kernel) s = .ok s s := rfl
  set t := (s.setArena a').tookBlock cloneAddress pageDirectorySize
  have h60 : (s.spaces.dirs s.kernelDirectory).tables 60 ≠ 0 := h.heapTable
  have hindex : tableIndex cloneAddress = 60 := by decide
  have hfind : t.findPage cloneAddress t.kernelDirectory =
      some ((s.spaces.dirs s.kernelDirectory).tables 60, pageIndex cloneAddress) := by
    change s.findPage cloneAddress s.kernelDirectory = _
    unfold Kernel.findPage
    rw [hindex, if_pos h60]
  obtain ⟨physical, hphysical⟩ : ∃ physical, physicalOf cloneAddress t = .ok physical t := by
    have hget' : (get : KM Kernel) t = .ok t t := rfl
    unfold physicalOf
    rw [bind_of_ok hget', bind_of_ok hget', hfind]
    exact ⟨_, rfl⟩
  have htook : (modify (Kernel.tookBlock cloneAddress pageDirectorySize) : KM Unit)
      (s.setArena a') = .ok () t := rfl
  have hok : kmallocAp (depth + 1) pageDirectorySize s = .ok (cloneAddress, physical) t := by
    unfold kmallocAp kmallocAt
    rw [bind_of_ok hget, if_pos h.on, bind_of_ok halloc, bind_of_ok htook, if_pos rfl,
      bind_of_ok hphysical]
    rfl
  have hkept := (kmallocAt_kept (depth + 1) pageDirectorySize true true s).ok hok
  obtain ⟨_, hstart, hstop, _⟩ := hcreated.eq
  refine ⟨physical, t, hok, rfl, ?_, hkept.bounds.start.trans hstart, hend.trans hstop⟩
  change (cloneAddress, pageDirectorySize) :: s.heap.live = _
  rw [hheap]

theorem enterClone_cloned (depth : ℕ) {o : Kernel} {n first : ℕ} {s : Kernel}
    (h : HeapReady o n first s) :
    ∃ t, enterClone (depth + 1) s = .ok () t ∧ Cloned s t := by
  obtain ⟨physical, t, hok, hcloned⟩ := kmallocAp_directory depth h
  have hkept := (kmallocAt_kept (depth + 1) pageDirectorySize true true s).ok hok
  obtain ⟨u, hu, hsame⟩ := cloneEntries_kernel (depth + 1) cloneAddress 1024 0
    (t.addDirectory cloneAddress physical)
  have hdir : (t.addDirectory cloneAddress physical).kernelDirectory = s.kernelDirectory :=
    hkept.kernelDirectory
  rw [hdir] at hu
  have hget : (get : KM Kernel) s = .ok s s := rfl
  have hadd : (modify (Kernel.addDirectory cloneAddress physical) : KM Unit) t =
      .ok () (t.addDirectory cloneAddress physical) := rfl
  have hclone : cloneDirectory (depth + 1) s.kernelDirectory s =
      .ok cloneAddress { u with created := cloneAddress :: u.created } := by
    unfold cloneDirectory
    rw [bind_of_ok hok, bind_of_ok hadd, bind_of_ok hu]
    rfl
  refine ⟨{ u with
    created := cloneAddress :: u.created, currentDirectory := cloneAddress, cr3 := cloneAddress },
    ?_, ?_⟩
  · unfold enterClone
    rw [bind_of_ok hget, bind_of_ok hclone]
    rfl
  · have hheap : u.heap = t.heap := hsame.heap
    refine ⟨hsame.linear.trans hcloned.linear, ?_, ?_, ?_⟩
    · change u.heap.live = _
      rw [hheap]
      exact hcloned.live
    · change u.heap.arena.heap.allocatedStart = _
      rw [hheap]
      exact hcloned.start
    · change u.heap.arena.heap.allocatedEnd = _
      rw [hheap]
      exact hcloned.stop

end Clone

end Evos
