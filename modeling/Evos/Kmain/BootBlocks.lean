import Evos.Kmain.Backtrace
import Evos.Mm.BootClone
import Evos.Mm.Region

/-! # Where `kmain` puts its blocks

The blocks that `kmalloc` returns from the start of `kmain` to the end of `init_mem`, whether
`init_mem` returns or panics on the way. Those of `init_panic_backtrace` lie at address 0; the others
lie in the region `init_mem` selects, and the first block of the heap goes to a fixed address whether
or not that region has it. -/

namespace Evos
open ByteMemory Outcome Bump
set_option autoImplicit false

/-! ## How `init_paging` ends -/

section Ends
variable {o : Kernel}

/-- What `init_paging` leaves behind when it returns. -/
structure PagingReady (o : Kernel) (n : ℕ) (t : Kernel) : Prop where
  loop : 4096 * n = o.bootBase + 0x8000 + 4096 * tablesBelow n
  linear : ∃ blocks, t.linear = blocks ++ o.linear ∧
    Laid o.bootBase (o.lastTable n + 36) blocks ∧ Covers 4096 o.bootBase (o.lastTable n + 36) blocks
  live : t.heap.live = [(cloneAddress, pageDirectorySize)]
  start : t.arena.heap.allocatedStart = kheapStart + 8192
  stop : t.arena.heap.allocatedEnd = kheapStart + kheapInitialSize

theorem stopped_self (o : Kernel) : Stopped o o := by
  have hle : o.memFirstUnused ≤ o.bootBase := le_roundUp _
  refine ⟨rfl, ⟨[], rfl, laid_nil _ _, ?_⟩, by omega⟩
  intro a _ hlo hhi
  omega

/-- `init_paging` on any bitmap: it returns with the heap's first block, or stops before the heap is
there. -/
theorem initPaging_ends (ho : o.HasRoom) (hk : o.kernelHeap = false) (depth : ℕ) :
    Ends (initPaging depth o) (fun _ t => ∃ n, PagingReady o n t) (Stopped o) := by
  unfold initPaging
  cases depth with
  | zero =>
    have hstop : Ends (initIdentity 0 o) (fun _ _ => False) (Stopped o) := by
      unfold initIdentity makeKernelDirectory
      exact ends_bind (Q := fun _ _ => False)
        (ends_bind (Q := fun _ _ => False) (ends_throw (stopped_self o)) fun _ _ h => h.elim)
        fun _ _ h => h.elim
    exact ends_bind hstop fun _ _ h => h.elim
  | succ depth =>
    refine ends_bind ((initIdentity_ends _ ho hk).mono (fun _ _ h => h) fun _ h => h.1) ?_
    rintro ⟨⟩ s ⟨n, hboot, hend, _⟩
    have hfirst := hboot.first
    refine ends_bind ((initHeap_ends _ ho hboot hend).mono (fun _ _ h => h) fun _ h => h.1) ?_
    rintro ⟨⟩ t ht
    obtain ⟨u, hu, hcloned⟩ := enterClone_cloned depth ht
    rw [hu]
    obtain ⟨blocks, hlin, hlaid, hcov⟩ := ht.linear
    rw [ht.first] at hlaid hcov
    exact ends_ok ⟨n, by omega, ⟨blocks, hcloned.linear.trans hlin, hlaid, hcov⟩, hcloned.live,
      hcloned.start, hcloned.stop⟩

end Ends

/-! ## The blocks of a boot -/

section Boot
variable (depth : ℕ) (b : BootInfo) (sections : List SectionHeader) (m : Mem) (scan : Scan)

/-- `kmain` until it calls `init_mem`. -/
def earlyBoot : EarlyKernel := initPanicBacktrace b.flags sections (EarlyKernel.start m)

/-- `init_paging`, as `init_mem` calls it. -/
def pagingRun : EStateM.Result Panic Kernel Unit :=
  (initPaging depth).run (afterInitFrames (earlyBoot b sections m).low.mem scan)

/-- The kernel when a run returns or stops. -/
def lastState (r : EStateM.Result Panic Kernel Unit) : Kernel :=
  match r with
  | .ok _ s => s
  | .error _ s => s

/-- The kernel at the end of `init_mem`, or where it panics. -/
def bootKernel : Kernel := lastState (pagingRun depth b sections m scan)

/-- The blocks of `__linear_kmalloc`. -/
def linearBlocks : List (ℕ × ℕ) :=
  (bootKernel depth b sections m scan).linear ++ (earlyBoot b sections m).linear

/-- The blocks of the heap. -/
def heapBlocks : List (ℕ × ℕ) := (bootKernel depth b sections m scan).heap.live

/-- The bytes of the kernel image; the linker puts it at 1 MiB. -/
def kernelImage : ℕ × ℕ := (0x100000, b.imageEnd - 0x100000)

/-- Every block is in the memory chosen for it, and no two of them overlap, nor one and the image. -/
structure PlacedBlocks : Prop where
  region : ∀ x ∈ linearBlocks depth b sections m scan,
    scan.baseAddr ≤ x.1 ∧ x.1 + x.2 ≤ scan.baseAddr + scan.regionLen
  heap : ∀ x ∈ heapBlocks depth b sections m scan,
    (bootKernel depth b sections m scan).arena.heap.allocatedStart ≤ x.1 ∧
      x.1 + x.2 ≤ (bootKernel depth b sections m scan).arena.heap.allocatedEnd
  apart : (heapBlocks depth b sections m scan ++ linearBlocks depth b sections m scan).Pairwise Apart
  image : ∀ x ∈ heapBlocks depth b sections m scan ++ linearBlocks depth b sections m scan,
    Apart x (kernelImage b)

/-- The words of the frame bitmap, which is as many bytes of `kmalloc`. -/
def bitmapWords : ℕ := (scan.memTotalBytes / 4096 + 31) / 32

/-- Neither the image nor what `init_mem` takes reaches the first block of the heap. Below the heap the
page directory, the tables and `heap_t` end within 264 KiB of the bitmap. -/
def HeapClear : Prop :=
  b.imageEnd ≤ cloneAddress ∧
    (scan.baseAddr + bitmapWords scan ≤ 0x0efc1000 ∨
      cloneAddress + pageDirectorySize ≤ scan.baseAddr)

end Boot

/-! ## The linear blocks -/

section Blocks
variable {depth n : ℕ} {b : BootInfo} {sections : List SectionHeader} {m : Mem} {scan : Scan}

theorem bitmapWords_le (hs : scan.Sound b.imageEnd) : bitmapWords scan ≤ 2 ^ 15 := by
  have htotal := hs.total
  unfold bitmapWords
  omega

theorem afterInitFrames_first (hs : scan.Sound b.imageEnd) (hlen : 16 * 1024 * 1024 < scan.regionLen)
    (m : Mem) :
    (afterInitFrames m scan).memFirstUnused = scan.baseAddr + bitmapWords scan ∧
      (afterInitFrames m scan).linear = [(scan.baseAddr, bitmapWords scan)] := by
  have hstop := hs.stop (by omega)
  have hwords := bitmapWords_le hs
  have hsize : (frameBitmap scan.memTotalBytes ⟨m, scan.baseAddr⟩).size = bitmapWords scan :=
    frameBitmap_size hs.total
  constructor
  · change u32 (scan.baseAddr + (frameBitmap scan.memTotalBytes ⟨m, scan.baseAddr⟩).size) = _
    rw [hsize, u32_of_lt (by omega)]
  · change [(scan.baseAddr, (frameBitmap scan.memTotalBytes ⟨m, scan.baseAddr⟩).size)] = _
    rw [hsize]

theorem afterInitFrames_hasRoom (hs : scan.Sound b.imageEnd)
    (hlen : 16 * 1024 * 1024 < scan.regionLen) (m : Mem) : (afterInitFrames m scan).HasRoom := by
  have hstop := hs.stop (by omega)
  have hwords := bitmapWords_le hs
  have hfirst := (afterInitFrames_first hs hlen m).1
  unfold Kernel.HasRoom
  omega

theorem laid_linear (hs : scan.Sound b.imageEnd) (hlen : 16 * 1024 * 1024 < scan.regionLen)
    {hi : ℕ} {blocks : List (ℕ × ℕ)} (h : Laid (afterInitFrames m scan).bootBase hi blocks)
    (hhi : (afterInitFrames m scan).bootBase ≤ hi) :
    Laid scan.baseAddr hi (blocks ++ (afterInitFrames m scan).linear) := by
  obtain ⟨hfirst, hlinear⟩ := afterInitFrames_first hs hlen m
  have hround := le_roundUp (afterInitFrames m scan).memFirstUnused
  have hbitmap : Laid scan.baseAddr (afterInitFrames m scan).bootBase
      [(scan.baseAddr, bitmapWords scan)] := by
    refine ((laid_nil scan.baseAddr scan.baseAddr).push (Nat.le_refl _) (Nat.le_refl _)).mono
      (Nat.le_refl _) ?_
    rw [← hfirst]
    exact hround
  rw [hlinear]
  refine h.append hbitmap ?_ hhi
  unfold Kernel.bootBase
  omega

/-- Blocks of the region stay clear of the image, which lies in front of it. -/
theorem placed_of_laid (hstart : 0x100000 < b.imageEnd) (hs : scan.Sound b.imageEnd)
    (hlen : 16 * 1024 * 1024 < scan.regionLen) {hi : ℕ} {blocks : List (ℕ × ℕ)}
    (h : Laid scan.baseAddr hi blocks)
    (hhi : hi ≤ (afterInitFrames m scan).bootBase + 0x410000) :
    (∀ x ∈ blocks, scan.baseAddr ≤ x.1 ∧ x.1 + x.2 ≤ scan.baseAddr + scan.regionLen) ∧
      ∀ x ∈ blocks, Apart x (kernelImage b) := by
  have himage := hs.image (by omega)
  have hwords := bitmapWords_le hs
  have hfirst := (afterInitFrames_first hs hlen m).1
  have hbase : (afterInitFrames m scan).bootBase ≤ scan.baseAddr + bitmapWords scan + 4095 := by
    unfold Kernel.bootBase roundUp
    omega
  constructor
  · intro x hx
    have hlower := h.lower x hx
    have hupper := h.upper x hx
    omega
  · intro x hx
    have hlower := h.lower x hx
    unfold Apart kernelImage
    dsimp only
    omega

/-! ## The block of the heap -/

/-- Where the tables for the memory below the heap end, when the heap is in reach. -/
theorem PagingReady.extent {o t : Kernel} (h : PagingReady o n t) (ho : o.HasRoom) :
    o.bootBase ≤ o.lastTable n + 36 ∧ o.lastTable n + 36 ≤ o.bootBase + 0x410000 := by
  have hloop := h.loop
  have hbase := ho.bootBase
  have hslack : (if 1024 * 960 < n then 0 else 4096) ≤ 4096 := by
    split <;> omega
  have htables : tablesBelow n ≤ (n + 1023) / 1024 := by
    unfold tablesBelow
    split <;> omega
  unfold Kernel.lastTable
  omega

theorem PagingReady.last_le {o t : Kernel} (h : PagingReady o n t)
    (hle : o.bootBase ≤ 0x0efc1000) : o.lastTable n + 36 ≤ cloneAddress := by
  have hloop := h.loop
  have hslack : (if 1024 * 960 < n then 0 else 4096) ≤ 4096 := by
    split <;> omega
  have htables : tablesBelow n ≤ 60 := by
    unfold tablesBelow at *
    split at hloop <;> split <;> omega
  unfold Kernel.lastTable cloneAddress
  omega

theorem PagingReady.le_last {o t : Kernel} (h : PagingReady o n t)
    (hlt : 0x0efc1000 < o.bootBase) (hle : o.bootBase ≤ cloneAddress) :
    cloneAddress ≤ o.lastTable n := by
  have hloop := h.loop
  have hmod := bootBase_mod o
  unfold cloneAddress at *
  have htables : 60 ≤ tablesBelow n ∧ ¬1024 * 960 < n := by
    unfold tablesBelow at *
    split at hloop <;> split <;> omega
  unfold Kernel.lastTable
  rw [if_neg htables.2]
  omega

/-! ## Placing them all -/

theorem pagingRun_ends (depth : ℕ) (sections : List SectionHeader) (m : Mem)
    (hs : scan.Sound b.imageEnd) (hlen : 16 * 1024 * 1024 < scan.regionLen) :
    Ends (pagingRun depth b sections m scan)
      (fun _ t => ∃ n, PagingReady (afterInitFrames (earlyBoot b sections m).low.mem scan) n t)
      (Stopped (afterInitFrames (earlyBoot b sections m).low.mem scan)) :=
  initPaging_ends (afterInitFrames_hasRoom hs hlen _) rfl depth

theorem earlyBoot_none (h : NoStrtab b.flags sections) : (earlyBoot b sections m).linear = [] :=
  initPanicBacktrace_none _ h

theorem placed_of_stopped (hstart : 0x100000 < b.imageEnd) (hs : scan.Sound b.imageEnd)
    (hlen : 16 * 1024 * 1024 < scan.regionLen) (hno : NoStrtab b.flags sections)
    (h : Stopped (afterInitFrames (earlyBoot b sections m).low.mem scan)
      (bootKernel depth b sections m scan)) : PlacedBlocks depth b sections m scan := by
  obtain ⟨blocks, hlin, hlaid, _⟩ := h.linear
  have hall := hlaid.mono (Nat.le_refl _)
    (Nat.le_max_left _ (afterInitFrames (earlyBoot b sections m).low.mem scan).bootBase)
  have hlinear := laid_linear hs hlen hall (Nat.le_max_right _ _)
  have hfirst := h.first
  obtain ⟨hregion, himage⟩ := placed_of_laid (m := (earlyBoot b sections m).low.mem) hstart hs hlen
    hlinear (by omega)
  have hblocks : linearBlocks depth b sections m scan =
      blocks ++ (afterInitFrames (earlyBoot b sections m).low.mem scan).linear := by
    unfold linearBlocks
    rw [hlin, earlyBoot_none hno, List.append_nil]
  have hheap : heapBlocks depth b sections m scan = [] := by
    unfold heapBlocks
    rw [h.heap]
    rfl
  rw [← hblocks] at hregion himage hlinear
  refine ⟨hregion, ?_, ?_, ?_⟩
  · rw [hheap]
    exact fun x hx => absurd hx List.not_mem_nil
  · rw [hheap]
    exact hlinear.apart
  · rw [hheap]
    exact himage

/-- A boot that returns, with the heap's first block clear of the others. -/
theorem placed_of_ready (hstart : 0x100000 < b.imageEnd) (hs : scan.Sound b.imageEnd)
    (hlen : 16 * 1024 * 1024 < scan.regionLen) (hno : NoStrtab b.flags sections)
    (hclear : HeapClear b scan)
    (h : PagingReady (afterInitFrames (earlyBoot b sections m).low.mem scan) n
      (bootKernel depth b sections m scan)) : PlacedBlocks depth b sections m scan := by
  obtain ⟨blocks, hlin, hlaid, _⟩ := h.linear
  obtain ⟨hge, hle⟩ := h.extent (afterInitFrames_hasRoom hs hlen _)
  have hlinear := laid_linear hs hlen hlaid hge
  obtain ⟨hregion, himage⟩ := placed_of_laid hstart hs hlen hlinear hle
  have hblocks : linearBlocks depth b sections m scan =
      blocks ++ (afterInitFrames (earlyBoot b sections m).low.mem scan).linear := by
    unfold linearBlocks
    rw [hlin, earlyBoot_none hno, List.append_nil]
  have hheap : heapBlocks depth b sections m scan = [(cloneAddress, pageDirectorySize)] := h.live
  have hfar : ∀ x ∈ linearBlocks depth b sections m scan,
      Apart (cloneAddress, pageDirectorySize) x := by
    intro x hx
    rw [hblocks] at hx
    rcases hclear.2 with hbelow | habove
    · have hbase : (afterInitFrames (earlyBoot b sections m).low.mem scan).bootBase ≤ 0x0efc1000 := by
        unfold Kernel.bootBase
        rw [(afterInitFrames_first hs hlen _).1]
        unfold roundUp
        omega
      exact Or.inr ((hlinear.upper x hx).trans (h.last_le hbase))
    · exact Or.inl (habove.trans (hlinear.lower x hx))
  rw [← hblocks] at hregion himage hlinear
  refine ⟨hregion, ?_, ?_, ?_⟩
  · rw [hheap, h.start, h.stop]
    intro x hx
    rw [List.mem_singleton.mp hx]
    decide
  · rw [hheap]
    exact List.pairwise_cons.mpr ⟨hfar, hlinear.apart⟩
  · rw [hheap]
    intro x hx
    rcases List.mem_cons.mp hx with rfl | hx
    · refine Or.inr ?_
      have hend := hclear.1
      unfold kernelImage
      dsimp only
      omega
    · exact himage x hx

theorem heapClear_of_placed (hstart : 0x100000 < b.imageEnd) (hs : scan.Sound b.imageEnd)
    (hlen : 16 * 1024 * 1024 < scan.regionLen) (hp : PlacedBlocks depth b sections m scan)
    (h : PagingReady (afterInitFrames (earlyBoot b sections m).low.mem scan) n
      (bootKernel depth b sections m scan)) : HeapClear b scan := by
  obtain ⟨blocks, hlin, hlaid, hcov⟩ := h.linear
  obtain ⟨hfirst, hbitmap⟩ := afterInitFrames_first hs hlen (earlyBoot b sections m).low.mem
  have hheap : heapBlocks depth b sections m scan = [(cloneAddress, pageDirectorySize)] := h.live
  have hsize : pageDirectorySize = 8196 := rfl
  have hclone : cloneAddress = 0x0f003000 := rfl
  have hapart := hp.apart
  have himage := hp.image
  rw [hheap] at hapart himage
  have hfar := (List.pairwise_cons.mp hapart).1
  have hmem : ∀ x ∈ blocks ++ (afterInitFrames (earlyBoot b sections m).low.mem scan).linear,
      x ∈ linearBlocks depth b sections m scan := by
    intro x hx
    unfold linearBlocks
    rw [hlin]
    exact List.mem_append_left _ hx
  constructor
  · have hi := himage _ List.mem_cons_self
    unfold Apart kernelImage at hi
    dsimp only at hi
    omega
  · have hb := hfar _ (hmem (scan.baseAddr, bitmapWords scan) (List.mem_append_right _ (by
      rw [hbitmap]
      exact List.mem_singleton_self _)))
    unfold Apart at hb
    dsimp only at hb
    by_contra hnot
    have hround : (afterInitFrames (earlyBoot b sections m).low.mem scan).bootBase =
        roundUp (scan.baseAddr + bitmapWords scan) := by
      unfold Kernel.bootBase
      rw [hfirst]
    have hmod := bootBase_mod (afterInitFrames (earlyBoot b sections m).low.mem scan)
    have hreach : 0x0efc1000 < (afterInitFrames (earlyBoot b sections m).low.mem scan).bootBase ∧
        (afterInitFrames (earlyBoot b sections m).low.mem scan).bootBase ≤ cloneAddress := by
      unfold roundUp at hround
      omega
    have hlast := h.le_last hreach.1 hreach.2
    obtain ⟨x, hx, hle, hlt⟩ := hcov cloneAddress (by decide) hreach.2 (by omega)
    have hxa := hfar x (hmem x (List.mem_append_left _ hx))
    unfold Apart at hxa
    dsimp only at hxa
    omega

/-- The blocks of a boot are where they belong exactly if the boot loader passes no string table and,
when `init_mem` returns, the heap's first block is clear of the image and of what came before. -/
theorem placedBlocks_iff (depth : ℕ) (sections : List SectionHeader) (m : Mem) (hmap : ValidMap b)
    (hscan : readMap b = .ok scan) (hstart : 0x100000 < b.imageEnd) :
    PlacedBlocks depth b sections m scan ↔
      NoStrtab b.flags sections ∧
        ((∃ t, pagingRun depth b sections m scan = .ok () t) → HeapClear b scan) := by
  obtain ⟨hs, hlen⟩ := readMap_sound (by omega) hmap hscan
  have hends := pagingRun_ends depth sections m hs hlen
  constructor
  · intro hp
    constructor
    · by_contra hsome
      obtain ⟨size, hmem⟩ := initPanicBacktrace_some m hsome
      have hin := hp.region (0, size) (List.mem_append_right _ hmem)
      have himage := hs.image (by omega)
      omega
    · rintro ⟨t, ht⟩
      obtain ⟨n, hready⟩ := hends.ok ht
      have hkernel : bootKernel depth b sections m scan = t := by
        unfold bootKernel
        rw [ht]
        rfl
      rw [← hkernel] at hready
      exact heapClear_of_placed hstart hs hlen hp hready
  · rintro ⟨hno, hclear⟩
    cases hr : pagingRun depth b sections m scan with
    | ok _ t =>
      obtain ⟨n, hready⟩ := hends.ok hr
      have hkernel : bootKernel depth b sections m scan = t := by
        unfold bootKernel
        rw [hr]
        rfl
      rw [← hkernel] at hready
      exact placed_of_ready hstart hs hlen hno (hclear ⟨t, hr⟩) hready
    | error e t =>
      have hstop := hends.error hr
      have hkernel : bootKernel depth b sections m scan = t := by
        unfold bootKernel
        rw [hr]
        rfl
      rw [← hkernel] at hstop
      exact placed_of_stopped hstart hs hlen hno hstop

end Blocks

/-! ## A machine of 32 MiB -/

/-- 32 MiB of memory, with an image up to `0x10c000`. -/
def bootInfo32 (flags : ℕ) : BootInfo :=
  ⟨flags, [⟨0, 0xa0000, 1⟩, ⟨0x100000, 0x1f00000, 1⟩], 0x10c000⟩

def scan32 : Scan := ⟨0x10c000, 0x1ef4000, 0x1fa0000⟩

theorem bootInfo32_valid (flags : ℕ) : ValidMap (bootInfo32 flags) := by
  change ∀ e ∈ ([⟨0, 0xa0000, 1⟩, ⟨0x100000, 0x1f00000, 1⟩] : List MmapEntry),
    e.addr + e.len ≤ 2 ^ 64
  decide

theorem placedBlocks_iff_at_32MiB :
    PlacedBlocks 3 (bootInfo32 0x40) [] (fun _ => 0) scan32 ↔
      NoStrtab 0x40 [] ∧
        ((∃ t, pagingRun 3 (bootInfo32 0x40) [] (fun _ => 0) scan32 = .ok () t) →
          HeapClear (bootInfo32 0x40) scan32) :=
  placedBlocks_iff 3 [] _ (bootInfo32_valid 0x40) (by rfl) (by decide)

/-- A string table of 100 bytes goes to the block `[0, 108)`. -/
theorem not_placedBlocks_with_strtab :
    ¬∀ depth b sections m scan, ValidMap b → readMap b = .ok scan → 0x100000 < b.imageEnd →
      PlacedBlocks depth b sections m scan := by
  intro hall
  have hp := hall 3 (bootInfo32 0x60) [⟨".strtab", 0x10a000, 100⟩] (fun _ => 0) scan32
    (bootInfo32_valid 0x60) (by rfl) (by decide)
  have hmem : ((0, 108) : ℕ × ℕ) ∈
      linearBlocks 3 (bootInfo32 0x60) [⟨".strtab", 0x10a000, 100⟩] (fun _ => 0) scan32 :=
    List.mem_append_right _ (by
      rw [show (earlyBoot (bootInfo32 0x60) [⟨".strtab", 0x10a000, 100⟩] (fun _ => 0)).linear =
        [(0, 108)] from rfl]
      exact List.mem_singleton_self _)
  exact absurd (hp.region _ hmem).1 (by decide)

end Evos
