import Evos.Mm.Footprint
import Evos.Mm.Paging

/-! # `init_paging` and `init_mem`

The kernel from the multiboot memory map to the paged heap. -/

namespace Evos
open ByteMemory Outcome
set_option autoImplicit false

/-! ## `init_paging` -/

section Depth
variable (depth : ℕ)

/-- The page directory of the kernel. -/
def makeKernelDirectory : KM Unit := do
  let block ← kmallocAp depth pageDirectorySize
  modify fun s => { s.addDirectory block.1 block.2 with
    kernelDirectory := block.1, created := [block.1] }

/-- `get_page(i, TRUE, kernel_directory)` for `n` pages from `i` on. -/
def prepareHeapPages : ℕ → ℕ → KM Unit
  | _, 0 => return ()
  | i, n + 1 => do
    let _ ← getPage depth i (← get).kernelDirectory
    prepareHeapPages (i + 4096) n

/-- The identity mapping from `i` on. The bound is read again in each round, as `get_page` moves it;
more than `n` rounds do not end. -/
def identityMap : ℕ → ℕ → KM Unit
  | 0, _ => throw .stackOverflow
  | n + 1, i => do
    if i < u32 ((← get).memFirstUnused + 4096 * 4) then
      let page ← getPage depth i (← get).kernelDirectory
      pageAlloc page true
      let s ← get
      match page with
      | none => throw .nullPointer
      | some (t, j) =>
        if (s.spaces.tables t j).address = i / 4096 then identityMap n (u32 (i + 4096))
        else throw (.assertion "Cannot identity-map lower memory\n")
    else return ()

/-- `page_alloc(get_page(i, FALSE, kernel_directory), ..)` for `n` pages from `i` on. -/
def mapHeapPages : ℕ → ℕ → KM Unit
  | _, 0 => return ()
  | i, n + 1 => do
    let s ← get
    pageAlloc (s.findPage i s.kernelDirectory) true
    mapHeapPages (i + 4096) n

/-- `cloning_buffer_page`. -/
def makeCloningPage : KM Unit := do
  match ← getPage depth pageCloningBuffer (← get).kernelDirectory with
  | none => throw .nullPointer
  | some page =>
    modify fun s => { s with cloningBufferPage := page }
    pageAlloc (some page) true

/-- `kernel_heap = heap_create(..)`. -/
def makeHeap : KM Unit := do
  let _ ← kmalloc depth heapSize
  let s ← get
  match heapCreate s.arena.mem kheapStart (kheapStart + kheapInitialSize) kheapMaxAddress false true
  with
  | .ok a => set { s with heap := ⟨a, []⟩, kernelHeap := true }
  | .error e => throw e

/-- `init_paging` up to the end of the identity mapping. -/
def initIdentity : KM Unit := do
  makeKernelDirectory depth
  prepareHeapPages depth kheapStart (kheapInitialSize / 4096)
  identityMap depth (2 ^ 20 + 1) 0

/-- `init_paging` behind the identity mapping, until `kernel_heap` is set. -/
def initHeap : KM Unit := do
  mapHeapPages kheapStart (kheapInitialSize / 4096)
  makeCloningPage depth
  switchPageDirectory (← get).kernelDirectory
  makeHeap depth

/-- The directory that `init_paging` goes on with. -/
def enterClone : KM Unit := do
  let dir ← cloneDirectory depth (← get).kernelDirectory
  switchPageDirectory dir

def initPaging : KM Unit := do
  initIdentity depth
  initHeap depth
  enterClone depth

end Depth

/-! ## `init_mem` -/

/-- `multiboot_memory_map_t`; `addr` and `len` have 64 bits. -/
structure MmapEntry where
  addr : ℕ
  len : ℕ
  type : ℕ
  deriving DecidableEq

/-- What the loop of `init_mem` has found. -/
structure Scan where
  baseAddr : ℕ
  regionLen : ℕ
  memTotalBytes : ℕ
  deriving DecidableEq

/-- One round of the loop; `imageEnd` is the address of `__end`. -/
def scanEntry (imageEnd : ℕ) (s : Scan) (e : MmapEntry) : Except Panic Scan :=
  if e.addr / 2 ^ 32 ≠ 0 ∨ (e.addr + e.len + 2 ^ 64 - 1) % 2 ^ 64 / 2 ^ 32 ≠ 0 then
    .error (.message "Encountered a 64-bit memory region")
  else
    let s := { s with memTotalBytes := u32 (s.memTotalBytes + e.len) }
    if e.type = 1 then
      let start := u32 e.addr
      let stop := u32 (start + e.len)
      if stop ≥ imageEnd then
        let start := if start < imageEnd then imageEnd else start
        if sub32 stop start > s.regionLen then
          .ok { s with baseAddr := start, regionLen := sub32 stop start }
        else .ok s
      else .ok s
    else .ok s

/-- The loop of `init_mem`. -/
def scanMap (imageEnd : ℕ) : Scan → List MmapEntry → Except Panic Scan
  | s, [] => .ok s
  | s, e :: es =>
    match scanEntry imageEnd s e with
    | .ok s => scanMap imageEnd s es
    | .error e => .error e

/-- What `init_mem` reads: the validity flag of the memory map, its entries and `__end`. -/
structure BootInfo where
  flags : ℕ
  entries : List MmapEntry
  imageEnd : ℕ

/-- `init_mem` up to the call of `init_frames`. -/
def readMap (b : BootInfo) : Except Panic Scan :=
  if b.flags.testBit 6 then
    match scanMap b.imageEnd ⟨0, 0, 0⟩ b.entries with
    | .ok s => if s.regionLen > 16 * 1024 * 1024 then .ok s else .error (.message "Insufficient memory")
    | .error e => .error e
  else .error (.message "multiboot's mmap is broken")

/-- The kernel when `init_frames` returns: the words of the bitmap hold what memory `m` held, but for
the bytes that were zeroed. -/
def afterInitFrames (m : Mem) (scan : Scan) : Kernel where
  heap := ⟨⟨⟨⟨[], 0⟩, 0, 0, 0, false, false⟩, m⟩, []⟩
  kernelHeap := false
  memFirstUnused := (initFrames scan.memTotalBytes ⟨m, scan.baseAddr⟩).2.memFirstUnused
  frames := (List.range (frameBitmap scan.memTotalBytes ⟨m, scan.baseAddr⟩).size).map
    ((Words.atBase scan.baseAddr).read (memAfterInit scan.memTotalBytes ⟨m, scan.baseAddr⟩))
  spaces := ⟨fun _ => PageDirectory.zero, fun _ => PageTable.zero⟩
  kernelDirectory := 0
  currentDirectory := 0
  cr3 := 0
  cloningBufferPage := (0, 0)
  ram := fun _ _ => 0
  tasks := fun _ => Task.zero
  currentTask := 0
  linear := [(scan.baseAddr, (frameBitmap scan.memTotalBytes ⟨m, scan.baseAddr⟩).size)]
  paging := []
  created := []
  midpoints := []

def initMem (depth : ℕ) (b : BootInfo) (m : Mem) : Except Panic Kernel :=
  match readMap b with
  | .ok scan =>
    match (initPaging depth).run (afterInitFrames m scan) with
    | .ok _ s => .ok s
    | .error e _ => .error e
  | .error e => .error e

end Evos
