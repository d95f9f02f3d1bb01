import Evos.Mm.Kernel

/-! # `kmalloc.c` and `mm/paging.c`

`kmalloc` grows the heap, growing the heap calls `get_page`, and `get_page` calls `kmalloc`. The
recursion is bounded by `depth`, the number of nested calls the kernel stack has room for. -/

namespace Evos
open ByteMemory Outcome
set_option autoImplicit false

/-! ## Frames and pages -/

/-- `frame_alloc` on the words of the kernel. -/
def allocFrame : KM ℕ := fun s =>
  match frameAlloc Words.list s.frames.length s.frames with
  | .ok (frame, frames) => .ok frame { s with frames := frames }
  | .error e => .error e s

/-- `page_alloc`; the user bit is always set. -/
def pageAlloc (page : Option (ℕ × ℕ)) (writeable : Bool) : KM Unit :=
  match page with
  | none => throw .nullPointer
  | some (t, i) => do
    if ((← get).spaces.tables t i).address ≠ 0 then return ()
    else
      let frame ← allocFrame
      modify (·.setPage t i ⟨true, writeable, true, frame % 2 ^ 20⟩)

def pageFree (page : Option (ℕ × ℕ)) : KM Unit :=
  match page with
  | none => throw .nullPointer
  | some (t, i) => modify fun s =>
    let page := s.spaces.tables t i
    { s with frames := frameFree Words.list s.frames.length page.address s.frames }.setPage t i
      { page with address := 0, present := false }

/-- `get_page` where the table is there, or is not to be created. -/
def Kernel.findPage (s : Kernel) (address dir : ℕ) : Option (ℕ × ℕ) :=
  if (s.spaces.dirs dir).tables (tableIndex address) ≠ 0 then
    some ((s.spaces.dirs dir).tables (tableIndex address), pageIndex address)
  else none

/-- The table `get_page` creates: enter it, clear it, enter its physical address. -/
def Kernel.addTable (dir index table physical : ℕ) (s : Kernel) : Kernel :=
  let s := s.setTable table PageTable.zero
  let s := s.setDir dir ((s.spaces.dirs dir).setEntry index table (physical ||| 7))
  { s with paging := table :: s.paging }

/-- `get_page(address, TRUE, dir)`, given `kmalloc_ap`. -/
def getPageWith (kmallocAp : ℕ → KM (ℕ × ℕ)) (address dir : ℕ) : KM (Option (ℕ × ℕ)) := do
  if ((← get).spaces.dirs dir).tables (tableIndex address) ≠ 0 then
    return (← get).findPage address dir
  else
    let block ← kmallocAp pageTableSize
    modify (·.addTable dir (tableIndex address) block.1 block.2)
    return (← get).findPage address dir

/-! ## The heap of the kernel -/

/-- An access through the loaded directory. -/
def touch (address : ℕ) : KM Unit := do
  match (← get).spaces.translate (← get).cr3 address with
  | some _ => return ()
  | none => throw (.pageFault address)

/-- The kernel around its heap: `expand` maps pages of `kernel_directory`, and the new header and
footer are the first accesses to them. -/
def kernelHost (getPage : ℕ → ℕ → KM (Option (ℕ × ℕ))) : Host Kernel where
  arena := Kernel.arena
  setArena := Kernel.setArena
  mapPage address := do
    let page ← getPage address (← get).kernelDirectory
    pageAlloc page (← get).arena.heap.pagesWriteable
  enterPages oldEnd newEnd := do
    modify fun s => { s with midpoints := s.midpoint :: s.midpoints }
    touch oldEnd
    touch (sub32 newEnd 8)

/-! ## `kmalloc` -/

/-- The physical address `__kmalloc` reports: that of the first page, and the offset in it. -/
def physicalOf (address : ℕ) : KM ℕ := do
  match (← get).findPage address (← get).kernelDirectory with
  | none => throw .nullPointer
  | some (t, i) => return ((← get).spaces.tables t i).address * 4096 + address % 4096

/-- The heap handed out a block. -/
def Kernel.tookBlock (new size : ℕ) (s : Kernel) : Kernel :=
  { s with heap := { s.heap with live := (new, size) :: s.heap.live } }

/-- `__kmalloc` before the heap exists. -/
def Kernel.tookLinear (size : ℕ) (align : Bool) (s : Kernel) : Kernel :=
  { s with
    memFirstUnused := (linearKmalloc size align s.memFirstUnused).2
    linear := ((linearKmalloc size align s.memFirstUnused).1, size) :: s.linear }

/-- `__kmalloc`; the physical address is 0 where it is not asked for. -/
def kmallocAt : ℕ → ℕ → Bool → Bool → KM (ℕ × ℕ)
  | 0, _, _, _ => throw .stackOverflow
  | depth + 1, size, align, wantPhysical => do
    let s ← get
    if s.kernelHeap then
      let new ← heapAlloc (kernelHost (getPageWith fun n => kmallocAt depth n true true)) size align
      modify (·.tookBlock new size)
      if wantPhysical then
        let physical ← physicalOf new
        return (new, physical)
      else return (new, 0)
    else
      modify (·.tookLinear size align)
      return ((linearKmalloc size align s.memFirstUnused).1,
        (linearKmalloc size align s.memFirstUnused).1)

section Depth
variable (depth : ℕ)

def kmalloc (size : ℕ) : KM (ℕ × ℕ) := kmallocAt depth size false false
def kmallocA (size : ℕ) : KM (ℕ × ℕ) := kmallocAt depth size true false
def kmallocAp (size : ℕ) : KM (ℕ × ℕ) := kmallocAt depth size true true

/-- `get_page(address, TRUE, dir)`. -/
def getPage (address dir : ℕ) : KM (Option (ℕ × ℕ)) := getPageWith (kmallocAp depth) address dir

/-- The blocks handed out without the one at `ptr`. -/
def HeapState.without (s : HeapState) (ptr : ℕ) : List (ℕ × ℕ) :=
  match s.live.find? fun block => block.1 == ptr with
  | some block => s.live.erase block
  | none => s.live

def kfree (ptr : ℕ) : KM Unit := fun s =>
  if s.kernelHeap then
    match heapFree ptr s.arena with
    | .ok a => .ok () { s with heap := ⟨a, s.heap.without ptr⟩ }
    | .error e => .error e s
  else .ok () s

/-! ## Copying to a physical page -/

/-- The cloning page is pointed at a frame. -/
def Kernel.pointCloningPage (frame : ℕ) (s : Kernel) : Kernel :=
  let page := s.spaces.tables s.cloningBufferPage.1 s.cloningBufferPage.2
  s.setPage s.cloningBufferPage.1 s.cloningBufferPage.2
    { page with address := frame % 2 ^ 20, present := true }

/-- Write bytes behind an offset of a frame. -/
def Kernel.writeRam (frame offset size : ℕ) (src : ℕ → UInt8) (s : Kernel) : Kernel :=
  { s with ram := fun f o =>
      if f = frame ∧ offset ≤ o ∧ o < offset + size then src (o - offset) else s.ram f o }

/-- `memcpy` to the cloning page, through the loaded directory. -/
def writeCloningPage (offset size : ℕ) (src : ℕ → UInt8) : KM Unit := do
  match (← get).spaces.translate (← get).cr3 pageCloningBuffer with
  | none => throw (.pageFault pageCloningBuffer)
  | some frame => modify (·.writeRam frame offset size src)

def mmMemcpyPhysical (destPhysical : ℕ) (src : ℕ → UInt8) (size : ℕ) : KM Unit := do
  if destPhysical % 4096 + size > 0x1000 then
    throw (.message "mm_memcpy_physical() has not been implemented properly")
  else
    modify (·.pointCloningPage (destPhysical / 4096))
    writeCloningPage (destPhysical % 4096) size src

/-- `clone_page_to_physical`: the source is read through the loaded directory once the cloning page
has moved. -/
def clonePageToPhysical (srcVirtual destPhysical : ℕ) : KM Unit := do
  modify (·.pointCloningPage (destPhysical / 4096))
  match (← get).spaces.translate (← get).cr3 srcVirtual with
  | none => throw (.pageFault srcVirtual)
  | some frame =>
    let s ← get
    writeCloningPage 0 4096 (s.ram frame)

/-! ## Cloning -/

/-- The loop of `clone_table` with `n` pages to go. -/
def clonePages (index src dest : ℕ) : ℕ → ℕ → KM Unit
  | _, 0 => return ()
  | i, n + 1 => do
    let page := (← get).spaces.tables src i
    if page.address ≠ 0 then
      pageAlloc (some (dest, i)) page.writeable
      clonePageToPhysical ((index * 1024 + i) * 4096) (((← get).spaces.tables dest i).address * 4096)
    clonePages index src dest (i + 1) n

/-- `clone_table`: the new table and its physical address. -/
def cloneTable (index src : ℕ) : KM (ℕ × ℕ) := do
  let block ← kmallocAp depth pageTableSize
  modify fun s => { s.setTable block.1 PageTable.zero with paging := block.1 :: s.paging }
  clonePages index src block.1 0 1024
  return block

/-- One entry of `clone_directory`. -/
def cloneEntry (src dir i : ℕ) : KM Unit := do
  let s ← get
  let table := (s.spaces.dirs src).tables i
  if table ≠ 0 then
    if (s.spaces.dirs s.kernelDirectory).tables i = table then
      modify fun s => s.setDir dir ((s.spaces.dirs dir).setEntry i table
        ((s.spaces.dirs src).tablesPhysicalAddr i))
    else
      let copy ← cloneTable depth i table
      modify fun s => s.setDir dir ((s.spaces.dirs dir).setEntry i copy.1 (copy.2 ||| 7))
  else return ()

/-- The loop of `clone_directory` with `n` entries to go. -/
def cloneEntries (src dir : ℕ) : ℕ → ℕ → KM Unit
  | _, 0 => return ()
  | i, n + 1 => do
    cloneEntry depth src dir i
    cloneEntries src dir (i + 1) n

/-- A directory just allocated: cleared, with the physical address of its second half. -/
def Kernel.addDirectory (dir physical : ℕ) (s : Kernel) : Kernel :=
  { s.setDir dir { PageDirectory.zero with ismetaTablesPhysicalAddr := u32 (physical + 4096) } with
    paging := dir :: s.paging }

def cloneDirectory (src : ℕ) : KM ℕ := do
  let block ← kmallocAp depth pageDirectorySize
  modify (·.addDirectory block.1 block.2)
  cloneEntries depth src block.1 0 1024
  modify fun s => { s with created := block.1 :: s.created }
  return block.1

def switchPageDirectory (dir : ℕ) : KM Unit :=
  modify fun s => { s with currentDirectory := dir, cr3 := dir }

end Depth

end Evos
