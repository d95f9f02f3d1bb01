import Evos.Kheap.Run
import Evos.Mm.Frame
import Evos.Task.Table

/-! # The state of the kernel

Page directories and page tables are kept by their virtual address, and the bitmap of the frames in
words of its own. The heap carries the blocks it handed out; `linear`, `paging`, `created` and
`midpoints` are records of the model that no function reads. -/

namespace Evos
open ByteMemory Outcome
set_option autoImplicit false

/-! ## Pages, tables and directories -/

/-- The fields of `page_t` the kernel uses. -/
structure Page where
  present : Bool
  writeable : Bool
  userMode : Bool
  address : ℕ
  deriving DecidableEq

def Page.zero : Page := ⟨false, false, false, 0⟩

/-- `page_table_t`. -/
abbrev PageTable := ℕ → Page

def PageTable.zero : PageTable := fun _ => Page.zero

/-- `page_directory_t`. -/
structure PageDirectory where
  tables : ℕ → ℕ
  tablesPhysicalAddr : ℕ → ℕ
  ismetaTablesPhysicalAddr : ℕ

def PageDirectory.zero : PageDirectory := ⟨fun _ => 0, fun _ => 0, 0⟩

/-- `sizeof(page_directory_t)`, `sizeof(page_table_t)` and `sizeof(heap_t)`. -/
def pageDirectorySize : ℕ := 8196
def pageTableSize : ℕ := 4096
def heapSize : ℕ := 36

def pageCloningBuffer : ℕ := 0xF0000000

/-- The table and the page of an address. -/
def tableIndex (address : ℕ) : ℕ := address / 4096 / 1024
def pageIndex (address : ℕ) : ℕ := address / 4096 % 1024

/-- The directories and tables as an address is translated through them. -/
structure Spaces where
  dirs : ℕ → PageDirectory
  tables : ℕ → PageTable

/-- The frame that a directory maps an address to. -/
def Spaces.translate (m : Spaces) (dir address : ℕ) : Option ℕ :=
  let table := (m.dirs dir).tables (tableIndex address)
  if table = 0 then none
  else if (m.tables table (pageIndex address)).present then
    some (m.tables table (pageIndex address)).address
  else none

/-- What is mapped where while the heap ends at `heapEnd`. -/
structure Midpoint where
  spaces : Spaces
  heapStart : ℕ
  heapEnd : ℕ
  kernelDirectory : ℕ
  inUse : List ℕ

/-! ## The kernel -/

structure Kernel where
  /-- `*kernel_heap`, and the blocks it handed out. -/
  heap : HeapState
  /-- Whether `kernel_heap` is set. -/
  kernelHeap : Bool
  memFirstUnused : ℕ
  /-- The words of the bitmap in `mm/frame.c`. -/
  frames : List ℕ
  spaces : Spaces
  kernelDirectory : ℕ
  currentDirectory : ℕ
  /-- The directory loaded in CR3. -/
  cr3 : ℕ
  /-- The table and the index of `cloning_buffer_page`. -/
  cloningBufferPage : ℕ × ℕ
  /-- The bytes of the frames, as far as they are written through the cloning page. -/
  ram : ℕ → ℕ → UInt8
  tasks : ℕ → Task
  currentTask : ℕ
  /-- The blocks `__linear_kmalloc` handed out, the latest first. -/
  linear : List (ℕ × ℕ)
  /-- The blocks that hold directories and tables. -/
  paging : List ℕ
  /-- The directories created. -/
  created : List ℕ
  /-- The states right behind each `expand`. -/
  midpoints : List Midpoint

abbrev KM := EStateM Panic Kernel

def Kernel.arena (s : Kernel) : Arena := s.heap.arena

def Kernel.setArena (a : Arena) (s : Kernel) : Kernel := { s with heap := { s.heap with arena := a } }

/-- Replace one directory. -/
def Kernel.setDir (d : ℕ) (x : PageDirectory) (s : Kernel) : Kernel :=
  { s with spaces := { s.spaces with dirs := fun y => if y = d then x else s.spaces.dirs y } }

/-- Replace one table. -/
def Kernel.setTable (t : ℕ) (x : PageTable) (s : Kernel) : Kernel :=
  { s with spaces := { s.spaces with tables := fun y => if y = t then x else s.spaces.tables y } }

/-- Replace one page of a table. -/
def Kernel.setPage (t i : ℕ) (x : Page) (s : Kernel) : Kernel :=
  s.setTable t fun j => if j = i then x else s.spaces.tables t j

/-- Set an entry of a directory. -/
def PageDirectory.setEntry (x : PageDirectory) (i table physical : ℕ) : PageDirectory :=
  { x with
    tables := fun j => if j = i then table else x.tables j
    tablesPhysicalAddr := fun j => if j = i then physical else x.tablesPhysicalAddr j }

def Kernel.alive (s : Kernel) (i : ℕ) : Bool := (s.tasks i).alive

/-- The directories of the live tasks. -/
def Kernel.taskDirectories (s : Kernel) : List ℕ :=
  (((List.range maxNumTasks).filter s.alive).map fun i => (s.tasks i).pageDirectory).filter (· ≠ 0)

/-- The page directories in use. -/
def Kernel.inUse (s : Kernel) : List ℕ := s.currentDirectory :: s.taskDirectories

def Kernel.midpoint (s : Kernel) : Midpoint :=
  ⟨s.spaces, s.arena.heap.allocatedStart, s.arena.heap.allocatedEnd, s.kernelDirectory, s.inUse⟩

end Evos
