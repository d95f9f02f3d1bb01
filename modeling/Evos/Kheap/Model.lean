import Evos.Datastructs.OrderedArray
import Evos.Foundations.ByteMemory
import Evos.Foundations.Outcome

/-! # `kheap.c`

The kernel heap: blocks and holes with a 12-byte header in front (`magic`, `is_hole`, `size`) and an
8-byte footer behind (`magic`, `header`), and an index of the holes ordered by size.

`heap_alloc` is generic in the `Host` that maps the pages of a growing heap: the whole kernel
supplies `page_alloc(get_page(..))`, and the heap on its own supplies a host for which the page
tables exist and frames are available. -/

namespace Evos
open ByteMemory
set_option autoImplicit false

def kheapStart : ℕ := 0x0f000000
def kheapMaxAddress : ℕ := 0x0ffff000
def kheapInitialSize : ℕ := 0x00010000
def kheapIndexSize : ℕ := kheapInitialSize / 32
def kheapMagic : ℕ := 0xDEADBEEF

/-- `heap_t`. -/
structure Heap where
  index : OrderedArray ℕ
  allocatedStart : ℕ
  allocatedEnd : ℕ
  maxAddr : ℕ
  pagesUserMode : Bool
  pagesWriteable : Bool

/-- A heap and the memory its headers and footers live in. -/
structure Arena where
  heap : Heap
  mem : Mem

/-! ## `header_t` and `footer_t` -/

def headerMagic (m : Mem) (header : ℕ) : ℕ := load32 m header
def headerIsHole (m : Mem) (header : ℕ) : ℕ := load32 m (header + 4)
def headerSize (m : Mem) (header : ℕ) : ℕ := load32 m (header + 8)
def footerMagic (m : Mem) (footer : ℕ) : ℕ := load32 m footer
def footerHeader (m : Mem) (footer : ℕ) : ℕ := load32 m (footer + 4)

/-- Set the three fields of a header, in the order the code sets them. -/
def writeHeader (m : Mem) (header size : ℕ) (isHole : Bool) : Mem :=
  store32 (store32 (store32 m (header + 8) size) header kheapMagic) (header + 4)
    (if isHole then 1 else 0)

/-- Set the two fields of a footer. -/
def writeFooter (m : Mem) (footer header : ℕ) : Mem :=
  store32 (store32 m footer kheapMagic) (footer + 4) header

/-- `header_t_cmp`. -/
def headerLess (m : Mem) (a b : ℕ) : Bool := decide (headerSize m a < headerSize m b)

/-! ## Finding a hole -/

/-- `page_align_get_offset`: what to add to `addr` so that the usable region behind a header there
is page-aligned, and a header with its footer fits in front. -/
def pageAlignGetOffset (addr : ℕ) : ℕ :=
  let addr := u32 (addr + 12)
  if addr % 4096 ≠ 0 then
    let offset := 4096 - addr % 4096
    if offset ≤ 12 + 8 then offset + 4096 else offset
  else 0

/-- The test of `find_hole`'s loop; the page-aligned one compares signed words. -/
def holeFits (m : Mem) (size : ℕ) (pageAlign : Bool) (header : ℕ) : Bool :=
  if pageAlign then
    decide (s32 (headerSize m header) - s32 (pageAlignGetOffset header) ≥ s32 size)
  else decide (headerSize m header ≥ size)

/-- `find_hole`: the first index that fits; `none` is the `-1` of the code. -/
def findHole (a : Arena) (size : ℕ) (pageAlign : Bool) : Option ℕ :=
  a.heap.index.array.findIdx? (holeFits a.mem size pageAlign)

/-! ## `heap_create` -/

/-- Round up to a page, as the code does it in 32 bits. -/
def pageRoundUp (n : ℕ) : ℕ := if n % 4096 ≠ 0 then u32 (n / 4096 * 4096 + 4096) else n

/-- `heap_create`: the index storage first, then one hole over the page-aligned rest. -/
def heapCreate (mem : Mem) (start stop maxAddr : ℕ) (pagesUserMode pagesWriteable : Bool) :
    Except Panic Arena := do
  assert (start % 4096 = 0) "Heap start address is not page-aligned"
  assert (stop % 4096 = 0) "Heap end   address is not page-aligned"
  let mem := fill mem start 0 (4 * kheapIndexSize)
  let index := orderedArrayCreateAt kheapIndexSize
  let start := pageRoundUp (u32 (start + 4 * kheapIndexSize))
  let mem := writeHeader mem start (sub32 stop start) true
  let index ← orderedArrayInsert (headerLess mem) index start
  return ⟨⟨index, start, stop, maxAddr, pagesUserMode, pagesWriteable⟩, mem⟩

/-! ## `heap_alloc` -/

/-- What the heap needs from its surroundings. -/
structure Host (σ : Type) where
  /-- The heap and its memory inside the state. -/
  arena : σ → Arena
  setArena : Arena → σ → σ
  /-- `page_alloc(get_page(address, TRUE, kernel_directory), ..)`. -/
  mapPage : ℕ → EStateM Panic σ Unit
  /-- The first accesses to the addresses a growing heap has just mapped. -/
  enterPages : ℕ → ℕ → EStateM Panic σ Unit

section Alloc
variable {σ : Type} (H : Host σ)

/-- Run a step of the allocator on the arena inside the state. -/
def Host.onArena {α : Type} (f : Arena → Except Panic (α × Arena)) : EStateM Panic σ α := fun s =>
  match f (H.arena s) with
  | .ok (x, a) => .ok x (H.setArena a s)
  | .error e => .error e s

/-- The loop of `expand`: map `n` pages from offset `i` on. -/
def mapPages (start : ℕ) : ℕ → ℕ → EStateM Panic σ Unit
  | _, 0 => pure ()
  | i, n + 1 => do
    H.mapPage (u32 (start + i))
    mapPages start (i + 4096) n

/-- `heap->allocated_end = heap->allocated_start + new_size`. -/
def setAllocatedEnd (newSize : ℕ) (a : Arena) : Except Panic (Unit × Arena) :=
  .ok ((), { a with heap := { a.heap with
    allocatedEnd := u32 (a.heap.allocatedStart + newSize) } })

def expand (newSize : ℕ) : EStateM Panic σ Unit := do
  let newSize := pageRoundUp newSize
  let heap := (H.arena (← get)).heap
  let oldSize := sub32 heap.allocatedEnd heap.allocatedStart
  H.onArena fun a => do
    assert (newSize > oldSize) "Tried to expand heap to a smaller size"
    assert (u32 (heap.allocatedStart + newSize) ≤ heap.maxAddr)
      "Cannot expand heap: not enough free space available"
    return ((), a)
  mapPages H heap.allocatedStart oldSize ((newSize - oldSize + 4095) / 4096)
  H.onArena (setAllocatedEnd newSize)

/-- The hole `heap_alloc` makes of the space `expand` added (lines 171 to 183). -/
def addHole (oldAllocatedEnd oldLength : ℕ) (a : Arena) : Except Panic (Unit × Arena) := do
  let newLength := sub32 a.heap.allocatedEnd a.heap.allocatedStart
  let mem := writeHeader a.mem oldAllocatedEnd (sub32 newLength oldLength) true
  let mem := writeFooter mem (sub32 a.heap.allocatedEnd 8) oldAllocatedEnd
  let index ← orderedArrayInsert (headerLess mem) a.heap.index oldAllocatedEnd
  return ((), ⟨{ a.heap with index := index }, mem⟩)

/-- The hole on the left of a page-aligned block (lines 204 to 228). It returns the address and
the size of the rest. `left_header` and `orig_hole_header` are the same pointer, so the size just
written to the left header is decremented again. -/
def splitLeft (holeIndex origHoleAddr origHoleSize : ℕ) (a : Arena) :
    Except Panic ((ℕ × ℕ) × Arena) := do
  let offset := pageAlignGetOffset origHoleAddr
  let newAddr := u32 (origHoleAddr + offset)
  assert (offset > 12 + 8) "Hit a known bug in heap_alloc() due to page-aligning."
  let mem := writeHeader a.mem origHoleAddr offset true
  let mem := writeFooter mem (sub32 newAddr 8) origHoleAddr
  let mem := store32 mem (origHoleAddr + 8) (sub32 (headerSize mem origHoleAddr) offset)
  let index ← orderedArrayRemove a.heap.index holeIndex
  let index ← orderedArrayInsert (headerLess mem) index origHoleAddr
  return ((newAddr, sub32 origHoleSize offset), ⟨{ a.heap with index := index }, mem⟩)

/-- Take the hole itself out of the index (line 231). -/
def takeHole (holeIndex origHoleAddr origHoleSize : ℕ) (a : Arena) :
    Except Panic ((ℕ × ℕ) × Arena) := do
  let index ← orderedArrayRemove a.heap.index holeIndex
  return ((origHoleAddr, origHoleSize), { a with heap := { a.heap with index := index } })

/-- The new block at `addr` and the hole on its right, if any (lines 239 to 271). -/
def placeBlock (addr size newSize : ℕ) (a : Arena) : Except Panic (ℕ × Arena) := do
  let mem := writeHeader a.mem addr newSize false
  let blockFooter := sub32 (u32 (addr + newSize)) 8
  let mem := writeFooter mem blockFooter addr
  assert (blockFooter < a.heap.allocatedEnd) "Fell over the edge of the heap"
  if sub32 size newSize > 0 then
    assert (sub32 size newSize > 12 + 8)
      "We have free space in the hole, but not enough to make a new one"
    let rightHeader := u32 (addr + newSize)
    let mem := writeHeader mem rightHeader (sub32 size newSize) true
    let rightFooter := sub32 (u32 (addr + size)) 8
    let mem := writeFooter mem rightFooter rightHeader
    assert (rightFooter < a.heap.allocatedEnd) "Fell over the edge of the heap"
    let index ← orderedArrayInsert (headerLess mem) a.heap.index rightHeader
    return (u32 (addr + 12), ⟨{ a.heap with index := index }, mem⟩)
  else
    return (u32 (addr + 12), { a with mem := mem })

/-- Take the chosen hole, or what follows its left part, out of the index (lines 204 to 232). -/
def claimHole (holeIndex origHoleAddr origHoleSize : ℕ) (pageAlign : Bool) (a : Arena) :
    Except Panic ((ℕ × ℕ) × Arena) :=
  if pageAlign = true ∧ u32 (origHoleAddr + 12) % 4096 ≠ 0 then
    splitLeft holeIndex origHoleAddr origHoleSize a
  else takeHole holeIndex origHoleAddr origHoleSize a

/-- `heap_alloc` from the chosen hole on (lines 189 to 271). -/
def carve (holeIndex newSize : ℕ) (pageAlign : Bool) (a : Arena) : Except Panic (ℕ × Arena) := do
  let origHoleAddr ← orderedArrayIndex a.heap.index holeIndex
  let origHoleSize := headerSize a.mem origHoleAddr
  -- a rest too small for a header and a footer goes to the block
  let newSize := if sub32 origHoleSize newSize ≤ 12 + 8 then origHoleSize else newSize
  let ((addr, size), a) ← claimHole holeIndex origHoleAddr origHoleSize pageAlign a
  placeBlock addr size newSize a

/-- The growth branch of `heap_alloc` (lines 163 to 187). -/
def growHeap (newSize : ℕ) (pageAlign : Bool) : EStateM Panic σ ℕ := do
  let heap := (H.arena (← get)).heap
  let oldLength := sub32 heap.allocatedEnd heap.allocatedStart
  expand H (u32 (oldLength + newSize + 4096))
  H.enterPages heap.allocatedEnd (H.arena (← get)).heap.allocatedEnd
  H.onArena (addHole heap.allocatedEnd oldLength)
  match findHole (H.arena (← get)) newSize pageAlign with
  | some holeIndex => return holeIndex
  | none => throw (.assertion "Failed to find newly allocated hole")

/-- The hole to carve: one that is there, or the one a growing heap makes. -/
def chooseHole (newSize : ℕ) (pageAlign : Bool) : EStateM Panic σ ℕ := do
  match findHole (H.arena (← get)) newSize pageAlign with
  | some holeIndex => return holeIndex
  | none => growHeap H newSize pageAlign

def heapAlloc (size : ℕ) (pageAlign : Bool) : EStateM Panic σ ℕ := do
  let newSize := u32 (size + 12 + 8)
  let holeIndex ← chooseHole H newSize pageAlign
  H.onArena (carve holeIndex newSize pageAlign)

end Alloc

/-- The heap on its own: the page tables of the pages `expand` maps exist, frames are available
and the mapped pages can be accessed. -/
def Arena.host : Host Arena where
  arena := id
  setArena a _ := a
  mapPage _ := pure ()
  enterPages _ _ := pure ()

/-! ## `heap_free` -/

/-- The test in front of the left merge (lines 292 to 295). -/
def MergesLeft (header : ℕ) (a : Arena) : Prop :=
  sub32 header 8 > a.heap.allocatedStart ∧ footerMagic a.mem (sub32 header 8) = kheapMagic ∧
    headerIsHole a.mem (footerHeader a.mem (sub32 header 8)) ≠ 0

instance (header : ℕ) (a : Arena) : Decidable (MergesLeft header a) :=
  inferInstanceAs (Decidable (_ ∧ _ ∧ _))

/-- The left merge (lines 292 to 309): the header to go on with, and whether it is to be added to
the index. The footer in front is read again at each use, as the code does. -/
def mergeLeft (header footer : ℕ) (a : Arena) : Except Panic ((ℕ × Bool) × Arena) :=
  if MergesLeft header a then do
    let left := sub32 header 8
    assert (headerMagic a.mem (footerHeader a.mem left) = kheapMagic)
      "left header magic does not match"
    let mem := store32 a.mem (footer + 4) (footerHeader a.mem left)
    let mem := store32 mem (footerHeader mem left + 8)
      (u32 (headerSize mem (footerHeader mem left) + headerSize mem header))
    let index := orderedArrayChangedElement (headerLess mem) a.heap.index
    return ((footerHeader mem left, false), ⟨{ a.heap with index := index }, mem⟩)
  else return ((header, true), a)

/-- The test in front of the right merge (lines 312 to 315). -/
def MergesRight (header : ℕ) (a : Arena) : Prop :=
  u32 (header + headerSize a.mem header) < a.heap.allocatedEnd ∧
    headerMagic a.mem (u32 (header + headerSize a.mem header)) = kheapMagic ∧
    headerIsHole a.mem (u32 (header + headerSize a.mem header)) ≠ 0

instance (header : ℕ) (a : Arena) : Decidable (MergesRight header a) :=
  inferInstanceAs (Decidable (_ ∧ _ ∧ _))

/-- The right merge (lines 312 to 334). -/
def mergeRight (header : ℕ) (a : Arena) : Except Panic Arena :=
  if MergesRight header a then do
    let right := u32 (header + headerSize a.mem header)
    let mem := store32 a.mem (header + 8) (u32 (headerSize a.mem header + headerSize a.mem right))
    let footer := sub32 (u32 (header + headerSize mem header)) 8
    assert (footerMagic mem footer = kheapMagic) "right footer magic does not match"
    let mem := store32 mem (footer + 4) header
    let i := a.heap.index.array.findIdx (· == right)
    assert (i ≠ a.heap.index.size) "Cannot find right hole in index"
    let index ← orderedArrayRemove a.heap.index i
    return ⟨{ a.heap with index := index }, mem⟩
  else return a

def heapFree (ptr : ℕ) (a : Arena) : Except Panic Arena :=
  if ptr = 0 then return a
  else do
    let header := sub32 ptr 12
    let footer := sub32 (u32 (header + headerSize a.mem header)) 8
    assert (headerMagic a.mem header = kheapMagic) "header magic does not match"
    assert (footerMagic a.mem footer = kheapMagic) "footer magic does not match"
    let a := { a with mem := store32 a.mem (header + 4) 1 }
    let ((header, doAdd), a) ← mergeLeft header footer a
    let a ← mergeRight header a
    if doAdd then
      let index ← orderedArrayInsert (headerLess a.mem) a.heap.index header
      return { a with heap := { a.heap with index := index } }
    else return a

end Evos
