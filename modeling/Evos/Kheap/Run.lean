import Evos.Foundations.Runs
import Evos.Kheap.Grow
import Evos.Kheap.Free

/-! # Runs of the heap

A heap and its live blocks, under allocations, frees of live blocks and writes into live blocks. -/

namespace Evos
open ByteMemory Segments BubblePass Outcome Runs
set_option autoImplicit false

/-- The heap with the blocks its callers hold: the pointer returned and the size asked for. -/
structure HeapState where
  arena : Arena
  live : List (ℕ × ℕ)

inductive HeapOp where
  | alloc (size : ℕ) (pageAlign : Bool)
  | free (ptr : ℕ)
  /-- A caller writes one byte of a live block. -/
  | write (address : ℕ) (value : UInt8)

/-- The byte at `address` belongs to the block. -/
def inBlock (address : ℕ) (block : ℕ × ℕ) : Bool :=
  decide (block.1 ≤ address) && decide (address < block.1 + block.2)

def allocStep (size : ℕ) (pageAlign : Bool) (s : HeapState) : Option HeapState :=
  match (heapAlloc Arena.host size pageAlign).run s.arena with
  | .ok p a => some ⟨a, (p, size) :: s.live⟩
  | .error _ _ => none

def freeStep (ptr : ℕ) (s : HeapState) : Option HeapState :=
  match s.live.find? fun block => block.1 == ptr with
  | none => none
  | some block =>
    match heapFree ptr s.arena with
    | .ok a => some ⟨a, s.live.erase block⟩
    | .error _ => none

def writeStep (address : ℕ) (value : UInt8) (s : HeapState) : Option HeapState :=
  if s.live.any (inBlock address) then
    some { s with arena := { s.arena with mem := fill s.arena.mem address value 1 } }
  else none

/-- One operation; a panic, or a use of what is not live, is no step. -/
def heapStep : HeapOp → HeapState → Option HeapState
  | .alloc size pageAlign => allocStep size pageAlign
  | .free ptr => freeStep ptr
  | .write address value => writeStep address value

/-- The requests the heap is meant for: no wrap, and growing stays under `max_addr`. -/
def WellFormed : HeapOp → HeapState → Prop
  | .alloc size pageAlign, s => size + 20 < 2 ^ 32 ∧ StaysUnderMax s.arena size pageAlign
  | _, _ => True

instance (a : Arena) (size : ℕ) (pageAlign : Bool) : Decidable (StaysUnderMax a size pageAlign) :=
  inferInstanceAs (Decidable (_ → _))

instance (op : HeapOp) (s : HeapState) : Decidable (WellFormed op s) :=
  match op with
  | .alloc _ _ => inferInstanceAs (Decidable (_ ∧ _))
  | .free _ => isTrue trivial
  | .write _ _ => isTrue trivial

/-! ## Live blocks and the tiling -/

/-- The payload of an allocated block. -/
def payload (t : Tile) : Option (ℕ × ℕ) :=
  match t.kind with
  | .used size => some (t.addr + 12, size)
  | _ => none

/-- The blocks a tiling says are allocated. -/
def payloads (ts : List Tile) : List (ℕ × ℕ) := ts.filterMap payload

/-- The state of the heap is described by the tiling. -/
structure Tiled (s : HeapState) (ts : List Tile) : Prop where
  heap : HeapInv s.arena ts
  live : s.live.Perm (payloads ts)

theorem payload_eq_some {t : Tile} {p n : ℕ} :
    payload t = some (p, n) ↔ t.kind = .used n ∧ p = t.addr + 12 := by
  unfold payload
  cases t.kind with
  | used size =>
    simp only [Option.some.injEq, Prod.mk.injEq, Kind.used.injEq]
    constructor
    · rintro ⟨h1, h2⟩
      exact ⟨h2, h1.symm⟩
    · rintro ⟨h1, h2⟩
      exact ⟨h2.symm, h1⟩
  | free => simp
  | husk => simp
  | raw => simp

theorem mem_payloads {ts : List Tile} {p n : ℕ} :
    (p, n) ∈ payloads ts ↔ ∃ t ∈ ts, t.kind = .used n ∧ p = t.addr + 12 := by
  unfold payloads
  simp only [List.mem_filterMap, payload_eq_some]

@[simp] theorem payloads_append (xs ys : List Tile) :
    payloads (xs ++ ys) = payloads xs ++ payloads ys := by
  simp [payloads]

theorem payload_of_isHole {t : Tile} (h : t.kind.isHole = true) : payload t = none := by
  unfold payload
  cases hk : t.kind with
  | used size =>
    rw [hk] at h
    exact nomatch h
  | free => rfl
  | husk => rfl
  | raw => rfl

theorem payloads_cons_hole {t : Tile} (ts : List Tile) (h : t.kind.isHole = true) :
    payloads (t :: ts) = payloads ts := by
  simp [payloads, payload_of_isHole h]

theorem payloads_cons_used {t : Tile} {size : ℕ} (ts : List Tile) (h : t.kind = .used size) :
    payloads (t :: ts) = (t.addr + 12, size) :: payloads ts := by
  simp [payloads, payload, h]

theorem payloads_carved (t : Tile) (size : ℕ) (pageAlign : Bool) :
    payloads (carved t size pageAlign) = [(t.addr + leftOffset t.addr pageAlign + 12, size)] := by
  unfold carved leftPart rightPart
  rw [payloads_append, payloads_cons_used _ rfl]
  split <;> split <;> rfl

theorem Tiled.tile {s : HeapState} {ts : List Tile} (h : Tiled s ts) {p n : ℕ}
    (hl : (p, n) ∈ s.live) : ∃ t ∈ ts, t.kind = .used n ∧ p = t.addr + 12 ∧ n + 20 ≤ t.len := by
  obtain ⟨t, ht, hk, hp⟩ := mem_payloads.mp (h.live.subset hl)
  exact ⟨t, ht, hk, hp, (h.heap.good t ht).payload n hk⟩

/-! ## The three steps -/

theorem Tiled.allocated {s : HeapState} {a' : Arena} {ts pre : List Tile} {t : Tile}
    {post : List Tile} {size p : ℕ} {pageAlign : Bool} (h : Tiled s ts)
    (halloc : Allocated s.arena a' ts pre t post size pageAlign p) :
    Tiled ⟨a', (p, size) :: s.live⟩ (pre ++ carved t size pageAlign ++ post) := by
  refine ⟨halloc.inv, ?_⟩
  rw [payloads_append, payloads_append, payloads_carved, ← halloc.result]
  have hold : s.live.Perm (payloads pre ++ payloads post) := by
    refine h.live.trans ?_
    rcases halloc.source with ⟨rfl, _⟩ | ⟨_, rfl, rfl, _⟩
    · rw [payloads_append, payloads_cons_hole _ halloc.hole]
    · simp [payloads]
  refine (hold.cons _).trans ?_
  rw [List.append_assoc]
  exact List.perm_middle.symm

theorem allocStep_ok {s s' : HeapState} {size : ℕ} {pageAlign : Bool}
    (hs : allocStep size pageAlign s = some s') :
    ∃ p a, heapAlloc Arena.host size pageAlign s.arena = .ok p a ∧
      s' = ⟨a, (p, size) :: s.live⟩ := by
  unfold allocStep at hs
  cases ha : (heapAlloc Arena.host size pageAlign).run s.arena with
  | error e a =>
    rw [ha] at hs
    exact nomatch hs
  | ok p a =>
    rw [ha] at hs
    cases hs
    exact ⟨p, a, ha, rfl⟩

theorem allocStep_some {s s' : HeapState} {ts : List Tile} (h : Tiled s ts) {size : ℕ}
    {pageAlign : Bool} (hr : Request size pageAlign) (hm : StaysUnderMax s.arena size pageAlign)
    (hs : allocStep size pageAlign s = some s') :
    ∃ pre t post p, Allocated s.arena s'.arena ts pre t post size pageAlign p ∧
      s'.live = (p, size) :: s.live ∧ Tiled s' (pre ++ carved t size pageAlign ++ post) := by
  obtain ⟨p, a, ha, rfl⟩ := allocStep_ok hs
  obtain ⟨pre, t, post, halloc⟩ := h.heap.alloc hr hm ha
  exact ⟨pre, t, post, p, halloc, rfl, h.allocated halloc⟩

theorem freeStep_live {s s' : HeapState} {ptr : ℕ} (hs : freeStep ptr s = some s') :
    ∃ n a, (ptr, n) ∈ s.live ∧ heapFree ptr s.arena = .ok a ∧ s' = ⟨a, s.live.erase (ptr, n)⟩ := by
  unfold freeStep at hs
  cases hf : s.live.find? fun block => block.1 == ptr with
  | none =>
    rw [hf] at hs
    exact nomatch hs
  | some block =>
    obtain ⟨p, n⟩ := block
    rw [hf] at hs
    have hp : p = ptr := by simpa using List.find?_some hf
    subst hp
    cases ha : heapFree p s.arena with
    | error e =>
      simp only [ha] at hs
      exact nomatch hs
    | ok a =>
      simp only [ha] at hs
      cases hs
      exact ⟨n, a, List.mem_of_find?_eq_some hf, rfl, rfl⟩

theorem freeStep_some {s s' : HeapState} {ts : List Tile} (h : Tiled s ts) {ptr : ℕ}
    (hj : JoinsHoles s.arena ptr) (hs : freeStep ptr s = some s') :
    ∃ pre l t r post n, ts = pre ++ l.toList ++ t :: (r.toList ++ post) ∧ t.kind = .used n ∧
      ptr = t.addr + 12 ∧ Freed s.arena s'.arena pre l t r post ∧
      s'.live = s.live.erase (ptr, n) ∧ Tiled s' (pre ++ joined l t r :: post) := by
  obtain ⟨n, a, hmem, ha, rfl⟩ := freeStep_live hs
  obtain ⟨t, ht, hk, rfl, _⟩ := h.tile hmem
  obtain ⟨pre₀, post₀, rfl⟩ := List.append_of_mem ht
  obtain ⟨pre, l, r, post, rfl, rfl, hfreed⟩ := h.heap.free hk hj ha
  refine ⟨pre, l, t, r, post, n, rfl, hk, rfl, hfreed, rfl, hfreed.inv, ?_⟩
  have hl : payloads l.toList = [] := by
    cases l with
    | none => rfl
    | some y => exact payloads_cons_hole [] (hfreed.left y rfl).isHole
  have hr : payloads r.toList = [] := by
    cases r with
    | none => rfl
    | some y => exact payloads_cons_hole [] (hfreed.right y rfl).1
  have hlive := h.live
  rw [payloads_append, payloads_append, payloads_cons_used _ hk, payloads_append, hl, hr,
    List.append_nil, List.nil_append] at hlive
  rw [payloads_append, payloads_cons_hole _ rfl]
  have := (hlive.trans List.perm_middle).erase (t.addr + 12, n)
  rw [List.erase_cons_head] at this
  exact this

theorem TileOK.fill {m : Mem} {t : Tile} {lo hi x : ℕ} {ts : List Tile} {u : Tile} {n : ℕ}
    (v : UInt8) (hok : TileOK m t) (hts : Tiles lo ts hi) (ht : t ∈ ts) (hu : u ∈ ts)
    (huk : u.kind = .used n) (hn : n + 20 ≤ u.len) (hlo : u.addr + 12 ≤ x)
    (hhi : x < u.addr + 12 + n) : TileOK (fill m x v 1) t := by
  have hw : OnlyIn x (x + 1) m (ByteMemory.fill m x v 1) := fun y hy => fill_of_outside m x 1 y v hy
  have hsu := u.stop_eq
  rcases hts.eq_or_disjoint ht hu with rfl | hd
  · have h1 : SameOn t.addr (t.addr + 12) m (ByteMemory.fill m x v 1) := hw.sameOn (by omega)
    have h2 : SameOn (t.stop - 8) t.stop m (ByteMemory.fill m x v 1) := hw.sameOn (by omega)
    refine ⟨hok.minLen, ?_, ?_, ?_, fun hk => ?_, hok.payload⟩
    · rw [SameOn.headerMagic h1 (Nat.le_refl _) (Nat.le_refl _)]
      exact hok.magic
    · rw [SameOn.headerIsHole h1 (Nat.le_refl _) (Nat.le_refl _)]
      exact hok.isHole
    · rw [SameOn.headerSize h1 (Nat.le_refl _) (Nat.le_refl _)]
      exact hok.size
    · rw [SameOn.footerMagic h2 (Nat.le_refl _) (by omega),
        SameOn.footerHeader h2 (Nat.le_refl _) (by omega)]
      exact hok.footer hk
  · exact hok.congr (hw.sameOn (by omega))

theorem writeStep_some {s s' : HeapState} {ts : List Tile} (h : Tiled s ts) {x : ℕ} {v : UInt8}
    (hs : writeStep x v s = some s') :
    Tiled s' ts ∧ s'.arena.heap = s.arena.heap ∧ s'.live = s.live := by
  unfold writeStep at hs
  split at hs
  · rename_i hany
    cases hs
    obtain ⟨⟨p, n⟩, hmem, hin⟩ := List.any_eq_true.mp hany
    obtain ⟨u, hu, huk, rfl, hn⟩ := h.tile hmem
    unfold inBlock at hin
    simp only [Bool.and_eq_true, decide_eq_true_eq] at hin
    refine ⟨⟨⟨⟨h.heap.tiles, h.heap.start_ge, h.heap.end_lt, h.heap.max_lt, fun t ht => ?_⟩,
      h.heap.index⟩, h.live⟩, rfl, rfl⟩
    exact (h.heap.good t ht).fill v h.heap.tiles ht hu huk hn hin.1 hin.2
  · exact nomatch hs

end Evos
