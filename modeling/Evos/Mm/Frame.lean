import Evos.Datastructs.Bitset
import Evos.Foundations.Runs
import Evos.Kheap.Model
import Mathlib.Data.Finset.Card

/-! # `mm/frame.c`, and `kmalloc` before the heap exists

`init_frames` runs before `init_paging`, so the bitmap of the frames comes from `__linear_kmalloc`.
Like the operations of a bitset, `frame_alloc` and `frame_free` work on any store of words. -/

namespace Evos
open ByteMemory Runs
set_option autoImplicit false

/-! ## `__linear_kmalloc` -/

/-- Memory before the heap exists: its bytes and `mem_first_unused`. -/
structure LowMemory where
  mem : Mem
  memFirstUnused : ℕ

/-- `__linear_kmalloc`: the block, which is its own physical address, and the new
`mem_first_unused`. -/
def linearKmalloc (size : ℕ) (align : Bool) (memFirstUnused : ℕ) : ℕ × ℕ :=
  let res := if align then pageRoundUp memFirstUnused else memFirstUnused
  (res, u32 (res + size))

/-! ## `bitset_create` and `init_frames` -/

/-- `bitset_t`: where the words are, and how many. -/
structure Bitset where
  base : ℕ
  size : ℕ

/-- `bitset_create` for `size` bits. The size kept is a number of words; as many bytes are asked for
and zeroed. -/
def bitsetCreate (size : ℕ) (s : LowMemory) : Bitset × LowMemory :=
  let words := u32 (size + bitsPerItem - 1) / bitsPerItem
  let block := linearKmalloc words false s.memFirstUnused
  (⟨block.1, words⟩, ⟨fill s.mem block.1 0 words, block.2⟩)

/-- The statics of `mm/frame.c`. -/
structure FrameTable where
  frames : Bitset
  numFrames : ℕ

def initFrames (totalMemory : ℕ) (s : LowMemory) : FrameTable × LowMemory :=
  let numFrames := totalMemory / 4096
  let created := bitsetCreate numFrames s
  (⟨created.1, numFrames⟩, created.2)

/-! ## `frame_alloc` and `frame_free` -/

section Operations
variable {σ : Type} (W : Words σ) (size : ℕ)

def frameAlloc (s : σ) : Except Panic (ℕ × σ) :=
  match bitsetFindFree W size s with
  | some frame => .ok (frame, bitsetSet W size s frame)
  | none => .error (.message "No free frames\n")

def frameFree (frame : ℕ) (s : σ) : σ :=
  if frame ≠ 0 then bitsetClear W size s frame else s

/-- A call of one of the two. -/
inductive FrameOp where
  | alloc
  | free (frame : ℕ)

/-- The words after a call, unless it panics. -/
def frameStep : FrameOp → σ → Option σ
  | .alloc, s =>
    match frameAlloc W size s with
    | .ok (_, s') => some s'
    | .error _ => none
  | .free frame, s => some (frameFree W size frame s)

end Operations

section Spec
variable {σ : Type} {W : Words σ} {size : ℕ} {Valid : σ → Prop} {s t : σ} {f : ℕ}

/-- A frame handed out is the lowest one whose bit is clear, and its bit is set. -/
theorem frameAlloc_ok (h : frameAlloc W size s = .ok (f, t)) :
    outerIndex f < size ∧ isSet W s f = false ∧ (∀ j < f, isSet W s j = true) ∧
      t = bitsetSet W size s f := by
  unfold frameAlloc at h
  cases hf : bitsetFindFree W size s with
  | none =>
    rw [hf] at h
    cases h
  | some i =>
    rw [hf] at h
    cases h
    obtain ⟨ho, hc, hmin⟩ := bitsetFindFree_some hf
    exact ⟨ho, hc, hmin, rfl⟩

theorem frameAlloc_total {i : ℕ} (hi : outerIndex i < size) (hc : isSet W s i = false) :
    ∃ f t, frameAlloc W size s = .ok (f, t) := by
  cases hf : bitsetFindFree W size s with
  | none =>
    have hset := bitsetFindFree_none.mp hf i hi
    rw [hset] at hc
    cases hc
  | some f =>
    refine ⟨f, bitsetSet W size s f, ?_⟩
    unfold frameAlloc
    rw [hf]

theorem frameStep_alloc : frameStep W size .alloc s = some t ↔ ∃ f, frameAlloc W size s = .ok (f, t) := by
  cases hf : frameAlloc W size s with
  | error e => simp [frameStep, hf]
  | ok r => simp [frameStep, hf, Prod.ext_iff]

theorem frameAlloc_valid (L : W.Lawful size Valid) (hv : Valid s)
    (h : frameAlloc W size s = .ok (f, t)) : Valid t := by
  obtain ⟨_, _, _, rfl⟩ := frameAlloc_ok h
  exact valid_bitsetSet L hv

theorem isSet_frameAlloc (L : W.Lawful size Valid) (hv : Valid s)
    (h : frameAlloc W size s = .ok (f, t)) {j : ℕ} (hj : outerIndex j < size) :
    isSet W t j = (isSet W s j || decide (j = f)) := by
  obtain ⟨hf, _, _, rfl⟩ := frameAlloc_ok h
  exact isSet_bitsetSet L hv hf hj

/-! ## How many frames are free -/

/-- The number of frames whose bit is clear. -/
def freeFrames (W : Words σ) (size : ℕ) (s : σ) : ℕ :=
  ((Finset.range (32 * size)).filter fun f => isSet W s f = false).card

theorem freeFrames_alloc (L : W.Lawful size Valid) (hv : Valid s)
    (h : frameAlloc W size s = .ok (f, t)) : freeFrames W size t + 1 = freeFrames W size s := by
  obtain ⟨hf, hclear, _, _⟩ := frameAlloc_ok h
  have hmem : f ∈ (Finset.range (32 * size)).filter fun f => isSet W s f = false :=
    Finset.mem_filter.mpr ⟨Finset.mem_range.mpr (outerIndex_lt_iff.mp hf), hclear⟩
  have herase : ((Finset.range (32 * size)).filter fun f => isSet W t f = false) =
      ((Finset.range (32 * size)).filter fun f => isSet W s f = false).erase f := by
    ext j
    rw [Finset.mem_erase, Finset.mem_filter, Finset.mem_filter, Finset.mem_range]
    constructor
    · rintro ⟨hj, hset⟩
      rw [isSet_frameAlloc L hv h (outerIndex_lt_iff.mpr hj), Bool.or_eq_false_iff,
        decide_eq_false_iff_not] at hset
      exact ⟨hset.2, hj, hset.1⟩
    · rintro ⟨hne, hj, hset⟩
      refine ⟨hj, ?_⟩
      rw [isSet_frameAlloc L hv h (outerIndex_lt_iff.mpr hj), hset, decide_eq_false hne]
      rfl
  unfold freeFrames
  rw [herase, Finset.card_erase_add_one hmem]

theorem freeFrames_of_error {e : Panic} (h : frameAlloc W size s = .error e) :
    freeFrames W size s = 0 := by
  unfold frameAlloc at h
  cases hf : bitsetFindFree W size s with
  | some i =>
    rw [hf] at h
    exact nomatch h
  | none =>
    refine Finset.card_eq_zero.mpr (Finset.filter_eq_empty_iff.mpr fun i hi hclear => ?_)
    have hset := bitsetFindFree_none.mp hf i (outerIndex_lt_iff.mpr (Finset.mem_range.mp hi))
    rw [hclear] at hset
    exact nomatch hset

/-! ## Frames taken in order -/

/-- The frames below `k` are taken and no other. -/
def TakenBelow (W : Words σ) (size k : ℕ) (s : σ) : Prop :=
  ∀ i, outerIndex i < size → isSet W s i = decide (i < k)

theorem TakenBelow.next {k : ℕ} (L : W.Lawful size Valid) (hv : Valid s)
    (h : TakenBelow W size k s) (hk : k < 32 * size) :
    ∃ t, frameAlloc W size s = .ok (k, t) ∧ Valid t ∧ TakenBelow W size (k + 1) t := by
  have hko : outerIndex k < size := outerIndex_lt_iff.mpr hk
  obtain ⟨f, t, hf⟩ := frameAlloc_total hko ((h k hko).trans (decide_eq_false (Nat.lt_irrefl k)))
  obtain ⟨hfo, hclear, hmin, _⟩ := frameAlloc_ok hf
  have hge : k ≤ f := by
    rw [h f hfo] at hclear
    exact Nat.not_lt.mp (of_decide_eq_false hclear)
  have hle : f ≤ k := by
    by_contra hlt
    have hset := hmin k (by omega)
    rw [h k hko, decide_eq_false (Nat.lt_irrefl k)] at hset
    cases hset
  have hfk : f = k := by omega
  subst hfk
  refine ⟨t, hf, frameAlloc_valid L hv hf, fun i hi => ?_⟩
  rw [isSet_frameAlloc L hv hf hi, h i hi, ← Bool.decide_or]
  congr 1
  apply propext
  omega

theorem TakenBelow.run {n : ℕ} (L : W.Lawful size Valid) (hv : Valid s)
    (h : TakenBelow W size 0 s) (hn : n ≤ 32 * size) :
    ∃ t, Run (frameStep W size) (fun _ _ => True) s t ∧ Valid t ∧ TakenBelow W size n t := by
  induction n with
  | zero => exact ⟨s, Run.refl s, hv, h⟩
  | succ n ih =>
    obtain ⟨t, hr, hvt, ht⟩ := ih (by omega)
    obtain ⟨u, hu, hvu, hut⟩ := ht.next L hvt (by omega)
    exact ⟨u, hr.tail trivial (frameStep_alloc.mpr ⟨n, hu⟩), hvu, hut⟩

end Spec

end Evos
