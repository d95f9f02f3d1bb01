import Evos.Panic
import Evos.Foundations.BubblePass

/-! # `datastructs/ordered_array.c`

An array kept in order by a caller's `less_than_cmp`. The first `size` slots are the list `array`;
the comparator is an argument, because the heap's one reads the sizes out of memory. -/

namespace Evos
open BubblePass
set_option autoImplicit false

/-- `ordered_array_t`: `size` is the length of `array`. -/
structure OrderedArray (α : Type) where
  array : List α
  maxSize : ℕ

variable {α : Type}

/-- `this->size`. -/
def OrderedArray.size (this : OrderedArray α) : ℕ := this.array.length

/-- `ordered_array_create_at`: the storage is cleared, the size is 0. -/
def orderedArrayCreateAt (size : ℕ) : OrderedArray α := ⟨[], size⟩

/-- `ordered_array_changed_element`: one pass from the last pair down to the first. -/
def orderedArrayChangedElement (lt : α → α → Bool) (this : OrderedArray α) : OrderedArray α :=
  { this with array := bubbleLoop lt (this.size - 1) this.array }

def orderedArrayInsert (lt : α → α → Bool) (this : OrderedArray α) (value : α) :
    Except Panic (OrderedArray α) :=
  if this.size + 1 > this.maxSize then
    .error (.message "Tried to insert into a full ordered_array_t")
  else
    .ok (orderedArrayChangedElement lt { this with array := this.array ++ [value] })

/-- The loop `for (; i < size; i++) array[i] = array[i+1]` with `n` rounds to go. -/
def shiftLoop : ℕ → ℕ → List α → List α
  | 0, _, xs => xs
  | n + 1, i, xs =>
    match xs[i + 1]? with
    | some x => shiftLoop n (i + 1) (xs.set i x)
    | none => xs

/-- `ordered_array_remove`: the slots behind `index` move down by one. -/
def orderedArrayRemove (this : OrderedArray α) (index : ℕ) : Except Panic (OrderedArray α) :=
  if index ≥ this.size then
    .error (.message "Array index out of bounds")
  else
    .ok { this with
      array := (shiftLoop (this.size - 1 - index) index this.array).take (this.size - 1) }

def orderedArrayIndex (this : OrderedArray α) (index : ℕ) : Except Panic α :=
  match this.array[index]? with
  | some value => .ok value
  | none => .error (.message "Array index out of bounds")

/-! ## What the operations do to the list -/

theorem orderedArrayChangedElement_array (lt : α → α → Bool) (this : OrderedArray α) :
    orderedArrayChangedElement lt this = { this with array := bubblePass lt this.array } := by
  unfold orderedArrayChangedElement OrderedArray.size
  rw [bubbleLoop_eq_pass]

theorem orderedArrayInsert_of_room (lt : α → α → Bool) (this : OrderedArray α) (value : α)
    (h : this.array.length < this.maxSize) :
    orderedArrayInsert lt this value =
      .ok { this with array := bubblePass lt (this.array ++ [value]) } := by
  unfold orderedArrayInsert OrderedArray.size
  rw [if_neg (by omega), orderedArrayChangedElement_array]

/-- A successful insertion had room and runs one pass over the appended element. -/
theorem orderedArrayInsert_ok {lt : α → α → Bool} {this this' : OrderedArray α} {value : α}
    (h : orderedArrayInsert lt this value = .ok this') :
    this.array.length < this.maxSize ∧
      this' = { this with array := bubblePass lt (this.array ++ [value]) } := by
  by_cases hroom : this.array.length < this.maxSize
  · rw [orderedArrayInsert_of_room lt this value hroom] at h
    exact ⟨hroom, (Except.ok.inj h).symm⟩
  · unfold orderedArrayInsert OrderedArray.size at h
    rw [if_pos (by omega)] at h
    exact nomatch h

theorem shiftLoop_append (n : ℕ) (pre : List α) (x : α) (post : List α) (h : n = post.length) :
    (shiftLoop n pre.length (pre ++ x :: post)).take (pre.length + n) = pre ++ post := by
  induction n generalizing pre x post with
  | zero =>
    have : post = [] := List.eq_nil_of_length_eq_zero h.symm
    subst this
    simp [shiftLoop]
  | succ n ih =>
    cases post with
    | nil => simp at h
    | cons y post =>
      have hn : n = post.length := by simpa using h
      have hget : (pre ++ x :: y :: post)[pre.length + 1]? = some y := by simp
      have hset : (pre ++ x :: y :: post).set pre.length y = (pre ++ [y]) ++ y :: post := by simp
      have h' := ih (pre ++ [y]) y post hn
      rw [shiftLoop, hget]
      dsimp only
      rw [hset]
      simpa [Nat.add_assoc, Nat.add_comm 1 n] using h'

theorem orderedArrayRemove_of_lt (this : OrderedArray α) (index : ℕ)
    (h : index < this.array.length) :
    orderedArrayRemove this index = .ok { this with array := this.array.eraseIdx index } := by
  have hsplit : this.array = this.array.take index ++ this.array[index] :: this.array.drop (index + 1) := by
    rw [List.getElem_cons_drop, List.take_append_drop]
  have hlen : (this.array.take index).length = index := by simp; omega
  have hrest : this.array.length - 1 - index = (this.array.drop (index + 1)).length := by
    rw [List.length_drop]; omega
  have key := shiftLoop_append (this.array.length - 1 - index) (this.array.take index)
    this.array[index] (this.array.drop (index + 1)) hrest
  rw [hlen, ← hsplit, show index + (this.array.length - 1 - index) = this.array.length - 1 by omega]
    at key
  unfold orderedArrayRemove OrderedArray.size
  rw [if_neg (by omega), key, List.eraseIdx_eq_take_drop_succ]

/-- A successful removal was in range and erases exactly that slot. -/
theorem orderedArrayRemove_ok {this this' : OrderedArray α} {index : ℕ}
    (h : orderedArrayRemove this index = .ok this') :
    index < this.array.length ∧ this' = { this with array := this.array.eraseIdx index } := by
  by_cases hlt : index < this.array.length
  · rw [orderedArrayRemove_of_lt this index hlt] at h
    exact ⟨hlt, (Except.ok.inj h).symm⟩
  · unfold orderedArrayRemove OrderedArray.size at h
    rw [if_pos (by omega)] at h
    exact nomatch h

theorem orderedArrayIndex_of_getElem? {this : OrderedArray α} {index : ℕ} {value : α}
    (h : this.array[index]? = some value) : orderedArrayIndex this index = .ok value := by
  unfold orderedArrayIndex
  rw [h]

end Evos
