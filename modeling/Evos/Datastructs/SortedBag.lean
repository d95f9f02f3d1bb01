import Evos.Datastructs.OrderedArray
import Evos.Foundations.Runs

/-! # `datastructs/ordered_array.c`: a sorted bag

Histories of `ordered_array_insert` and `ordered_array_remove`. A ledger keeps the elements put in and
the elements taken out beside the array; the comparator is a strict weak order that stays the same. -/

namespace Evos
open BubblePass Runs
set_option autoImplicit false

/-- `standard_less_than_cmp`, used where the caller passes no comparator. -/
def standardLessThanCmp (a b : ℕ) : Bool := decide (a < b)

instance : IsStrictWeakOrder ℕ fun a b => standardLessThanCmp a b = true where
  irrefl a := by simp [standardLessThanCmp]
  trans a b c := by
    simp only [standardLessThanCmp, decide_eq_true_eq]
    omega
  incomp_trans a b c := by
    simp only [standardLessThanCmp, decide_eq_true_eq]
    omega

/-! ## Histories -/

section Histories
variable {α : Type} (lt : α → α → Bool)

/-- A call of one of the two. -/
inductive ArrayOp (α : Type) where
  | insert (value : α)
  | remove (index : ℕ)

/-- The array, what was inserted into it and what was removed from it. -/
structure ArrayLedger (α : Type) where
  this : OrderedArray α
  inserted : List α
  removed : List α

/-- The array of `ordered_array_create_at`. -/
def emptyLedger (size : ℕ) : ArrayLedger α := ⟨orderedArrayCreateAt size, [], []⟩

/-- One call. The element a removal takes out is the one `ordered_array_index` names before it. -/
def arrayStep : ArrayOp α → ArrayLedger α → Option (ArrayLedger α)
  | .insert value, l =>
    match orderedArrayInsert lt l.this value with
    | .ok this => some ⟨this, value :: l.inserted, l.removed⟩
    | .error _ => none
  | .remove index, l =>
    match orderedArrayIndex l.this index, orderedArrayRemove l.this index with
    | .ok value, .ok this => some ⟨this, l.inserted, value :: l.removed⟩
    | _, _ => none

/-- An insertion has room, a removal names one of the elements. -/
def InRange : ArrayOp α → ArrayLedger α → Prop
  | .insert _, l => l.this.size < l.this.maxSize
  | .remove index, l => index < l.this.size

instance (op : ArrayOp α) (l : ArrayLedger α) : Decidable (InRange op l) :=
  match op with
  | .insert _ => inferInstanceAs (Decidable (l.this.size < l.this.maxSize))
  | .remove index => inferInstanceAs (Decidable (index < l.this.size))

/-- The elements are in order, and are the ones inserted less the ones removed. -/
structure ArrayLedger.SortedBag (l : ArrayLedger α) : Prop where
  sorted : Sorted lt l.this.array
  bag : (l.this.array ++ l.removed).Perm l.inserted

variable {lt} {l l' : ArrayLedger α}

/-! ## One call -/

/-- A removal deletes the element that `ordered_array_index` returns, and no other. -/
theorem orderedArrayRemove_of_index {this : OrderedArray α} {index : ℕ} {value : α}
    (h : orderedArrayIndex this index = .ok value) :
    ∃ before behind, this.array = before ++ value :: behind ∧ before.length = index ∧
      orderedArrayRemove this index = .ok { this with array := before ++ behind } := by
  unfold orderedArrayIndex at h
  cases hg : this.array[index]? with
  | none =>
    rw [hg] at h
    cases h
  | some v =>
    rw [hg] at h
    cases h
    obtain ⟨hlt, hv⟩ := List.getElem?_eq_some_iff.mp hg
    refine ⟨this.array.take index, this.array.drop (index + 1), ?_, ?_, ?_⟩
    · rw [← hv, List.getElem_cons_drop, List.take_append_drop]
    · rw [List.length_take]
      omega
    · rw [orderedArrayRemove_of_lt this index hlt, List.eraseIdx_eq_take_drop_succ]

theorem orderedArrayIndex_of_lt {this : OrderedArray α} {index : ℕ} (h : index < this.size) :
    ∃ value, orderedArrayIndex this index = .ok value :=
  ⟨_, orderedArrayIndex_of_getElem? (List.getElem?_eq_getElem h)⟩

theorem arrayStep_of_inRange {op : ArrayOp α} (h : InRange op l) :
    ∃ l', arrayStep lt op l = some l' := by
  cases op with
  | insert value =>
    have hok := orderedArrayInsert_of_room lt l.this value h
    simp only [arrayStep, hok]
    exact ⟨_, rfl⟩
  | remove index =>
    obtain ⟨value, hv⟩ := orderedArrayIndex_of_lt h
    obtain ⟨before, behind, _, _, hr⟩ := orderedArrayRemove_of_index hv
    simp only [arrayStep, hv, hr]
    exact ⟨_, rfl⟩

theorem ArrayLedger.SortedBag.insert [IsStrictWeakOrder α fun a b => lt a b = true]
    (b : l.SortedBag lt) {value : α} (h : arrayStep lt (.insert value) l = some l') :
    l'.SortedBag lt := by
  cases hi : orderedArrayInsert lt l.this value with
  | error e =>
    simp only [arrayStep, hi] at h
    cases h
  | ok this =>
    obtain ⟨_, rfl⟩ := orderedArrayInsert_ok hi
    simp only [arrayStep, hi, Option.some.injEq] at h
    subst h
    refine ⟨sorted_bubblePass_append lt b.sorted value, ?_⟩
    calc bubblePass lt (l.this.array ++ [value]) ++ l.removed
      _ |>.Perm (l.this.array ++ [value] ++ l.removed) :=
        (bubblePass_perm lt _).append_right _
      _ |>.Perm (value :: (l.this.array ++ l.removed)) := by
        rw [List.append_assoc]
        exact List.perm_middle
      _ |>.Perm (value :: l.inserted) := b.bag.cons value

theorem ArrayLedger.SortedBag.remove (b : l.SortedBag lt) {index : ℕ}
    (h : arrayStep lt (.remove index) l = some l') : l'.SortedBag lt := by
  cases hv : orderedArrayIndex l.this index with
  | error e =>
    simp only [arrayStep, hv] at h
    cases h
  | ok value =>
    obtain ⟨before, behind, harray, _, hr⟩ := orderedArrayRemove_of_index hv
    simp only [arrayStep, hv, hr, Option.some.injEq] at h
    subst h
    have hsorted := b.sorted
    have hbag := b.bag
    rw [harray] at hsorted hbag
    refine ⟨hsorted.sublist ((List.Sublist.refl before).append
      (List.sublist_cons_self value behind)), ?_⟩
    have hmove : (before ++ behind ++ value :: l.removed).Perm
        (before ++ value :: behind ++ l.removed) := by
      rw [List.append_assoc, List.append_assoc]
      exact List.Perm.append_left before List.perm_middle
    exact hmove.trans hbag

/-- The array stays sorted and holds what was inserted less what was removed, in every history within
`max_size`; no call of it panics, and a removal deletes the element named by its index. -/
theorem sortedBag_of_run [IsStrictWeakOrder α fun a b => lt a b = true] {maxSize : ℕ}
    (r : Run (arrayStep lt) InRange (emptyLedger maxSize) l) :
    l.SortedBag lt ∧ (∀ op, InRange op l → ∃ l', arrayStep lt op l = some l') ∧
      ∀ index value, orderedArrayIndex l.this index = .ok value →
        ∃ before behind, l.this.array = before ++ value :: behind ∧ before.length = index ∧
          orderedArrayRemove l.this index = .ok { l.this with array := before ++ behind } := by
  refine ⟨?_, fun op hop => arrayStep_of_inRange hop, fun index value h =>
    orderedArrayRemove_of_index h⟩
  refine r.invariant ⟨List.Pairwise.nil, List.Perm.refl _⟩ fun op x y hx _ hs => ?_
  cases op with
  | insert value => exact hx.insert hs
  | remove index => exact hx.remove hs

end Histories

/-- Three insertions and a removal from the middle. -/
theorem sortedBag_of_run_standard :
    ArrayLedger.SortedBag standardLessThanCmp ⟨⟨[1, 3], 4⟩, [2, 1, 3], [2]⟩ := by
  have h : trace (arrayStep standardLessThanCmp) InRange
      [.insert 3, .insert 1, .insert 2, .remove 1] (emptyLedger 4) =
        some ⟨⟨[1, 3], 4⟩, [2, 1, 3], [2]⟩ := rfl
  exact (sortedBag_of_run (Run.of_trace h)).1

/-! ## A changed key -/

/-- The comparators before and behind a change of the key at `k`: the others compare as before. -/
def OthersKept {α : Type} (lt lt' : α → α → Bool) (this : OrderedArray α) (k : ℕ) : Prop :=
  ∀ a ∈ this.array.eraseIdx k, ∀ b ∈ this.array.eraseIdx k, lt' a b = lt a b

/-- The array is a permutation of the old one and in order. -/
def Resorted {α : Type} (lt' : α → α → Bool) (this : OrderedArray α) : Prop :=
  (orderedArrayChangedElement lt' this).array.Perm this.array ∧
    Sorted lt' (orderedArrayChangedElement lt' this).array

/-- One pass restores the order behind a change of one key exactly if the second element behind it
is not less: the pass carries a smaller key all the way to the left, and a larger one past its
neighbour only. -/
theorem resorted_iff {α : Type} (lt lt' : α → α → Bool)
    [IsStrictWeakOrder α fun a b => lt' a b = true] {this : OrderedArray α} {k : ℕ} {x : α}
    (hx : this.array[k]? = some x) (hsorted : Sorted lt this.array)
    (hothers : OthersKept lt lt' this k) :
    Resorted lt' this ↔ ∀ z, this.array[k + 2]? = some z → lt' z x = false := by
  obtain ⟨hlt, hget⟩ := List.getElem?_eq_some_iff.mp hx
  have hsplit : this.array = this.array.take k ++ x :: this.array.drop (k + 1) := by
    rw [← hget, List.getElem_cons_drop, List.take_append_drop]
  have hrest : Sorted lt' (this.array.take k ++ this.array.drop (k + 1)) := by
    rw [← List.eraseIdx_eq_take_drop_succ]
    refine (hsorted.sublist (List.eraseIdx_sublist _ _)).imp_of_mem fun ha hb hab => ?_
    rw [hothers _ hb _ ha]
    exact hab
  have hsecond : (this.array.drop (k + 1))[1]? = this.array[k + 2]? := List.getElem?_drop
  have hiff := sorted_bubblePass_changed_iff lt' hrest x
  rw [← hsplit, hsecond] at hiff
  unfold Resorted
  rw [orderedArrayChangedElement_array, ← hiff]
  exact and_iff_right (bubblePass_perm lt' _)

/-- Elements compared by a key. -/
def keyLessThan (key : ℕ → ℕ) (a b : ℕ) : Bool := standardLessThanCmp (key a) (key b)

instance (key : ℕ → ℕ) : IsStrictWeakOrder ℕ fun a b => keyLessThan key a b = true where
  irrefl a := irrefl_of (fun a b => standardLessThanCmp a b = true) (key a)
  trans _ _ _ := trans_of fun a b => standardLessThanCmp a b = true
  incomp_trans a b c := by
    simp only [keyLessThan, standardLessThanCmp, decide_eq_true_eq]
    omega

/-- The key of the last of three elements becomes the smallest. -/
theorem resorted_smallest : Resorted (keyLessThan fun a => if a = 2 then 0 else a + 1) ⟨[0, 1, 2], 4⟩ :=
  (resorted_iff (keyLessThan fun a => a + 1) _ (k := 2) (x := 2) rfl
    (by unfold Sorted; decide) (by unfold OthersKept; decide)).mpr fun z hz => nomatch hz

/-- The key of the first of three elements becomes the largest: the element stops in the middle. -/
theorem not_resorted_largest :
    ¬∀ (lt lt' : ℕ → ℕ → Bool) (this : OrderedArray ℕ) (k : ℕ) (x : ℕ),
      IsStrictWeakOrder ℕ (fun a b => lt a b = true) →
      IsStrictWeakOrder ℕ (fun a b => lt' a b = true) → this.array[k]? = some x →
      Sorted lt this.array → OthersKept lt lt' this k → Resorted lt' this := by
  intro hall
  have h := hall (keyLessThan fun a => a + 1) (keyLessThan fun a => if a = 0 then 9 else a + 1)
    ⟨[0, 1, 2], 4⟩ 0 0 inferInstance inferInstance rfl (by unfold Sorted; decide)
    (by unfold OthersKept; decide)
  have hnot : ¬Sorted (keyLessThan fun a => if a = 0 then 9 else a + 1) [1, 0, 2] := by
    unfold Sorted
    decide
  exact hnot h.2

end Evos
