import Evos.Datastructs.Bitset
import Mathlib.Data.Finset.Basic
import Mathlib.Data.Finset.Range
import Mathlib.Order.Bounds.Basic

/-! # The bitset as a finite set

The operations on words do on the set of indices what their names say: after any calls, an index is in
the set according to the last call that wrote it, and the scan finds the least index outside. -/

namespace Evos
open ByteMemory
set_option autoImplicit false

/-! ## Calls -/

inductive BitsetCall where
  | set (index : BitVec 32)
  | clear (index : BitVec 32)
  | checkSet (index : BitVec 32)

def BitsetCall.index : BitsetCall → BitVec 32
  | .set index => index
  | .clear index => index
  | .checkSet index => index

section Calls
variable {σ : Type} (W : Words σ) (size : ℕ)

def bitsetCall : BitsetCall → σ → σ
  | .set index, set => bitsetSet W size set index.toNat
  | .clear index, set => bitsetClear W size set index.toNat
  | .checkSet _, set => set

/-- Calls one after the other. -/
def bitsetCalls (calls : List BitsetCall) (set : σ) : σ :=
  calls.foldl (fun set call => bitsetCall W size call set) set

/-- What `bitset_find_free` returns. -/
def freeIndex (set : σ) : ℕ := (bitsetFindFree W size set).getD 0xFFFFFFFF

/-- The indices in the set. -/
def members (set : σ) : Finset ℕ :=
  (Finset.range (32 * size)).filter fun i => isSet W set i = true

end Calls

/-! ## The finite set -/

/-- What a call does to a set of indices below a bound. -/
def BitsetCall.onSet (bound : ℕ) : BitsetCall → Finset ℕ → Finset ℕ
  | .set index, A => if index.toNat < bound then insert index.toNat A else A
  | .clear index, A => A.erase index.toNat
  | .checkSet _, A => A

/-- What a call writes at an index, if it writes it. -/
def BitsetCall.writes (i : ℕ) : BitsetCall → Option Bool
  | .set index => if index.toNat = i then some true else none
  | .clear index => if index.toNat = i then some false else none
  | .checkSet _ => none

/-- What was written last at an index. -/
def lastWrite (i : ℕ) (calls : List BitsetCall) : Option Bool :=
  (calls.filterMap (BitsetCall.writes i)).getLast?

variable {bound i : ℕ} {A : Finset ℕ}

theorem mem_onSet (hi : i < bound) (call : BitsetCall) :
    i ∈ call.onSet bound A ↔ (call.writes i).getD (decide (i ∈ A)) = true := by
  cases call with
  | set index =>
    simp only [BitsetCall.onSet, BitsetCall.writes]
    by_cases heq : index.toNat = i
    · rw [heq, if_pos hi, if_pos rfl]
      exact iff_of_true (Finset.mem_insert_self i A) rfl
    · rw [if_neg heq]
      have hne : i ≠ index.toNat := fun h => heq h.symm
      split_ifs <;> simp [hne]
  | clear index =>
    simp only [BitsetCall.onSet, BitsetCall.writes]
    by_cases heq : index.toNat = i
    · rw [heq, if_pos rfl]
      exact iff_of_false (Finset.notMem_erase i A) Bool.false_ne_true
    · rw [if_neg heq]
      have hne : i ≠ index.toNat := fun h => heq h.symm
      simp [hne]
  | checkSet index => simp [BitsetCall.onSet, BitsetCall.writes]

theorem mem_foldl_onSet (hi : i < bound) (calls : List BitsetCall) :
    i ∈ calls.foldl (fun A call => call.onSet bound A) A ↔
      (lastWrite i calls).getD (decide (i ∈ A)) = true := by
  induction calls using List.reverseRecOn with
  | nil =>
    show i ∈ A ↔ decide (i ∈ A) = true
    exact decide_eq_true_iff.symm
  | append_singleton calls call ih =>
    have hlast : lastWrite i (calls ++ [call]) = (call.writes i).or (lastWrite i calls) := by
      unfold lastWrite
      rw [List.filterMap_append, List.getLast?_append]
      cases hcall : call.writes i <;> simp [List.filterMap, hcall]
    rw [List.foldl_append, List.foldl_cons, List.foldl_nil, mem_onSet hi, hlast]
    cases hcall : call.writes i with
    | none =>
      rw [Option.none_or, ← ih]
      exact decide_eq_true_iff
    | some b => rfl

/-! ## Refinement -/

section Refinement
variable {σ : Type} {W : Words σ} {size : ℕ} {Valid : σ → Prop} {s : σ}

theorem mem_members : i ∈ members W size s ↔ i < 32 * size ∧ isSet W s i = true := by
  unfold members
  rw [Finset.mem_filter, Finset.mem_range]

theorem checkSet_ne_zero_iff : bitsetCheckSet W size s i ≠ 0 ↔ i ∈ members W size s := by
  rw [mem_members, Ne, bitsetCheckSet_eq_zero, outerIndex_lt_iff]
  simp

theorem valid_bitsetCall (L : W.Lawful size Valid) (hv : Valid s) (call : BitsetCall) :
    Valid (bitsetCall W size call s) := by
  cases call with
  | set index => exact valid_bitsetSet L hv
  | clear index => exact valid_bitsetClear L hv
  | checkSet index => exact hv

theorem members_bitsetCall (L : W.Lawful size Valid) (hv : Valid s) (call : BitsetCall) :
    members W size (bitsetCall W size call s) = call.onSet (32 * size) (members W size s) := by
  ext i
  by_cases hi : i < 32 * size
  · have ho : outerIndex i < size := outerIndex_lt_iff.mpr hi
    have hmem : ∀ t, i ∈ members W size t ↔ isSet W t i = true :=
      fun t => mem_members.trans (and_iff_right hi)
    cases call with
    | set index =>
      show i ∈ members W size (bitsetSet W size s index.toNat) ↔
        i ∈ if index.toNat < 32 * size then _ else _
      by_cases hin : index.toNat < 32 * size
      · rw [if_pos hin, Finset.mem_insert, hmem, hmem,
          isSet_bitsetSet L hv (outerIndex_lt_iff.mpr hin) ho, Bool.or_eq_true,
          decide_eq_true_iff]
        exact or_comm
      · have hout : outerIndex index.toNat ≥ size :=
          Nat.not_lt.mp (mt outerIndex_lt_iff.mp hin)
        unfold bitsetSet
        rw [if_neg hin, if_pos hout]
    | clear index =>
      show i ∈ members W size (bitsetClear W size s index.toNat) ↔ i ∈ Finset.erase _ _
      by_cases hin : index.toNat < 32 * size
      · rw [Finset.mem_erase, hmem, hmem,
          isSet_bitsetClear L hv (outerIndex_lt_iff.mpr hin) ho, Bool.and_eq_true,
          Bool.not_eq_true', decide_eq_false_iff_not]
        exact and_comm
      · have hout : outerIndex index.toNat ≥ size :=
          Nat.not_lt.mp (mt outerIndex_lt_iff.mp hin)
        have hne : i ≠ index.toNat := fun h => hin (h ▸ hi)
        unfold bitsetClear
        rw [if_pos hout, Finset.mem_erase]
        exact ⟨fun h => ⟨hne, h⟩, fun h => h.2⟩
    | checkSet index => rfl
  · have hnot : ∀ t, i ∉ members W size t := fun t h => hi (mem_members.mp h).1
    refine iff_of_false (hnot _) ?_
    cases call with
    | set index =>
      show i ∉ if index.toNat < 32 * size then _ else _
      split_ifs with hin
      · rw [Finset.mem_insert]
        rintro (rfl | h)
        · exact hi hin
        · exact hnot _ h
      · exact hnot _
    | clear index => exact fun h => hnot _ (Finset.mem_of_mem_erase h)
    | checkSet index => exact hnot _

theorem members_bitsetCalls (L : W.Lawful size Valid) (hv : Valid s) (calls : List BitsetCall) :
    members W size (bitsetCalls W size calls s) =
      calls.foldl (fun A call => call.onSet (32 * size) A) (members W size s) := by
  unfold bitsetCalls
  induction calls generalizing s with
  | nil => rfl
  | cons call calls ih =>
    rw [List.foldl_cons, List.foldl_cons, ih (valid_bitsetCall L hv call),
      members_bitsetCall L hv call]

/-- After any calls, an index of the bitset is in it if the last call to write it was a set. -/
theorem checkSet_bitsetCalls (L : W.Lawful size Valid) (hv : Valid s) (calls : List BitsetCall)
    (i : ℕ) :
    bitsetCheckSet W size (bitsetCalls W size calls s) i ≠ 0 ↔
      i < 32 * size ∧
        (lastWrite i calls).getD (decide (bitsetCheckSet W size s i ≠ 0)) = true := by
  rw [checkSet_ne_zero_iff]
  by_cases hi : i < 32 * size
  · rw [members_bitsetCalls L hv, mem_foldl_onSet hi]
    simp only [checkSet_ne_zero_iff, hi, true_and]
  · exact iff_of_false (fun h => hi (mem_members.mp h).1) fun h => hi h.1

theorem checkSet_bitsetCall_of_ne (L : W.Lawful size Valid) (hv : Valid s) (call : BitsetCall)
    {j : ℕ} (hj : j ≠ call.index.toNat) :
    bitsetCheckSet W size (bitsetCall W size call s) j ≠ 0 ↔ bitsetCheckSet W size s j ≠ 0 := by
  have hwrites : call.writes j = none := by
    cases call with
    | set index => exact if_neg fun h => hj h.symm
    | clear index => exact if_neg fun h => hj h.symm
    | checkSet index => rfl
  have hcall := checkSet_bitsetCalls L hv [call] j
  have hlast : lastWrite j [call] = none := by
    unfold lastWrite
    simp [hwrites]
  rw [hlast] at hcall
  refine hcall.trans ⟨fun h => of_decide_eq_true h.2, fun h => ⟨?_, decide_eq_true h⟩⟩
  exact (mem_members.mp (checkSet_ne_zero_iff.mp h)).1

theorem freeIndex_isLeast (hfree : ∃ i < 32 * size, bitsetCheckSet W size s i = 0) :
    IsLeast {i | i < 32 * size ∧ bitsetCheckSet W size s i = 0} (freeIndex W size s) := by
  obtain ⟨i, hi, hclear⟩ := hfree
  have ho : outerIndex i < size := outerIndex_lt_iff.mpr hi
  unfold freeIndex
  cases hscan : bitsetFindFree W size s with
  | none =>
    have hset := bitsetFindFree_none.mp hscan i ho
    rw [bitsetCheckSet_eq_zero.mp hclear ho] at hset
    exact nomatch hset
  | some found =>
    obtain ⟨hfound, hfree, hbefore⟩ := bitsetFindFree_some hscan
    refine ⟨⟨outerIndex_lt_iff.mp hfound, bitsetCheckSet_eq_zero.mpr fun _ => hfree⟩, ?_⟩
    rintro j ⟨hj, hclear⟩
    by_contra hless
    have hset := hbefore j (Nat.not_le.mp hless)
    rw [bitsetCheckSet_eq_zero.mp hclear (outerIndex_lt_iff.mpr hj)] at hset
    exact nomatch hset

theorem freeIndex_eq_iff (hsize : size < 2 ^ 27) :
    freeIndex W size s = 0xFFFFFFFF ↔ ∀ i < 32 * size, bitsetCheckSet W size s i ≠ 0 := by
  constructor
  · intro hfull i hi hclear
    obtain ⟨⟨hlt, _⟩, _⟩ := freeIndex_isLeast ⟨i, hi, hclear⟩
    rw [hfull] at hlt
    omega
  · intro hall
    have hnone : bitsetFindFree W size s = none := bitsetFindFree_none.mpr fun i ho =>
      (mem_members.mp (checkSet_ne_zero_iff.mp (hall i (outerIndex_lt_iff.mp ho)))).2
    unfold freeIndex
    rw [hnone]
    rfl

end Refinement

/-! ## In memory -/

/-- After the calls, the bitset is the finite set that they make: an index is in it as the last call
to write it says, a further call changes no other index, and the scan returns the least index that is
not in it. -/
structure RefinesSet {σ : Type} (W : Words σ) (size : ℕ) (start : σ) (calls : List BitsetCall) :
    Prop where
  checkSet : ∀ i : BitVec 32,
    bitsetCheckSet W size (bitsetCalls W size calls start) i.toNat ≠ 0 ↔
      i.toNat < 32 * size ∧
        (lastWrite i.toNat calls).getD (decide (bitsetCheckSet W size start i.toNat ≠ 0)) = true
  other : ∀ (call : BitsetCall) (j : BitVec 32), j ≠ call.index →
    (bitsetCheckSet W size (bitsetCall W size call (bitsetCalls W size calls start)) j.toNat ≠ 0 ↔
      bitsetCheckSet W size (bitsetCalls W size calls start) j.toNat ≠ 0)
  least : (∃ i < 32 * size, bitsetCheckSet W size (bitsetCalls W size calls start) i = 0) →
    IsLeast {i | i < 32 * size ∧ bitsetCheckSet W size (bitsetCalls W size calls start) i = 0}
      (freeIndex W size (bitsetCalls W size calls start))
  full : freeIndex W size (bitsetCalls W size calls start) = 0xFFFFFFFF ↔
    ∀ i < 32 * size, bitsetCheckSet W size (bitsetCalls W size calls start) i ≠ 0

/-- The words at `base` refine a finite set of indices. -/
theorem bitset_refines_set {base size : ℕ} (hsize : size < 2 ^ 27) (hroom : base + 4 * size ≤ 2 ^ 32)
    (m : Mem) (calls : List BitsetCall) : RefinesSet (Words.atBase base) size m calls := by
  have L := Words.atBase_lawful hroom
  constructor
  · intro i
    exact checkSet_bitsetCalls L trivial calls i.toNat
  · intro call j hj
    have hne : j.toNat ≠ call.index.toNat := fun h => hj (BitVec.eq_of_toNat_eq h)
    exact checkSet_bitsetCall_of_ne L trivial call hne
  · exact freeIndex_isLeast
  · exact freeIndex_eq_iff hsize

theorem bitset_refines_set_words :
    RefinesSet (Words.atBase 0x1000) 8 (fun _ => 0) [.set 31, .clear 5, .set 256] :=
  bitset_refines_set (by decide) (by decide) _ _

end Evos
