import Evos.String.Printed

/-! # The field of a printed number

How a number is laid out in its field by `printf`, and when `vsprintf` lays it out like that. -/

namespace Evos
open Outcome Numeral
set_option autoImplicit false

variable {flags : List (BitVec 8)} {width : ℕ} {c : BitVec 8}

/-! ## The layout of `printf` -/

/-- Sign and prefix of a number under its flags. -/
def fieldLead (flags : List (BitVec 8)) (c : BitVec 8) (value : BitVec 32) : List (BitVec 8) :=
  leadText (flagsOf flags c) (radixOf c) value

/-- How many digits its shortest numeral has. -/
def digitCount (c : BitVec 8) (value : BitVec 32) : ℕ :=
  size (radixOf c) (magnitude (decide (c = ch 'd')) value)

/-- Its shortest digits. -/
def fieldDigits (c : BitVec 8) (value : BitVec 32) : List (BitVec 8) :=
  digitText (radixOf c) (digitCount c value) (magnitude (decide (c = ch 'd')) value)

/-- Sign, prefix and shortest digits. -/
def fieldCore (flags : List (BitVec 8)) (c : BitVec 8) (value : BitVec 32) : List (BitVec 8) :=
  fieldLead flags c value ++ fieldDigits c value

/-- The field of `printf`: what the core leaves of the width is spaces behind it under `-`, zeros
between prefix and digits under `0` alone, and spaces in front of it otherwise. -/
def printfField (flags : List (BitVec 8)) (width : ℕ) (c : BitVec 8) (value : BitVec 32) :
    List (BitVec 8) :=
  let core := fieldCore flags c value
  let rest := width - core.length
  if ch '-' ∈ flags then core ++ List.replicate rest (ch ' ')
  else if ch '0' ∈ flags then
    fieldLead flags c value ++ List.replicate rest (ch '0') ++ fieldDigits c value
  else List.replicate rest (ch ' ') ++ core

/-- The field `vsprintf` prints is the one of `printf`. -/
def FollowsPrintf (strings : BitVec 32 → List (BitVec 8)) (flags : List (BitVec 8)) (width : ℕ)
    (c : BitVec 8) (args : ℕ → BitVec 32) : Prop :=
  ∃ text, vsprintf strings (directiveText flags width c) args = .ok (text ++ [0]) ∧
    text.length = max width (fieldCore flags c (args 0)).length ∧
    text = printfField flags width c (args 0)

theorem length_printfField (flags : List (BitVec 8)) (width : ℕ) (c : BitVec 8)
    (value : BitVec 32) :
    (printfField flags width c value).length = max width (fieldCore flags c value).length := by
  have hcore : (fieldCore flags c value).length =
      (fieldLead flags c value).length + (fieldDigits c value).length := List.length_append
  unfold printfField
  dsimp only
  split_ifs <;> simp only [List.length_append, List.length_replicate] <;> omega

/-! ## The layout of `append_number` -/

/-- The field of `append_number`: the width is taken for the digits alone. -/
def appendField (flags : List (BitVec 8)) (width : ℕ) (c : BitVec 8) (value : BitVec 32) :
    List (BitVec 8) :=
  let rest := width - digitCount c value
  if ch '-' ∈ flags then
    fieldLead flags c value ++
      (fieldDigits c value ++ List.replicate rest (if ch '0' ∈ flags then ch '0' else ch ' '))
  else fieldLead flags c value ++ (List.replicate rest (ch '0') ++ fieldDigits c value)

theorem length_fieldDigits (c : BitVec 8) (value : BitVec 32) :
    (fieldDigits c value).length = digitCount c value := by
  unfold fieldDigits digitText
  rw [List.length_map, length_lowDigits]

theorem digitText_max (c : BitVec 8) (width : ℕ) (value : BitVec 32) :
    digitText (radixOf c) (max (digitCount c value) width)
        (magnitude (decide (c = ch 'd')) value) =
      List.replicate (width - digitCount c value) (ch '0') ++ fieldDigits c value := by
  have hradix : 1 < radixOf c := (radixOf_le c).1
  have hsplit : max (digitCount c value) width =
      width - digitCount c value + digitCount c value := by
    omega
  have hzero : digitChar 0 = ch '0' := rfl
  have hlow : magnitude (decide (c = ch 'd')) value < radixOf c ^ digitCount c value :=
    lt_pow_size hradix
  unfold fieldDigits digitText
  rw [hsplit, lowDigits_add (by omega) hlow, List.map_append, List.map_replicate, hzero]

theorem appendNumber_field (flags : List (BitVec 8)) (c : BitVec 8) (value : BitVec 32)
    (hwidth : width ≤ 60) :
    appendNumber value (radixOf c) (flagsOf flags c) width =
      .ok (appendField flags width c value) := by
  obtain ⟨hradix, hradix'⟩ := radixOf_le c
  have hleft : (flagsOf flags c).leftAlign = decide (ch '-' ∈ flags) := rfl
  have hpadding : paddingChar (flagsOf flags c) = if ch '0' ∈ flags then ch '0' else ch ' ' := by
    unfold paddingChar flagsOf
    simp
  have hsigned : (flagsOf flags c).signed = decide (c = ch 'd') := rfl
  rw [appendNumber_of_width _ hradix hradix' value hwidth, hleft, hpadding, hsigned]
  unfold appendField
  dsimp only
  by_cases hmem : ch '-' ∈ flags
  · rw [if_pos (decide_eq_true hmem), if_pos hmem]
    rfl
  · rw [if_neg (by simpa using hmem), if_neg hmem]
    exact congrArg (fun text => Except.ok (fieldLead flags c value ++ text))
      (digitText_max c width value)

/-! ## When the two agree -/

/-- Without a sign or a prefix in front of the digits, both fields are as long. -/
theorem appendField_of_lead_nil {value : BitVec 32} (hlead : fieldLead flags c value = [])
    (hwide : digitCount c value < width) :
    appendField flags width c value = printfField flags width c value ↔
      (ch '-' ∈ flags ↔ ch '0' ∉ flags) := by
  have hcore : fieldCore flags c value = fieldDigits c value := by
    unfold fieldCore
    rw [hlead, List.nil_append]
  have hzero : ch '0' ≠ ch ' ' := by decide
  have hrest : width - digitCount c value ≠ 0 := by omega
  have hfill : ∀ x y : BitVec 8, List.replicate (width - digitCount c value) x =
      List.replicate (width - digitCount c value) y ↔ x = y := by
    intro x y
    rw [List.replicate_right_inj hrest]
  unfold appendField printfField
  dsimp only
  rw [hcore, hlead, length_fieldDigits]
  simp only [List.nil_append]
  by_cases hleft : ch '-' ∈ flags
  · rw [if_pos hleft, if_pos hleft, List.append_cancel_left_eq, hfill]
    by_cases hzeros : ch '0' ∈ flags
    · rw [if_pos hzeros]
      exact iff_of_false hzero fun h => h.mp hleft hzeros
    · rw [if_neg hzeros]
      exact iff_of_true rfl ⟨fun _ => hzeros, fun _ => hleft⟩
  · rw [if_neg hleft, if_neg hleft]
    by_cases hzeros : ch '0' ∈ flags
    · rw [if_pos hzeros]
      exact iff_of_true rfl ⟨fun h => absurd h hleft, fun h => absurd hzeros h⟩
    · rw [if_neg hzeros, List.append_cancel_right_eq, hfill]
      exact iff_of_false hzero fun h => hleft (h.mpr hzeros)

theorem appendField_eq_iff (flags : List (BitVec 8)) (width : ℕ) (c : BitVec 8)
    (value : BitVec 32) :
    appendField flags width c value = printfField flags width c value ↔
      width ≤ digitCount c value ∨
        (ch '-' ∈ flags ↔ ch '0' ∉ flags) ∧ fieldLead flags c value = [] := by
  have hcore : (fieldCore flags c value).length =
      (fieldLead flags c value).length + digitCount c value := by
    unfold fieldCore
    rw [List.length_append, length_fieldDigits]
  by_cases hwide : digitCount c value < width
  · have hnarrow : ¬width ≤ digitCount c value := by omega
    by_cases hlead : fieldLead flags c value = []
    · rw [appendField_of_lead_nil hlead hwide]
      exact ⟨fun h => Or.inr ⟨h, hlead⟩, fun h => (h.resolve_left hnarrow).1⟩
    · -- the width counts for the digits only, so sign and prefix make the field longer
      have hlong : (appendField flags width c value).length =
          (fieldLead flags c value).length + width := by
        unfold appendField
        dsimp only
        split_ifs <;> simp only [List.length_append, List.length_replicate, length_fieldDigits] <;>
          omega
      have hpos : 0 < (fieldLead flags c value).length := List.length_pos_iff.mpr hlead
      have hlength := length_printfField flags width c value
      refine iff_of_false (fun h => ?_) (fun h => hlead (h.resolve_left hnarrow).2)
      rw [h, hlength, hcore] at hlong
      omega
  · -- nothing is left of the width
    have hnone : width - digitCount c value = 0 := by omega
    have hnone' : width - (fieldCore flags c value).length = 0 := by omega
    refine iff_of_true ?_ (Or.inl (by omega))
    unfold appendField printfField
    dsimp only
    rw [hnone, hnone', List.replicate_zero, List.replicate_zero, List.replicate_zero]
    unfold fieldCore
    simp only [List.append_nil, List.nil_append, ite_self]

/-- Nothing stands in front of the digits of a number that is not negative and shows no prefix. -/
theorem fieldLead_eq_nil_iff (hc : c ∈ numberChars) (value : BitVec 32) :
    fieldLead flags c value = [] ↔
      (c = ch 'd' → 0 ≤ value.toInt) ∧ (ch '#' ∈ flags → c = ch 'd' ∨ c = ch 'u') := by
  have hsign : signText (flagsOf flags c).signed value = [] ↔ (c = ch 'd' → 0 ≤ value.toInt) := by
    unfold signText flagsOf
    split_ifs with h
    · simpa using h
    · simpa using h
  have hradix : radixPrefix (radixOf c) = [] ↔ c = ch 'd' ∨ c = ch 'u' := by
    have hall : ∀ c ∈ numberChars, radixPrefix (radixOf c) = [] ↔ c = ch 'd' ∨ c = ch 'u' := by
      decide
    exact hall c hc
  have hshown : prefixText (flagsOf flags c) (radixOf c) = [] ↔
      (ch '#' ∈ flags → c = ch 'd' ∨ c = ch 'u') := by
    unfold prefixText flagsOf
    split_ifs with h
    · rw [hradix]
      exact ⟨fun h' _ => h', fun h' => h' (by simpa using h)⟩
    · exact iff_of_true rfl fun h' => absurd (decide_eq_true h') h
  unfold fieldLead leadText
  rw [List.append_eq_nil_iff, hsign, hshown]

/-- The width is taken for the digits alone and filled with zeros: the field is that of `printf` if
the digits leave nothing of the width, and otherwise exactly if there is neither sign nor prefix and
just one of the flags `-` and `0` is given. -/
theorem followsPrintf_iff (strings : BitVec 32 → List (BitVec 8)) {flags : List (BitVec 8)}
    (hflags : ∀ x ∈ flags, x ∈ flagChars) {width : ℕ} (hwidth : width ≤ 60) {c : BitVec 8}
    (hc : c ∈ numberChars) (args : ℕ → BitVec 32) :
    FollowsPrintf strings flags width c args ↔
      width ≤ digitCount c (args 0) ∨
        (ch '-' ∈ flags ↔ ch '0' ∉ flags) ∧ (c = ch 'd' → 0 ≤ (args 0).toInt) ∧
          (ch '#' ∈ flags → c = ch 'd' ∨ c = ch 'u') := by
  have hprint := vsprintf_directive strings args hflags (show width < 2 ^ 31 by omega) hc
    (appendNumber_field flags c (args 0) hwidth)
  rw [← fieldLead_eq_nil_iff hc, ← appendField_eq_iff]
  unfold FollowsPrintf
  constructor
  · rintro ⟨text, hprint', _, hfield⟩
    have hsame : appendField flags width c (args 0) = text :=
      List.append_cancel_right (Except.ok.inj (hprint.symm.trans hprint'))
    rw [hsame, hfield]
  · intro hfield
    exact ⟨_, hprint, by rw [hfield, length_printfField], hfield⟩

/-- `%05u` prints 42 as 00042. -/
theorem followsPrintf_zeros :
    FollowsPrintf (fun _ => []) (['0'].map ch) 5 (ch 'u') (fun _ => 42) :=
  (followsPrintf_iff _ (by decide) (by decide) (by decide) _).mpr
    (Or.inr ⟨by decide, by decide, by decide⟩)

/-- `%5d` prints 7 as 00007. -/
theorem not_followsPrintf_spaces :
    ¬FollowsPrintf (fun _ => []) [] 5 (ch 'd') (fun _ => 7) := by
  rintro ⟨text, hprint, _, hfield⟩
  have hprint' := vsprintf_directive (fun _ => []) (fun _ => 7) (List.forall_mem_nil _)
    (by decide) (by decide) (appendNumber_field [] (ch 'd') 7 (show 5 ≤ 60 by decide))
  have hsame : appendField [] 5 (ch 'd') 7 = text :=
    List.append_cancel_right (Except.ok.inj (hprint'.symm.trans hprint))
  rw [← hsame, appendField_eq_iff] at hfield
  exact absurd hfield (by decide)

end Evos
