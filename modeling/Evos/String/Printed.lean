import Evos.String.Format
import Mathlib.Data.List.DropRight

/-! # What a printed number says

A directive is written out with its flags, its width and its conversion, and the text printed for it
is read back: spaces, sign and prefix are stripped, and what is left is a numeral. -/

namespace Evos
open Outcome Numeral
set_option autoImplicit false

/-! ## Reading a number -/

/-- The radix of a conversion. -/
def radixOf (c : BitVec 8) : ℕ :=
  if c = ch 'x' then 16 else if c = ch 'o' then 8 else if c = ch 'b' then 2 else 10

/-- The value of a digit in a radix. -/
def digitValue (radix : ℕ) (c : BitVec 8) : Option ℕ :=
  let d :=
    if 48 ≤ c.toNat ∧ c.toNat ≤ 57 then c.toNat - 48
    else if 97 ≤ c.toNat ∧ c.toNat ≤ 102 then c.toNat - 87
    else radix
  if d < radix then some d else none

/-- A text without the spaces on both sides. -/
def stripSpaces (text : List (BitVec 8)) : List (BitVec 8) :=
  (text.dropWhile (· == ch ' ')).rdropWhile (· == ch ' ')

/-- Whether a text starts with a sign, and the text without it. -/
def stripSign (text : List (BitVec 8)) : Bool × List (BitVec 8) :=
  if text.head? = some (ch '-') then (true, text.tail) else (false, text)

/-- A text without a prefix. -/
def stripPrefix (lead text : List (BitVec 8)) : List (BitVec 8) :=
  if lead <+: text then text.drop lead.length else text

/-- Stripped of spaces, of a sign (under `d`) and of the prefix (under `#`), the text is the numeral
of the value. -/
def Denotes (c : BitVec 8) (showPrefix : Bool) (value : BitVec 32) (text : List (BitVec 8)) : Prop :=
  let signed := decide (c = ch 'd')
  let (negative, text) := if signed then stripSign (stripSpaces text) else (false, stripSpaces text)
  let text := if showPrefix then stripPrefix (radixPrefix (radixOf c)) text else text
  text ≠ [] ∧ read (digitValue (radixOf c)) (radixOf c) text = some (magnitude signed value) ∧
    (signed = true → (negative = true ↔ value.toInt < 0))

/-! ## A directive in a format -/

/-- A field width, written in the format. -/
def widthText (width : ℕ) : List (BitVec 8) :=
  if width = 0 then [] else digitText 10 (size 10 width) width

/-- A directive, written out. -/
def directiveText (flags : List (BitVec 8)) (width : ℕ) (c : BitVec 8) : List (BitVec 8) :=
  ch '%' :: (flags ++ widthText width ++ [c])

/-- The bytes that are flags. -/
def flagChars : List (BitVec 8) := ['-', '0', '#'].map ch

/-- The conversions of numbers. -/
def numberChars : List (BitVec 8) := ['d', 'u', 'x', 'o', 'b'].map ch

/-- The flags a directive names, as `append_number` gets them. -/
def flagsOf (flags : List (BitVec 8)) (c : BitVec 8) : Flags :=
  ⟨c = ch 'd', ch '0' ∈ flags, ch '-' ∈ flags, ch '#' ∈ flags⟩

/-- The text `vsprintf` prints for a directive says what its argument is. -/
def PrintsValue (strings : BitVec 32 → List (BitVec 8)) (flags : List (BitVec 8)) (width : ℕ)
    (c : BitVec 8) (args : ℕ → BitVec 32) : Prop :=
  ∃ text, vsprintf strings (directiveText flags width c) args = .ok (text ++ [0]) ∧
    Denotes c (ch '#' ∈ flags) (args 0) text

/-! ## Stripping -/

variable {c : BitVec 8} {flags : List (BitVec 8)} {width : ℕ} {value : BitVec 32}

theorem digitChar_toNat {d : ℕ} (h : d < 16) :
    (digitChar d).toNat = if d < 10 then d + 48 else d + 87 := by
  have hall : ∀ d < 16, (digitChar d).toNat = if d < 10 then d + 48 else d + 87 := by decide
  exact hall d h

theorem digitValue_digitChar {radix d : ℕ} (hradix : radix ≤ 16) (h : d < radix) :
    digitValue radix (digitChar d) = some d := by
  have hd := digitChar_toNat (h.trans_le hradix)
  have hval : (if 48 ≤ (digitChar d).toNat ∧ (digitChar d).toNat ≤ 57 then
      (digitChar d).toNat - 48
      else if 97 ≤ (digitChar d).toNat ∧ (digitChar d).toNat ≤ 102 then (digitChar d).toNat - 87
      else radix) = d := by
    split_ifs at hd ⊢ <;> omega
  unfold digitValue
  dsimp only
  rw [hval, if_pos h]

theorem stripSpaces_append {text : List (BitVec 8)} (h : ∀ x ∈ text, x ≠ ch ' ')
    (htext : text ≠ []) (count : ℕ) :
    stripSpaces (text ++ List.replicate count (ch ' ')) = text := by
  have hdrop : ∀ (front back : List (BitVec 8)), (∀ x ∈ front, x ≠ ch ' ') → front ≠ [] →
      (front ++ back).dropWhile (· == ch ' ') = front ++ back := by
    intro front back hx hne
    cases front with
    | nil => exact absurd rfl hne
    | cons x front =>
      rw [List.cons_append, List.dropWhile_cons_of_neg]
      simpa using hx x List.mem_cons_self
  have hspaces : ∀ (count : ℕ) (back : List (BitVec 8)),
      (List.replicate count (ch ' ') ++ back).dropWhile (· == ch ' ') =
        back.dropWhile (· == ch ' ') := by
    intro count back
    induction count with
    | zero => rfl
    | succ count ih =>
      rw [List.replicate_succ, List.cons_append, List.dropWhile_cons_of_pos (by simp), ih]
  unfold stripSpaces List.rdropWhile
  rw [hdrop _ _ h htext, List.reverse_append, List.reverse_replicate, hspaces]
  have hback := hdrop text.reverse [] (fun x hx => h x (List.mem_reverse.mp hx))
    (fun hnil => htext (List.reverse_eq_nil_iff.mp hnil))
  rw [List.append_nil] at hback
  rw [hback, List.reverse_reverse]

theorem digitChar_ne {d : ℕ} (h : d < 16) : digitChar d ≠ ch ' ' ∧ digitChar d ≠ ch '-' := by
  have hall : ∀ d < 16, digitChar d ≠ ch ' ' ∧ digitChar d ≠ ch '-' := by decide
  exact hall d h

theorem ne_space_of_mem_leadText (f : Flags) (radix : ℕ) (value : BitVec 32) :
    ∀ x ∈ leadText f radix value, x ≠ ch ' ' := by
  intro x hx
  unfold leadText signText prefixText radixPrefix at hx
  rcases List.mem_append.mp hx with hx | hx
  · split_ifs at hx
    · rw [List.mem_singleton.mp hx]
      decide
    · exact absurd hx List.not_mem_nil
  · split_ifs at hx <;> simp only [List.mem_cons, List.not_mem_nil, or_false] at hx
    · rcases hx with rfl | rfl <;> decide
    · rw [hx]
      decide
    · rcases hx with rfl | rfl <;> decide

theorem stripSign_digits {digits : List ℕ} (h : ∀ d ∈ digits, d < 16) :
    stripSign (digits.map digitChar) = (false, digits.map digitChar) := by
  refine if_neg fun hhead => ?_
  cases digits with
  | nil => exact nomatch hhead
  | cons d digits =>
    exact (digitChar_ne (h d List.mem_cons_self)).2 (Option.some.inj hhead)

theorem stripSign_signText {digits : List ℕ} (h : ∀ d ∈ digits, d < 16) (value : BitVec 32) :
    stripSign (signText true value ++ digits.map digitChar) =
      (decide (value.toInt < 0), digits.map digitChar) := by
  unfold signText
  by_cases hneg : value.toInt < 0
  · rw [if_pos ⟨rfl, hneg⟩, decide_eq_true hneg]
    exact if_pos rfl
  · rw [if_neg fun h => hneg h.2, decide_eq_false hneg]
    exact stripSign_digits h

theorem stripPrefix_append (lead text : List (BitVec 8)) :
    stripPrefix lead (lead ++ text) = text := by
  unfold stripPrefix
  rw [if_pos (List.prefix_append lead text), List.drop_left]

/-! ## What the digits say -/

theorem read_digits {radix : ℕ} (hradix : radix ≤ 16) {digits : List ℕ}
    (h : ∀ d ∈ digits, d < radix) :
    read (digitValue radix) radix (digits.map digitChar) = some (Numeral.value radix digits) :=
  read_map fun d hd => digitValue_digitChar hradix (h d hd)

theorem radixOf_le (c : BitVec 8) : 2 ≤ radixOf c ∧ radixOf c ≤ 16 := by
  unfold radixOf
  split_ifs <;> decide

theorem stripSpaces_digits (f : Flags) (radix : ℕ) (value : BitVec 32) {digits : List ℕ}
    (hdigits : digits ≠ []) (h : ∀ d ∈ digits, d < 16) (spaces : ℕ) :
    stripSpaces (leadText f radix value ++ digits.map digitChar ++
      List.replicate spaces (ch ' ')) = leadText f radix value ++ digits.map digitChar := by
  refine stripSpaces_append (fun x hx => ?_) (fun hnil => ?_) spaces
  · rcases List.mem_append.mp hx with hx | hx
    · exact ne_space_of_mem_leadText _ _ _ x hx
    · obtain ⟨d, hd, rfl⟩ := List.mem_map.mp hx
      exact (digitChar_ne (h d hd)).1
  · exact hdigits (List.map_eq_nil_iff.mp (List.append_eq_nil_iff.mp hnil).2)

/-- Sign and prefix are what is stripped, and the digits are what is read. -/
theorem denotes_iff_value {f : Flags} (hsigned : f.signed = decide (c = ch 'd'))
    {digits : List ℕ} (hdigits : digits ≠ []) (h : ∀ d ∈ digits, d < radixOf c) (spaces : ℕ) :
    Denotes c f.showPrefix value (leadText f (radixOf c) value ++ digits.map digitChar ++
        List.replicate spaces (ch ' ')) ↔
      Numeral.value (radixOf c) digits = magnitude f.signed value := by
  have hle := (radixOf_le c).2
  have h16 : ∀ d ∈ digits, d < 16 := fun d hd => (h d hd).trans_le hle
  have hne : digits.map digitChar ≠ [] := mt List.map_eq_nil_iff.mp hdigits
  have hread := read_digits hle h
  unfold Denotes
  rw [stripSpaces_digits f _ value hdigits h16, ← hsigned]
  unfold leadText
  by_cases hd : c = ch 'd'
  · subst hd
    have hs : f.signed = true := hsigned
    have hshown : prefixText f (radixOf (ch 'd')) = [] := by
      unfold prefixText
      split <;> rfl
    have hstrip : ∀ text, (if f.showPrefix = true then
        stripPrefix (radixPrefix (radixOf (ch 'd'))) text else text) = text := by
      intro text
      split
      · exact stripPrefix_append [] text
      · rfl
    rw [hshown, hs, List.append_nil]
    simp only [if_true, stripSign_signText h16, hstrip, hread, Option.some.injEq]
    simp [hne]
  · have hs : f.signed = false := hsigned.trans (decide_eq_false hd)
    have hsign : signText f.signed value = [] := by
      rw [hs]
      rfl
    have hstrip : (if f.showPrefix = true then stripPrefix (radixPrefix (radixOf c))
        (prefixText f (radixOf c) ++ digits.map digitChar)
        else prefixText f (radixOf c) ++ digits.map digitChar) = digits.map digitChar := by
      unfold prefixText
      split
      · exact stripPrefix_append _ _
      · rfl
    rw [hsign, hs, List.nil_append]
    simp only [Bool.false_eq_true, if_false, hstrip, hread, Option.some.injEq]
    simp [hne]

theorem magnitude_eq_zero_iff (signed : Bool) : magnitude signed value = 0 ↔ value = 0 := by
  unfold magnitude
  cases signed with
  | false =>
    rw [if_neg Bool.false_ne_true]
    exact ⟨fun h => BitVec.eq_of_toNat_eq h, fun h => congrArg BitVec.toNat h⟩
  | true =>
    rw [if_pos rfl, Int.natAbs_eq_zero]
    exact ⟨fun h => BitVec.eq_of_toInt_eq h, fun h => congrArg BitVec.toInt h⟩

/-- A width in range never makes the number leave the scratch buffer, and is what is printed. -/
theorem appendNumber_of_width (f : Flags) {radix : ℕ} (hradix : 2 ≤ radix) (hradix' : radix ≤ 16)
    (value : BitVec 32) (hwidth : width ≤ 60) :
    appendNumber value radix f width = .ok (leadText f radix value ++
      if f.leftAlign then
        digitText radix (size radix (magnitude f.signed value)) (magnitude f.signed value) ++
          List.replicate (width - size radix (magnitude f.signed value)) (paddingChar f)
      else digitText radix (max (size radix (magnitude f.signed value)) width)
        (magnitude f.signed value)) := by
  have hsize : size radix (magnitude f.signed value) ≤ 32 := size_magnitude_le hradix _ _
  have hlead := length_leadText_le f radix value
  by_cases hleft : f.leftAlign = true
  · have hrest : (i32 (min 64 (width : ℤ) - size radix (magnitude f.signed value))).toNat =
        width - size radix (magnitude f.signed value) := by
      rw [i32_of_mem (by omega) (by omega)]
      omega
    rw [appendNumber_left hradix hradix' hleft, if_pos hleft, hrest, List.append_assoc]
  · have hcount : max (size radix (magnitude f.signed value)) (min 64 (width : ℤ)).toNat =
        max (size radix (magnitude f.signed value)) width := by
      omega
    rw [appendNumber_right hradix hradix' (Bool.eq_false_iff.mpr hleft) (by omega), if_neg hleft,
      hcount, if_pos (by unfold bufSize; omega)]

/-- Zeros behind the digits of a number other than zero are the one way to print another value. -/
theorem denotes_appendNumber {f : Flags} (hsigned : f.signed = decide (c = ch 'd'))
    (hwidth : width ≤ 60) {text : List (BitVec 8)}
    (htext : appendNumber value (radixOf c) f width = .ok text) :
    Denotes c f.showPrefix value text ↔
      ¬(f.leftAlign = true ∧ f.zeroPadded = true ∧
        size (radixOf c) (magnitude f.signed value) < width ∧ value ≠ 0) := by
  obtain ⟨hradix, hradix'⟩ := radixOf_le c
  have hm : magnitude f.signed value = 0 ↔ value = 0 := magnitude_eq_zero_iff f.signed
  have hread : ∀ digits : List ℕ, digits ≠ [] → (∀ d ∈ digits, d < radixOf c) → ∀ spaces,
      (Denotes c f.showPrefix value (leadText f (radixOf c) value ++ digits.map digitChar ++
        List.replicate spaces (ch ' ')) ↔
      Numeral.value (radixOf c) digits = magnitude f.signed value) :=
    fun _ hne h spaces => denotes_iff_value hsigned hne h spaces
  rw [appendNumber_of_width f hradix hradix' value hwidth] at htext
  generalize magnitude f.signed value = m at hm hread htext
  have hsize : 0 < size (radixOf c) m := size_pos
  have hpow : m < radixOf c ^ size (radixOf c) m := lt_pow_size (by omega)
  have hlow : ∀ count, ∀ d ∈ lowDigits (radixOf c) count m, d < radixOf c :=
    fun count d hd => lt_of_mem_lowDigits (by omega) hd
  unfold digitText paddingChar at htext
  by_cases hleft : f.leftAlign = true
  · rw [if_pos hleft] at htext
    by_cases hzero : f.zeroPadded = true
    · -- the padding is read as digits
      rw [if_pos hzero] at htext
      obtain ⟨count, hcount⟩ : ∃ count, width - size (radixOf c) m = count := ⟨_, rfl⟩
      have hpad : List.replicate count (ch '0') = (List.replicate count 0).map digitChar := by
        rw [List.map_replicate]
        rfl
      have hdigits : ∀ d ∈ lowDigits (radixOf c) (size (radixOf c) m) m ++ List.replicate count 0,
          d < radixOf c := by
        intro d hd
        rcases List.mem_append.mp hd with hd | hd
        · exact hlow _ d hd
        · rw [List.eq_of_mem_replicate hd]
          omega
      have hne : lowDigits (radixOf c) (size (radixOf c) m) m ++ List.replicate count 0 ≠ [] :=
        fun hnil => lowDigits_ne_nil _ m hsize (List.append_eq_nil_iff.mp hnil).1
      have hiff := hread _ hne hdigits 0
      rw [List.replicate_zero, List.append_nil, List.map_append, ← hpad, value_append,
        value_lowDigits hpow, value_replicate_zero, List.length_replicate, Nat.add_zero] at hiff
      rw [hcount] at htext
      cases htext
      rw [hiff]
      by_cases hm0 : m = 0
      · exact iff_of_true (by rw [hm0, Nat.zero_mul]) fun h => h.2.2.2 (hm.mp hm0)
      have hv : value ≠ 0 := mt hm.mpr hm0
      rw [Nat.mul_eq_left hm0]
      by_cases hc0 : count = 0
      · have hnot : ¬size (radixOf c) m < width := by omega
        exact iff_of_true (by rw [hc0, pow_zero]) fun h => hnot h.2.2.1
      · have hlong : size (radixOf c) m < width := by omega
        have hpow1 : radixOf c ^ count ≠ 1 :=
          Nat.ne_of_gt (Nat.one_lt_pow hc0 (by omega))
        exact iff_of_false hpow1 (not_not_intro ⟨hleft, hzero, hlong, hv⟩)
    · rw [if_neg hzero, ← List.append_assoc] at htext
      cases htext
      rw [hread _ (lowDigits_ne_nil _ m hsize) (hlow _), value_lowDigits hpow]
      exact iff_of_true rfl fun h => hzero h.2.1
  · rw [if_neg hleft] at htext
    have hpos : 0 < max (size (radixOf c) m) width := lt_max_of_lt_left hsize
    have hmax : m < radixOf c ^ max (size (radixOf c) m) width :=
      hpow.trans_le (Nat.pow_le_pow_right (by omega) (le_max_left _ _))
    have hiff := hread _ (lowDigits_ne_nil _ m hpos) (hlow _) 0
    rw [List.replicate_zero, List.append_nil, value_lowDigits hmax] at hiff
    cases htext
    rw [hiff]
    exact iff_of_true rfl fun h => hleft h.1

/-! ## Parsing the directive -/

theorem addFlag_of_not_mem (hc : c ∉ flagChars) (f : Flags) : addFlag c f = none := by
  have hne : ∀ x ∈ flagChars, c ≠ x := fun x hx h => hc (h ▸ hx)
  unfold addFlag
  rw [if_neg (hne _ (by decide)), if_neg (hne _ (by decide)), if_neg (hne _ (by decide))]

theorem parseFlags_append {fmt : List (BitVec 8)} {f : Flags} (hflags : ∀ x ∈ flags, x ∈ flagChars)
    (hc : c ∉ flagChars) :
    parseFlags (flags ++ c :: fmt) f =
      .ok (⟨f.signed, f.zeroPadded || decide (ch '0' ∈ flags),
        f.leftAlign || decide (ch '-' ∈ flags), f.showPrefix || decide (ch '#' ∈ flags)⟩,
        c :: fmt) := by
  induction flags generalizing f with
  | nil =>
    rw [List.nil_append, parseFlags_cons, addFlag_of_not_mem hc]
    simp
  | cons x flags ih =>
    have hrest : ∀ y ∈ flags, y ∈ flagChars := fun y hy => hflags y (List.mem_cons_of_mem x hy)
    have h0 : ch '0' ≠ ch '-' ∧ ch '0' ≠ ch '#' := by decide
    have hd : ch '-' ≠ ch '0' ∧ ch '-' ≠ ch '#' := by decide
    have hh : ch '#' ≠ ch '-' ∧ ch '#' ≠ ch '0' := by decide
    rw [List.cons_append, parseFlags_cons]
    have hx : x = ch '-' ∨ x = ch '0' ∨ x = ch '#' := by
      simpa [flagChars] using hflags x List.mem_cons_self
    rcases hx with rfl | rfl | rfl
    · show parseFlags (flags ++ c :: fmt) { f with leftAlign := true } = _
      rw [ih hrest]
      simp [h0, hh]
    · show parseFlags (flags ++ c :: fmt) { f with zeroPadded := true } = _
      rw [ih hrest]
      simp [hd, hh]
    · show parseFlags (flags ++ c :: fmt) { f with showPrefix := true } = _
      rw [ih hrest]
      simp [h0, hd]

theorem digitChar_decimal {d : ℕ} (h : d < 10) :
    isDigit (digitChar d) = true ∧ digitOf (digitChar d) = d ∧
      (d ≠ 0 → digitChar d ∉ flagChars) := by
  have hall : ∀ d < 10, isDigit (digitChar d) = true ∧ digitOf (digitChar d) = d ∧
      (d ≠ 0 → digitChar d ∉ flagChars) := by decide
  exact hall d h

theorem skipAtoi_digits {digits : List ℕ} (h : ∀ d ∈ digits, d < 10) (hc : isDigit c = false)
    (start : ℕ) (fmt : List (BitVec 8)) :
    skipAtoi (digits.map digitChar ++ c :: fmt) (i32 start) =
      .ok (i32 (digits.foldl (fun n d => n * 10 + d) start : ℕ), c :: fmt) := by
  induction digits generalizing start with
  | nil =>
    rw [List.map_nil, List.nil_append, skipAtoi, hc]
    rfl
  | cons d digits ih =>
    obtain ⟨hdigit, hval, _⟩ := digitChar_decimal (h d List.mem_cons_self)
    have hstep : i32 (i32 (i32 start * 10) + d) = i32 (start * 10 + d : ℕ) := by
      unfold i32
      omega
    rw [List.map_cons, List.cons_append, skipAtoi, if_pos hdigit, toInt_digit hdigit, hval, hstep,
      ih fun x hx => h x (List.mem_cons_of_mem d hx)]
    rfl

/-- The parser finds flags, width and conversion where the directive has them. -/
theorem parseDirective_directive (hflags : ∀ x ∈ flags, x ∈ flagChars) (hc : c ∉ flagChars)
    (hdigit : isDigit c = false) (hwidth : width < 2 ^ 31) (fmt : List (BitVec 8)) :
    parseDirective (flags ++ widthText width ++ [c] ++ fmt) =
      .ok (⟨false, decide (ch '0' ∈ flags), decide (ch '-' ∈ flags), decide (ch '#' ∈ flags)⟩,
        width, c :: fmt) := by
  rw [parseDirective_eq, List.append_assoc, List.append_assoc]
  unfold widthText
  by_cases hzero : width = 0
  · rw [if_pos hzero, List.nil_append, List.singleton_append,
      except_bind_of_ok (parseFlags_append hflags hc), hzero]
    show (if isDigit c = true then _ else _) = _
    rw [hdigit]
    simp
  · obtain ⟨d, digits, hd, hne⟩ := exists_shortest (show 1 < 10 by decide) hzero
    have hdigits : ∀ x ∈ d :: digits, x < 10 := fun x hx =>
      lt_of_mem_lowDigits (by decide) (hd ▸ hx)
    obtain ⟨hfirst, _, hflag⟩ := digitChar_decimal (hdigits d List.mem_cons_self)
    have hval := value_lowDigits (lt_pow_size (show 1 < 10 by decide) (n := width))
    have hskip := skipAtoi_digits hdigits hdigit 0 fmt
    rw [← hd] at hskip
    unfold Numeral.value at hval
    rw [hval, i32_zero, i32_of_mem (by omega) (by omega)] at hskip
    unfold digitText
    rw [if_neg hzero, hd, List.map_cons, List.cons_append,
      except_bind_of_ok (parseFlags_append hflags (hflag hne))]
    show (if isDigit (digitChar d) = true then _ else _) = _
    rw [if_pos hfirst]
    rw [hd, List.map_cons, List.cons_append] at hskip
    show (skipAtoi _ 0 >>= _) = _
    rw [List.singleton_append, except_bind_of_ok hskip]
    simp

/-! ## What a directive prints -/

theorem numberChars_ne (hc : c ∈ numberChars) : c ∉ flagChars ∧ isDigit c = false := by
  have hall : ∀ c ∈ numberChars, c ∉ flagChars ∧ isDigit c = false := by decide
  exact hall c hc

theorem numberOf_numberChars (hc : c ∈ numberChars) (f : Flags) (hf : f.signed = false)
    (width : ℤ) :
    numberOf c f width = some (radixOf c, { f with signed := decide (c = ch 'd') }, width) := by
  obtain ⟨signed, zeroPadded, leftAlign, showPrefix⟩ := f
  have hsigned : signed = false := hf
  subst hsigned
  simp only [numberChars, List.map_cons, List.map_nil, List.mem_cons, List.not_mem_nil,
    or_false] at hc
  rcases hc with rfl | rfl | rfl | rfl | rfl <;> rfl

theorem vsprintfLoop_nul (strings : BitVec 32 → List (BitVec 8)) (args : ℕ → BitVec 32) :
    vsprintfLoop strings [0] args = .ok [] := by
  rw [vsprintfLoop, if_pos rfl]

theorem vsprintf_directive (strings : BitVec 32 → List (BitVec 8)) (args : ℕ → BitVec 32)
    (hflags : ∀ x ∈ flags, x ∈ flagChars) (hwidth : width < 2 ^ 31) (hc : c ∈ numberChars)
    {text : List (BitVec 8)}
    (h : appendNumber (args 0) (radixOf c) (flagsOf flags c) width = .ok text) :
    vsprintf strings (directiveText flags width c) args = .ok (text ++ [0]) := by
  obtain ⟨hflag, hdigit⟩ := numberChars_ne hc
  have hparse := parseDirective_directive hflags hflag hdigit hwidth [0]
  have hconvert := @convert_number _ _ _ args strings _ _ _
    (numberOf_numberChars hc ⟨false, decide (ch '0' ∈ flags), decide (ch '-' ∈ flags),
      decide (ch '#' ∈ flags)⟩ rfl width)
  have h' : appendNumber (args 0) (radixOf c) ⟨decide (c = ch 'd'), decide (ch '0' ∈ flags),
      decide (ch '-' ∈ flags), decide (ch '#' ∈ flags)⟩ width = .ok text := h
  dsimp only at hconvert
  rw [except_bind_of_ok h'] at hconvert
  unfold vsprintf directiveText
  rw [List.cons_append, vsprintfLoop_directive hparse, except_bind_of_ok hconvert]
  dsimp only
  rw [vsprintfLoop_nul]
  show Except.ok (text ++ [] ++ [0]) = _
  rw [List.append_nil]

/-- What is printed for a number says its value, except for a number other than zero that is aligned
on the left and padded with zeros: the zeros come behind its digits. -/
theorem printsValue_iff (strings : BitVec 32 → List (BitVec 8)) {flags : List (BitVec 8)}
    (hflags : ∀ x ∈ flags, x ∈ flagChars) {width : ℕ} (hwidth : width ≤ 60) {c : BitVec 8}
    (hc : c ∈ numberChars) (args : ℕ → BitVec 32) :
    PrintsValue strings flags width c args ↔
      ¬(ch '-' ∈ flags ∧ ch '0' ∈ flags ∧
        size (radixOf c) (magnitude (c = ch 'd') (args 0)) < width ∧ args 0 ≠ 0) := by
  obtain ⟨hradix, hradix'⟩ := radixOf_le c
  obtain ⟨text, htext⟩ : ∃ text,
      appendNumber (args 0) (radixOf c) (flagsOf flags c) width = .ok text :=
    ⟨_, appendNumber_of_width _ hradix hradix' _ hwidth⟩
  have hprint := vsprintf_directive strings args hflags (by omega) hc htext
  have hdenotes := denotes_appendNumber (f := flagsOf flags c) rfl hwidth htext
  have hflag : (flagsOf flags c).showPrefix = decide (ch '#' ∈ flags) := rfl
  rw [hflag] at hdenotes
  unfold PrintsValue
  constructor
  · rintro ⟨text', hprint', h⟩
    have hsame : text' = text := by
      rw [hprint] at hprint'
      exact (List.append_cancel_right (Except.ok.inj hprint')).symm
    rw [hsame] at h
    have hnot := hdenotes.mp h
    simpa [flagsOf] using hnot
  · intro hnot
    refine ⟨text, hprint, hdenotes.mpr ?_⟩
    simpa [flagsOf] using hnot

theorem printsValue_most_negative :
    PrintsValue (fun _ => []) (['0', '#'].map ch) 20 (ch 'd') (fun _ => 0x80000000) :=
  (printsValue_iff _ (by decide) (by decide) (by decide) _).mpr fun h => by
    exact absurd h.1 (by decide)

/-- `%-05d` prints 7 as 70000. -/
theorem not_printsValue_left_zeros :
    ¬PrintsValue (fun _ => []) (['-', '0'].map ch) 5 (ch 'd') (fun _ => 7) := by
  rintro ⟨text, hprint, h⟩
  have htext := appendNumber_of_width (flagsOf (['-', '0'].map ch) (ch 'd'))
    (radixOf_le (ch 'd')).1 (radixOf_le (ch 'd')).2 7 (show 5 ≤ 60 by decide)
  have hprint' := vsprintf_directive (fun _ => []) (fun _ => 7) (by decide) (by decide)
    (by decide) htext
  have hsame := List.append_cancel_right (Except.ok.inj (hprint'.symm.trans hprint))
  rw [← hsame] at h
  exact (denotes_appendNumber (f := flagsOf (['-', '0'].map ch) (ch 'd')) rfl (by decide)
    htext).mp h (by decide)

end Evos
