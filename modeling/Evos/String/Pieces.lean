import Evos.String.Printed

/-! # Formats put together from pieces

Plain text and the directives of `vsprintf`, as pieces. A format written out piece by piece prints the
texts of its pieces one after the other, each directive that takes an argument the next one. -/

namespace Evos
open Outcome Numeral
set_option autoImplicit false

/-! ## Pieces -/

inductive Piece where
  | text (cs : List (BitVec 8))
  /-- `%%`. -/
  | percent
  /-- `%c`, with flags and a width that change nothing. -/
  | char (flags : List (BitVec 8)) (width : ℕ)
  /-- `%s`. -/
  | string (flags : List (BitVec 8)) (width : ℕ)
  /-- `%d` and the other numbers. -/
  | number (flags : List (BitVec 8)) (width : ℕ) (c : BitVec 8)
  /-- `%p`, without flags or width. -/
  | pointer

/-- The piece as it stands in the format. -/
def Piece.format : Piece → List (BitVec 8)
  | .text cs => cs
  | .percent => directiveText [] 0 (ch '%')
  | .char flags width => directiveText flags width (ch 'c')
  | .string flags width => directiveText flags width (ch 's')
  | .number flags width c => directiveText flags width c
  | .pointer => directiveText [] 0 (ch 'p')

/-- How many arguments it takes. -/
def Piece.arity : Piece → ℕ
  | .text _ | .percent => 0
  | .char _ _ | .string _ _ | .number _ _ _ | .pointer => 1

/-- A number as `append_number` lays it out: the width is that of the digits alone. -/
def numberText (f : Flags) (radix width : ℕ) (value : BitVec 32) : List (BitVec 8) :=
  leadText f radix value ++
    if f.leftAlign then
      digitText radix (size radix (magnitude f.signed value)) (magnitude f.signed value) ++
        List.replicate (width - size radix (magnitude f.signed value)) (paddingChar f)
    else digitText radix (max (size radix (magnitude f.signed value)) width) (magnitude f.signed value)

/-- A string, filled up with spaces. -/
def stringText (leftAlign : Bool) (width : ℕ) (s : List (BitVec 8)) : List (BitVec 8) :=
  let padding := List.replicate (width - s.length) (ch ' ')
  if leftAlign then s ++ padding else padding ++ s

/-- What the piece prints for its argument. -/
def Piece.printed (strings : BitVec 32 → List (BitVec 8)) (arg : BitVec 32) : Piece → List (BitVec 8)
  | .text cs => cs
  | .percent => [ch '%']
  | .char _ _ => [arg.setWidth 8]
  | .string flags width => stringText (ch '-' ∈ flags) width (strings arg)
  | .number flags width c => numberText (flagsOf flags c) (radixOf c) width arg
  | .pointer => numberText ⟨false, true, false, true⟩ 16 8 arg

/-- The piece is what it seems in a format, and a number fits into the scratch buffer. -/
def Piece.Ok : Piece → Prop
  | .text cs => ∀ c ∈ cs, c ≠ 0 ∧ c ≠ ch '%'
  | .percent | .pointer => True
  | .char flags width | .string flags width => (∀ x ∈ flags, x ∈ flagChars) ∧ width < 2 ^ 31
  | .number flags width c => (∀ x ∈ flags, x ∈ flagChars) ∧ width ≤ 60 ∧ c ∈ numberChars

instance (p : Piece) : Decidable p.Ok := by
  cases p <;> (unfold Piece.Ok; infer_instance)

/-- What a format prints, piece by piece. -/
def printedText (strings : BitVec 32 → List (BitVec 8)) :
    List Piece → (ℕ → BitVec 32) → List (BitVec 8)
  | [], _ => []
  | p :: ps, args =>
    p.printed strings (args 0) ++ printedText strings ps fun k => args (k + p.arity)

/-- The format. -/
def formatOf (ps : List Piece) : List (BitVec 8) := ps.flatMap Piece.format

/-! ## One piece -/

section Piece
variable {strings : BitVec 32 → List (BitVec 8)} {args : ℕ → BitVec 32}
  {rest text : List (BitVec 8)} {flags : List (BitVec 8)} {width : ℕ} {c : BitVec 8}

theorem vsprintfLoop_plain {cs : List (BitVec 8)} (hcs : ∀ c ∈ cs, c ≠ 0 ∧ c ≠ ch '%')
    (h : vsprintfLoop strings rest args = .ok text) :
    vsprintfLoop strings (cs ++ rest) args = .ok (cs ++ text) := by
  induction cs with
  | nil => exact h
  | cons c cs ih =>
    obtain ⟨hnul, hpercent⟩ := hcs c List.mem_cons_self
    rw [List.cons_append, vsprintfLoop_text hnul hpercent,
      except_bind_of_ok (ih fun x hx => hcs x (List.mem_cons_of_mem c hx))]
    rfl

theorem vsprintfLoop_convert (hflags : ∀ x ∈ flags, x ∈ flagChars) (hwidth : width < 2 ^ 31)
    (hc : c ∉ flagChars) (hdigit : isDigit c = false) {shown : List (BitVec 8)}
    {args' : ℕ → BitVec 32}
    (hconvert : convert strings c ⟨false, decide (ch '0' ∈ flags), decide (ch '-' ∈ flags),
      decide (ch '#' ∈ flags)⟩ width args = .ok (shown, args'))
    (h : vsprintfLoop strings rest args' = .ok text) :
    vsprintfLoop strings (directiveText flags width c ++ rest) args = .ok (shown ++ text) := by
  have hparse := parseDirective_directive hflags hc hdigit hwidth rest
  unfold directiveText
  rw [List.cons_append, vsprintfLoop_directive hparse, except_bind_of_ok hconvert]
  dsimp only
  rw [except_bind_of_ok h]
  rfl

theorem convert_numberText (f : Flags) (hsigned : f.signed = false) (hwidth : width ≤ 60)
    (hc : c ∈ numberChars) :
    convert strings c f width args =
      .ok (numberText { f with signed := decide (c = ch 'd') } (radixOf c) width (args 0),
        fun k => args (k + 1)) := by
  rw [convert_number (numberOf_numberChars hc f hsigned width)]
  rw [except_bind_of_ok (appendNumber_of_width _ (radixOf_le c).1 (radixOf_le c).2 (args 0) hwidth)]
  rfl

theorem convert_pointer (f : Flags) (hsigned : f.signed = false) (hleft : f.leftAlign = false) :
    convert strings (ch 'p') f 0 args =
      .ok (numberText ⟨false, true, false, true⟩ 16 8 (args 0), fun k => args (k + 1)) := by
  have hnumber : numberOf (ch 'p') f 0 =
      some ((16, ⟨false, true, false, true⟩, (8 : ℕ)) : ℕ × Flags × ℤ) := by
    obtain ⟨signed, zeroPadded, leftAlign, showPrefix⟩ := f
    have h1 : signed = false := hsigned
    have h2 : leftAlign = false := hleft
    subst h1 h2
    rfl
  have hwidth : 8 ≤ 60 := by decide
  rw [convert_number hnumber]
  rw [except_bind_of_ok (appendNumber_of_width _ (by decide) (by decide) (args 0) hwidth)]
  rfl

theorem appendString_eq {s : List (BitVec 8)} (hs : s.length < 2 ^ 31) (width : ℕ) (f : Flags) :
    appendString s f width = stringText f.leftAlign width s := by
  have hlen : i32 s.length = s.length := i32_of_mem (by omega) (by omega)
  have hpad : ((width : ℤ) - s.length).toNat = width - s.length := by omega
  unfold appendString stringText
  dsimp only
  rw [hlen, hpad, Int.toNat_natCast, List.take_length]

theorem Piece.vsprintfLoop {p : Piece} (hp : p.Ok) (hstrings : ∀ x, (strings x).length < 2 ^ 31)
    (h : vsprintfLoop strings rest (fun k => args (k + p.arity)) = .ok text) :
    vsprintfLoop strings (p.format ++ rest) args = .ok (p.printed strings (args 0) ++ text) := by
  cases p with
  | text cs => exact vsprintfLoop_plain hp h
  | percent =>
    exact vsprintfLoop_convert (List.forall_mem_nil _) (by decide) (by decide) (by decide) rfl h
  | char flags width => exact vsprintfLoop_convert hp.1 hp.2 (by decide) (by decide) rfl h
  | string flags width =>
    refine vsprintfLoop_convert hp.1 hp.2 (by decide) (by decide) ?_ h
    have hprinted := appendString_eq (hstrings (args 0)) width
      ⟨false, decide (ch '0' ∈ flags), decide (ch '-' ∈ flags), decide (ch '#' ∈ flags)⟩
    exact congrArg (fun shown => Except.ok (shown, fun k => args (k + 1))) hprinted
  | number flags width c =>
    obtain ⟨hflags, hwidth, hc⟩ := hp
    obtain ⟨hflag, hdigit⟩ := numberChars_ne hc
    exact vsprintfLoop_convert hflags (by omega) hflag hdigit (convert_numberText _ rfl hwidth hc) h
  | pointer =>
    exact vsprintfLoop_convert (List.forall_mem_nil _) (by decide) (by decide) (by decide)
      (convert_pointer _ rfl rfl) h

end Piece

/-! ## The whole format -/

theorem vsprintfLoop_pieces (strings : BitVec 32 → List (BitVec 8)) (ps : List Piece)
    (hps : ∀ p ∈ ps, p.Ok) (hstrings : ∀ x, (strings x).length < 2 ^ 31) (args : ℕ → BitVec 32) :
    vsprintfLoop strings (formatOf ps ++ [0]) args = .ok (printedText strings ps args) := by
  induction ps generalizing args with
  | nil => exact vsprintfLoop_nul strings args
  | cons p ps ih =>
    have hrest := ih (fun q hq => hps q (List.mem_cons_of_mem p hq)) fun k => args (k + p.arity)
    have hformat : formatOf (p :: ps) ++ [0] = p.format ++ (formatOf ps ++ [0]) := by
      unfold formatOf
      rw [List.flatMap_cons, List.append_assoc]
    rw [hformat]
    exact Piece.vsprintfLoop (hps p List.mem_cons_self) hstrings hrest

theorem vsprintf_pieces (strings : BitVec 32 → List (BitVec 8)) (ps : List Piece)
    (hps : ∀ p ∈ ps, p.Ok) (hstrings : ∀ x, (strings x).length < 2 ^ 31) (args : ℕ → BitVec 32) :
    vsprintf strings (formatOf ps) args = .ok (printedText strings ps args ++ [0]) := by
  unfold vsprintf
  rw [except_bind_of_ok (vsprintfLoop_pieces strings ps hps hstrings args)]
  rfl

/-! ## How much is printed -/

section Printed
variable {strings : BitVec 32 → List (BitVec 8)} {n : ℕ}

/-- The most a piece prints, for strings of at most `n` bytes. -/
def Piece.most (n : ℕ) : Piece → ℕ
  | .text cs => cs.length
  | .percent | .char _ _ => 1
  | .string _ width => max width n
  | .number _ width _ => 35 + width
  | .pointer => 43

theorem length_numberText_le (f : Flags) {radix : ℕ} (hradix : 2 ≤ radix) (width : ℕ)
    (value : BitVec 32) : (numberText f radix width value).length ≤ 35 + width := by
  have hlead := length_leadText_le f radix value
  have hsize := size_magnitude_le hradix f.signed value
  unfold numberText
  rw [List.length_append]
  by_cases hleft : f.leftAlign = true
  · rw [if_pos hleft, List.length_append, List.length_replicate, digitText, List.length_map,
      length_lowDigits]
    omega
  · rw [if_neg hleft, digitText, List.length_map, length_lowDigits]
    omega

theorem length_stringText (leftAlign : Bool) (width : ℕ) (s : List (BitVec 8)) :
    (stringText leftAlign width s).length = max width s.length := by
  unfold stringText
  dsimp only
  split
  · rw [List.length_append, List.length_replicate]
    omega
  · rw [List.length_append, List.length_replicate]
    omega

theorem Piece.length_printed_le (hstrings : ∀ x, (strings x).length ≤ n) (arg : BitVec 32)
    (p : Piece) : (p.printed strings arg).length ≤ p.most n := by
  cases p with
  | text cs => exact Nat.le_refl _
  | percent => exact Nat.le_refl 1
  | char flags width => exact Nat.le_refl 1
  | string flags width =>
    have hs := hstrings arg
    show (stringText _ width (strings arg)).length ≤ max width n
    rw [length_stringText]
    omega
  | number flags width c => exact length_numberText_le _ (radixOf_le c).1 width arg
  | pointer => exact length_numberText_le _ (by decide) 8 arg

theorem length_printedText_le (hstrings : ∀ x, (strings x).length ≤ n) (ps : List Piece)
    (args : ℕ → BitVec 32) :
    (printedText strings ps args).length ≤ (ps.map (Piece.most n)).sum := by
  induction ps generalizing args with
  | nil => exact Nat.le_refl 0
  | cons p ps ih =>
    have hpiece := p.length_printed_le hstrings (args 0)
    have hrest := ih fun k => args (k + p.arity)
    rw [printedText, List.length_append, List.map_cons, List.sum_cons]
    omega

theorem zero_not_mem_numberText (f : Flags) {radix : ℕ} (hradix : 2 ≤ radix) (hradix' : radix ≤ 16)
    (width : ℕ) (value : BitVec 32) : (0 : BitVec 8) ∉ numberText f radix width value := by
  have hdigit : ∀ d < 16, digitChar d ≠ 0 := by decide
  have hdigits (count i : ℕ) : (0 : BitVec 8) ∉ digitText radix count i := by
    intro hmem
    obtain ⟨d, hd, hzero⟩ := List.mem_map.mp hmem
    have hlt := lt_of_mem_lowDigits (by omega) hd
    exact hdigit d (by omega) hzero
  have hpad : (0 : BitVec 8) ≠ paddingChar f := by
    unfold paddingChar
    split <;> decide
  have hlead : (0 : BitVec 8) ∉ leadText f radix value := by
    unfold leadText signText prefixText radixPrefix
    intro hmem
    rcases List.mem_append.mp hmem with h | h
    · revert h
      split <;> decide
    · revert h
      repeat' split
      all_goals decide
  unfold numberText
  intro hmem
  rcases List.mem_append.mp hmem with h | h
  · exact hlead h
  · by_cases hleft : f.leftAlign = true
    · rw [if_pos hleft] at h
      rcases List.mem_append.mp h with h | h
      · exact hdigits _ _ h
      · exact hpad (List.eq_of_mem_replicate h)
    · rw [if_neg hleft] at h
      exact hdigits _ _ h

/-- Only `%c` can print the character that ends strings. -/
def Piece.NoChar : Piece → Prop
  | .char _ _ => False
  | _ => True

theorem Piece.zero_not_mem_printed {p : Piece} (hp : p.Ok) (hchar : p.NoChar)
    (hstrings : ∀ x, 0 ∉ strings x) (arg : BitVec 32) : (0 : BitVec 8) ∉ p.printed strings arg := by
  cases p with
  | text cs => exact fun hmem => (hp 0 hmem).1 rfl
  | percent =>
    show (0 : BitVec 8) ∉ [ch '%']
    decide
  | char flags width => exact hchar.elim
  | string flags width =>
    have hspace : (0 : BitVec 8) ≠ ch ' ' := by decide
    show (0 : BitVec 8) ∉ stringText _ width (strings arg)
    unfold stringText
    dsimp only
    intro hmem
    split at hmem
    · rcases List.mem_append.mp hmem with h | h
      · exact hstrings arg h
      · exact hspace (List.eq_of_mem_replicate h)
    · rcases List.mem_append.mp hmem with h | h
      · exact hspace (List.eq_of_mem_replicate h)
      · exact hstrings arg h
  | number flags width c =>
    exact zero_not_mem_numberText _ (radixOf_le c).1 (radixOf_le c).2 width arg
  | pointer => exact zero_not_mem_numberText _ (by decide) (by decide) 8 arg

theorem zero_not_mem_printedText {ps : List Piece} (hps : ∀ p ∈ ps, p.Ok)
    (hchar : ∀ p ∈ ps, p.NoChar) (hstrings : ∀ x, 0 ∉ strings x) (args : ℕ → BitVec 32) :
    (0 : BitVec 8) ∉ printedText strings ps args := by
  induction ps generalizing args with
  | nil => exact List.not_mem_nil
  | cons p ps ih =>
    have hpiece := Piece.zero_not_mem_printed (hps p List.mem_cons_self)
      (hchar p List.mem_cons_self) hstrings (args 0)
    have hrest := ih (fun q hq => hps q (List.mem_cons_of_mem p hq))
      (fun q hq => hchar q (List.mem_cons_of_mem p hq)) fun k => args (k + p.arity)
    rw [printedText]
    exact fun hmem => (List.mem_append.mp hmem).elim hpiece hrest

end Printed

end Evos
