import Evos.String.AppendNumber

/-! # `vsprintf`

A pointer into the format is what is left of it, the terminating NUL included; a run of the model
stops at a read behind that. -/

namespace Evos
open Outcome Numeral
set_option autoImplicit false

/-- `is_digit`; a `char` is signed. -/
def isDigit (c : BitVec 8) : Bool := (ch '0').sle c && c.sle (ch '9')

/-- The loop over the flags, from the byte behind the one read last. -/
def parseFlags : List (BitVec 8) → Flags → Except Fault (Flags × List (BitVec 8))
  | [], _ => .error .pastFormat
  | c :: fmt, flags =>
    if c = ch '-' then parseFlags fmt { flags with leftAlign := true }
    else if c = ch '0' then parseFlags fmt { flags with zeroPadded := true }
    else if c = ch '#' then parseFlags fmt { flags with showPrefix := true }
    else .ok (flags, c :: fmt)

/-- The loop of `skip_atoi`. -/
def skipAtoi : List (BitVec 8) → ℤ → Except Fault (ℤ × List (BitVec 8))
  | [], _ => .error .pastFormat
  | c :: str, target =>
    if isDigit c then skipAtoi str (i32 (i32 (target * 10) + (c.toInt - (ch '0').toInt)))
    else .ok (target, c :: str)

/-- Flags and field width; `fmt` is left at the byte that says what to print. -/
def parseDirective (fmt : List (BitVec 8)) : Except Fault (Flags × ℤ × List (BitVec 8)) := do
  let (flags, fmt) ← parseFlags fmt ⟨false, false, false, false⟩
  match fmt with
  | [] => .error .pastFormat
  | c :: _ =>
    if isDigit c then do
      let (width, fmt) ← skipAtoi fmt 0
      return (flags, width, fmt)
    else return (flags, 0, fmt)

/-- The branch on `'s'`. One of the two loops over `width` pads, on the side that is meant. -/
def appendString (param : List (BitVec 8)) (flags : Flags) (width : ℤ) : List (BitVec 8) :=
  let len := i32 param.length
  let padding := List.replicate (width - len).toNat (ch ' ')
  if flags.leftAlign then param.take len.toNat ++ padding else padding ++ param.take len.toNat

/-- The switch on `*fmt`, with the words that `va_arg` reads and the strings they point to: the
text printed and the words still to be read. -/
def convert (strings : BitVec 32 → List (BitVec 8)) (c : BitVec 8) (flags : Flags) (width : ℤ)
    (args : ℕ → BitVec 32) : Except Fault (List (BitVec 8) × (ℕ → BitVec 32)) :=
  let rest := fun k => args (k + 1)
  let number (radix : ℕ) (flags : Flags) (width : ℤ) := do
    let text ← appendNumber (args 0) radix flags width
    return (text, rest)
  if c = ch '%' then .ok ([c], args)
  else if c = ch 'd' then number 10 { flags with signed := true } width
  else if c = ch 'u' then number 10 flags width
  else if c = ch 'p' then
    number 16 { flags with zeroPadded := true, showPrefix := true } (if width = 0 then 8 else width)
  else if c = ch 'x' then number 16 flags width
  else if c = ch 'o' then number 8 flags width
  else if c = ch 'b' then number 2 flags width
  else if c = ch 'c' then .ok ([(args 0).setWidth 8], rest)
  else if c = ch 's' then .ok (appendString (strings (args 0)) flags width, rest)
  else .ok ([c], args)

theorem length_of_parseFlags {fmt rest : List (BitVec 8)} {flags flags' : Flags}
    (h : parseFlags fmt flags = .ok (flags', rest)) : rest.length ≤ fmt.length := by
  induction fmt generalizing flags with
  | nil => exact nomatch h
  | cons c fmt ih =>
    unfold parseFlags at h
    split_ifs at h
    · exact (ih h).trans (Nat.le_succ _)
    · exact (ih h).trans (Nat.le_succ _)
    · exact (ih h).trans (Nat.le_succ _)
    · cases h
      exact le_rfl

theorem length_of_skipAtoi {str rest : List (BitVec 8)} {target width : ℤ}
    (h : skipAtoi str target = .ok (width, rest)) : rest.length ≤ str.length := by
  induction str generalizing target with
  | nil => exact nomatch h
  | cons c str ih =>
    unfold skipAtoi at h
    split_ifs at h
    · exact (ih h).trans (Nat.le_succ _)
    · cases h
      exact le_rfl

theorem length_of_parseDirective {fmt rest : List (BitVec 8)} {flags : Flags} {width : ℤ}
    (h : parseDirective fmt = .ok (flags, width, rest)) : rest.length ≤ fmt.length := by
  unfold parseDirective at h
  obtain ⟨⟨flags', fmt'⟩, hflags, h⟩ := except_bind_ok h
  refine le_trans ?_ (length_of_parseFlags hflags)
  cases fmt' with
  | nil => exact nomatch h
  | cons c fmt' =>
    dsimp only at h
    split_ifs at h
    · obtain ⟨⟨width', fmt''⟩, hwidth, h⟩ := except_bind_ok h
      cases h
      exact length_of_skipAtoi hwidth
    · cases h
      exact le_rfl

/-- The loop of `vsprintf`: the text from here on. -/
def vsprintfLoop (strings : BitVec 32 → List (BitVec 8)) (fmt : List (BitVec 8))
    (args : ℕ → BitVec 32) : Except Fault (List (BitVec 8)) :=
  match fmt with
  | [] => .error .pastFormat
  | c :: fmt =>
    if c = 0 then .ok []
    else if c ≠ ch '%' then do
      let text ← vsprintfLoop strings fmt args
      return c :: text
    else
      match _h : parseDirective fmt with
      | .error fault => .error fault
      | .ok (_, _, []) => .error .pastFormat
      | .ok (flags, width, conversion :: fmt) => do
        let (text, args) ← convert strings conversion flags width args
        let rest ← vsprintfLoop strings fmt args
        return text ++ rest
termination_by fmt.length
decreasing_by
  · exact Nat.lt_succ_self _
  · have := length_of_parseDirective _h
    simp only [List.length_cons] at this ⊢
    omega

/-- `vsprintf`: the bytes it leaves at `buf`; their number is what it returns. -/
def vsprintf (strings : BitVec 32 → List (BitVec 8)) (fmt : List (BitVec 8))
    (args : ℕ → BitVec 32) : Except Fault (List (BitVec 8)) := do
  let text ← vsprintfLoop strings (fmt ++ [0]) args
  return text ++ [0]

end Evos
