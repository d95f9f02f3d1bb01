import Evos.Foundations.Numeral
import Evos.Foundations.Outcome
import Mathlib.Data.BitVec

/-! # `append_number`

The number is written backwards into `_buf` and copied from there. A run of the model stops at the
first store behind the scratch buffer. An `int` is an integer that wraps. -/

namespace Evos
open Outcome Numeral
set_option autoImplicit false

/-- The byte of a character constant. -/
def ch (c : Char) : BitVec 8 := BitVec.ofNat 8 c.toNat

/-- The value kept by an `int`. -/
def i32 (z : ℤ) : ℤ := (z + 2 ^ 31) % 2 ^ 32 - 2 ^ 31

/-- Why a run of `vsprintf` leaves what its C text defines. -/
inductive Fault where
  /-- A store through `buf` behind the end of `_buf`. -/
  | scratchOverrun
  /-- A read of `fmt` behind the terminating NUL. -/
  | pastFormat
  deriving DecidableEq

/-- `SIGNED`, `ZERO_PADDED`, `LEFT_ALIGN` and `SHOW_PREFIX`. -/
structure Flags where
  signed : Bool
  zeroPadded : Bool
  leftAlign : Bool
  showPrefix : Bool
  deriving DecidableEq

/-- `BUFSIZE`; `_buf` has one byte more. -/
def bufSize : ℕ := 64

/-- The bytes still free in `_buf`, and those in front of `buf`, the last one first. -/
structure Scratch where
  room : ℕ
  text : List (BitVec 8)

/-- `*buf++ = c`. -/
def Scratch.store (c : BitVec 8) (b : Scratch) : Except Fault Scratch :=
  match b.room with
  | 0 => .error .scratchOverrun
  | room + 1 => .ok ⟨room, c :: b.text⟩

/-- `digits[digit]`. -/
def digitChar (digit : ℕ) : BitVec 8 := ("0123456789abcdef".toList.map ch).getD digit 0

/-- The loop over the digits. Each round takes a byte of `_buf`. -/
def digitLoop (radix : ℕ) (leftAlign : Bool) :
    ℕ → ℕ → ℤ → List (BitVec 8) → Except Fault (Scratch × ℤ)
  | 0, _, _, _ => .error .scratchOverrun
  | room + 1, i, width, text =>
    let digit := i % radix
    let text := digitChar digit :: text
    let i := i / radix
    let width := i32 (width - 1)
    if i ≠ 0 ∨ leftAlign = false ∧ 0 < width then digitLoop radix leftAlign room i width text
    else .ok (⟨room, text⟩, width)

/-- `for (; width > 0; width--) *buf++ = padding`. -/
def padLoop (padding : BitVec 8) : ℕ → ℤ → List (BitVec 8) → Except Fault Scratch
  | 0, width, text => if 0 < width then .error .scratchOverrun else .ok ⟨0, text⟩
  | room + 1, width, text =>
    if 0 < width then padLoop padding room (width - 1) (padding :: text)
    else .ok ⟨room + 1, text⟩

/-- The branch on `SHOW_PREFIX`. -/
def storePrefix (radix : ℕ) (b : Scratch) : Except Fault Scratch :=
  if radix = 2 then do (← b.store (ch 'b')).store (ch '0')
  else if radix = 8 then b.store (ch '0')
  else if radix = 16 then do (← b.store (ch 'x')).store (ch '0')
  else .ok b

/-- `append_number`: the bytes it adds at `str`. -/
def appendNumber (value : BitVec 32) (radix : ℕ) (flags : Flags) (width : ℤ) :
    Except Fault (List (BitVec 8)) := do
  if radix < 2 ∨ 16 < radix then return []
  let width := if bufSize < width then (bufSize : ℤ) else width
  let padding := if flags.zeroPadded then ch '0' else ch ' '
  let sign := flags.signed && decide (value.toInt < 0)
  let value := if sign then -value else value
  let (b, width) ← digitLoop radix flags.leftAlign (bufSize + 1) value.toNat width []
  let b ← (if flags.showPrefix then storePrefix radix b else .ok b)
  let b ← (if sign then b.store (ch '-') else .ok b)
  let b ← (if flags.leftAlign = false then padLoop padding b.room width b.text else .ok b)
  -- `buf` runs back to `_buf`: the last byte stored comes first
  if flags.leftAlign then return b.text ++ List.replicate width.toNat padding
  else return b.text

/-! ## What is written -/

/-- The value printed under a sign, if there is one. -/
def magnitude (signed : Bool) (value : BitVec 32) : ℕ :=
  if signed then value.toInt.natAbs else value.toNat

/-- The sign, as text. -/
def signText (signed : Bool) (value : BitVec 32) : List (BitVec 8) :=
  if signed = true ∧ value.toInt < 0 then [ch '-'] else []

/-- The prefix of a radix, as text. -/
def radixPrefix (radix : ℕ) : List (BitVec 8) :=
  if radix = 2 then [ch '0', ch 'b']
  else if radix = 8 then [ch '0']
  else if radix = 16 then [ch '0', ch 'x']
  else []

/-- The prefix shown under the flags, as text. -/
def prefixText (flags : Flags) (radix : ℕ) : List (BitVec 8) :=
  if flags.showPrefix then radixPrefix radix else []

/-! ## The digit loop -/

theorem i32_of_mem {z : ℤ} (hl : -2 ^ 31 ≤ z) (hu : z < 2 ^ 31) : i32 z = z := by
  unfold i32
  omega

theorem i32_sub (a b : ℤ) : i32 (i32 a - b) = i32 (a - b) := by
  unfold i32
  omega

/-- The loop goes on after round `k`. -/
def GoesOn (radix : ℕ) (leftAlign : Bool) (i : ℕ) (width : ℤ) (k : ℕ) : Prop :=
  i / radix ^ k ≠ 0 ∨ leftAlign = false ∧ 0 < i32 (width - k)

variable {radix room i n : ℕ} {leftAlign : Bool} {width : ℤ}

theorem goesOn_one : GoesOn radix leftAlign i width 1 ↔
    i / radix ≠ 0 ∨ leftAlign = false ∧ 0 < i32 (width - 1) := by
  unfold GoesOn
  rw [pow_one, Nat.cast_one]

theorem goesOn_succ (k : ℕ) : GoesOn radix leftAlign i width (k + 1) ↔
    GoesOn radix leftAlign (i / radix) (i32 (width - 1)) k := by
  have hdiv : i / radix ^ (k + 1) = i / radix / radix ^ k := by
    rw [pow_succ', Nat.div_div_eq_div_mul]
  have hwidth : i32 (width - (k + 1 : ℕ)) = i32 (i32 (width - 1) - k) := by
    rw [i32_sub]
    congr 1
    omega
  unfold GoesOn
  rw [hdiv, hwidth]

/-- The loop stops after round `n`: it has stored `n` digits. -/
theorem digitLoop_eq (hn : 0 < n) (hroom : n ≤ room) (text : List (BitVec 8))
    (hgo : ∀ k, 0 < k → k < n → GoesOn radix leftAlign i width k)
    (hstop : ¬GoesOn radix leftAlign i width n) :
    digitLoop radix leftAlign room i width text =
      .ok (⟨room - n, (lowDigits radix n i).map digitChar ++ text⟩, i32 (width - n)) := by
  induction n generalizing room i width text with
  | zero => omega
  | succ n ih =>
    cases room with
    | zero => omega
    | succ room =>
    unfold digitLoop
    dsimp only
    by_cases hlast : n = 0
    · subst hlast
      rw [if_neg (mt goesOn_one.mpr hstop)]
      rfl
    · have hfirst := hgo 1 (by omega) (by omega)
      have hrest := ih (by omega) (show n ≤ room by omega) (digitChar (i % radix) :: text)
        (fun k h1 h2 => (goesOn_succ k).mp (hgo (k + 1) (by omega) (by omega)))
        (mt (goesOn_succ n).mpr hstop)
      rw [if_pos (goesOn_one.mp hfirst), hrest, i32_sub]
      have hwidth : width - 1 - (n : ℤ) = width - (n + 1 : ℕ) := by omega
      have hdigits : (lowDigits radix (n + 1) i).map digitChar ++ text =
          (lowDigits radix n (i / radix)).map digitChar ++ digitChar (i % radix) :: text := by
        rw [lowDigits, List.map_append, List.append_assoc]
        rfl
      rw [hwidth, hdigits, Nat.add_sub_add_right]

theorem digitLoop_overrun (text : List (BitVec 8))
    (hgo : ∀ k, 0 < k → k ≤ room → GoesOn radix leftAlign i width k) :
    digitLoop radix leftAlign room i width text = .error .scratchOverrun := by
  induction room generalizing i width text with
  | zero => rfl
  | succ room ih =>
    unfold digitLoop
    dsimp only
    rw [if_pos (goesOn_one.mp (hgo 1 (by omega) (by omega)))]
    exact ih _ fun k h1 h2 => (goesOn_succ k).mp (hgo (k + 1) (by omega) (by omega))

/-! ## The scratch buffer -/

/-- Several bytes stored, the last one listed first. -/
def Scratch.put (bytes : List (BitVec 8)) (b : Scratch) : Except Fault Scratch :=
  if bytes.length ≤ b.room then .ok ⟨b.room - bytes.length, bytes ++ b.text⟩
  else .error .scratchOverrun

variable {b : Scratch}

theorem Scratch.put_of_le {bytes : List (BitVec 8)} (h : bytes.length ≤ b.room) :
    b.put bytes = .ok ⟨b.room - bytes.length, bytes ++ b.text⟩ := if_pos h

theorem Scratch.put_of_lt {bytes : List (BitVec 8)} (h : b.room < bytes.length) :
    b.put bytes = .error .scratchOverrun := if_neg (Nat.not_le.mpr h)

theorem Scratch.store_eq (c : BitVec 8) : b.store c = b.put [c] := by
  unfold Scratch.store
  cases hroom : b.room with
  | zero => exact (Scratch.put_of_lt (hroom ▸ Nat.one_pos)).symm
  | succ room =>
    rw [Scratch.put_of_le (hroom ▸ Nat.succ_le_succ (Nat.zero_le room)), hroom]
    rfl

theorem Scratch.put_nil : b.put [] = .ok b := Scratch.put_of_le (Nat.zero_le _)

theorem Scratch.put_bind_put (first second : List (BitVec 8)) :
    (b.put first >>= fun b => b.put second) = b.put (second ++ first) := by
  by_cases h1 : first.length ≤ b.room
  · rw [Scratch.put_of_le h1]
    show Scratch.put second _ = _
    by_cases h2 : second.length ≤ b.room - first.length
    · have h3 : (second ++ first).length ≤ b.room := by
        rw [List.length_append]
        omega
      rw [Scratch.put_of_le h2, Scratch.put_of_le h3, List.length_append, List.append_assoc,
        Nat.sub_sub, Nat.add_comm]
    · have h3 : b.room < (second ++ first).length := by
        rw [List.length_append]
        omega
      rw [Scratch.put_of_lt (Nat.not_le.mp h2), Scratch.put_of_lt h3]
  · have h3 : b.room < (second ++ first).length := by
      rw [List.length_append]
      omega
    rw [Scratch.put_of_lt (Nat.not_le.mp h1), Scratch.put_of_lt h3]
    rfl

theorem storePrefix_eq (radix : ℕ) (b : Scratch) :
    storePrefix radix b = b.put (radixPrefix radix) := by
  unfold storePrefix radixPrefix
  simp only [Scratch.store_eq]
  by_cases h2 : radix = 2
  · rw [if_pos h2, if_pos h2]
    exact Scratch.put_bind_put _ _
  rw [if_neg h2, if_neg h2]
  by_cases h8 : radix = 8
  · rw [if_pos h8, if_pos h8]
  rw [if_neg h8, if_neg h8]
  by_cases h16 : radix = 16
  · rw [if_pos h16, if_pos h16]
    exact Scratch.put_bind_put _ _
  · rw [if_neg h16, if_neg h16, Scratch.put_nil]

theorem padLoop_of_le (padding : BitVec 8) (room : ℕ) (h : width ≤ 0) (text : List (BitVec 8)) :
    padLoop padding room width text = .ok ⟨room, text⟩ := by
  have hnot : ¬0 < width := by omega
  cases room with
  | zero => exact if_neg hnot
  | succ room => exact if_neg hnot

/-! ## The text -/

variable {value : BitVec 32} {flags : Flags}

/-- The byte written in front of a number that is padded, or behind it. -/
def paddingChar (flags : Flags) : BitVec 8 := if flags.zeroPadded then ch '0' else ch ' '

/-- Sign and prefix, as text. -/
def leadText (flags : Flags) (radix : ℕ) (value : BitVec 32) : List (BitVec 8) :=
  signText flags.signed value ++ prefixText flags radix

/-- The digits that `append_number` copies for a number. -/
def digitText (radix count i : ℕ) : List (BitVec 8) := (lowDigits radix count i).map digitChar

theorem toNat_magnitude (signed : Bool) (value : BitVec 32) :
    (if signed && decide (value.toInt < 0) then -value else value).toNat =
      magnitude signed value := by
  unfold magnitude
  cases signed with
  | false => rfl
  | true =>
    rw [Bool.true_and, if_pos rfl]
    by_cases h : value.toInt < 0
    · rw [if_pos (decide_eq_true h)]
      rw [BitVec.toInt_eq_toNat_cond] at *
      bv_omega
    · rw [if_neg (by simpa using h)]
      rw [BitVec.toInt_eq_toNat_cond] at *
      bv_omega

theorem magnitude_lt (signed : Bool) (value : BitVec 32) : magnitude signed value < 2 ^ 32 := by
  rw [← toNat_magnitude]
  exact BitVec.isLt _

theorem size_magnitude_le (hradix : 2 ≤ radix) (signed : Bool) (value : BitVec 32) :
    size radix (magnitude signed value) ≤ 32 := by
  refine size_le_of_lt_pow (by decide) ((magnitude_lt signed value).trans_le ?_)
  exact Nat.pow_le_pow_left hradix 32

theorem length_leadText_le (flags : Flags) (radix : ℕ) (value : BitVec 32) :
    (leadText flags radix value).length ≤ 3 := by
  have hsign : (signText flags.signed value).length ≤ 1 := by
    unfold signText
    split <;> simp
  have hshown : (prefixText flags radix).length ≤ 2 := by
    unfold prefixText radixPrefix
    repeat' split
    all_goals simp
  unfold leadText
  rw [List.length_append]
  omega

/-- What `append_number` does with the outcome of the digit loop. -/
def finish (radix : ℕ) (flags : Flags) (value : BitVec 32) (b : Scratch) (width : ℤ) :
    Except Fault (List (BitVec 8)) := do
  let b ← b.put (leadText flags radix value)
  let b ← (if flags.leftAlign = false then padLoop (paddingChar flags) b.room width b.text
    else .ok b)
  if flags.leftAlign then return b.text ++ List.replicate width.toNat (paddingChar flags)
  else return b.text

theorem appendNumber_eq (hradix : 2 ≤ radix) (hradix' : radix ≤ 16) :
    appendNumber value radix flags width = (do
      let (b, width) ← digitLoop radix flags.leftAlign (bufSize + 1)
        (magnitude flags.signed value) (min 64 width) []
      finish radix flags value b width) := by
  have hclamp : (if (bufSize : ℤ) < width then (bufSize : ℤ) else width) = min 64 width := by
    unfold bufSize
    split <;> omega
  have hshown : ∀ b : Scratch, (if flags.showPrefix then storePrefix radix b else .ok b) =
      b.put (prefixText flags radix) := by
    intro b
    unfold prefixText
    split
    · exact storePrefix_eq radix b
    · exact Scratch.put_nil.symm
  have hsign : ∀ b : Scratch, (if (flags.signed && decide (value.toInt < 0)) = true then
      b.store (ch '-') else .ok b) = b.put (signText flags.signed value) := by
    intro b
    unfold signText
    simp only [Bool.and_eq_true, decide_eq_true_eq]
    split
    · exact Scratch.store_eq _
    · exact Scratch.put_nil.symm
  unfold appendNumber
  rw [if_neg (by omega)]
  simp only [hclamp, hshown, hsign, toNat_magnitude]
  congr 1
  funext ⟨b, width⟩
  show (Scratch.put (prefixText flags radix) b >>= fun b =>
    Scratch.put (signText flags.signed value) b >>= _) = (Scratch.put (leadText _ _ _) b >>= _)
  rw [← bind_assoc, Scratch.put_bind_put]
  rfl

/-- The number fits: nothing is padded on its left but with zeros in front of its digits. -/
theorem finish_of_le (h : (leadText flags radix value).length ≤ b.room)
    (hwidth : flags.leftAlign = false → width ≤ 0) :
    finish radix flags value b width = .ok (leadText flags radix value ++ b.text ++
      if flags.leftAlign then List.replicate width.toNat (paddingChar flags) else []) := by
  unfold finish
  rw [Scratch.put_of_le h]
  by_cases hleft : flags.leftAlign = true
  · simp only [hleft]
    rfl
  · have hright : flags.leftAlign = false := Bool.eq_false_iff.mpr hleft
    simp only [hright]
    show (padLoop _ _ _ _ >>= _) = _
    rw [padLoop_of_le _ _ (hwidth hright)]
    show Except.ok _ = Except.ok _
    exact congrArg _ (List.append_nil _).symm

theorem finish_of_lt (h : b.room < (leadText flags radix value).length) :
    finish radix flags value b width = .error .scratchOverrun := by
  unfold finish
  rw [Scratch.put_of_lt h]
  rfl

/-! ## How many digits -/

theorem goesOn_left (hradix : 1 < radix) {k : ℕ} (hk : 0 < k) :
    GoesOn radix true i width k ↔ k < size radix i := by
  unfold GoesOn
  rw [div_pow_ne_zero_iff hradix hk]
  simp

theorem goesOn_right (hradix : 1 < radix) {k : ℕ} (hk : 0 < k)
    (hk' : k ≤ max (size radix i) width.toNat) (hlow : (size radix i : ℤ) - 2 ^ 31 ≤ width)
    (hhigh : width ≤ 64) :
    GoesOn radix false i width k ↔ k < max (size radix i) width.toNat := by
  have hword : i32 (width - k) = width - k := i32_of_mem (by omega) (by omega)
  unfold GoesOn
  rw [div_pow_ne_zero_iff hradix hk, hword]
  simp only [true_and]
  omega

/-- A width this low wraps before the digits are done, and counts down from the largest `int`. -/
theorem goesOn_wrapped (hradix : 1 < radix) {k : ℕ} (hk : 0 < k) (hk' : k ≤ bufSize + 1)
    (hint : -2 ^ 31 ≤ width) (hlow : width < (size radix i : ℤ) - 2 ^ 31) :
    GoesOn radix false i width k := by
  unfold GoesOn bufSize at *
  rw [div_pow_ne_zero_iff hradix hk]
  by_cases hsize : k < size radix i
  · exact Or.inl hsize
  · right
    refine ⟨rfl, ?_⟩
    unfold i32
    omega

theorem digitLoop_left (hradix : 1 < radix) (hroom : size radix i ≤ room) (width : ℤ) :
    digitLoop radix true room i width [] =
      .ok (⟨room - size radix i, digitText radix (size radix i) i⟩,
        i32 (width - size radix i)) := by
  have hloop := digitLoop_eq size_pos hroom []
    (fun k h1 h2 => show GoesOn radix true i width k from (goesOn_left hradix h1).mpr h2)
    (mt (goesOn_left hradix size_pos).mp (lt_irrefl _))
  rw [List.append_nil] at hloop
  exact hloop

theorem digitLoop_right (hradix : 1 < radix) (hroom : max (size radix i) width.toNat ≤ room)
    (hlow : (size radix i : ℤ) - 2 ^ 31 ≤ width) (hhigh : width ≤ 64) :
    let count := max (size radix i) width.toNat
    digitLoop radix false room i width [] =
      .ok (⟨room - count, digitText radix count i⟩, width - count) := by
  intro count
  have hpos : 0 < count := lt_max_of_lt_left size_pos
  have hloop := digitLoop_eq hpos hroom []
    (fun k h1 h2 => (goesOn_right hradix h1 h2.le hlow hhigh).mpr h2)
    (mt (goesOn_right hradix hpos le_rfl hlow hhigh).mp (lt_irrefl _))
  have hword : i32 (width - count) = width - count := i32_of_mem (by omega) (by omega)
  rw [List.append_nil, hword] at hloop
  exact hloop

/-! ## The text of a number -/

/-- Aligned on the left, a number is followed by what is left of the width. -/
theorem appendNumber_left (hradix : 2 ≤ radix) (hradix' : radix ≤ 16)
    (hleft : flags.leftAlign = true) (width : ℤ) :
    let count := size radix (magnitude flags.signed value)
    appendNumber value radix flags width = .ok (leadText flags radix value ++
      digitText radix count (magnitude flags.signed value) ++
      List.replicate (i32 (min 64 width - count)).toNat (paddingChar flags)) := by
  intro count
  have hcount : count ≤ 32 := size_magnitude_le hradix _ _
  have hlead := length_leadText_le flags radix value
  rw [appendNumber_eq hradix hradix', hleft,
    except_bind_of_ok (digitLoop_left hradix (show count ≤ bufSize + 1 by unfold bufSize; omega) _)]
  show finish radix flags value _ _ = _
  rw [finish_of_le (by show _ ≤ 64 + 1 - count; omega)
    (fun h => by rw [hleft] at h; exact nomatch h), if_pos hleft]

/-- Aligned on the right, a number is filled up with zeros in front of its digits. -/
theorem appendNumber_right (hradix : 2 ≤ radix) (hradix' : radix ≤ 16)
    (hright : flags.leftAlign = false)
    (hlow : (size radix (magnitude flags.signed value) : ℤ) - 2 ^ 31 ≤ width) :
    let count := max (size radix (magnitude flags.signed value)) (min 64 width).toNat
    appendNumber value radix flags width =
      if count + (leadText flags radix value).length ≤ bufSize + 1 then
        .ok (leadText flags radix value ++ digitText radix count (magnitude flags.signed value))
      else .error .scratchOverrun := by
  intro count
  have hsize : size radix (magnitude flags.signed value) ≤ 32 := size_magnitude_le hradix _ _
  have hcount : count ≤ 64 := by omega
  rw [appendNumber_eq hradix hradix', hright,
    except_bind_of_ok (digitLoop_right hradix (show count ≤ bufSize + 1 by unfold bufSize; omega)
      (by omega) (min_le_left 64 width))]
  show finish radix flags value _ _ = _
  unfold bufSize
  by_cases hfit : count + (leadText flags radix value).length ≤ 64 + 1
  · rw [if_pos hfit, finish_of_le (by show _ ≤ 64 + 1 - count; omega) (fun _ => by omega),
      if_neg (by rw [hright]; decide), List.append_nil]
  · rw [if_neg hfit, finish_of_lt (by show 64 + 1 - count < _; omega)]

theorem appendNumber_wrapped (hradix : 2 ≤ radix) (hradix' : radix ≤ 16)
    (hright : flags.leftAlign = false) (hint : -2 ^ 31 ≤ width)
    (hlow : width < (size radix (magnitude flags.signed value) : ℤ) - 2 ^ 31) :
    appendNumber value radix flags width = .error .scratchOverrun := by
  have hsize : size radix (magnitude flags.signed value) ≤ 32 := size_magnitude_le hradix _ _
  have hclamp : min 64 width = width := by omega
  rw [appendNumber_eq hradix hradix', hright, hclamp, digitLoop_overrun []
    fun k h1 h2 => goesOn_wrapped hradix h1 h2 hint hlow]
  rfl

/-! ## The bounds of the scratch buffer -/

/-- The width neither wraps in the digit loop nor leaves too little room for sign and prefix. -/
def FitsBuf (value : BitVec 32) (radix : ℕ) (flags : Flags) (width : ℤ) : Prop :=
  flags.leftAlign = true ∨
    (size radix (magnitude flags.signed value) : ℤ) - 2 ^ 31 ≤ width ∧
      min 64 width + ((signText flags.signed value).length +
        (prefixText flags radix).length : ℕ) ≤ 65

instance (value : BitVec 32) (radix : ℕ) (flags : Flags) (width : ℤ) :
    Decidable (FitsBuf value radix flags width) :=
  inferInstanceAs (Decidable (_ ∨ _))

theorem FitsBuf.appendNumber (h : FitsBuf value radix flags width) (hradix : 2 ≤ radix)
    (hradix' : radix ≤ 16) : ∃ text, appendNumber value radix flags width = .ok text := by
  by_cases hleft : flags.leftAlign = true
  · exact ⟨_, appendNumber_left hradix hradix' hleft width⟩
  have hright : flags.leftAlign = false := Bool.eq_false_iff.mpr hleft
  have hsize : size radix (magnitude flags.signed value) ≤ 32 := size_magnitude_le hradix _ _
  have hlead := length_leadText_le flags radix value
  have hlen : (leadText flags radix value).length =
      (signText flags.signed value).length + (prefixText flags radix).length :=
    List.length_append
  obtain ⟨hlow, hroom⟩ := h.resolve_left hleft
  refine ⟨_, (appendNumber_right hradix hradix' hright hlow).trans (if_pos ?_)⟩
  unfold bufSize
  omega

theorem fitsBuf_of_appendNumber {text : List (BitVec 8)}
    (h : appendNumber value radix flags width = .ok text) (hradix : 2 ≤ radix)
    (hradix' : radix ≤ 16) (hint : -2 ^ 31 ≤ width) : FitsBuf value radix flags width := by
  by_cases hleft : flags.leftAlign = true
  · exact Or.inl hleft
  have hright : flags.leftAlign = false := Bool.eq_false_iff.mpr hleft
  have hlen : (leadText flags radix value).length =
      (signText flags.signed value).length + (prefixText flags radix).length :=
    List.length_append
  by_cases hlow : (size radix (magnitude flags.signed value) : ℤ) - 2 ^ 31 ≤ width
  · rw [appendNumber_right hradix hradix' hright hlow] at h
    unfold bufSize at h
    split at h
    · exact Or.inr ⟨hlow, by omega⟩
    · exact nomatch h
  · rw [appendNumber_wrapped hradix hradix' hright hint (by omega)] at h
    exact nomatch h

/-- No byte is stored behind the `BUFSIZE + 1` bytes of `_buf`. -/
def StaysInBuf (value : BitVec 32) (radix : ℕ) (flags : Flags) (width : ℤ) : Prop :=
  ∃ text, appendNumber value radix flags width = .ok text

/-- The stores stay in the buffer exactly if the number is aligned on the left, or its width does
not wrap and leaves room for sign and prefix. -/
theorem staysInBuf_iff (value : BitVec 32) {radix : ℕ} (hradix : 2 ≤ radix) (hradix' : radix ≤ 16)
    (flags : Flags) {width : ℤ} (hint : -2 ^ 31 ≤ width) :
    StaysInBuf value radix flags width ↔ FitsBuf value radix flags width :=
  ⟨fun ⟨_, h⟩ => fitsBuf_of_appendNumber h hradix hradix' hint,
    fun h => h.appendNumber hradix hradix'⟩

theorem staysInBuf_hex_63 : StaysInBuf 0xBEEF 16 ⟨false, true, false, true⟩ 63 :=
  (staysInBuf_iff 0xBEEF (by decide) (by decide) _ (by decide)).mpr (Or.inr (by decide))

/-- The 64 digits of `%#64x` leave one byte for the two of the prefix. -/
theorem not_staysInBuf_hex_64 : ¬StaysInBuf 0 16 ⟨false, false, false, true⟩ 64 := by
  rintro ⟨text, h⟩
  rw [appendNumber_right (by decide) (by decide) rfl (by decide), if_neg (by decide)] at h
  exact nomatch h

end Evos
