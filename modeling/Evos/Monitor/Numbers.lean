import Evos.Monitor.Framebuffer
import Evos.String.Printed

/-! # `monitor_write_hex` and `monitor_write_dec`

The two write their digits from the highest one on; `append_number` writes them from the lowest one
on. What they put is what `vsprintf` prints for `%08x` and for `%u`. -/

namespace Evos
open Outcome Numeral
set_option autoImplicit false

/-! ## The characters put -/

/-- `letters`, without its NUL. -/
def letters : List (BitVec 8) := "0123456789abcdef".toList.map ch

/-- `nibble` at the shift `i`. The mask of the highest digit reaches the sign bit of its `int`. -/
def nibbleAt (value : BitVec 32) (i : ℕ) : BitVec 8 :=
  ((value &&& (0x0F : BitVec 32) <<< i) >>> i).setWidth 8

/-- The loop of `monitor_write_hex`, from the shift `i` on. -/
def writeHexLoop (value : BitVec 32) (i : ℤ) : List (BitVec 8) :=
  if 0 ≤ i then
    letters.getD (nibbleAt value i.toNat).toNat 0 :: writeHexLoop value (i - 4)
  else []
termination_by (i + 4).toNat
decreasing_by omega

/-- The loop of `monitor_write_dec`, from the power `i` on. -/
def writeDecLoop (value : BitVec 32) (i : ℕ) (hadDigit : Bool) : List (BitVec 8) :=
  if 1 ≤ i then
    let digit := value.toNat / i % 10
    if digit = 0 ∧ hadDigit = false ∧ i ≠ 1 then writeDecLoop value (i / 10) hadDigit
    else (ch '0' + BitVec.ofNat 8 digit) :: writeDecLoop value (i / 10) true
  else []
termination_by i
decreasing_by all_goals omega

/-- The characters `monitor_write_hex` puts. -/
def hexChars (value : BitVec 32) : List (BitVec 8) := writeHexLoop value (4 * 8 - 4)

/-- The characters `monitor_write_dec` puts. -/
def decChars (value : BitVec 32) : List (BitVec 8) := writeDecLoop value 1000000000 false

/-- `monitor_put` on one character after the other. -/
def putAll (values : List (BitVec 8)) (m : Monitor) : Monitor :=
  values.foldl (fun m value => monitorPut value m) m

def monitorWriteHex (value : BitVec 32) (m : Monitor) : Monitor := putAll (hexChars value) m

def monitorWriteDec (value : BitVec 32) (m : Monitor) : Monitor := putAll (decChars value) m

/-! ## Hexadecimal digits -/

theorem nibbleAt_toNat (value : BitVec 32) {k : ℕ} (hk : k < 8) :
    (nibbleAt value (4 * k)).toNat = value.toNat / 16 ^ k % 16 := by
  have hmask : ((0x0F : BitVec 32) <<< (4 * k)).toNat = 15 <<< (4 * k) := by
    have hall : ∀ k < 8, ((0x0F : BitVec 32) <<< (4 * k)).toNat = 15 <<< (4 * k) := by decide
    exact hall k hk
  have hpow : 2 ^ (4 * k) = 16 ^ k := pow_mul 2 4 k
  have hdigit : (value.toNat &&& 15 <<< (4 * k)) >>> (4 * k) = value.toNat / 16 ^ k % 16 := by
    rw [Nat.shiftRight_and_distrib, Nat.shiftLeft_shiftRight, Nat.shiftRight_eq_div_pow, hpow]
    exact Nat.and_two_pow_sub_one_eq_mod _ 4
  unfold nibbleAt
  rw [BitVec.toNat_setWidth, BitVec.toNat_ushiftRight, BitVec.toNat_and, hmask, hdigit]
  omega

theorem writeHexLoop_eq (value : BitVec 32) {turns : ℕ} (h : turns ≤ 8) :
    writeHexLoop value (4 * turns - 4) = digitText 16 turns value.toNat := by
  induction turns with
  | zero =>
    rw [writeHexLoop, if_neg (by omega)]
    rfl
  | succ turns ih =>
    have hshift : ((4 : ℤ) * (turns + 1 : ℕ) - 4).toNat = 4 * turns := by omega
    have hnext : (4 : ℤ) * (turns + 1 : ℕ) - 4 - 4 = 4 * turns - 4 := by omega
    unfold digitText
    rw [writeHexLoop, if_pos (by omega), hshift, hnext, nibbleAt_toNat value (by omega),
      ih (by omega), lowDigits_succ, List.map_cons]
    rfl

/-! ## Decimal digits -/

theorem decimalChar {d : ℕ} (h : d < 10) : ch '0' + BitVec.ofNat 8 d = digitChar d := by
  have hall : ∀ d < 10, ch '0' + BitVec.ofNat 8 d = digitChar d := by decide
  exact hall d h

theorem writeDecLoop_zero (value : BitVec 32) (hadDigit : Bool) :
    writeDecLoop value 0 hadDigit = [] := by
  rw [writeDecLoop, if_neg (by omega)]

theorem writeDecLoop_put (value : BitVec 32) (k : ℕ) {hadDigit : Bool}
    (h : ¬(value.toNat / 10 ^ k % 10 = 0 ∧ hadDigit = false ∧ 10 ^ k ≠ 1)) :
    writeDecLoop value (10 ^ k) hadDigit =
      digitChar (value.toNat / 10 ^ k % 10) :: writeDecLoop value (10 ^ k / 10) true := by
  have hpos : 1 ≤ 10 ^ k := Nat.one_le_pow _ _ (by decide)
  rw [writeDecLoop, if_pos hpos]
  dsimp only
  rw [if_neg h, decimalChar (Nat.mod_lt _ (by decide))]

theorem pow_succ_div (k : ℕ) : 10 ^ (k + 1) / 10 = 10 ^ k := by
  rw [pow_succ, Nat.mul_div_cancel _ (by decide)]

theorem writeDecLoop_true (value : BitVec 32) (k : ℕ) :
    writeDecLoop value (10 ^ k) true = digitText 10 (k + 1) value.toNat := by
  have hput : ∀ k, ¬(value.toNat / 10 ^ k % 10 = 0 ∧ true = false ∧ 10 ^ k ≠ 1) :=
    fun k h => Bool.noConfusion h.2.1
  unfold digitText
  induction k with
  | zero =>
    rw [writeDecLoop_put value 0 (hput 0), lowDigits_succ, List.map_cons]
    exact congrArg _ (writeDecLoop_zero value true)
  | succ k ih =>
    rw [writeDecLoop_put value (k + 1) (hput (k + 1)), pow_succ_div, ih, lowDigits_succ (k + 1),
      List.map_cons]

/-- Zeros in front of the first digit are left out, but not the last digit. -/
theorem writeDecLoop_false (value : BitVec 32) (k : ℕ) (h : value.toNat < 10 ^ (k + 1)) :
    writeDecLoop value (10 ^ k) false = digitText 10 (size 10 value.toNat) value.toNat := by
  induction k with
  | zero =>
    have hone : size 10 value.toNat = 1 :=
      le_antisymm (size_le_of_lt_pow (by decide) h) size_pos
    rw [writeDecLoop_put value 0 (fun h => h.2.2 rfl), hone]
    unfold digitText
    rw [lowDigits_succ, List.map_cons]
    exact congrArg _ (writeDecLoop_zero value true)
  | succ k ih =>
    have hpos : 1 ≤ 10 ^ (k + 1) := Nat.one_le_pow _ _ (by decide)
    have hone : 10 ^ (k + 1) ≠ 1 := by
      rw [pow_succ]
      omega
    have hdigit : value.toNat / 10 ^ (k + 1) < 10 := by
      rw [Nat.div_lt_iff_lt_mul (by omega), ← pow_succ']
      exact h
    by_cases hzero : value.toNat / 10 ^ (k + 1) = 0
    · -- the digit is suppressed
      have hless : value.toNat < 10 ^ (k + 1) := by
        rcases Nat.div_eq_zero_iff.mp hzero with h0 | hlt
        · omega
        · exact hlt
      rw [writeDecLoop, if_pos hpos]
      dsimp only
      rw [if_pos ⟨by rw [hzero], rfl, hone⟩, pow_succ_div]
      exact ih hless
    · -- the first digit
      have hlong : k + 1 < size 10 value.toNat :=
        (div_pow_ne_zero_iff (by decide) (Nat.succ_pos k)).mp hzero
      have hsize : size 10 value.toNat = k + 1 + 1 :=
        le_antisymm (size_le_of_lt_pow (Nat.succ_pos _) h) hlong
      have hput : ¬(value.toNat / 10 ^ (k + 1) % 10 = 0 ∧ false = false ∧ 10 ^ (k + 1) ≠ 1) := by
        rintro ⟨hdiv, -⟩
        rw [Nat.mod_eq_of_lt hdigit] at hdiv
        exact hzero hdiv
      rw [writeDecLoop_put value (k + 1) hput, pow_succ_div, writeDecLoop_true, hsize]
      unfold digitText
      rw [lowDigits_succ (k + 1), List.map_cons]

/-! ## Against `vsprintf` -/

theorem hexChars_eq (value : BitVec 32) : hexChars value = digitText 16 8 value.toNat :=
  writeHexLoop_eq value le_rfl

theorem decChars_eq (value : BitVec 32) :
    decChars value = digitText 10 (size 10 value.toNat) value.toNat := by
  have hlt := value.isLt
  exact writeDecLoop_false value 9 (by omega)

/-- The characters put for a number are those `vsprintf` prints for it. -/
theorem vsprintf_number_chars (strings : BitVec 32 → List (BitVec 8)) (args : ℕ → BitVec 32) :
    vsprintf strings (['%', 'u'].map ch) args = .ok (decChars (args 0) ++ [0]) ∧
      vsprintf strings (['%', '0', '8', 'x'].map ch) args = .ok (hexChars (args 0) ++ [0]) := by
  have hplain : appendNumber (args 0) (radixOf (ch 'u')) (flagsOf [] (ch 'u')) (0 : ℕ) =
      .ok (decChars (args 0)) := by
    have hmax : max (size 10 (args 0).toNat) 0 = size 10 (args 0).toNat := Nat.max_zero _
    rw [appendNumber_of_width (flagsOf [] (ch 'u')) (radixOf_le (ch 'u')).1
      (radixOf_le (ch 'u')).2 (args 0) (Nat.zero_le 60), decChars_eq]
    exact congrArg (fun count => Except.ok (digitText 10 count (args 0).toNat)) hmax
  have hfilled : appendNumber (args 0) (radixOf (ch 'x')) (flagsOf [ch '0'] (ch 'x')) (8 : ℕ) =
      .ok (hexChars (args 0)) := by
    have hsize : size 16 (args 0).toNat ≤ 8 := size_le_of_lt_pow (by decide) (args 0).isLt
    have hmax : max (size 16 (args 0).toNat) 8 = 8 := Nat.max_eq_right hsize
    rw [appendNumber_of_width (flagsOf [ch '0'] (ch 'x')) (radixOf_le (ch 'x')).1
      (radixOf_le (ch 'x')).2 (args 0) (show 8 ≤ 60 by decide), hexChars_eq]
    exact congrArg (fun count => Except.ok (digitText 16 count (args 0).toNat)) hmax
  exact ⟨vsprintf_directive strings args (List.forall_mem_nil _) (by decide) (by decide) hplain,
    vsprintf_directive strings args (by decide) (by decide) (by decide) hfilled⟩

end Evos
