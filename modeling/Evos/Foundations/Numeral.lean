import Mathlib.Data.List.Basic
import Mathlib.Data.Nat.Log
import Mathlib.Tactic.Ring

/-! # Positional numerals

Digits are listed with the highest first. The shortest numeral of zero is the one digit 0. -/

namespace Numeral
set_option autoImplicit false

variable {base n : ℕ}

/-- The `count` lowest digits of a number. -/
def lowDigits (base : ℕ) : ℕ → ℕ → List ℕ
  | 0, _ => []
  | count + 1, n => lowDigits base count (n / base) ++ [n % base]

/-- How many digits the shortest numeral has. -/
def size (base n : ℕ) : ℕ := Nat.log base n + 1

/-- The number that digits denote. -/
def value (base : ℕ) (digits : List ℕ) : ℕ := digits.foldl (fun n d => n * base + d) 0

/-! ## Digits -/

theorem length_lowDigits (base count n : ℕ) : (lowDigits base count n).length = count := by
  induction count generalizing n with
  | zero => rfl
  | succ count ih =>
    unfold lowDigits
    rw [List.length_append, ih]
    rfl

theorem lowDigits_ne_nil (base n : ℕ) {count : ℕ} (h : 0 < count) :
    lowDigits base count n ≠ [] := by
  intro hnil
  have hlen := length_lowDigits base count n
  rw [hnil] at hlen
  exact absurd hlen (Nat.pos_iff_ne_zero.mp h).symm

theorem lt_of_mem_lowDigits (hbase : 0 < base) {count d : ℕ} (h : d ∈ lowDigits base count n) :
    d < base := by
  induction count generalizing n with
  | zero => exact absurd h List.not_mem_nil
  | succ count ih =>
    unfold lowDigits at h
    rcases List.mem_append.mp h with h | h
    · exact ih h
    · rw [List.mem_singleton.mp h]
      exact Nat.mod_lt _ hbase

theorem lowDigits_succ (count n : ℕ) :
    lowDigits base (count + 1) n = n / base ^ count % base :: lowDigits base count n := by
  induction count generalizing n with
  | zero =>
    rw [pow_zero, Nat.div_one]
    rfl
  | succ count ih =>
    have hdiv : n / base / base ^ count = n / base ^ (count + 1) := by
      rw [pow_succ', Nat.div_div_eq_div_mul]
    rw [lowDigits, ih, hdiv, List.cons_append, lowDigits]

/-! ## How many -/

theorem size_pos : 0 < size base n := Nat.succ_pos _

/-- Dividing away a digit at a time, the number lasts as long as it has digits. -/
theorem div_pow_ne_zero_iff (hbase : 1 < base) {k : ℕ} (hk : 0 < k) :
    n / base ^ k ≠ 0 ↔ k < size base n := by
  have hpow : 0 < base ^ k := pow_pos (by omega) k
  have hdiv : n / base ^ k ≠ 0 ↔ base ^ k ≤ n := by
    rw [Ne, Nat.div_eq_zero_iff]
    omega
  rw [hdiv]
  unfold size
  by_cases hn : n = 0
  · rw [hn, Nat.log_zero_right]
    omega
  · rw [← Nat.le_log_iff_pow_le hbase hn]
    omega

theorem lt_pow_size (hbase : 1 < base) : n < base ^ size base n := by
  have h : ¬n / base ^ size base n ≠ 0 := by
    rw [div_pow_ne_zero_iff hbase size_pos]
    omega
  have hpow : 0 < base ^ size base n := pow_pos (by omega) _
  rcases Nat.div_eq_zero_iff.mp (not_not.mp h) with h | h <;> omega

theorem size_le_of_lt_pow {count : ℕ} (hcount : 0 < count) (h : n < base ^ count) :
    size base n ≤ count := by
  have := Nat.log_lt_of_lt_pow' (Nat.pos_iff_ne_zero.mp hcount) h
  unfold size
  omega

theorem exists_shortest (hbase : 1 < base) (hn : n ≠ 0) :
    ∃ d digits, lowDigits base (size base n) n = d :: digits ∧ d ≠ 0 := by
  refine ⟨_, _, lowDigits_succ (Nat.log base n) n, ?_⟩
  have hlow : base ^ Nat.log base n ≤ n := Nat.pow_log_le_self base hn
  have hhigh : n < base ^ Nat.log base n * base := by
    rw [← pow_succ]
    exact Nat.lt_pow_succ_log_self hbase n
  have hpos : 0 < base ^ Nat.log base n := pow_pos (by omega) _
  rw [Nat.mod_eq_of_lt (Nat.div_lt_of_lt_mul hhigh)]
  exact Nat.pos_iff_ne_zero.mp (Nat.div_pos hlow hpos)

theorem lowDigits_add (hbase : 0 < base) {count : ℕ} (h : n < base ^ count) (zeros : ℕ) :
    lowDigits base (zeros + count) n = List.replicate zeros 0 ++ lowDigits base count n := by
  induction zeros with
  | zero =>
    rw [Nat.zero_add]
    rfl
  | succ zeros ih =>
    have hsmall : n < base ^ (zeros + count) :=
      h.trans_le (Nat.pow_le_pow_right hbase (Nat.le_add_left _ _))
    rw [Nat.succ_add, lowDigits_succ, Nat.div_eq_of_lt hsmall, Nat.zero_mod, ih,
      List.replicate_succ, List.cons_append]

/-! ## Values -/

theorem foldl_horner (digits : List ℕ) (start : ℕ) :
    digits.foldl (fun n d => n * base + d) start =
      start * base ^ digits.length + value base digits := by
  unfold value
  induction digits generalizing start with
  | nil => simp
  | cons d digits ih =>
    rw [List.foldl_cons, List.foldl_cons, ih, ih (0 * base + d), List.length_cons, pow_succ]
    ring

theorem value_append (high low : List ℕ) :
    value base (high ++ low) = value base high * base ^ low.length + value base low := by
  conv_lhs => unfold value
  rw [List.foldl_append]
  exact foldl_horner low _

theorem value_replicate_zero (count : ℕ) : value base (List.replicate count 0) = 0 := by
  induction count with
  | zero => rfl
  | succ count ih =>
    rw [List.replicate_succ', value_append, ih]
    simp [value]

theorem value_lowDigits {count : ℕ} (h : n < base ^ count) :
    value base (lowDigits base count n) = n := by
  induction count generalizing n with
  | zero =>
    rw [pow_zero, Nat.lt_one_iff] at h
    rw [h]
    rfl
  | succ count ih =>
    have hdiv : n / base < base ^ count := by
      rw [pow_succ] at h
      exact Nat.div_lt_of_lt_mul (by rwa [Nat.mul_comm])
    unfold lowDigits
    rw [value_append, ih hdiv]
    have hlast : value base [n % base] = n % base := by
      simp [value]
    rw [hlast, List.length_singleton, pow_one, Nat.mul_comm]
    exact Nat.div_add_mod n base

/-! ## Numerals written in an alphabet -/

section Written
variable {α : Type}

/-- The number a text denotes, if all its characters are digits. -/
def read (decode : α → Option ℕ) (base : ℕ) (text : List α) : Option ℕ :=
  (text.mapM decode).map (value base)

theorem read_map {decode : α → Option ℕ} {encode : ℕ → α} {digits : List ℕ}
    (h : ∀ d ∈ digits, decode (encode d) = some d) :
    read decode base (digits.map encode) = some (value base digits) := by
  have hmap : (digits.map encode).mapM decode = some digits := by
    induction digits with
    | nil => rfl
    | cons d digits ih =>
      rw [List.map_cons, List.mapM_cons, h d List.mem_cons_self,
        ih fun x hx => h x (List.mem_cons_of_mem _ hx)]
      rfl
  unfold read
  rw [hmap]
  rfl

end Written

end Numeral
