import Evos.Foundations.ByteMemory
import Mathlib.Data.Nat.Bitwise

/-! # Words and bits over a memory

* `overlay m base words`: from `base` on, the words that are given lie over `m`.
* `Marked first n m m'`: `m'` is `m` with the first `n` bits behind the byte `first` set.

Stores change the words of an overlay one by one, and pass below the bits that are marked. -/

namespace ByteMemory
set_option autoImplicit false

/-- The memory under the words given at `base`, `base + 4` and so on. -/
def overlay (m : Mem) (base : ℕ) (words : ℕ → Option ℕ) : Mem := fun x =>
  if x < base then m x
  else
    match words ((x - base) / 4) with
    | some w => UInt8.ofNat (w / 256 ^ ((x - base) % 4))
    | none => m x

section Overlay
variable {m : Mem} {base k n w x : ℕ} {words words' : ℕ → Option ℕ}

theorem overlay_below (hx : x < base) : overlay m base words x = m x := if_pos hx

theorem overlay_none (hx : base ≤ x) (h : words ((x - base) / 4) = none) :
    overlay m base words x = m x := by
  unfold overlay
  rw [if_neg (Nat.not_lt.mpr hx), h]

theorem overlay_some (hx : base ≤ x) (h : words ((x - base) / 4) = some w) :
    overlay m base words x = UInt8.ofNat (w / 256 ^ ((x - base) % 4)) := by
  unfold overlay
  rw [if_neg (Nat.not_lt.mpr hx), h]

theorem overlay_congr (h : base ≤ x → words' ((x - base) / 4) = words ((x - base) / 4)) :
    overlay m base words' x = overlay m base words x := by
  by_cases hx : x < base
  · rw [overlay_below hx, overlay_below hx]
  · unfold overlay
    rw [h (Nat.not_lt.mp hx)]

theorem overlay_nothing (m : Mem) (base : ℕ) : overlay m base (fun _ => none) = m := by
  funext x
  by_cases hx : x < base
  · exact overlay_below hx
  · exact overlay_none (Nat.not_lt.mp hx) rfl

theorem store32_overlay (hself : words' k = some w) (hother : ∀ i, i ≠ k → words' i = words i) :
    store32 (overlay m base words) (base + 4 * k) w = overlay m base words' := by
  funext x
  unfold store32
  by_cases hx : base + 4 * k ≤ x ∧ x < base + 4 * k + 4
  · have hindex : (x - base) / 4 = k := by omega
    have hbyte : (x - base) % 4 = x - (base + 4 * k) := by omega
    rw [if_pos hx, overlay_some (by omega) (hindex ▸ hself), hbyte]
  · rw [if_neg hx]
    exact (overlay_congr fun _ => hother _ (by omega)).symm

theorem fill_overlay (hself : ∀ i, k ≤ i → i < k + n → words' i = some 0)
    (hother : ∀ i, i < k ∨ k + n ≤ i → words' i = words i) :
    fill (overlay m base words) (base + 4 * k) 0 (4 * n) = overlay m base words' := by
  funext x
  unfold fill
  by_cases hx : base + 4 * k ≤ x ∧ x < base + 4 * k + 4 * n
  · rw [if_pos hx, overlay_some (by omega) (hself _ (by omega) (by omega)), Nat.zero_div]
    rfl
  · rw [if_neg hx]
    exact (overlay_congr fun _ => hother _ (by omega)).symm

theorem load32_overlay (h : words k = some w) (hw : w < 2 ^ 32) :
    load32 (overlay m base words) (base + 4 * k) = w := by
  have hstore : store32 (overlay m base words) (base + 4 * k) w = overlay m base words :=
    store32_overlay h fun _ _ => rfl
  rw [← hstore]
  exact load32_store32_self _ _ _ hw

end Overlay

/-! ## Bits of a word -/

section Bits
variable {m : Mem} {a x i k : ℕ}

theorem testBit_store32 (hx : a ≤ x ∧ x < a + 4) (hi : i < 8) (v : ℕ) :
    (store32 m a v x).toNat.testBit i = v.testBit (8 * (x - a) + i) := by
  unfold store32
  rw [if_pos hx, UInt8.toNat_ofNat', Nat.testBit_mod_two_pow, decide_eq_true hi, Bool.true_and,
    show (256 : ℕ) = 2 ^ 8 from rfl, ← Nat.pow_mul, Nat.testBit_div_two_pow, Nat.add_comm]

theorem testBit_load32 (m : Mem) (a : ℕ) (hi : i < 8) (hk : k < 4) :
    (load32 m a).testBit (8 * k + i) = (m (a + k)).toNat.testBit i := by
  have hstore := testBit_store32 (m := m) (a := a) (x := a + k) (by omega) hi (load32 m a)
  have h0 := (m a).toNat_lt
  have h1 := (m (a + 1)).toNat_lt
  have h2 := (m (a + 2)).toNat_lt
  have h3 := (m (a + 3)).toNat_lt
  have hbyte : (m (a + k)).toNat = load32 m a / 2 ^ (8 * k) % 2 ^ 8 := by
    unfold load32
    have hcase : k = 0 ∨ k = 1 ∨ k = 2 ∨ k = 3 := by omega
    rcases hcase with rfl | rfl | rfl | rfl
    · rw [Nat.add_zero]
      omega
    · omega
    · omega
    · omega
  rw [hbyte, Nat.testBit_mod_two_pow, decide_eq_true hi, Bool.true_and, Nat.testBit_div_two_pow,
    Nat.add_comm]

end Bits

/-! ## Marked bits -/

/-- The first `n` bits behind the byte `first` are set, the others are those of `m`. -/
def Marked (first n : ℕ) (m m' : Mem) : Prop :=
  ∀ x i, i < 8 → (m' x).toNat.testBit i =
    ((m x).toNat.testBit i || decide (first ≤ x ∧ 8 * (x - first) + i < n))

section Marked
variable {first n a x : ℕ} {m m' : Mem}

theorem marked_zero (first : ℕ) (m : Mem) : Marked first 0 m m := by
  intro x i _
  rw [decide_eq_false (by omega), Bool.or_false]

theorem Marked.byte (h : Marked first n m m') (hx : n ≤ 8 * (x - first)) : m' x = m x := by
  refine UInt8.toNat_inj.mp (Nat.eq_of_testBit_eq fun i => ?_)
  by_cases hi : i < 8
  · rw [h x i hi, decide_eq_false (by omega), Bool.or_false]
  · have hpow : 2 ^ 8 ≤ 2 ^ i := Nat.pow_le_pow_right (by decide) (by omega)
    rw [Nat.testBit_eq_false_of_lt ((m' x).toNat_lt.trans_le hpow),
      Nat.testBit_eq_false_of_lt ((m x).toNat_lt.trans_le hpow)]

theorem Marked.load32 (h : Marked first n m m') (ha : n ≤ 8 * (a - first)) :
    load32 m' a = load32 m a :=
  load32_congr fun _ _ _ => h.byte (by omega)

theorem Marked.store32 (h : Marked first n m m') (ha : n ≤ 8 * (a - first)) (v : ℕ) :
    Marked first n (store32 m a v) (store32 m' a v) := by
  intro x i hi
  by_cases hx : a ≤ x ∧ x < a + 4
  · rw [testBit_store32 hx hi, testBit_store32 hx hi, decide_eq_false (by omega), Bool.or_false]
  · rw [store32_of_outside _ _ _ _ (by omega), store32_of_outside _ _ _ _ (by omega)]
    exact h x i hi

theorem Marked.fill (h : Marked first n m m') (ha : n ≤ 8 * (a - first)) (b : UInt8) (len : ℕ) :
    Marked first n (fill m a b len) (fill m' a b len) := by
  intro x i hi
  by_cases hx : a ≤ x ∧ x < a + len
  · unfold ByteMemory.fill
    rw [if_pos hx, if_pos hx, decide_eq_false (by omega), Bool.or_false]
  · rw [fill_of_outside _ _ _ _ _ (by omega), fill_of_outside _ _ _ _ _ (by omega)]
    exact h x i hi

theorem Marked.succ (h : Marked first n m m') :
    Marked first (n + 1) m (ByteMemory.store32 m' (first + 4 * (n / 32))
      (ByteMemory.load32 m' (first + 4 * (n / 32)) ||| 1 <<< (n % 32))) := by
  intro x i hi
  by_cases hx : first + 4 * (n / 32) ≤ x ∧ x < first + 4 * (n / 32) + 4
  · obtain ⟨k, rfl⟩ := Nat.exists_eq_add_of_le hx.1
    rw [testBit_store32 hx hi, Nat.testBit_or, Nat.add_sub_cancel_left, testBit_load32 _ _ hi (by omega),
      h _ i hi, Bool.or_assoc, Nat.one_shiftLeft, Nat.testBit_two_pow, ← Bool.decide_or]
    congr 2
    exact propext (by omega)
  · rw [store32_of_outside _ _ _ _ (by omega), h x i hi]
    congr 2
    exact propext (by omega)

end Marked

end ByteMemory
