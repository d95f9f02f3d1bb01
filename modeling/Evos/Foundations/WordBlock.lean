import Evos.Foundations.ByteMemory
import Mathlib.Data.BitVec

/-! # Blocks of words in a byte memory

`readWords` and `writeWords` read and write consecutive 32-bit words. A block that was written reads
back, the bytes outside it stay, and a block written over itself changes nothing. -/

namespace ByteMemory
set_option autoImplicit false

/-- A machine word. -/
abbrev Word := BitVec 32

/-- The word at `a`. -/
def readWord (m : Mem) (a : ℕ) : Word := BitVec.ofNat 32 (load32 m a)

/-- The `n` words from `a` on. -/
def readWords (m : Mem) : ℕ → ℕ → List Word
  | _, 0 => []
  | a, n + 1 => readWord m a :: readWords m (a + 4) n

/-- Store words from `a` on. -/
def writeWords (m : Mem) : ℕ → List Word → Mem
  | _, [] => m
  | a, w :: ws => store32 (writeWords m (a + 4) ws) a w.toNat

variable {m m' : Mem} {a n : ℕ}

/-! ## One word -/

theorem readWord_store32 (m : Mem) (a : ℕ) (w : Word) : readWord (store32 m a w.toNat) a = w := by
  unfold readWord
  rw [load32_store32_self m a w.toNat w.isLt, BitVec.ofNat_toNat, BitVec.setWidth_eq]

theorem readWord_congr (h : ∀ x, a ≤ x → x < a + 4 → m' x = m x) : readWord m' a = readWord m a := by
  unfold readWord
  rw [load32_congr h]

theorem toNat_readWord (m : Mem) (a : ℕ) : (readWord m a).toNat = load32 m a := by
  unfold readWord
  rw [BitVec.toNat_ofNat]
  exact Nat.mod_eq_of_lt (load32_lt m a)

theorem store32_load32 (m : Mem) (a : ℕ) : store32 m a (load32 m a) = m := by
  funext x
  by_cases hx : a ≤ x ∧ x < a + 4
  · have h0 := (m a).toNat_lt
    have h1 := (m (a + 1)).toNat_lt
    have h2 := (m (a + 2)).toNat_lt
    have h3 := (m (a + 3)).toNat_lt
    unfold store32 load32
    rw [if_pos hx]
    apply UInt8.toNat_inj.mp
    rw [UInt8.toNat_ofNat']
    have hcase : x = a ∨ x = a + 1 ∨ x = a + 2 ∨ x = a + 3 := by omega
    rcases hcase with rfl | rfl | rfl | rfl
    · rw [Nat.sub_self]
      omega
    · rw [Nat.add_sub_cancel_left]
      omega
    · rw [Nat.add_sub_cancel_left]
      omega
    · rw [Nat.add_sub_cancel_left]
      omega
  · exact store32_of_outside m a _ x (by omega)

/-! ## Blocks -/

@[simp] theorem length_readWords (m : Mem) (a n : ℕ) : (readWords m a n).length = n := by
  induction n generalizing a with
  | zero => rfl
  | succ n ih => exact congrArg (· + 1) (ih (a + 4))

theorem getD_readWords (m : Mem) (a : ℕ) {n i : ℕ} (h : i < n) (d : Word) :
    (readWords m a n).getD i d = readWord m (a + 4 * i) := by
  induction n generalizing a i with
  | zero => exact absurd h (Nat.not_lt_zero i)
  | succ n ih =>
    cases i with
    | zero => rfl
    | succ i =>
      have haddress : a + 4 + 4 * i = a + 4 * (i + 1) := by omega
      exact (ih (a + 4) (by omega)).trans (by rw [haddress])

theorem readWords_congr (h : ∀ x, a ≤ x → x < a + 4 * n → m' x = m x) :
    readWords m' a n = readWords m a n := by
  induction n generalizing a with
  | zero => rfl
  | succ n ih =>
    unfold readWords
    rw [readWord_congr fun x h1 h2 => h x h1 (by omega),
      ih fun x h1 h2 => h x (by omega) (by omega)]

theorem readWords_append (m : Mem) (a n k : ℕ) :
    readWords m a (n + k) = readWords m a n ++ readWords m (a + 4 * n) k := by
  induction n generalizing a with
  | zero => rw [Nat.zero_add, Nat.mul_zero, Nat.add_zero, readWords, List.nil_append]
  | succ n ih =>
    have haddress : a + 4 + 4 * n = a + 4 * (n + 1) := by omega
    have hcount : n + 1 + k = n + k + 1 := by omega
    rw [hcount, readWords, readWords, ih, haddress, List.cons_append]

theorem writeWords_outside (m : Mem) (ws : List Word) {a x : ℕ} (h : x < a ∨ a + 4 * ws.length ≤ x) :
    writeWords m a ws x = m x := by
  induction ws generalizing a with
  | nil => rfl
  | cons w ws ih =>
    rw [List.length_cons] at h
    unfold writeWords
    rw [store32_of_outside _ _ _ _ (by omega)]
    exact ih (by omega)

theorem readWords_writeWords (m : Mem) (a : ℕ) (ws : List Word) :
    readWords (writeWords m a ws) a ws.length = ws := by
  induction ws generalizing a with
  | nil => rfl
  | cons w ws ih =>
    have hrest : readWords (writeWords m a (w :: ws)) (a + 4) ws.length =
        readWords (writeWords m (a + 4) ws) (a + 4) ws.length :=
      readWords_congr fun x h1 _ => store32_of_outside _ _ _ _ (by omega)
    rw [List.length_cons, readWords, hrest, ih]
    exact congrArg (· :: ws) (readWord_store32 _ a w)

theorem writeWords_append (m : Mem) (a : ℕ) (xs ys : List Word) :
    writeWords m a (xs ++ ys) = writeWords (writeWords m (a + 4 * xs.length) ys) a xs := by
  induction xs generalizing a with
  | nil => rfl
  | cons x xs ih =>
    have haddress : a + 4 + 4 * xs.length = a + 4 * (x :: xs).length := by
      rw [List.length_cons]
      omega
    rw [List.cons_append, writeWords, ih, haddress, writeWords]

theorem writeWords_readWords (m : Mem) (a n : ℕ) : writeWords m a (readWords m a n) = m := by
  induction n generalizing a with
  | zero => rfl
  | succ n ih =>
    rw [readWords, writeWords, ih, toNat_readWord]
    exact store32_load32 m a

end ByteMemory
