import Mathlib.Data.Fintype.Card
import Mathlib.Data.Fintype.EquivFin
import Mathlib.Tactic.Common

/-! # Chains of a partial function

Follow a partial function from a point. In a finite type the chain ends exactly if it does not come
back to a point it has been at. -/

namespace PartialChain
set_option autoImplicit false

variable {α : Type}

/-- The point `n` steps from `a`, if the chain goes that far. -/
def chain (next : α → Option α) (a : α) : ℕ → Option α
  | 0 => some a
  | n + 1 => (chain next a n).bind next

section
variable {next : α → Option α} {a b : α} {n i j : ℕ}

theorem chain_succ (next : α → Option α) (a : α) (n : ℕ) :
    chain next a (n + 1) = (next a).bind fun b => chain next b n := by
  induction n with
  | zero =>
    show (some a).bind next = (next a).bind some
    rw [Option.bind_some, Option.bind_fun_some]
  | succ n ih =>
    have hstep : chain next a (n + 1 + 1) = (chain next a (n + 1)).bind next := rfl
    rw [hstep, ih, Option.bind_assoc]
    rfl

theorem chain_none_of_le (h : chain next a n = none) {m : ℕ} (hm : n ≤ m) : chain next a m = none := by
  induction hm with
  | refl => exact h
  | step _ ih => rw [chain, ih, Option.bind_none]

theorem chain_add_of_eq (h : chain next a i = chain next a j) (k : ℕ) :
    chain next a (i + k) = chain next a (j + k) := by
  induction k with
  | zero => exact h
  | succ k ih => rw [← Nat.add_assoc, ← Nat.add_assoc, chain, chain, ih]

theorem chain_ne_none_of_loop (hij : i < j) (hi : chain next a i = some b)
    (hj : chain next a j = some b) (n : ℕ) : chain next a n ≠ none := by
  have hround (k : ℕ) : chain next a (i + k * (j - i)) = some b := by
    induction k with
    | zero => rw [Nat.zero_mul, Nat.add_zero, hi]
    | succ k ih =>
      have hshift := chain_add_of_eq (hi.trans hj.symm) (k * (j - i))
      have hplace : j + k * (j - i) = i + (k + 1) * (j - i) := by
        rw [Nat.succ_mul]
        omega
      rw [← hplace, ← hshift, ih]
  intro hn
  have hle : n ≤ i + n * (j - i) := by
    have hmul : n * 1 ≤ n * (j - i) := Nat.mul_le_mul_left n (by omega)
    omega
  have hnone := chain_none_of_le hn hle
  rw [hround] at hnone
  exact nomatch hnone

theorem chain_ends_iff [Finite α] (next : α → Option α) (a : α) :
    (∃ n, chain next a n = none) ↔
      ¬∃ i j b, i < j ∧ chain next a i = some b ∧ chain next a j = some b := by
  constructor
  · rintro ⟨n, hn⟩ ⟨i, j, b, hij, hi, hj⟩
    exact chain_ne_none_of_loop hij hi hj n hn
  · intro hloop
    by_contra hnever
    have hsome (n : ℕ) : ∃ b, chain next a n = some b :=
      Option.ne_none_iff_exists'.mp fun hn => hnever ⟨n, hn⟩
    choose point hpoint using hsome
    have hinj : ¬Function.Injective point := not_injective_infinite_finite point
    simp only [Function.Injective, not_forall] at hinj
    obtain ⟨i, j, hsame, hne⟩ := hinj
    rcases Nat.lt_or_gt_of_ne hne with hij | hij
    · exact hloop ⟨i, j, point i, hij, hpoint i, hsame ▸ hpoint j⟩
    · exact hloop ⟨j, i, point i, hij, hsame ▸ hpoint j, hpoint i⟩

end

end PartialChain
