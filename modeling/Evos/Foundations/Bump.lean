import Mathlib.Data.Nat.Notation
import Mathlib.Data.List.Pairwise
import Mathlib.Tactic.Common

/-! # Blocks laid out by a moving pointer

An allocator that never frees takes each block at or behind the end of the last one. Blocks are pairs
of a start and a length, the latest first. -/

namespace Bump
set_option autoImplicit false

/-- The blocks lie in `[lo, hi)`, each behind the ones taken before it. -/
structure Laid (lo hi : ℕ) (blocks : List (ℕ × ℕ)) : Prop where
  lower : ∀ b ∈ blocks, lo ≤ b.1
  upper : ∀ b ∈ blocks, b.1 + b.2 ≤ hi
  ordered : blocks.Pairwise fun a b => b.1 + b.2 ≤ a.1

/-- No byte is in both. -/
def Apart (a b : ℕ × ℕ) : Prop := a.1 + a.2 ≤ b.1 ∨ b.1 + b.2 ≤ a.1

/-- Every multiple of `unit` in `[lo, hi)` is in one of the blocks. -/
def Covers (unit lo hi : ℕ) (blocks : List (ℕ × ℕ)) : Prop :=
  ∀ a, a % unit = 0 → lo ≤ a → a < hi → ∃ b ∈ blocks, b.1 ≤ a ∧ a < b.1 + b.2

section
variable {lo hi mid start len unit : ℕ} {blocks older : List (ℕ × ℕ)}

theorem Apart.symm {a b : ℕ × ℕ} (h : Apart a b) : Apart b a := Or.symm h

theorem laid_nil (lo hi : ℕ) : Laid lo hi [] :=
  ⟨fun _ hb => absurd hb List.not_mem_nil, fun _ hb => absurd hb List.not_mem_nil,
    List.Pairwise.nil⟩

theorem Laid.push (h : Laid lo hi blocks) (hlo : lo ≤ start) (hhi : hi ≤ start) :
    Laid lo (start + len) ((start, len) :: blocks) := by
  refine ⟨?_, ?_, ?_⟩
  · intro b hb
    rcases List.mem_cons.mp hb with rfl | hb
    · exact hlo
    · exact h.lower b hb
  · intro b hb
    rcases List.mem_cons.mp hb with rfl | hb
    · exact Nat.le_refl _
    · have hupper := h.upper b hb
      omega
  · refine List.pairwise_cons.mpr ⟨?_, h.ordered⟩
    intro b hb
    exact Nat.le_trans (h.upper b hb) hhi

theorem Laid.mono {lo' hi' : ℕ} (h : Laid lo hi blocks) (hlo : lo' ≤ lo) (hhi : hi ≤ hi') :
    Laid lo' hi' blocks :=
  ⟨fun b hb => Nat.le_trans hlo (h.lower b hb), fun b hb => Nat.le_trans (h.upper b hb) hhi,
    h.ordered⟩

theorem Laid.append (h : Laid mid hi blocks) (ho : Laid lo mid older) (hlo : lo ≤ mid)
    (hhi : mid ≤ hi) : Laid lo hi (blocks ++ older) := by
  refine ⟨?_, ?_, ?_⟩
  · intro b hb
    rcases List.mem_append.mp hb with hb | hb
    · exact Nat.le_trans hlo (h.lower b hb)
    · exact ho.lower b hb
  · intro b hb
    rcases List.mem_append.mp hb with hb | hb
    · exact h.upper b hb
    · exact Nat.le_trans (ho.upper b hb) hhi
  · refine List.pairwise_append.mpr ⟨h.ordered, ho.ordered, ?_⟩
    intro a ha b hb
    exact Nat.le_trans (ho.upper b hb) (h.lower a ha)

theorem Laid.apart (h : Laid lo hi blocks) : blocks.Pairwise Apart :=
  h.ordered.imp fun hab => Or.inr hab

theorem Covers.push (h : Covers unit lo hi blocks) (hstart : ∀ a, a % unit = 0 → hi ≤ a → start ≤ a) :
    Covers unit lo (start + len) ((start, len) :: blocks) := by
  intro a ha hlo hhi
  by_cases hold : a < hi
  · obtain ⟨b, hb, hin⟩ := h a ha hlo hold
    exact ⟨b, List.mem_cons_of_mem _ hb, hin⟩
  · exact ⟨(start, len), List.mem_cons_self, hstart a ha (Nat.not_lt.mp hold), hhi⟩

theorem covers_nil (unit lo : ℕ) : Covers unit lo lo [] :=
  fun _ _ hlo hhi => absurd hhi (Nat.not_lt.mpr hlo)

end

end Bump
