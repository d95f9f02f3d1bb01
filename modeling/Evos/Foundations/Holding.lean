import Mathlib.Tactic.Common

/-! # Slots that hold resources

A slot holds a resource or none, and an allocator keeps a mark for every resource in use. Nothing is
lent twice as long as what is taken was not marked, and what is given back loses its mark. -/

namespace Holding
set_option autoImplicit false

variable {ι ρ : Type} {held held' : ι → ρ → Prop} {used used' : ρ → Prop} {i : ι} {r : ρ}

/-- What is held is marked, and held by one slot only. -/
structure Exclusive (held : ι → ρ → Prop) (used : ρ → Prop) : Prop where
  marked : ∀ i r, held i r → used r
  single : ∀ i j r, held i r → held j r → i = j

theorem Exclusive.mono (h : Exclusive held used) (hheld : ∀ i r, held' i r → held i r)
    (hused : ∀ r, used r → used' r) : Exclusive held' used' :=
  ⟨fun i r hi => hused r (h.marked i r (hheld i r hi)),
    fun i j r hi hj => h.single i j r (hheld i r hi) (hheld j r hj)⟩

theorem Exclusive.take (h : Exclusive held used) (hfree : ¬used r)
    (hheld : ∀ j x, held' j x → held j x ∨ j = i ∧ x = r) (hused : ∀ x, used x → used' x)
    (hnew : used' r) : Exclusive held' used' := by
  refine ⟨fun j x hj => ?_, fun j k x hj hk => ?_⟩
  · rcases hheld j x hj with hold | ⟨_, rfl⟩
    · exact hused x (h.marked j x hold)
    · exact hnew
  · rcases hheld j x hj with hj | ⟨rfl, rfl⟩
    · rcases hheld k x hk with hk | ⟨_, rfl⟩
      · exact h.single j k x hj hk
      · exact absurd (h.marked j x hj) hfree
    · rcases hheld k x hk with hk | ⟨rfl, _⟩
      · exact absurd (h.marked k x hk) hfree
      · rfl

theorem Exclusive.release (h : Exclusive held used) (hi : held i r)
    (hheld : ∀ j x, held' j x → held j x ∧ j ≠ i) (hused : ∀ x, used x → x ≠ r → used' x) :
    Exclusive held' used' := by
  refine ⟨fun j x hj => ?_, fun j k x hj hk => ?_⟩
  · obtain ⟨hold, hne⟩ := hheld j x hj
    refine hused x (h.marked j x hold) fun he => hne ?_
    subst he
    exact h.single j i x hold hi
  · exact h.single j k x (hheld j x hj).1 (hheld k x hk).1

end Holding
