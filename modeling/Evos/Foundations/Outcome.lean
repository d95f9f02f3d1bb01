import Mathlib.Data.Nat.Notation
import Mathlib.Tactic.Common

/-! # Runs that return or stop

Inversion and rewriting rules for the two monads of the development: `Except ε`, a value or an
error, and `EStateM ε σ`, the same with a state that survives an error. -/

namespace Outcome
set_option autoImplicit false

section Except
variable {ε α β : Type}

theorem except_bind_of_ok {x : Except ε α} {a : α} (h : x = .ok a) (f : α → Except ε β) :
    (x >>= f) = f a := by
  rw [h]
  rfl

theorem except_bind_ok {x : Except ε α} {f : α → Except ε β} {b : β} (h : (x >>= f) = .ok b) :
    ∃ a, x = .ok a ∧ f a = .ok b := by
  cases x with
  | error e => exact nomatch h
  | ok a => exact ⟨a, rfl, h⟩

theorem except_isOk {x : Except ε α} (h : x.isOk = true) : ∃ a, x = .ok a := by
  cases x with
  | error e => exact nomatch h
  | ok a => exact ⟨a, rfl⟩

end Except

section EStateM
variable {ε σ α β : Type}

theorem bind_of_ok {x : EStateM ε σ α} {s t : σ} {a : α} (h : x s = .ok a t)
    (f : α → EStateM ε σ β) : (x >>= f) s = f a t := by
  show EStateM.bind x f s = f a t
  unfold EStateM.bind
  rw [h]

theorem bind_of_error {x : EStateM ε σ α} {s t : σ} {e : ε} (h : x s = .error e t)
    (f : α → EStateM ε σ β) : (x >>= f) s = .error e t := by
  show EStateM.bind x f s = .error e t
  unfold EStateM.bind
  rw [h]

theorem bind_ok {x : EStateM ε σ α} {f : α → EStateM ε σ β} {s t : σ} {b : β}
    (h : (x >>= f) s = .ok b t) : ∃ a u, x s = .ok a u ∧ f a u = .ok b t := by
  cases hx : x s with
  | error e u =>
    rw [bind_of_error hx] at h
    exact nomatch h
  | ok a u =>
    rw [bind_of_ok hx] at h
    exact ⟨a, u, rfl, h⟩

end EStateM

/-! ## How a run ends -/

section Ends
variable {ε σ α β : Type} {Q : α → σ → Prop} {R : β → σ → Prop} {E : σ → Prop} {s t : σ}

/-- `Q` holds of the result where the run returns, and `E` of the state where it stops. -/
def Ends (r : EStateM.Result ε σ α) (Q : α → σ → Prop) (E : σ → Prop) : Prop :=
  (∀ a t, r = .ok a t → Q a t) ∧ ∀ e t, r = .error e t → E t

theorem Ends.ok {r : EStateM.Result ε σ α} {a : α} (h : Ends r Q E) (hr : r = .ok a t) : Q a t :=
  h.1 a t hr

theorem Ends.error {r : EStateM.Result ε σ α} {e : ε} (h : Ends r Q E) (hr : r = .error e t) : E t :=
  h.2 e t hr

theorem ends_ok {a : α} (h : Q a s) : Ends (.ok a s : EStateM.Result ε σ α) Q E := by
  refine ⟨fun b t hr => ?_, fun e t hr => ?_⟩
  · cases hr
    exact h
  · cases hr

theorem ends_error {e : ε} (h : E s) : Ends (.error e s : EStateM.Result ε σ α) Q E := by
  refine ⟨fun b t hr => ?_, fun e t hr => ?_⟩
  · cases hr
  · cases hr
    exact h

theorem ends_pure {a : α} (h : Q a s) : Ends ((pure a : EStateM ε σ α) s) Q E := ends_ok h

theorem ends_throw {e : ε} (h : E s) : Ends ((throw e : EStateM ε σ α) s) Q E := ends_error h

theorem ends_modify {f : σ → σ} {Q : Unit → σ → Prop} (h : Q () (f s)) :
    Ends ((modify f : EStateM ε σ Unit) s) Q E := ends_ok h

theorem Ends.mono {r : EStateM.Result ε σ α} {Q' : α → σ → Prop} {E' : σ → Prop} (h : Ends r Q E)
    (hq : ∀ a t, Q a t → Q' a t) (he : ∀ t, E t → E' t) : Ends r Q' E' :=
  ⟨fun a t hr => hq a t (h.1 a t hr), fun e t hr => he t (h.2 e t hr)⟩

theorem Ends.and {r : EStateM.Result ε σ α} {F : α → σ → Prop} {G : σ → Prop} (h : Ends r Q E)
    (h' : Ends r F G) : Ends r (fun a t => Q a t ∧ F a t) fun t => E t ∧ G t :=
  ⟨fun a t hr => ⟨h.1 a t hr, h'.1 a t hr⟩, fun e t hr => ⟨h.2 e t hr, h'.2 e t hr⟩⟩

theorem ends_imp {r : EStateM.Result ε σ α} {P : Prop} (h : P → Ends r Q E) :
    Ends r (fun a t => P → Q a t) fun t => P → E t :=
  ⟨fun a t hr hp => (h hp).1 a t hr, fun e t hr hp => (h hp).2 e t hr⟩

/-- A sequence: what the first part ensures is what the second part starts from. -/
theorem ends_bind {x : EStateM ε σ α} {f : α → EStateM ε σ β} (hx : Ends (x s) Q E)
    (hf : ∀ a t, Q a t → Ends (f a t) R E) : Ends ((x >>= f) s) R E := by
  cases hr : x s with
  | ok a t =>
    rw [bind_of_ok hr]
    exact hf a t (hx.ok hr)
  | error e t =>
    rw [bind_of_error hr]
    exact ends_error (hx.error hr)

theorem ends_bind_of_ok {x : EStateM ε σ α} {f : α → EStateM ε σ β} {a : α} (hx : x s = .ok a t)
    (hf : Ends (f a t) R E) : Ends ((x >>= f) s) R E := by
  rw [bind_of_ok hx]
  exact hf

theorem Ends.returns {r : EStateM.Result ε σ α} (h : Ends r Q E) (he : ∀ t, ¬E t) :
    ∃ a t, r = .ok a t ∧ Q a t := by
  cases hr : r with
  | ok a t => exact ⟨a, t, rfl, h.ok hr⟩
  | error e t => exact absurd (h.error hr) (he t)

theorem ends_get_bind {f : σ → EStateM ε σ β} (h : Ends (f s s) R E) :
    Ends ((get >>= f) s) R E := h

theorem ends_modify_bind {g : σ → σ} {f : Unit → EStateM ε σ β} (h : Ends (f () (g s)) R E) :
    Ends (((modify g : EStateM ε σ Unit) >>= f) s) R E := h

end Ends

end Outcome
