import Mathlib.Logic.Relation
import Mathlib.Tactic.Common

/-! # Runs of a labelled step function

A system is a partial step function `step : Op → σ → Option σ`; `none` is a step that stops. A `Run`
takes any number of steps, each of them allowed by a condition on the operation and on the state
before it. The induction over runs is packaged once (`Run.invariant`), and `trace` evaluates a run on
a list of operations. -/

namespace Runs
set_option autoImplicit false

variable {Op σ : Type}

/-- Some allowed operation leads from one state to the other. -/
def Moves (step : Op → σ → Option σ) (ok : Op → σ → Prop) (s t : σ) : Prop :=
  ∃ op, ok op s ∧ step op s = some t

/-- Any number of allowed steps. -/
def Run (step : Op → σ → Option σ) (ok : Op → σ → Prop) : σ → σ → Prop :=
  Relation.ReflTransGen (Moves step ok)

section
variable {step : Op → σ → Option σ} {ok : Op → σ → Prop} {s t u : σ}

theorem Run.refl (s : σ) : Run step ok s s := Relation.ReflTransGen.refl

theorem Run.head {op : Op} (hok : ok op s) (hs : step op s = some t) (r : Run step ok t u) :
    Run step ok s u :=
  Relation.ReflTransGen.head ⟨op, hok, hs⟩ r

theorem Run.tail {op : Op} (r : Run step ok s t) (hok : ok op t) (hs : step op t = some u) :
    Run step ok s u :=
  Relation.ReflTransGen.tail r ⟨op, hok, hs⟩

/-- What holds at first and is kept by every allowed step holds of every state reached. -/
theorem Run.invariant {I : σ → Prop} (r : Run step ok s t) (h0 : I s)
    (hstep : ∀ op x y, I x → ok op x → step op x = some y → I y) : I t := by
  induction r with
  | refl => exact h0
  | tail _ hm ih =>
    obtain ⟨op, hok, hs⟩ := hm
    exact hstep op _ _ ih hok hs

end

/-- Evaluate the operations of a list, as long as they are allowed and do not stop. -/
def trace (step : Op → σ → Option σ) (ok : Op → σ → Prop) [∀ op s, Decidable (ok op s)] :
    List Op → σ → Option σ
  | [], s => some s
  | op :: ops, s => if ok op s then (step op s).bind (trace step ok ops) else none

theorem Run.of_trace {step : Op → σ → Option σ} {ok : Op → σ → Prop} [∀ op s, Decidable (ok op s)]
    {ops : List Op} {s t : σ} (h : trace step ok ops s = some t) : Run step ok s t := by
  induction ops generalizing s with
  | nil =>
    cases h
    exact Run.refl _
  | cons op ops ih =>
    rw [trace] at h
    split at h
    · rename_i hok
      obtain ⟨u, hs, h⟩ := Option.bind_eq_some_iff.mp h
      exact Run.head hok hs (ih h)
    · exact nomatch h

end Runs
