import Mathlib.Data.List.Basic
import Mathlib.Tactic.Common

/-! # Two systems in lock step

Two partial step functions take the same operations. Where a step of one agrees with the step of the
other, from any two related states, so do their runs: they reach related states, or stop at the same
operation in related ways. -/

namespace LockStep
set_option autoImplicit false

variable {Op σ τ ε δ : Type}

/-- The operations of a list, until one of them stops. -/
def runAll (step : Op → σ → Except ε σ) : List Op → σ → Except ε σ
  | [], s => .ok s
  | op :: ops, s =>
    match step op s with
    | .error e => .error e
    | .ok s => runAll step ops s

/-- Both go on in related states, or both stop in related ways. -/
inductive Agrees (R : σ → τ → Prop) (E : ε → δ → Prop) : Except ε σ → Except δ τ → Prop
  | ok {s : σ} {t : τ} (h : R s t) : Agrees R E (.ok s) (.ok t)
  | error {e : ε} {d : δ} (h : E e d) : Agrees R E (.error e) (.error d)

section
variable {step : Op → σ → Except ε σ} {step' : Op → τ → Except δ τ} {R : σ → τ → Prop}
  {E : ε → δ → Prop} {ok : Op → Prop}

theorem Agrees.runAll (hstep : ∀ op s t, ok op → R s t → Agrees R E (step op s) (step' op t))
    {ops : List Op} (hops : ∀ op ∈ ops, ok op) {s : σ} {t : τ} (h : R s t) :
    Agrees R E (runAll step ops s) (runAll step' ops t) := by
  induction ops generalizing s t with
  | nil => exact .ok h
  | cons op ops ih =>
    have hfirst := hstep op s t (hops op List.mem_cons_self) h
    have hrest : ∀ op' ∈ ops, ok op' := fun op' hmem => hops op' (List.mem_cons_of_mem op hmem)
    unfold LockStep.runAll
    generalize step op s = next at hfirst ⊢
    generalize step' op t = next' at hfirst ⊢
    cases hfirst with
    | ok hnext => exact ih hrest hnext
    | error hstop => exact .error hstop

theorem Agrees.fork {ρ γ : Type} {R' : σ → ρ → Prop} {E' : ε → γ → Prop} {a : Except ε σ}
    {b : Except δ τ} {c : Except γ ρ} (h : Agrees R E a b) (h' : Agrees R' E' a c) :
    Agrees (fun y z => ∃ x, R x y ∧ R' x z) (fun y z => ∃ x, E x y ∧ E' x z) b c := by
  cases h with
  | ok h =>
    cases h' with
    | ok h' => exact .ok ⟨_, h, h'⟩
  | error h =>
    cases h' with
    | error h' => exact .error ⟨_, h, h'⟩

theorem Agrees.mono {R' : σ → τ → Prop} {E' : ε → δ → Prop} {a : Except ε σ} {b : Except δ τ}
    (h : Agrees R E a b) (hR : ∀ x y, R x y → R' x y) (hE : ∀ x y, E x y → E' x y) :
    Agrees R' E' a b := by
  cases h with
  | ok h => exact .ok (hR _ _ h)
  | error h => exact .error (hE _ _ h)

end

end LockStep
