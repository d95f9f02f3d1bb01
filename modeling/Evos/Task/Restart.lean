import Evos.Task.FrameOwners
import Evos.Task.Isolation
import Evos.Task.Restore

/-! # A task is always started anew

Nothing but `task_create` writes `saved_state`, so `task_switch` sends a task back to its first
instruction, whatever it has written to its pages. The registers travel through the user stack, which
is the cloning page: they come out of, and go into, the frame that was copied to last. -/

namespace Evos
open ByteMemory Segments Outcome Runs
set_option autoImplicit false

/-! ## The cloning page in a directory -/

section Cloning
variable {s t : Kernel} {top d f : ℕ}

end Cloning

/-! ## `task_switch` -/

section Switch
variable {s t : Kernel} {top q : ℕ}

end Switch

/-! ## `task_create` -/

/-- A slot as `task_create` leaves it. -/
def newTask (pid dir : ℕ) : Task :=
  { Task.zero with pid := pid, alive := true, savedState := initialRegisters, pageDirectory := dir }

section Create
variable {s t : Kernel} {top dir address pid p depth : ℕ} {page : Option (ℕ × ℕ)} {image : ℕ → UInt8}

end Create

/-! ## The saved registers in every run -/

/-- Every live task has the registers of a new one. -/
def Kernel.Fresh (s : Kernel) : Prop :=
  ∀ i < maxNumTasks, s.alive i = true → (s.tasks i).savedState = initialRegisters

section Fresh
variable {s t o boot : Kernel} {top depth flags : ℕ}

theorem Kernel.Fresh.next (h : s.Fresh) (ht : t.tasks = s.tasks ∨
    ∃ pid dir, t.tasks = Function.update s.tasks pid (newTask pid dir)) : t.Fresh := by
  intro i hi ha
  unfold Kernel.alive at ha
  rcases ht with ht | ⟨pid, dir, ht⟩
  · rw [ht] at ha ⊢
    exact h i hi ha
  · rw [ht] at ha ⊢
    by_cases hip : i = pid
    · rw [hip, Function.update_self]
      rfl
    · rw [Function.update_of_ne hip] at ha ⊢
      exact h i hi ha

end Fresh

/-! ## Dispatches -/

/-- The frame that was copied to last once a task is entered: five of the eight registers that were
copied, and the five words for `iret` over the others. -/
def entered (stack : Mem) (flags : ℕ) : Mem := fun o =>
  if 4052 ≤ o ∧ o < 4092 then
    wordBytes [0, 0, 0, 0xF0000FFC, 0, 0x10000000, 0x1b, flags, 0xF0000FFC, 0x23] (o - 4052)
  else stack o

section Dispatch
variable {s t : Kernel} {top flags : ℕ} {p : Popped}

end Dispatch

/-! ## Runs with tasks at work -/

section Depth
variable (depth : ℕ)

end Depth

section Tasking
variable {s t o boot : Kernel} {top depth flags pid : ℕ} {p : Popped} {image : ℕ → UInt8}

end Tasking

/-! ## One task -/

section Machine

/-- The call returns, and the check holds. -/
def returns {ε α : Type} (r : EStateM.Result ε Kernel α) (check : α → Kernel → Bool) : Bool :=
  match r with
  | .ok a t => check a t
  | .error _ _ => false

end Machine

end Evos
