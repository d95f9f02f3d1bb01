import Evos.Foundations.Runs
import Evos.Task.Table

/-! # Booting under timer interrupts

`__kmain` from its `sti` on: `test_kmalloc`, `init_tasking`, then `task_create` any number of times,
one write at a time, with a timer interrupt possible between any two steps. An interrupt runs
`timer_callback`, which is `task_switch`: it leaves for a task and never comes back to the boot
thread. -/

namespace Evos
open Runs
set_option autoImplicit false

/-! ## One slot of the table -/

/-- A slot with the pages `task_create` sets up in its address space. -/
structure Slot where
  task : Task
  imagePage : Bool
  userStackPage : Bool
  kernelStackPage : Bool
  imageCopied : Bool
  deriving DecidableEq

def Slot.zero : Slot := ⟨Task.zero, false, false, false, false⟩

/-- The writes of `task_create`. -/
inductive Write where
  | clearTask
  | alive
  | pid
  | clearState
  | cs
  | eip
  | ds
  | ss
  | esp
  | pageDirectory
  | imagePage
  | userStackPage
  | kernelStackPage
  | copyImage
  deriving DecidableEq

/-- The writes in the order of the code. -/
def taskCreateWrites : List Write :=
  [.clearTask, .alive, .pid, .clearState, .cs, .eip, .ds, .ss, .esp, .pageDirectory, .imagePage,
    .userStackPage, .kernelStackPage, .copyImage]

def Slot.setState (s : Slot) (f : Registers → Registers) : Slot :=
  { s with task := { s.task with savedState := f s.task.savedState } }

/-- One write to the slot of `pid`; `directory` is what `clone_directory` returned. -/
def Write.apply (pid directory : ℕ) : Write → Slot → Slot
  | .clearTask, s => { s with task := Task.zero }
  | .alive, s => { s with task := { s.task with alive := true } }
  | .pid, s => { s with task := { s.task with pid := pid } }
  | .clearState, s => s.setState fun _ => Registers.zero
  | .cs, s => s.setState fun r => { r with cs := 0x18 ||| 3 }
  | .eip, s => s.setState fun r => { r with eip := taskImageBase }
  | .ds, s => s.setState fun r => { r with ds := 0x20 ||| 3 }
  | .ss, s => s.setState fun r => { r with ss := r.ds }
  | .esp, s => s.setState fun r => { r with esp := taskUserStackBottom + 0x0FFC }
  | .pageDirectory, s => ⟨{ s.task with pageDirectory := directory }, false, false, false, false⟩
  | .imagePage, s => { s with imagePage := true }
  | .userStackPage, s => { s with userStackPage := true }
  | .kernelStackPage, s => { s with kernelStackPage := true }
  | .copyImage, s => { s with imageCopied := true }

/-- The slot of a task that can be dispatched. -/
structure Built (pid : ℕ) (s : Slot) : Prop where
  alive : s.task.alive = true
  pidEq : s.task.pid = pid
  cs : s.task.savedState.cs = 0x1b
  eip : s.task.savedState.eip = taskImageBase
  ds : s.task.savedState.ds = 0x23
  ss : s.task.savedState.ss = 0x23
  esp : s.task.savedState.esp = 0xF0000FFC
  pageDirectory : s.task.pageDirectory ≠ 0
  imagePage : s.imagePage = true
  userStackPage : s.userStackPage = true
  kernelStackPage : s.kernelStackPage = true
  imageCopied : s.imageCopied = true

instance (pid : ℕ) (s : Slot) : Decidable (Built pid s) :=
  decidable_of_iff (s.task.alive = true ∧ s.task.pid = pid ∧ s.task.savedState.cs = 0x1b ∧
      s.task.savedState.eip = taskImageBase ∧ s.task.savedState.ds = 0x23 ∧
      s.task.savedState.ss = 0x23 ∧ s.task.savedState.esp = 0xF0000FFC ∧
      s.task.pageDirectory ≠ 0 ∧ s.imagePage = true ∧ s.userStackPage = true ∧
      s.kernelStackPage = true ∧ s.imageCopied = true)
    ⟨fun ⟨h1, h2, h3, h4, h5, h6, h7, h8, h9, h10, h11, h12⟩ =>
      ⟨h1, h2, h3, h4, h5, h6, h7, h8, h9, h10, h11, h12⟩,
      fun h => ⟨h.alive, h.pidEq, h.cs, h.eip, h.ds, h.ss, h.esp, h.pageDirectory, h.imagePage,
        h.userStackPage, h.kernelStackPage, h.imageCopied⟩⟩

/-! ## The machine -/

/-- What the processor is executing. -/
inductive Thread where
  /-- The boot thread before `init_tasking`. -/
  | testing
  /-- The boot thread between two calls of `task_create`, or behind the last. -/
  | ready
  /-- The boot thread inside `task_create`, with some writes to go. -/
  | creating (pid : ℕ) (rest : List Write)
  /-- A task. -/
  | user (pid : ℕ)

structure Machine where
  slots : ℕ → Slot
  currentTask : ℕ
  thread : Thread

def Machine.alive (s : Machine) (i : ℕ) : Bool := (s.slots i).task.alive

/-- Replace one slot. -/
def Machine.setSlot (s : Machine) (i : ℕ) (x : Slot) : Machine :=
  { s with slots := fun j => if j = i then x else s.slots j }

inductive BootOp where
  /-- A step of `test_kmalloc`: nothing the scheduler reads. -/
  | testKmalloc
  | initTasking
  /-- Call `task_create`. -/
  | create
  /-- Its next write; the argument is used by the write of the page directory. -/
  | write (directory : ℕ)
  /-- Return from it. -/
  | ret
  /-- A timer interrupt. -/
  | tick
  deriving DecidableEq

/-- One step of the machine. `clone_directory` returns no null pointer, and a slot outside the table
is no task to go on with. -/
def machineStep (op : BootOp) (s : Machine) : Option Machine :=
  match op, s.thread with
  | .testKmalloc, .testing => some s
  | .initTasking, .testing => some { s with currentTask := noPid, thread := .ready }
  | .create, .ready =>
    (findAvailableTask s.alive).map fun pid => { s with thread := .creating pid taskCreateWrites }
  | .write directory, .creating pid (w :: rest) =>
    if directory = 0 then none
    else some { s.setSlot pid (w.apply pid directory (s.slots pid)) with
      thread := .creating pid rest }
  | .ret, .creating _ [] => some { s with thread := .ready }
  | .tick, _ =>
    let next := findNextTask s.alive s.currentTask
    if next < maxNumTasks then some { s with currentTask := next, thread := .user next } else none
  | _, _ => none

/-- The machine after `sti`: the table is zero. -/
structure Booted (s : Machine) : Prop where
  slots : ∀ i < maxNumTasks, s.slots i = Slot.zero
  currentTask : s.currentTask = 0
  thread : s.thread = .testing

/-- `find_next_task` finds a task that has been set up. -/
def PicksTask (s : Machine) : Prop :=
  findNextTask s.alive s.currentTask < maxNumTasks ∧
    Built (findNextTask s.alive s.currentTask) (s.slots (findNextTask s.alive s.currentTask))

/-- There is a task; the slot after the last dispatched one holds none whose `task_create` was cut
short; and after slot 255 the word behind the table that is read as `alive` is 0. -/
structure TimelyTick (s : Machine) : Prop where
  alive : s.alive 0 = true
  finished : s.alive (u32 (s.currentTask + 1)) = true →
    Built (u32 (s.currentTask + 1)) (s.slots (u32 (s.currentTask + 1)))
  inTable : s.currentTask = 255 → s.alive 256 = false

instance (s : Machine) : Decidable (PicksTask s) := inferInstanceAs (Decidable (_ ∧ _))

instance (s : Machine) : Decidable (TimelyTick s) :=
  decidable_of_iff (s.alive 0 = true ∧ (s.alive (u32 (s.currentTask + 1)) = true →
      Built (u32 (s.currentTask + 1)) (s.slots (u32 (s.currentTask + 1)))) ∧
      (s.currentTask = 255 → s.alive 256 = false))
    ⟨fun ⟨h1, h2, h3⟩ => ⟨h1, h2, h3⟩, fun h => ⟨h.alive, h.finished, h.inTable⟩⟩

/-! ## The writes of `task_create` -/

/-- What a write leaves in the slot. -/
def Write.Done (pid : ℕ) : Write → Slot → Prop
  | .clearTask, _ => True
  | .alive, s => s.task.alive = true
  | .pid, s => s.task.pid = pid
  | .clearState, _ => True
  | .cs, s => s.task.savedState.cs = 0x1b
  | .eip, s => s.task.savedState.eip = taskImageBase
  | .ds, s => s.task.savedState.ds = 0x23
  | .ss, s => s.task.savedState.ss = 0x23
  | .esp, s => s.task.savedState.esp = 0xF0000FFC
  | .pageDirectory, s => s.task.pageDirectory ≠ 0
  | .imagePage, s => s.imagePage = true
  | .userStackPage, s => s.userStackPage = true
  | .kernelStackPage, s => s.kernelStackPage = true
  | .copyImage, s => s.imageCopied = true

/-- The first write takes back what the second one did. -/
def Write.undoes : Write → Write → Bool
  | .clearTask, _ => true
  | .clearState, w => decide (w ∈ [Write.cs, .eip, .ds, .ss, .esp])
  | .pageDirectory, w => decide (w ∈ [Write.imagePage, .userStackPage, .kernelStackPage, .copyImage])
  | _, _ => false

section Writes
variable {pid directory : ℕ} {s : Slot} {w x : Write} {rest : List Write}

theorem Write.done_apply (hss : w = .ss → Write.ds.Done pid s) (hd : directory ≠ 0) :
    w.Done pid (w.apply pid directory s) := by
  cases w with
  | ss => exact hss rfl
  | pageDirectory => exact hd
  | clearTask => exact trivial
  | clearState => exact trivial
  | _ => exact rfl

theorem Write.done_keep (hne : x ≠ w) (hx : x.undoes w = false) (hw : w.Done pid s) :
    w.Done pid (x.apply pid directory s) := by
  cases x <;> cases w <;> first | exact hw | exact absurd rfl hne | exact Bool.noConfusion hx

theorem taskCreateWrites_keep :
    taskCreateWrites.Pairwise fun w x => x ≠ w ∧ x.undoes w = false := by
  decide

/-- The writes before `rest` have been made. -/
def Progress (pid : ℕ) (rest : List Write) (s : Slot) : Prop :=
  ∃ made, made ++ rest = taskCreateWrites ∧ ∀ w ∈ made, w.Done pid s

theorem Progress.start (pid : ℕ) (s : Slot) : Progress pid taskCreateWrites s :=
  ⟨[], rfl, fun _ hw => absurd hw List.not_mem_nil⟩

/-- `saved_state.ss` is copied from `saved_state.ds`, which was written before. -/
theorem ds_before_ss {made : List Write} (h : made ++ Write.ss :: rest = taskCreateWrites) :
    Write.ds ∈ made := by
  have hpos : Write.ds ∈ taskCreateWrites.takeWhile fun w => decide (w ≠ Write.ss) := by decide
  have hnot : Write.ss ∉ made := by
    intro hm
    have hd : taskCreateWrites.Nodup := by decide
    rw [← h] at hd
    exact (List.nodup_append.mp hd).2.2 _ hm _ List.mem_cons_self rfl
  rw [← h, List.takeWhile_append_of_pos (by
    intro w hw
    refine decide_eq_true fun e => hnot ?_
    rw [← e]
    exact hw)] at hpos
  simpa using hpos

theorem Progress.next (h : Progress pid (w :: rest) s) (hd : directory ≠ 0) :
    Progress pid rest (w.apply pid directory s) := by
  obtain ⟨made, hmade, hdone⟩ := h
  refine ⟨made ++ [w], by rw [List.append_assoc]; exact hmade, fun x hx => ?_⟩
  rcases List.mem_append.mp hx with hx | hx
  · have hpair := taskCreateWrites_keep
    rw [← hmade] at hpair
    obtain ⟨hne, hkeep⟩ := (List.pairwise_append.mp hpair).2.2 x hx w List.mem_cons_self
    exact Write.done_keep hne hkeep (hdone x hx)
  · rw [List.mem_singleton.mp hx]
    refine Write.done_apply (fun e => ?_) hd
    subst e
    exact hdone _ (ds_before_ss hmade)

theorem Progress.built (h : Progress pid [] s) : Built pid s := by
  obtain ⟨made, hmade, hdone⟩ := h
  rw [List.append_nil] at hmade
  subst hmade
  have hw : ∀ w : Write, w.Done pid s := by
    intro w
    refine hdone w ?_
    cases w <;> decide
  exact ⟨hw .alive, hw .pid, hw .cs, hw .eip, hw .ds, hw .ss, hw .esp, hw .pageDirectory,
    hw .imagePage, hw .userStackPage, hw .kernelStackPage, hw .copyImage⟩

end Writes

end Evos
