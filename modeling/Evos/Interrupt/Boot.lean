import Evos.Interrupt.Schedule

/-! # `__kmain`, up to `sti`

Whatever the controllers and the timer were at, `init_idt`, `init_timer` and `init_syscalls` leave them
ready for the first interrupt. -/

namespace Evos
open Processor ByteMemory InterruptController IntervalTimer LockStep
set_option autoImplicit false

/-! ## Setting up -/

def IrqState.reportSuccess (s : IrqState) : IrqState :=
  { s with devices := { s.devices with monitor := Evos.reportSuccess s.devices.monitor } }

/-- `init_idt`, but for the entries themselves. -/
def initIdtOn (s : IrqState) : Except Halt IrqState :=
  match s.print "Loading a new IDT" [] with
  | .error h => .error h
  | .ok s =>
  match s.reportSuccess.print "Remapping the PIC" [] with
  | .error h => .error h
  | .ok s => .ok { s with devices := remapPic s.devices }.reportSuccess

/-- `init_timer`. -/
def initTimerOn (freq : BitVec 32) (s : IrqState) : Except Halt IrqState :=
  let s := isrRegisterHandler 32 .timerCallback s
  match timerDivisor freq with
  | none => .error .divideByZero
  | some divisor =>
  -- the divisor is cut where the warning is printed
  match if pitClockFreq / freq &&& ~~~0xFFFF#32 ≠ 0 then s.print "WARN: frequency is too low\n" []
      else .ok s with
  | .error h => .error h
  | .ok s =>
  match s.print "Initialising timer" [] with
  | .error h => .error h
  | .ok s => .ok { s with devices := programTimer divisor s.devices }.reportSuccess

def initSyscalls (s : IrqState) : IrqState := isrRegisterHandler isrSyscall .syscallHandler s

/-- `__kmain` between `init_gdt` and `sti`. -/
def kmainInterrupts (s : IrqState) : Except Halt IrqState :=
  match initIdtOn s with
  | .error h => .error h
  | .ok s =>
  match initTimerOn 50 s with
  | .error h => .error h
  | .ok s => .ok (initSyscalls s)

/-! ## What is left -/

variable {s : IrqState}

theorem initIdtOn_eq (s : IrqState) : ∃ monitor, initIdtOn s = .ok { s with
    devices := { remapPic s.devices with monitor := monitor } } := by
  unfold initIdtOn
  rw [IrqState.print_text (by decide) (by decide)]
  dsimp only
  rw [IrqState.print_text (by decide) (by decide)]
  generalize literal "Loading a new IDT" = first
  generalize literal "Remapping the PIC" = second
  dsimp only
  rw [remapPic_eq, remapPic_eq]
  unfold IrqState.reportSuccess IrqState.showing
  dsimp only
  exact ⟨_, rfl⟩

theorem initTimerOn_eq {freq divisor : BitVec 32} (h : timerDivisor freq = some divisor)
    (s : IrqState) : ∃ monitor, initTimerOn freq s = .ok { s with
      devices := { programTimer divisor s.devices with monitor := monitor }
      interruptHandlers := Function.update s.interruptHandlers 32 (some .timerCallback) } := by
  unfold initTimerOn
  rw [h]
  dsimp only
  by_cases hlow : pitClockFreq / freq &&& ~~~0xFFFF#32 ≠ 0
  · rw [if_pos hlow, IrqState.print_text (by decide) (by decide)]
    dsimp only
    rw [IrqState.print_text (by decide) (by decide)]
    generalize literal "WARN: frequency is too low\n" = first
    generalize literal "Initialising timer" = second
    exact ⟨_, rfl⟩
  · rw [if_neg hlow]
    dsimp only
    rw [IrqState.print_text (by decide) (by decide)]
    generalize literal "Initialising timer" = text
    exact ⟨_, rfl⟩

/-- `init_paging` registers its handler before. -/
def pagingHandlers : ℕ → Option IsrHandler :=
  Function.update (fun _ => none) 14 (some .pageFaultHandler)

theorem kmainInterrupts_eq (hhandlers : s.interruptHandlers = pagingHandlers) :
    ∃ s', kmainInterrupts s = .ok s' ∧ AtRest s.reach s' ∧ (s'.devices.pic.pending = fun _ => false) ∧
      TicksEvery 23863 s'.devices := by
  obtain ⟨monitor, hidt⟩ := initIdtOn_eq s
  have hdivisor : timerDivisor 50 = some 23863 := by decide
  obtain ⟨monitor', htimer⟩ := initTimerOn_eq hdivisor { s with
    devices := { remapPic s.devices with monitor := monitor } }
  have hpending : (remapPic s.devices).pic.pending = fun _ => false := by
    rw [remapPic_eq, initialized_eq, initialized_eq]
    funext k
    unfold Pair.pending
    split <;> rfl
  have hticks := programTimer_timer (show (23863 : BitVec 32).toNat < 65536 by decide)
    { remapPic s.devices with monitor := monitor }
  unfold kmainInterrupts
  rw [hidt]
  dsimp only
  rw [htimer]
  refine ⟨_, rfl, ⟨rfl, ?_, remapPic_quiet s.devices⟩, hpending, hticks⟩
  show Function.update (Function.update s.interruptHandlers 32 _) isrSyscall _ = kernelHandlers
  rw [hhandlers]
  rfl

/-- From the devices as they are found, for every program and in every order of events: the kernel is
what the task sees, with the controllers free between any two events, until a tick or a panic. -/
theorem boot_refines {l : Labels} {g : Gdt} {tss kernelRelocatedStack : BitVec 32} {depth : ℕ}
    {prog : Cpu → UserStep} {c : Cpu}
    (hprog : Confined (bootTables l tss kernelRelocatedStack g)
      (kernelRelocatedStack.toNat - (64 + depth)) kernelRelocatedStack.toNat prog)
    (hroom : StackRoom kernelRelocatedStack depth)
    (hrun : Running (bootTables l tss kernelRelocatedStack g) c)
    (hhandlers : s.interruptHandlers = pagingHandlers) {events : List Event}
    (hevents : ∀ e ∈ events, e.Ok depth) :
    ∃ s', kmainInterrupts s = .ok s' ∧ TicksEvery 23863 s'.devices ∧
      Agrees (Appears (bootTables l tss kernelRelocatedStack g) s.reach
          (kernelRelocatedStack.toNat - (64 + depth)) kernelRelocatedStack.toNat) (EndsAs s.reach)
        (runAll (View.step s.reach prog) events ⟨c, s'.devices.monitor, fun _ => false⟩)
        (runAll (System.step (bootTables l tss kernelRelocatedStack g) l prog) events (c, s')) := by
  obtain ⟨s', hboot, hrest, hpending, hticks⟩ := kmainInterrupts_eq hhandlers
  refine ⟨s', hboot, hticks, schedule_refines hprog hroom hevents ?_⟩
  exact ⟨⟨c.mem, rfl, OnlyIn.refl _ _ _⟩, hrun, hrest, rfl, hpending⟩

/-- A key, an instruction, a tick. -/
theorem boot_refines_nullCaller :
    ∃ s', kmainInterrupts ⟨Devices.off, pagingHandlers, 0, taskReach⟩ = .ok s' ∧ TicksEvery 23863 s'.devices ∧
      Agrees (Appears (bootTables stubsInRow 0 0xD0010000 Gdt.zero) taskReach
          ((0xD0010000 : Word).toNat - (64 + 100)) (0xD0010000 : Word).toNat) (EndsAs taskReach)
        (runAll (View.step taskReach nullCaller) [.raise 1, .user ⟨1, 2, 3, 4, 100, fun _ => 5⟩, .raise 0,
          .poll ⟨5, 4, 3, 2, 50, fun _ => 1⟩] ⟨freshTask, s'.devices.monitor, fun _ => false⟩)
        (runAll (System.step (bootTables stubsInRow 0 0xD0010000 Gdt.zero) stubsInRow nullCaller)
          [.raise 1, .user ⟨1, 2, 3, 4, 100, fun _ => 5⟩, .raise 0, .poll ⟨5, 4, 3, 2, 50, fun _ => 1⟩]
          (freshTask, s')) :=
  boot_refines (nullCaller_confined _ _ _) ⟨by decide, by decide⟩ (freshTask_running _ _ _ _) rfl
    (by simp [Event.Ok])

end Evos
