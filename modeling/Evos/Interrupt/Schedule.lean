import Evos.Foundations.LockStep
import Evos.Interrupt.Syscall

/-! # A task under interrupts

A task executes its instructions while devices raise their lines and the processor looks at its pin.
What the task and the console see of it is a machine that knows nothing of gates, frames, stubs and
controllers; the kernel is that machine, for every program and in every order of events. -/

namespace Evos
open Processor ByteMemory InterruptController LockStep
set_option autoImplicit false

/-! ## The kernel -/

/-- What an instruction of a task does. The instructions on ports, some of which a task may use, are
left out. -/
inductive UserStep where
  /-- Nothing that the kernel hears of. -/
  | plain (c : Cpu)
  /-- `int n`. -/
  | int (n : ℕ)
  /-- An exception but a page fault, with the state that is to be saved. -/
  | exception (c : Cpu) (v : ℕ) (errorCode : Option Word)
  /-- A page fault, with the address that is accessed. -/
  | pageFault (address errorCode : Word)

/-- The processor and what the handlers work on. -/
abbrev System := Cpu × IrqState

/-- What happens next. Where the kernel is entered, `left` is what its code leaves behind. -/
inductive Event where
  /-- A device raises its line. -/
  | raise (k : ℕ)
  /-- An instruction of the task. -/
  | user (left : Leftover)
  /-- The processor looks at its pin. -/
  | poll (left : Leftover)

/-- A line is raised at the controllers. -/
def IrqState.raise (k : ℕ) (s : IrqState) : IrqState :=
  { s with devices := { s.devices with pic := s.devices.pic.raise k } }

section Kernel
variable (t : Tables) (l : Labels) (prog : Cpu → UserStep)

/-- An instruction of the task. -/
def System.user (left : Leftover) (sys : System) : Except (Stop Halt) System :=
  match prog sys.1 with
  | .plain c => .ok (c, sys.2)
  | .int n => softwareInt t l commonHandler left n sys.1 sys.2
  | .exception c v errorCode => interrupt t l commonHandler left v false errorCode c sys.2
  | .pageFault address errorCode =>
    interrupt t l commonHandler left 14 false (some errorCode) sys.1 { sys.2 with cr2 := address }

/-- The processor looks at its pin. -/
def System.poll (left : Leftover) (sys : System) : Except (Stop Halt) System :=
  if sys.1.interruptFlag then
    match sys.2.devices.pic.acknowledge with
    | none => .ok sys
    | some (v, pic) =>
      interrupt t l commonHandler left v false none sys.1
        { sys.2 with devices := { sys.2.devices with pic := pic } }
  else .ok sys

def System.step : Event → System → Except (Stop Halt) System
  | .raise k, sys => .ok (sys.1, sys.2.raise k)
  | .user left, sys => System.user t l prog left sys
  | .poll left, sys => System.poll t l left sys

end Kernel

/-! ## What a task sees -/

/-- The registers and memory of the task, the console and the lines with a request. -/
structure View where
  cpu : Cpu
  monitor : Monitor
  pending : ℕ → Bool

/-- How a task is left. -/
inductive Ending where
  | panic (message : String) (monitor : Monitor)
  /-- The timer has ticked. -/
  | tick (monitor : Monitor) (pending : ℕ → Bool)

def protectionFault (monitor : Monitor) : Ending :=
  .panic "General protection fault :("
    (putAll (literal "Received interrupt 13: General protection fault\n") monitor)

section View
variable (reach : Reach) (prog : Cpu → UserStep)

/-- A system call returns, unless it comes to a byte that is not mapped. -/
def View.syscall (w : View) : Except Ending View :=
  match reach.unmapped w.cpu.eax w.cpu.ebx w.cpu.ecx with
  | some k => .error (.panic "Page fault!" (putAll (readFaultText w.cpu.mem reach w.cpu.ebx k) w.monitor))
  | none => .ok { w with
      cpu := { w.cpu with eip := w.cpu.eip + 2, eax := syscallResult w.cpu.eax w.cpu.ecx }
      monitor := putAll (syscallText w.cpu.mem w.cpu.eax w.cpu.ebx w.cpu.ecx) w.monitor }

/-- A system call or a fault. -/
def View.user (w : View) : Except Ending View :=
  match prog w.cpu with
  | .plain c => .ok { w with cpu := c }
  | .int n => if n = isrSyscall then w.syscall reach else .error (protectionFault w.monitor)
  | .exception c v _ =>
    if v = 13 then .error (protectionFault w.monitor)
    else .ok { w with cpu := c, monitor := putAll (announceText v) w.monitor }
  | .pageFault address errorCode =>
    .error (.panic "Page fault!" (putAll (pageFaultText errorCode address w.cpu.eip) w.monitor))

/-- The pending line of highest priority is served: the timer ends the turn of the task, and of the
others it sees nothing. -/
def View.poll (w : View) : Except Ending View :=
  if w.cpu.interruptFlag then
    match Pair.serviceOrder.find? w.pending with
    | none => .ok w
    | some k =>
      if k = 0 then .error (.tick w.monitor (Function.update w.pending 0 false))
      else .ok { w with pending := Function.update w.pending k false }
  else .ok w

def View.step : Event → View → Except Ending View
  | .raise k, w => .ok { w with pending := Function.update w.pending k true }
  | .user _, w => w.user reach prog
  | .poll _, w => w.poll

end View

/-! ## Programs -/

/-- The same processor, but for the memory between two addresses. -/
def SameTask (lo hi : ℕ) (c c' : Cpu) : Prop := ∃ m, c' = { c with mem := m } ∧ OnlyIn lo hi c.mem m

/-- A task at work, with all data segment registers alike. -/
structure Running (t : Tables) (c : Cpu) : Prop where
  ring : c.cpl = 3
  runnable : Runnable t c
  es : c.es = c.ds
  fs : c.fs = c.ds
  gs : c.gs = c.ds

/-- An instruction that does the same, in two states with other memory between two addresses. -/
inductive SameStep (lo hi : ℕ) : UserStep → UserStep → Prop
  | plain {c c' : Cpu} (h : SameTask lo hi c c') : SameStep lo hi (.plain c) (.plain c')
  | int (n : ℕ) : SameStep lo hi (.int n) (.int n)
  | exception {c c' : Cpu} (v : ℕ) (errorCode : Option Word) (h : SameTask lo hi c c') :
      SameStep lo hi (.exception c v errorCode) (.exception c' v errorCode)
  | pageFault (address errorCode : Word) :
      SameStep lo hi (.pageFault address errorCode) (.pageFault address errorCode)

/-- A program that keeps to itself: it does not look at what lies between two addresses and does not
have it printed, it leaves its segment registers alike, and its exceptions are those of the
processor. -/
structure Confined (t : Tables) (lo hi : ℕ) (prog : Cpu → UserStep) : Prop where
  same : ∀ c c', Running t c → SameTask lo hi c c' → SameStep lo hi (prog c) (prog c')
  running : ∀ c c', Running t c → prog c = .plain c' → Running t c'
  exception : ∀ c c' v errorCode, Running t c → prog c = .exception c' v errorCode →
    Running t c' ∧ v < 20 ∧ v ≠ 14 ∧ errorCode.isSome = decide (v ∈ errCodeVectors)
  data : ∀ c, Running t c → prog c = .int isrSyscall → c.eax = 1 → ∀ i < c.ecx.toNat,
    (c.ebx + BitVec.ofNat 32 i).toNat < lo ∨ hi ≤ (c.ebx + BitVec.ofNat 32 i).toNat

/-- `interrupt_handlers` once the kernel has set itself up. -/
def kernelHandlers : ℕ → Option IsrHandler :=
  Function.update (Function.update (Function.update (fun _ => none) 14 (some .pageFaultHandler))
    32 (some .timerCallback)) isrSyscall (some .syscallHandler)

/-- The kernel between interrupts. -/
structure AtRest (reach : Reach) (s : IrqState) : Prop where
  reach : s.reach = reach
  handlers : s.interruptHandlers = kernelHandlers
  quiet : s.devices.pic.Quiet picMasterLowInt picSlaveLowInt

/-- The kernel is at what the task sees. -/
structure Appears (t : Tables) (reach : Reach) (lo hi : ℕ) (w : View) (sys : System) : Prop where
  cpu : SameTask lo hi w.cpu sys.1
  running : Running t w.cpu
  rest : AtRest reach sys.2
  monitor : sys.2.devices.monitor = w.monitor
  pending : sys.2.devices.pic.pending = w.pending

/-- A stop of the kernel is the end of the task's turn. -/
inductive EndsAs (reach : Reach) : Ending → Stop Halt → Prop
  | panic {message : String} {monitor : Monitor} {s : IrqState} (h : s.devices.monitor = monitor) :
      EndsAs reach (.panic message monitor) (.callee (.panic message s))
  | tick {monitor : Monitor} {pending : ℕ → Bool} {s : IrqState} (hrest : AtRest reach s)
      (hmonitor : s.devices.monitor = monitor) (hpending : s.devices.pic.pending = pending) :
      EndsAs reach (.tick monitor pending) (.callee (.switched s))

/-- The lines of devices, and a bound for what the code of the kernel needs of its stack. -/
def Event.Ok (depth : ℕ) : Event → Prop
  | .raise k => k < 16 ∧ k ≠ 2
  | .user left | .poll left => left.depth ≤ depth

/-! ## One step -/

section Step
variable {t : Tables} {lo hi : ℕ} {c c₁ : Cpu} {m : Mem}

theorem Running.of_same (h : Running t c) (hsame : SameTask lo hi c c₁) : Running t c₁ := by
  obtain ⟨m, rfl, -⟩ := hsame
  exact ⟨h.ring, ⟨h.runnable.code, h.runnable.stack, h.runnable.data⟩, h.es, h.fs, h.gs⟩

theorem SameTask.delivered (hsame : SameTask lo hi c c₁) (hrun : Running t c) (eip eax : Word)
    (honly : OnlyIn lo hi c₁.mem m) :
    SameTask lo hi { c with eip := eip, eax := eax }
      { c₁ with eip := eip, eax := eax, es := c₁.ds, fs := c₁.ds, gs := c₁.ds, mem := m } := by
  obtain ⟨m₁, rfl, hfirst⟩ := hsame
  refine ⟨m, ?_, hfirst.trans honly⟩
  exact Cpu.ext rfl rfl rfl rfl rfl rfl rfl rfl rfl hrun.es.symm hrun.fs.symm hrun.gs.symm rfl rfl rfl
    rfl rfl

theorem AtRest.showing {reach : Reach} {s : IrqState} (h : AtRest reach s)
    (text : List (BitVec 8)) : AtRest reach (s.showing text) := ⟨h.reach, h.handlers, h.quiet⟩

theorem kernelHandlers_none {v : ℕ} (h14 : v ≠ 14) (h32 : v ≠ 32) (hsyscall : v ≠ isrSyscall) :
    kernelHandlers v = none := by
  unfold kernelHandlers
  rw [Function.update_of_ne hsyscall, Function.update_of_ne h32, Function.update_of_ne h14]

end Step

section Kernel
variable {l : Labels} {g : Gdt} {tss kernelRelocatedStack : BitVec 32} {depth : ℕ} {left : Leftover}
  {reach : Reach} {prog : Cpu → UserStep} {w : View} {sys : System}

theorem appears_delivered {c c₁ : Cpu} {m : Mem} {s : IrqState} {monitor : Monitor}
    {pending : ℕ → Bool} (eip eax : Word)
    (hsame : SameTask (kernelRelocatedStack.toNat - (64 + depth)) kernelRelocatedStack.toNat c c₁)
    (hrun : Running (bootTables l tss kernelRelocatedStack g) c)
    (honly : OnlyIn (kernelRelocatedStack.toNat - (64 + left.depth)) kernelRelocatedStack.toNat
      c₁.mem m) (hleft : left.depth ≤ depth) (hrest : AtRest reach s)
    (hmonitor : s.devices.monitor = monitor) (hpending : s.devices.pic.pending = pending) :
    Appears (bootTables l tss kernelRelocatedStack g) reach
      (kernelRelocatedStack.toNat - (64 + depth)) kernelRelocatedStack.toNat
      ⟨{ c with eip := eip, eax := eax }, monitor, pending⟩
      ({ c₁ with eip := eip, eax := eax, es := c₁.ds, fs := c₁.ds, gs := c₁.ds, mem := m }, s) where
  cpu := hsame.delivered hrun eip eax (honly.mono (by omega) (Nat.le_refl _))
  running := ⟨hrun.ring, ⟨hrun.runnable.code, hrun.runnable.stack, hrun.runnable.data⟩, hrun.es,
    hrun.fs, hrun.gs⟩
  rest := hrest
  monitor := hmonitor
  pending := hpending

theorem syscall_agrees
    (hrun : Running (bootTables l tss kernelRelocatedStack g) sys.1)
    (hroom : StackRoom kernelRelocatedStack left.depth) (hleft : left.depth ≤ depth)
    (hregistered : sys.2.interruptHandlers isrSyscall = some .syscallHandler)
    (hdata : w.cpu.eax = 1 → ∀ i < w.cpu.ecx.toNat,
      (w.cpu.ebx + BitVec.ofNat 32 i).toNat < kernelRelocatedStack.toNat - (64 + depth) ∨
        kernelRelocatedStack.toNat ≤ (w.cpu.ebx + BitVec.ofNat 32 i).toNat)
    (h : Appears (bootTables l tss kernelRelocatedStack g) reach
      (kernelRelocatedStack.toNat - (64 + depth)) kernelRelocatedStack.toNat w sys) :
    Agrees (Appears (bootTables l tss kernelRelocatedStack g) reach
        (kernelRelocatedStack.toNat - (64 + depth)) kernelRelocatedStack.toNat) (EndsAs reach)
      (w.syscall reach) (softwareInt (bootTables l tss kernelRelocatedStack g) l commonHandler left
        isrSyscall sys.1 sys.2) := by
  obtain ⟨m₁, hcpu, honly₁⟩ := h.cpu
  have hregs : sys.1.eip = w.cpu.eip ∧ sys.1.eax = w.cpu.eax ∧ sys.1.ebx = w.cpu.ebx ∧
      sys.1.ecx = w.cpu.ecx ∧ sys.1.mem = m₁ := by
    rw [hcpu]
    exact ⟨rfl, rfl, rfl, rfl, rfl⟩
  obtain ⟨heip, heax, hebx, hecx, hmem⟩ := hregs
  have hoff : sys.1.eax = 1 → OffStack kernelRelocatedStack sys.1.ebx sys.1.ecx := by
    rw [heax, hebx, hecx]
    exact fun hone i hi => (hdata hone i hi).imp_left fun hlt => by omega
  have hsame : sys.2.reach.unmapped sys.1.eax sys.1.ebx sys.1.ecx =
      reach.unmapped w.cpu.eax w.cpu.ebx w.cpu.ecx := by
    rw [h.rest.reach, heax, hebx, hecx]
  unfold View.syscall
  cases hfirst : reach.unmapped w.cpu.eax w.cpu.ebx w.cpu.ecx with
  | none =>
    obtain ⟨m', hreturn, honly⟩ := syscall_of_task hrun.runnable hrun.ring hroom hregistered
      (hsame.trans hfirst) hoff
    have htext : syscallText sys.1.mem sys.1.eax sys.1.ebx sys.1.ecx =
        syscallText w.cpu.mem w.cpu.eax w.cpu.ebx w.cpu.ecx := by
      rw [hmem, heax, hebx, hecx]
      exact syscallText_congr fun hone i hi => honly₁ _ (hdata hone i hi)
    have hresult : syscallResult sys.1.eax sys.1.ecx = syscallResult w.cpu.eax w.cpu.ecx := by
      rw [heax, hecx]
    rw [hreturn, htext, heip, hresult]
    exact .ok (appears_delivered _ _ h.cpu h.running honly hleft (h.rest.showing _)
      (showing_monitor h.monitor _) h.pending)
  | some k =>
    obtain ⟨hone, hk, -⟩ := Reach.unmapped_some hfirst
    have htext : readFaultText sys.1.mem sys.2.reach sys.1.ebx k = readFaultText w.cpu.mem reach w.cpu.ebx k := by
      unfold readFaultText
      rw [h.rest.reach, hebx, hmem, userBytes_congr fun i hi => honly₁ _ (hdata hone i (by omega))]
    rw [syscallFault_of_task hrun.ring hroom hregistered (hsame.trans hfirst)
      (hoff (heax.trans hone)), htext]
    exact .error (.panic (showing_monitor h.monitor _))

theorem user_agrees
    (hprog : Confined (bootTables l tss kernelRelocatedStack g)
      (kernelRelocatedStack.toNat - (64 + depth)) kernelRelocatedStack.toNat prog)
    (hroom : StackRoom kernelRelocatedStack depth) (hleft : left.depth ≤ depth)
    (h : Appears (bootTables l tss kernelRelocatedStack g) reach
      (kernelRelocatedStack.toNat - (64 + depth)) kernelRelocatedStack.toNat w sys) :
    Agrees (Appears (bootTables l tss kernelRelocatedStack g) reach
        (kernelRelocatedStack.toNat - (64 + depth)) kernelRelocatedStack.toNat) (EndsAs reach)
      (w.user reach prog) (System.user (bootTables l tss kernelRelocatedStack g) l prog left sys) := by
  have hbelow := hroom.below
  have hroom' : StackRoom kernelRelocatedStack left.depth := ⟨by omega, hroom.above⟩
  have hrun := h.running.of_same h.cpu
  have hnone (v : ℕ) (h14 : v ≠ 14) (h32 : v ≠ 32) (hsyscall : v ≠ isrSyscall) :
      sys.2.interruptHandlers v = none := by
    rw [h.rest.handlers]
    exact kernelHandlers_none h14 h32 hsyscall
  have hsame := hprog.same _ _ h.running h.cpu
  unfold View.user System.user
  cases hstep : prog w.cpu with
  | plain c =>
    rw [hstep] at hsame
    generalize prog sys.1 = next at hsame ⊢
    cases hsame with
    | plain hc => exact .ok ⟨hc, hprog.running _ _ h.running hstep, h.rest, h.monitor, h.pending⟩
  | int n =>
    rw [hstep] at hsame
    generalize prog sys.1 = next at hsame ⊢
    cases hsame with
    | int n =>
      dsimp only
      by_cases hn : n = isrSyscall
      · subst hn
        have hregistered : sys.2.interruptHandlers isrSyscall = some .syscallHandler := by
          rw [h.rest.handlers]
          rfl
        have hdata := hprog.data _ h.running hstep
        rw [if_pos rfl]
        exact syscall_agrees hrun hroom' hleft hregistered hdata h
      · rw [if_neg hn, int_of_task hn hrun.ring hroom' (hnone 13 (by decide) (by decide) (by decide))]
        exact .error (.panic (showing_monitor h.monitor _))
  | exception c v errorCode =>
    obtain ⟨hrunning, hv, h14, hmatch⟩ := hprog.exception _ _ _ _ h.running hstep
    rw [hstep] at hsame
    generalize prog sys.1 = next at hsame ⊢
    cases hsame with
    | @exception _ c' v errorCode hc =>
      have hrun' := hrunning.of_same hc
      dsimp only
      by_cases h13 : v = 13
      · subst h13
        obtain ⟨code, rfl⟩ : ∃ code, errorCode = some code := Option.isSome_iff_exists.mp hmatch
        rw [if_pos rfl, protectionFault_of_task code (hnone 13 (by decide) (by decide) (by decide))
          hrun'.ring hroom']
        exact .error (.panic (showing_monitor h.monitor _))
      · have hsyscall : v ≠ isrSyscall := by
          unfold isrSyscall
          omega
        obtain ⟨m', hreturn, honly⟩ := exception_of_task hv h13 (hnone v h14 (by omega) hsyscall) hmatch
          hrun'.runnable hrun'.ring hroom'
        have hregs : ∃ m, c' = { c with mem := m } := hc.imp fun _ h => h.1
        rw [if_neg h13, hreturn]
        obtain ⟨m₁, rfl⟩ := hregs
        exact .ok (appears_delivered c.eip c.eax hc hrunning honly hleft (h.rest.showing _)
          (showing_monitor h.monitor _) h.pending)
  | pageFault address errorCode =>
    have hregistered : sys.2.interruptHandlers 14 = some .pageFaultHandler := by
      rw [h.rest.handlers]
      rfl
    have heip : sys.1.eip = w.cpu.eip := by
      obtain ⟨m₁, hcpu, -⟩ := h.cpu
      rw [hcpu]
    rw [hstep] at hsame
    generalize prog sys.1 = next at hsame ⊢
    cases hsame with
    | pageFault address errorCode =>
      have hstop : interrupt (bootTables l tss kernelRelocatedStack g) l commonHandler left 14 false
          (some errorCode) sys.1 { sys.2 with cr2 := address } = _ :=
        pageFault_of_task errorCode hregistered hrun.ring hroom'
      dsimp only
      rw [hstop, heip]
      exact .error (.panic (showing_monitor h.monitor _))

theorem eoi_of_low {p p' : Pair} {base base' k : ℕ} (h : p.Quiet base base') (hk : k < 8)
    (heoi : p'.eoi false = p.clear k) (slaveToo : Bool) : p'.eoi slaveToo = p.clear k := by
  have hslave : p'.slave = p.slave := by
    have hsame := congrArg Pair.slave heoi
    unfold Pair.clear Pair.latch at hsame
    rw [if_pos hk] at hsame
    exact hsame
  cases slaveToo with
  | false => exact heoi
  | true =>
    rw [← heoi]
    show Pair.mk p'.master.eoi p'.slave.eoi = Pair.mk p'.master.eoi p'.slave
    rw [hslave, h.slave.eoi]

theorem vectorOf_line (k : ℕ) : vectorOf picMasterLowInt picSlaveLowInt k = 32 + k := by
  unfold vectorOf picMasterLowInt picSlaveLowInt
  split <;> omega

theorem poll_agrees (hroom : StackRoom kernelRelocatedStack depth) (hleft : left.depth ≤ depth)
    (h : Appears (bootTables l tss kernelRelocatedStack g) reach
      (kernelRelocatedStack.toNat - (64 + depth)) kernelRelocatedStack.toNat w sys) :
    Agrees (Appears (bootTables l tss kernelRelocatedStack g) reach
        (kernelRelocatedStack.toNat - (64 + depth)) kernelRelocatedStack.toNat) (EndsAs reach)
      w.poll (System.poll (bootTables l tss kernelRelocatedStack g) l left sys) := by
  have hbelow := hroom.below
  have hroom' : StackRoom kernelRelocatedStack left.depth := ⟨by omega, hroom.above⟩
  have hrun := h.running.of_same h.cpu
  have hflag : sys.1.interruptFlag = w.cpu.interruptFlag := by
    obtain ⟨m₁, hcpu, -⟩ := h.cpu
    rw [hcpu]
    rfl
  unfold View.poll System.poll
  rw [hflag]
  by_cases hif : w.cpu.interruptFlag = true
  · rw [if_pos hif, if_pos hif]
    cases hfind : Pair.serviceOrder.find? w.pending with
    | none =>
      rw [← h.pending] at hfind
      rw [h.rest.quiet.acknowledge_none hfind]
      exact .ok h
    | some k =>
      obtain ⟨hlt, hne⟩ := serviceOrder_find_ne hfind
      rw [← h.pending] at hfind
      obtain ⟨p', hack, heoi⟩ := h.rest.quiet.acknowledge_some hfind
      have hquiet : (sys.2.devices.pic.clear k).Quiet picMasterLowInt picSlaveLowInt :=
        h.rest.quiet.latch hne false
      have hpending : (sys.2.devices.pic.clear k).pending = Function.update w.pending k false := by
        rw [Pair.clear, Pair.pending_latch, h.pending]
      rw [hack, vectorOf_line]
      dsimp only
      by_cases hzero : k = 0
      · subst hzero
        have hregistered : sys.2.interruptHandlers 32 = some .timerCallback := by
          rw [h.rest.handlers]
          rfl
        have heoi' : p'.eoi true = sys.2.devices.pic.clear 0 :=
          eoi_of_low h.rest.quiet (by decide) heoi true
        have hstop : interrupt (bootTables l tss kernelRelocatedStack g) l commonHandler left (32 + 0)
            false none sys.1 { sys.2 with devices := { sys.2.devices with pic := p' } } = _ :=
          timer_of_task hregistered hrun.ring hroom'
        rw [if_pos rfl, hstop, taskSwitchEoi_eq]
        dsimp only
        rw [heoi']
        exact .error (.tick ⟨h.rest.reach, h.rest.handlers, hquiet⟩ h.monitor hpending)
      · have hnone : sys.2.interruptHandlers (32 + k) = none := by
          rw [h.rest.handlers]
          exact kernelHandlers_none (by omega) (by omega) (by unfold isrSyscall; omega)
        have hhigh : decide (picSlaveLowInt ≤ 32 + k) = decide (8 ≤ k) :=
          decide_eq_decide.mpr (by unfold picSlaveLowInt; omega)
        obtain ⟨m', hreturn, honly⟩ : ∃ m', interrupt (bootTables l tss kernelRelocatedStack g) l
            commonHandler left (32 + k) false none sys.1
            { sys.2 with devices := { sys.2.devices with pic := p' } } = .ok (_, _) ∧ _ :=
          irq_of_task (by omega) (by omega) hnone hrun.runnable hrun.ring hroom'
        rw [if_neg hzero, hreturn, irqEoi_eq, hhigh]
        dsimp only
        rw [heoi]
        have hsame : ({ w.cpu with eip := sys.1.eip, eax := sys.1.eax } : Cpu) = w.cpu := by
          obtain ⟨m₁, hcpu, -⟩ := h.cpu
          rw [hcpu]
        have happears := appears_delivered sys.1.eip sys.1.eax h.cpu h.running honly hleft
          (s := { sys.2 with devices := { sys.2.devices with pic := sys.2.devices.pic.clear k } })
          ⟨h.rest.reach, h.rest.handlers, hquiet⟩ h.monitor hpending
        rw [hsame] at happears
        exact .ok happears
  · rw [if_neg hif, if_neg hif]
    exact .ok h

theorem step_agrees
    (hprog : Confined (bootTables l tss kernelRelocatedStack g)
      (kernelRelocatedStack.toNat - (64 + depth)) kernelRelocatedStack.toNat prog)
    (hroom : StackRoom kernelRelocatedStack depth) {e : Event} (he : e.Ok depth)
    (h : Appears (bootTables l tss kernelRelocatedStack g) reach
      (kernelRelocatedStack.toNat - (64 + depth)) kernelRelocatedStack.toNat w sys) :
    Agrees (Appears (bootTables l tss kernelRelocatedStack g) reach
        (kernelRelocatedStack.toNat - (64 + depth)) kernelRelocatedStack.toNat) (EndsAs reach)
      (View.step reach prog e w) (System.step (bootTables l tss kernelRelocatedStack g) l prog e sys) := by
  cases e with
  | raise k =>
    have hpending : (sys.2.devices.pic.raise k).pending = Function.update w.pending k true := by
      rw [Pair.raise, Pair.pending_latch, h.pending]
    have hrest : AtRest reach (sys.2.raise k) :=
      ⟨h.rest.reach, h.rest.handlers, h.rest.quiet.latch he.2 true⟩
    exact .ok ⟨h.cpu, h.running, hrest, h.monitor, hpending⟩
  | user left => exact user_agrees hprog hroom he h
  | poll left => exact poll_agrees hroom he h

/-- In every order of events the kernel is what the task sees, until a tick or a panic. -/
theorem schedule_refines
    (hprog : Confined (bootTables l tss kernelRelocatedStack g)
      (kernelRelocatedStack.toNat - (64 + depth)) kernelRelocatedStack.toNat prog)
    (hroom : StackRoom kernelRelocatedStack depth) {events : List Event}
    (hevents : ∀ e ∈ events, e.Ok depth)
    (h : Appears (bootTables l tss kernelRelocatedStack g) reach
      (kernelRelocatedStack.toNat - (64 + depth)) kernelRelocatedStack.toNat w sys) :
    Agrees (Appears (bootTables l tss kernelRelocatedStack g) reach
        (kernelRelocatedStack.toNat - (64 + depth)) kernelRelocatedStack.toNat) (EndsAs reach)
      (runAll (View.step reach prog) events w)
      (runAll (System.step (bootTables l tss kernelRelocatedStack g) l prog) events sys) := by
  refine Agrees.runAll (fun e w sys he happears => ?_) hevents h
  exact step_agrees hprog hroom he happears

end Kernel

/-! ## Schedules -/

section Schedules
variable {reach : Reach} {prog : Cpu → UserStep} {w v : View}

def Event.isUser : Event → Bool
  | .user _ => true
  | _ => false

/-- A number of instructions, without anything between them. -/
def View.users (reach : Reach) (prog : Cpu → UserStep) : ℕ → View → Except Ending View
  | 0, w => .ok w
  | n + 1, w =>
    match w.user reach prog with
    | .error e => .error e
    | .ok w => View.users reach prog n w

theorem View.user_agrees (hcpu : w.cpu = v.cpu) (hmonitor : w.monitor = v.monitor) :
    Agrees (fun w' v' => w'.pending = w.pending ∧ w'.cpu = v'.cpu ∧ w'.monitor = v'.monitor)
      (fun e d => e = d ∧ ∃ message monitor, e = .panic message monitor) (w.user reach prog)
      (v.user reach prog) := by
  unfold View.user
  rw [hcpu, hmonitor]
  cases prog v.cpu with
  | plain c => exact .ok ⟨rfl, rfl, rfl⟩
  | int n =>
    dsimp only
    by_cases hn : n = isrSyscall
    · rw [if_pos hn, if_pos hn]
      unfold View.syscall
      rw [hcpu, hmonitor]
      cases reach.unmapped v.cpu.eax v.cpu.ebx v.cpu.ecx with
      | none => exact .ok ⟨rfl, rfl, rfl⟩
      | some k => exact .error ⟨rfl, _, _, rfl⟩
    · rw [if_neg hn, if_neg hn]
      exact .error ⟨rfl, _, _, rfl⟩
  | exception c n errorCode =>
    dsimp only
    by_cases h13 : n = 13
    · rw [if_pos h13, if_pos h13]
      exact .error ⟨rfl, _, _, rfl⟩
    · rw [if_neg h13, if_neg h13]
      exact .ok ⟨rfl, rfl, rfl⟩
  | pageFault address errorCode => exact .error ⟨rfl, _, _, rfl⟩

theorem View.run_agrees {events : List Event} (hevents : ∀ e ∈ events, e ≠ .raise 0)
    (hpending : w.pending 0 = false) (hcpu : w.cpu = v.cpu) (hmonitor : w.monitor = v.monitor) :
    Agrees (fun w' v' => w'.cpu = v'.cpu ∧ w'.monitor = v'.monitor)
      (fun e d => e = d ∧ ∃ message monitor, e = .panic message monitor)
      (runAll (View.step reach prog) events w) (View.users reach prog (events.countP Event.isUser) v) := by
  induction events generalizing w v with
  | nil => exact .ok ⟨hcpu, hmonitor⟩
  | cons e events ih =>
    have hrest : ∀ e' ∈ events, e' ≠ .raise 0 := fun e' hmem => hevents e' (List.mem_cons_of_mem e hmem)
    cases e with
    | raise k =>
      have hk : (0 : ℕ) ≠ k := by
        rintro rfl
        exact hevents _ List.mem_cons_self rfl
      rw [List.countP_cons_of_neg Bool.false_ne_true]
      exact ih hrest ((Function.update_of_ne hk _ _).trans hpending) hcpu hmonitor
    | poll left =>
      have hstep : View.step reach prog (.poll left) w = w.poll := rfl
      rw [List.countP_cons_of_neg Bool.false_ne_true, runAll, hstep]
      unfold View.poll
      by_cases hif : w.cpu.interruptFlag = true
      · rw [if_pos hif]
        cases hfind : Pair.serviceOrder.find? w.pending with
        | none => exact ih hrest hpending hcpu hmonitor
        | some k =>
          have hk : (0 : ℕ) ≠ k := by
            rintro rfl
            have hset := List.find?_some hfind
            rw [hpending] at hset
            exact Bool.false_ne_true hset
          dsimp only
          rw [if_neg (Ne.symm hk)]
          exact ih hrest ((Function.update_of_ne hk _ _).trans hpending) hcpu hmonitor
      · rw [if_neg hif]
        exact ih hrest hpending hcpu hmonitor
    | user left =>
      have hfirst : Agrees _ _ (w.user reach prog) (v.user reach prog) := View.user_agrees hcpu hmonitor
      have hstep : View.step reach prog (.user left) w = w.user reach prog := rfl
      rw [List.countP_cons_of_pos rfl, runAll, hstep, View.users]
      generalize w.user reach prog = next at hfirst ⊢
      generalize v.user reach prog = next' at hfirst ⊢
      cases hfirst with
      | ok h => exact ih hrest ((congrFun h.1 0).trans hpending) h.2.1 h.2.2
      | error h => exact .error h

end Schedules

/-- Two stops by the same panic, with the same on the console. -/
inductive SamePanic : Stop Halt → Stop Halt → Prop
  | panic (message : String) {s s' : IrqState} (h : s'.devices.monitor = s.devices.monitor) :
      SamePanic (.callee (.panic message s)) (.callee (.panic message s'))

section Kernel
variable {l : Labels} {g : Gdt} {tss kernelRelocatedStack : BitVec 32} {depth : ℕ} {reach : Reach}
  {prog : Cpu → UserStep} {c : Cpu} {s : IrqState}

theorem run_agrees_users
    (hprog : Confined (bootTables l tss kernelRelocatedStack g)
      (kernelRelocatedStack.toNat - (64 + depth)) kernelRelocatedStack.toNat prog)
    (hroom : StackRoom kernelRelocatedStack depth)
    (hrun : Running (bootTables l tss kernelRelocatedStack g) c) (hrest : AtRest reach s)
    (hpending : s.devices.pic.pending 0 = false) {events : List Event}
    (hevents : ∀ e ∈ events, e.Ok depth ∧ e ≠ .raise 0) :
    Agrees (fun v sys => SameTask (kernelRelocatedStack.toNat - (64 + depth))
          kernelRelocatedStack.toNat v.cpu sys.1 ∧ sys.2.devices.monitor = v.monitor)
      (fun e stop => ∃ message s', e = .panic message s'.devices.monitor ∧
        stop = .callee (.panic message s'))
      (View.users reach prog (events.countP Event.isUser)
        ⟨c, s.devices.monitor, s.devices.pic.pending⟩)
      (runAll (System.step (bootTables l tss kernelRelocatedStack g) l prog) events (c, s)) := by
  have happears : Appears (bootTables l tss kernelRelocatedStack g) reach
      (kernelRelocatedStack.toNat - (64 + depth)) kernelRelocatedStack.toNat
      ⟨c, s.devices.monitor, s.devices.pic.pending⟩ (c, s) :=
    ⟨⟨c.mem, rfl, OnlyIn.refl _ _ _⟩, hrun, hrest, rfl, rfl⟩
  have hview : Agrees (fun w' v' => w'.cpu = v'.cpu ∧ w'.monitor = v'.monitor)
      (fun e d => e = d ∧ ∃ message monitor, e = .panic message monitor)
      (runAll (View.step reach prog) events ⟨c, s.devices.monitor, s.devices.pic.pending⟩)
      (View.users reach prog (events.countP Event.isUser)
        ⟨c, s.devices.monitor, s.devices.pic.pending⟩) :=
    View.run_agrees (fun e he => (hevents e he).2) hpending rfl rfl
  have hkernel := schedule_refines hprog hroom (fun e he => (hevents e he).1) happears
  refine (hview.fork hkernel).mono ?_ ?_
  · rintro v sys ⟨w, ⟨hcpu, hmonitor⟩, happears⟩
    exact ⟨hcpu ▸ happears.cpu, happears.monitor.trans hmonitor⟩
  · rintro e stop ⟨e', ⟨rfl, message, monitor, rfl⟩, hends⟩
    cases hends with
    | panic h => exact ⟨message, _, h ▸ rfl, rfl⟩

/-- Between two ticks the devices cannot be told from silence: two schedules with the same number of
instructions leave the task and the console the same, whatever is raised and wherever it is served. -/
theorem schedule_invisible
    (hprog : Confined (bootTables l tss kernelRelocatedStack g)
      (kernelRelocatedStack.toNat - (64 + depth)) kernelRelocatedStack.toNat prog)
    (hroom : StackRoom kernelRelocatedStack depth)
    (hrun : Running (bootTables l tss kernelRelocatedStack g) c) (hrest : AtRest reach s)
    (hpending : s.devices.pic.pending 0 = false) {events events' : List Event}
    (hevents : ∀ e ∈ events, e.Ok depth ∧ e ≠ .raise 0)
    (hevents' : ∀ e ∈ events', e.Ok depth ∧ e ≠ .raise 0)
    (hcount : events'.countP Event.isUser = events.countP Event.isUser) :
    Agrees (fun sys sys' => SameTask (kernelRelocatedStack.toNat - (64 + depth))
          kernelRelocatedStack.toNat sys.1 sys'.1 ∧ sys'.2.devices.monitor = sys.2.devices.monitor)
      SamePanic
      (runAll (System.step (bootTables l tss kernelRelocatedStack g) l prog) events (c, s))
      (runAll (System.step (bootTables l tss kernelRelocatedStack g) l prog) events' (c, s)) := by
  have hfirst := run_agrees_users hprog hroom hrun hrest hpending hevents
  have hsecond := run_agrees_users hprog hroom hrun hrest hpending hevents'
  rw [hcount] at hsecond
  refine (hfirst.fork hsecond).mono ?_ ?_
  · rintro sys sys' ⟨v, ⟨⟨m, hm, honly⟩, hmonitor⟩, ⟨⟨m', hm', honly'⟩, hmonitor'⟩⟩
    refine ⟨⟨m', ?_, ?_⟩, hmonitor'.trans hmonitor.symm⟩
    · rw [hm, hm']
    · rw [hm]
      exact fun x hx => (honly' x hx).trans (honly x hx).symm
  · rintro stop stop' ⟨e, ⟨message, s₁, rfl, rfl⟩, ⟨message', s₂, hsame, rfl⟩⟩
    obtain ⟨rfl, hmonitor⟩ := Ending.panic.inj hsame
    exact .panic message hmonitor.symm

end Kernel

/-! ## A program -/

/-- A program that makes the empty system call, and then sets its `eax` back. -/
def nullCaller (c : Cpu) : UserStep :=
  if c.eax = 0 then .int isrSyscall else .plain { c with eax := 0 }

theorem nullCaller_confined (t : Tables) (lo hi : ℕ) : Confined t lo hi nullCaller where
  same c c' _ hsame := by
    obtain ⟨m, rfl, honly⟩ := hsame
    unfold nullCaller
    by_cases h : c.eax = 0
    · rw [if_pos h, if_pos h]
      exact .int isrSyscall
    · rw [if_neg h, if_neg h]
      exact .plain ⟨m, rfl, honly⟩
  running c c' hrun hstep := by
    unfold nullCaller at hstep
    by_cases h : c.eax = 0
    · rw [if_pos h] at hstep
      exact nomatch hstep
    · rw [if_neg h] at hstep
      obtain rfl := UserStep.plain.inj hstep
      exact ⟨hrun.ring, ⟨hrun.runnable.code, hrun.runnable.stack, hrun.runnable.data⟩, hrun.es, hrun.fs,
        hrun.gs⟩
  exception c c' v errorCode _ hstep := by
    unfold nullCaller at hstep
    split at hstep <;> exact nomatch hstep
  data c _ hstep hone := by
    unfold nullCaller at hstep
    rw [if_neg (by rw [hone]; decide)] at hstep
    exact nomatch hstep

/-- The image and the stack page of a task are mapped. -/
def taskReach : Reach :=
  ⟨fun a => a >>> 12 == 0x10000 || a >>> 12 == 0x10002 || a >>> 12 == 0xF0000, 0x100400⟩

/-- The kernel behind `init_idt`, with its handlers. -/
def restingIrq : IrqState := ⟨remapPic Devices.off, kernelHandlers, 0, taskReach⟩

theorem freshTask_running (l : Labels) (g : Gdt) (tss kernelRelocatedStack : BitVec 32) :
    Running (bootTables l tss kernelRelocatedStack g) freshTask :=
  ⟨rfl, runnable_of_task l g tss kernelRelocatedStack rfl rfl rfl, rfl, rfl, rfl⟩

/-- Two keys and a disk, or nothing at all. -/
theorem schedule_invisible_nullCaller :
    Agrees (fun sys sys' => SameTask ((0xD0010000 : Word).toNat - (64 + 200)) (0xD0010000 : Word).toNat
        sys.1 sys'.1 ∧ sys'.2.devices.monitor = sys.2.devices.monitor) SamePanic
      (runAll (System.step (bootTables stubsInRow 0 0xD0010000 Gdt.zero) stubsInRow nullCaller)
        [.raise 1, .user ⟨1, 2, 3, 4, 100, fun _ => 5⟩, .raise 14, .poll ⟨5, 4, 3, 2, 200, fun _ => 1⟩,
          .raise 1, .user ⟨1, 2, 3, 4, 100, fun _ => 5⟩] (freshTask, restingIrq))
      (runAll (System.step (bootTables stubsInRow 0 0xD0010000 Gdt.zero) stubsInRow nullCaller)
        [.user ⟨0, 0, 0, 0, 0, fun _ => 0⟩, .user ⟨0, 0, 0, 0, 0, fun _ => 0⟩] (freshTask, restingIrq)) :=
  schedule_invisible (nullCaller_confined _ _ _) ⟨by decide, by decide⟩ (freshTask_running _ _ _ _)
    ⟨rfl, rfl, remapPic_quiet _⟩ rfl (by simp [Event.Ok]) (by simp [Event.Ok]) rfl

/-! ## Faults -/

section Faults
variable {l : Labels} {g : Gdt} {tss kernelRelocatedStack : BitVec 32} {depth : ℕ} {reach : Reach}
  {prog : Cpu → UserStep} {c : Cpu} {s : IrqState} {v : ℕ} {errorCode : Option Word}

theorem users_fault (hfault : prog c = .exception c v errorCode) (h13 : v ≠ 13) (n : ℕ) (m : Monitor)
    (pending : ℕ → Bool) :
    View.users reach prog n ⟨c, m, pending⟩ =
      .ok ⟨c, putAll (List.replicate n (announceText v)).flatten m, pending⟩ := by
  induction n generalizing m with
  | zero => rfl
  | succ n ih =>
    have hstep : View.user reach prog ⟨c, m, pending⟩ = .ok ⟨c, putAll (announceText v) m, pending⟩ := by
      unfold View.user
      dsimp only
      rw [hfault]
      exact if_neg h13
    rw [View.users, hstep]
    dsimp only
    rw [ih, List.replicate_succ, List.flatten_cons, putAll_append]

/-- A task at an instruction that faults stays there: each time the message is printed once more,
whatever the devices do. -/
theorem fault_repeats
    (hprog : Confined (bootTables l tss kernelRelocatedStack g)
      (kernelRelocatedStack.toNat - (64 + depth)) kernelRelocatedStack.toNat prog)
    (hroom : StackRoom kernelRelocatedStack depth)
    (hrun : Running (bootTables l tss kernelRelocatedStack g) c) (hrest : AtRest reach s)
    (hpending : s.devices.pic.pending 0 = false) (hfault : prog c = .exception c v errorCode)
    (h13 : v ≠ 13) {events : List Event} (hevents : ∀ e ∈ events, e.Ok depth ∧ e ≠ .raise 0) :
    ∃ sys, runAll (System.step (bootTables l tss kernelRelocatedStack g) l prog) events (c, s) = .ok sys ∧
      SameTask (kernelRelocatedStack.toNat - (64 + depth)) kernelRelocatedStack.toNat c sys.1 ∧
      sys.2.devices.monitor = putAll
        (List.replicate (events.countP Event.isUser) (announceText v)).flatten s.devices.monitor := by
  have hagrees := run_agrees_users hprog hroom hrun hrest hpending hevents
  rw [users_fault hfault h13] at hagrees
  generalize runAll (System.step (bootTables l tss kernelRelocatedStack g) l prog) events (c, s) =
    result at hagrees ⊢
  cases hagrees with
  | ok h => exact ⟨_, rfl, h⟩

/-- A program that divides by zero. -/
def divider (c : Cpu) : UserStep := .exception c 0 none

theorem divider_confined (t : Tables) (lo hi : ℕ) : Confined t lo hi divider where
  same _ _ _ hsame := .exception 0 none hsame
  running _ _ _ hstep := nomatch hstep
  exception c c' v errorCode hrun hstep := by
    obtain ⟨rfl, rfl, rfl⟩ := UserStep.exception.inj hstep
    exact ⟨hrun, by decide, by decide, rfl⟩
  data _ _ hstep := nomatch hstep

theorem fault_repeats_divider :
    ∃ sys, runAll (System.step (bootTables stubsInRow 0 0xD0010000 Gdt.zero) stubsInRow divider)
        [.user ⟨1, 2, 3, 4, 100, fun _ => 5⟩, .raise 9, .poll ⟨5, 4, 3, 2, 200, fun _ => 1⟩,
          .user ⟨1, 2, 3, 4, 100, fun _ => 5⟩] (freshTask, restingIrq) = .ok sys ∧
      SameTask ((0xD0010000 : Word).toNat - (64 + 200)) (0xD0010000 : Word).toNat freshTask sys.1 ∧
      sys.2.devices.monitor = putAll (List.replicate 2 (announceText 0)).flatten
        restingIrq.devices.monitor :=
  fault_repeats (divider_confined _ _ _) ⟨by decide, by decide⟩ (freshTask_running _ _ _ _)
    ⟨rfl, rfl, remapPic_quiet _⟩ rfl rfl (by decide) (by simp [Event.Ok])

end Faults

end Evos
