import Evos.Interrupt.Frame
import Evos.Interrupt.Ports

/-! # The functions called from the stubs

`isr_common_handler` and `irq_common_handler` look the vector up in `interrupt_handlers`. Three
functions are ever registered there; `timer_callback` ends in `task_switch`, which does not return, and
`page_fault_handler` in a panic. -/

namespace Evos
open Processor ByteMemory InterruptController
set_option autoImplicit false

/-! ## State -/

/-- The functions registered with `isr_register_handler`. -/
inductive IsrHandler where
  | pageFaultHandler
  | timerCallback
  | syscallHandler
  deriving DecidableEq

/-- What `tty_write` can read. -/
structure Reach where
  /-- Whether the directory that is loaded maps an address. -/
  mapped : BitVec 32 → Bool
  /-- The instruction that reads a character. -/
  readAt : BitVec 32

/-- What the handlers work on. -/
structure IrqState where
  devices : Devices
  interruptHandlers : ℕ → Option IsrHandler
  /-- The address of the last page fault. -/
  cr2 : BitVec 32
  reach : Reach

/-- Why a handler does not return. -/
inductive Halt where
  /-- `panic(message)`. -/
  | panic (message : String) (s : IrqState)
  /-- `task_switch` has left for a task. -/
  | switched (s : IrqState)
  | print (p : PrintStop)
  /-- A read behind the end of an array. -/
  | wildRead
  | divideByZero

def isrRegisterHandler (intNo : ℕ) (handler : IsrHandler) (s : IrqState) : IrqState :=
  { s with interruptHandlers := Function.update s.interruptHandlers intNo (some handler) }

/-- `printk`. -/
def IrqState.print (fmt : String) (as : List PrintArg) (s : IrqState) : Except Halt IrqState :=
  match printkArgs fmt as s.devices.monitor with
  | .error p => .error (.print p)
  | .ok m => .ok { s with devices := { s.devices with monitor := m } }

/-! ## Page faults -/

/-- `page_fault_handler`, up to its panic: a message for each thing the error code says. -/
def pageFaultHandler (regs : Registers) (s : IrqState) : Except Halt (Registers × IrqState) :=
  let errCode := BitVec.ofNat 32 regs.errCode
  let choose (bit : ℕ) (yes no : String) : PrintArg :=
    .str (literal (if errCode.getLsbD bit then yes else no))
  match s.print "Page-fault: page %spresent; failed on %s in %s-mode at 0x%08x\n"
      [choose 0 "" "NOT ", choose 1 "write" "read", choose 2 "user" "kernel", .word s.cr2] with
  | .error h => .error h
  | .ok s =>
  match if errCode.getLsbD 3 then s.print "Also trampled reserved bits\n" [] else .ok s with
  | .error h => .error h
  | .ok s =>
  match if errCode.getLsbD 4 then s.print "Error occurred during op-fetch\n" [] else .ok s with
  | .error h => .error h
  | .ok s =>
  match s.print "At eip=%p\n" [.word (BitVec.ofNat 32 regs.eip)] with
  | .error h => .error h
  | .ok s => .error (.panic "Page fault!" s)

/-- A page fault of the kernel at the instruction that reads a character: nothing is mapped there.
The handler of `init_paging` is registered before there is a task. -/
def readFault (address : BitVec 32) (s : IrqState) : Except Halt IrqState :=
  match pageFaultHandler { Registers.zero with
      intNo := 14, errCode := 0, eip := s.reach.readAt.toNat } { s with cr2 := address } with
  | .error h => .error h
  | .ok (_, s) => .ok s

/-! ## The system calls -/

/-- The loop of `tty_write`, `n` characters of it. -/
def ttyWriteLoop (m : Mem) : ℕ → BitVec 32 → IrqState → Except Halt IrqState
  | 0, _, s => .ok s
  | n + 1, data, s =>
    if s.reach.mapped data then
      match s.print "%c" [.word ((m data.toNat).toBitVec.signExtend 32)] with
      | .error h => .error h
      | .ok s => ttyWriteLoop m n (data + 1) s
    else readFault data s

/-- `tty_write`. The counter is an `int` but is compared as the unsigned count is. -/
def ttyWrite (m : Mem) (data count : BitVec 32) (s : IrqState) : Except Halt (BitVec 32 × IrqState) :=
  match ttyWriteLoop m count.toNat data s with
  | .error h => .error h
  | .ok s => .ok (count, s)

def nullSyscall (s : IrqState) : Except Halt (BitVec 32 × IrqState) :=
  match s.print "Null syscall\n" [] with
  | .error h => .error h
  | .ok s => .ok (-1, s)

def numSyscalls : ℕ := 2

/-- `syscall_handler`. All five registers are pushed for the function; none takes more than two. -/
def syscallHandler (m : Mem) (regs : Registers) (s : IrqState) : Except Halt (Registers × IrqState) :=
  if numSyscalls ≤ regs.eax then
    match s.print "Invalid syscall! Returning.\n" [] with
    | .error h => .error h
    | .ok s => .ok ({ regs with eax := (-1 : BitVec 32).toNat }, s)
  else
    let result :=
      if regs.eax = 0 then nullSyscall s
      else ttyWrite m (BitVec.ofNat 32 regs.ebx) (BitVec.ofNat 32 regs.ecx) s
    match result with
    | .error h => .error h
    | .ok (eax, s) => .ok ({ regs with eax := eax.toNat }, s)

/-! ## The other handlers -/

/-- `timer_callback`: `task_switch` tells the controllers and leaves. -/
def timerCallback (s : IrqState) : Except Halt (Registers × IrqState) :=
  .error (.switched { s with devices := taskSwitchEoi s.devices })

/-- `handler(&regs)`. -/
def callIsr (m : Mem) (regs : Registers) (s : IrqState) : IsrHandler → Except Halt (Registers × IrqState)
  | .pageFaultHandler => pageFaultHandler regs s
  | .timerCallback => timerCallback s
  | .syscallHandler => syscallHandler m regs s

/-! ## The common handlers -/

/-- `interrupt_name`, with its null pointer at the end. -/
def interruptName : List (Option String) :=
  [some "Division by zero", some "Single-step/debug exception", some "Non-maskable interrupt",
    some "Breakpoint", some "Detected overflow (INTO)", some "Bounds check failed (BOUND)",
    some "Invalid opcode", some "Coprocessor not available", some "Double fault",
    some "Coprocessor segment overrun", some "Invalid TSS", some "Segment not present",
    some "Stack fault", some "General protection fault", some "Page fault", some "(reserved)",
    some "Coprocessor fault", some "Alignment check exception", some "Machine check exception", none]

def defaultInterruptName : String := "unknown"

/-- The message for a vector without a handler. -/
def announce (intNo : ℕ) (s : IrqState) : Except Halt IrqState :=
  match interruptName[intNo]? with
  | none => .error .wildRead
  | some name =>
    s.print "Received interrupt %d: %s\n"
      [.word (BitVec.ofNat 32 intNo), .str (literal (name.getD defaultInterruptName))]

def isrCommonHandler (m : Mem) (regs : Registers) (s : IrqState) :
    Except Halt (Registers × IrqState) :=
  let handled :=
    match s.interruptHandlers regs.intNo with
    | some handler => callIsr m regs s handler
    | none =>
      match announce regs.intNo s with
      | .error h => .error h
      | .ok s => .ok (regs, s)
  match handled with
  | .error h => .error h
  | .ok (regs, s) =>
    if regs.intNo = 13 then .error (.panic "General protection fault :(" s) else .ok (regs, s)

def irqCommonHandler (m : Mem) (regs : Registers) (s : IrqState) :
    Except Halt (Registers × IrqState) :=
  let handled :=
    match s.interruptHandlers regs.intNo with
    | some handler => callIsr m regs s handler
    | none => .ok (regs, s)
  match handled with
  | .error h => .error h
  | .ok (regs, s) => .ok (regs, { s with devices := irqEoi regs.intNo s.devices })

/-- The two functions, as the stubs call them. -/
def commonHandler : CHandler → Mem → Registers → IrqState → Except Halt (Registers × IrqState)
  | .isrCommonHandler => isrCommonHandler
  | .irqCommonHandler => irqCommonHandler

/-! ## What is printed -/

/-- The state once a text is on the console. -/
def IrqState.showing (text : List (BitVec 8)) (s : IrqState) : IrqState :=
  { s with devices := { s.devices with monitor := putAll text s.devices.monitor } }

theorem IrqState.showing_nil (s : IrqState) : s.showing [] = s := rfl

theorem IrqState.showing_append (first second : List (BitVec 8)) (s : IrqState) :
    s.showing (first ++ second) = (s.showing first).showing second := by
  unfold IrqState.showing
  rw [putAll_append]

theorem showing_monitor {s : IrqState} {monitor : Monitor} (h : s.devices.monitor = monitor)
    (text : List (BitVec 8)) : (s.showing text).devices.monitor = putAll text monitor := by
  rw [← h]
  rfl

theorem IrqState.print_text {fmt : String}
    (hfmt : (literal fmt).all (fun c => c ≠ 0 ∧ c ≠ ch '%') = true)
    (hfits : (literal fmt).length < sizeofBuf) (s : IrqState) :
    s.print fmt [] = .ok (s.showing (literal fmt)) := by
  have hcs : ∀ c ∈ literal fmt, c ≠ 0 ∧ c ≠ ch '%' := fun c hc =>
    of_decide_eq_true (List.all_eq_true.mp hfmt c hc)
  unfold IrqState.print printkArgs
  rw [printk_text hcs hfits]
  rfl

theorem IrqState.print_pieces {fmt : String} (as : List PrintArg) (ps : List Piece)
    (hfmt : literal fmt = formatOf ps) (hps : ∀ p ∈ ps, p.Ok)
    (hstrings : ∀ x, (argStrings as x).length < 2 ^ 31)
    (hfits : (printedText (argStrings as) ps (argWords as)).length < sizeofBuf)
    (hnul : 0 ∉ printedText (argStrings as) ps (argWords as)) (s : IrqState) :
    s.print fmt as = .ok (s.showing (printedText (argStrings as) ps (argWords as))) := by
  unfold IrqState.print printkArgs
  rw [hfmt, printk_pieces ps hps hstrings hfits, takeWhile_terminated hnul]
  rfl

theorem length_argStrings_le {as : List PrintArg} {n : ℕ}
    (h : ∀ str, .str str ∈ as → str.length ≤ n ∧ 0 ∉ str) (x : BitVec 32) :
    (argStrings as x).length ≤ n ∧ 0 ∉ argStrings as x := by
  unfold argStrings
  split
  · rename_i str hstr
    exact h str (List.mem_of_getElem? hstr)
  · exact ⟨Nat.zero_le n, List.not_mem_nil⟩

theorem IrqState.print_message {fmt : String} (as : List PrintArg) (ps : List Piece)
    (hfmt : literal fmt = formatOf ps) (hps : ∀ p ∈ ps, p.Ok) (hchar : ∀ p ∈ ps, p.NoChar) {n : ℕ}
    (hn : n < 2 ^ 31) (hstrings : ∀ str, .str str ∈ as → str.length ≤ n ∧ 0 ∉ str)
    (hfits : (ps.map (Piece.most n)).sum < sizeofBuf) (s : IrqState) :
    s.print fmt as = .ok (s.showing (printedText (argStrings as) ps (argWords as))) := by
  have hlength := length_printedText_le (fun x => (length_argStrings_le hstrings x).1) ps (argWords as)
  exact IrqState.print_pieces as ps hfmt hps
    (fun x => (length_argStrings_le hstrings x).1.trans_lt hn) (hlength.trans_lt hfits)
    (zero_not_mem_printedText hps hchar (fun x => (length_argStrings_le hstrings x).2) _) s

/-! ## Vectors without a handler -/

/-- `"Received interrupt %d: %s\n"`. -/
def announcePieces : List Piece :=
  [.text (literal "Received interrupt "), .number [] 0 (ch 'd'), .text (literal ": "), .string [] 0,
    .text (literal "\n")]

/-- The name that is printed for a vector. -/
def nameOf (intNo : ℕ) : String := ((interruptName[intNo]?).getD none).getD defaultInterruptName

def announceArgs (intNo : ℕ) : List PrintArg :=
  [.word (BitVec.ofNat 32 intNo), .str (literal (nameOf intNo))]

/-- The message for a vector without a handler. -/
def announceText (intNo : ℕ) : List (BitVec 8) :=
  printedText (argStrings (announceArgs intNo)) announcePieces (argWords (announceArgs intNo))

theorem announceText_13 :
    announceText 13 = literal "Received interrupt 13: General protection fault\n" := by
  decide +kernel

theorem announce_eq {intNo : ℕ} (h : intNo < 20) (s : IrqState) :
    announce intNo s = .ok (s.showing (announceText intNo)) := by
  have hall : ∀ n < 20, (literal (nameOf n)).length ≤ 40 ∧ 0 ∉ literal (nameOf n) := by decide
  have hlt : intNo < interruptName.length := h
  have hget : interruptName[intNo]? = some interruptName[intNo] := List.getElem?_eq_getElem hlt
  have hname : interruptName[intNo].getD defaultInterruptName = nameOf intNo := by
    unfold nameOf
    rw [hget]
    rfl
  have hstrings : ∀ str, .str str ∈ announceArgs intNo → str.length ≤ 40 ∧ 0 ∉ str := by
    intro str hstr
    simp only [announceArgs, List.mem_cons, List.not_mem_nil, or_false, reduceCtorEq, false_or,
      PrintArg.str.injEq] at hstr
    rw [hstr]
    exact hall intNo h
  unfold announce
  rw [hget]
  dsimp only
  rw [hname]
  exact IrqState.print_message (announceArgs intNo) announcePieces (by decide) (by decide)
    (by unfold announcePieces; simp [Piece.NoChar]) (by decide) hstrings (by decide) s

variable {m : Mem} {regs : Registers} {s : IrqState}

/-- An exception without a handler is announced; the kernel goes on, but for a protection fault. -/
theorem isrCommonHandler_none (hnone : s.interruptHandlers regs.intNo = none)
    (h : regs.intNo < 20) :
    isrCommonHandler m regs s =
      if regs.intNo = 13 then
        .error (.panic "General protection fault :(" (s.showing (announceText 13)))
      else .ok (regs, s.showing (announceText regs.intNo)) := by
  unfold isrCommonHandler
  rw [hnone, announce_eq h]
  dsimp only
  by_cases h13 : regs.intNo = 13
  · rw [if_pos h13, if_pos h13, h13]
  · rw [if_neg h13, if_neg h13]

theorem irqCommonHandler_none (hnone : s.interruptHandlers regs.intNo = none) :
    irqCommonHandler m regs s = .ok (regs, { s with devices := irqEoi regs.intNo s.devices }) := by
  unfold irqCommonHandler
  rw [hnone]

end Evos
