import Evos.Interrupt.Dispatch

/-! # A task is interrupted

Whatever interrupts a task is followed through gate, stub and handler, with the tables the kernel
sets up. What returns finds its registers as they were, but for `eax` where the handler changes it,
and the segment registers, which all become its `ds`. -/

namespace Evos
open Processor ByteMemory InterruptController
set_option autoImplicit false

/-! ## The message of a page fault -/

/-- `"Page-fault: page %spresent; failed on %s in %s-mode at 0x%08x\n"`. -/
def pageFaultPieces : List Piece :=
  [.text (literal "Page-fault: page "), .string [] 0, .text (literal "present; failed on "),
    .string [] 0, .text (literal " in "), .string [] 0, .text (literal "-mode at 0x"),
    .number [ch '0'] 8 (ch 'x'), .text (literal "\n")]

def pageFaultArgs (errCode cr2 : BitVec 32) : List PrintArg :=
  [.str (literal (if errCode.getLsbD 0 then "" else "NOT ")),
    .str (literal (if errCode.getLsbD 1 then "write" else "read")),
    .str (literal (if errCode.getLsbD 2 then "user" else "kernel")), .word cr2]

/-- `"At eip=%p\n"`. -/
def atEipPieces : List Piece := [.text (literal "At eip="), .pointer, .text (literal "\n")]

/-- What `page_fault_handler` prints. -/
def pageFaultText (errCode cr2 eip : BitVec 32) : List (BitVec 8) :=
  printedText (argStrings (pageFaultArgs errCode cr2)) pageFaultPieces
      (argWords (pageFaultArgs errCode cr2)) ++
    (if errCode.getLsbD 3 then literal "Also trampled reserved bits\n" else []) ++
    (if errCode.getLsbD 4 then literal "Error occurred during op-fetch\n" else []) ++
    printedText (argStrings [.word eip]) atEipPieces (argWords [.word eip])

theorem print_pageFault (errCode cr2 : BitVec 32) (s : IrqState) :
    s.print "Page-fault: page %spresent; failed on %s in %s-mode at 0x%08x\n"
      (pageFaultArgs errCode cr2) =
    .ok (s.showing (printedText (argStrings (pageFaultArgs errCode cr2)) pageFaultPieces
      (argWords (pageFaultArgs errCode cr2)))) := by
  have hwords : ∀ w ∈ ["", "NOT ", "write", "read", "user", "kernel"],
      (literal w).length ≤ 6 ∧ 0 ∉ literal w := by decide
  have hchosen (bit : Bool) {yes no : String}
      (hyes : yes ∈ ["", "NOT ", "write", "read", "user", "kernel"])
      (hno : no ∈ ["", "NOT ", "write", "read", "user", "kernel"]) :
      (literal (if bit then yes else no)).length ≤ 6 ∧ 0 ∉ literal (if bit then yes else no) := by
    cases bit with
    | true => exact hwords yes hyes
    | false => exact hwords no hno
  have hfits : (pageFaultPieces.map (Piece.most 6)).sum < sizeofBuf := by decide
  have hok : ∀ p ∈ pageFaultPieces, p.Ok := by decide +kernel
  refine IrqState.print_message (pageFaultArgs errCode cr2) pageFaultPieces rfl hok
    (by unfold pageFaultPieces; simp [Piece.NoChar]) (by decide) (fun str hstr => ?_) hfits s
  simp only [pageFaultArgs, List.mem_cons, List.not_mem_nil, or_false, reduceCtorEq,
    PrintArg.str.injEq] at hstr
  rcases hstr with rfl | rfl | rfl
  · exact hchosen _ (by decide) (by decide)
  · exact hchosen _ (by decide) (by decide)
  · exact hchosen _ (by decide) (by decide)

theorem print_atEip (eip : BitVec 32) (s : IrqState) :
    s.print "At eip=%p\n" [.word eip] =
      .ok (s.showing (printedText (argStrings [.word eip]) atEipPieces (argWords [.word eip]))) :=
  IrqState.print_message [.word eip] atEipPieces (by decide) (by decide)
    (by unfold atEipPieces; simp [Piece.NoChar]) (show 0 < 2 ^ 31 by decide)
    (fun str hstr => by
      simp only [List.mem_cons, List.not_mem_nil, or_false, reduceCtorEq] at hstr) (by decide) s

theorem print_if {fmt : String} (hfmt : (literal fmt).all (fun c => c ≠ 0 ∧ c ≠ ch '%') = true)
    (hfits : (literal fmt).length < sizeofBuf) (bit : Bool) (s : IrqState) :
    (if bit then s.print fmt [] else .ok s) =
      .ok (s.showing (if bit then literal fmt else [])) := by
  cases bit with
  | true => exact IrqState.print_text hfmt hfits s
  | false => rfl

theorem pageFaultHandler_eq {regs : Registers} {errCode eip : BitVec 32}
    (herr : regs.errCode = errCode.toNat) (heip : regs.eip = eip.toNat) (s : IrqState) :
    pageFaultHandler regs s =
      .error (.panic "Page fault!" (s.showing (pageFaultText errCode s.cr2 eip))) := by
  have herr' : BitVec.ofNat 32 regs.errCode = errCode := by rw [herr, ofNat_toNat_word]
  have heip' : BitVec.ofNat 32 regs.eip = eip := by rw [heip, ofNat_toNat_word]
  have hfirst := print_pageFault errCode s.cr2 s
  unfold pageFaultArgs at hfirst
  unfold pageFaultHandler
  dsimp only
  rw [herr', heip', hfirst]
  dsimp only
  rw [print_if (by decide) (by decide)]
  dsimp only
  rw [print_if (by decide) (by decide)]
  dsimp only
  rw [print_atEip]
  dsimp only
  unfold pageFaultText pageFaultArgs
  rw [IrqState.showing_append, IrqState.showing_append, IrqState.showing_append]

theorem readFault_eq (address : BitVec 32) (s : IrqState) :
    readFault address s = .error (.panic "Page fault!"
      ({ s with cr2 := address }.showing (pageFaultText 0 address s.reach.readAt))) := by
  have herr : (0 : BitVec 32).toNat = 0 := rfl
  unfold readFault
  rw [pageFaultHandler_eq herr.symm rfl]

/-! ## The stack of the kernel -/

/-- The stack of the kernel has room for the frame of a task and for what is called. -/
structure StackRoom (kernelRelocatedStack : BitVec 32) (depth : ℕ) : Prop where
  below : 64 + depth ≤ kernelRelocatedStack.toNat
  above : kernelRelocatedStack.toNat + 8 ≤ 2 ^ 32

section Task
variable {l : Labels} {left : Leftover} {c : Cpu} {g : Gdt} {tss kernelRelocatedStack : BitVec 32}
  {s s' : IrqState} {v : ℕ} {software : Bool} {errorCode : Option Word}

theorem onStack_of_task (hring : c.cpl = 3) :
    (c.onStack (bootTables l tss kernelRelocatedStack g)).esp = kernelRelocatedStack := by
  unfold Cpu.onStack
  rw [if_neg (by omega)]
  rfl

theorem room_of_task (l : Labels) (g : Gdt) (tss : BitVec 32) (hring : c.cpl = 3)
    (hroom : StackRoom kernelRelocatedStack left.depth) :
    Room (bootTables l tss kernelRelocatedStack g) left c := by
  have hesp : (c.onStack (bootTables l tss kernelRelocatedStack g)).esp = kernelRelocatedStack :=
    onStack_of_task hring
  refine ⟨?_, ?_⟩
  · rw [hesp]
    exact hroom.below
  · rw [hesp]
    exact hroom.above

theorem mem_of_task (l : Labels) (g : Gdt) (tss : BitVec 32) (v : ℕ) (errorCode : Option Word)
    (hring : c.cpl = 3) (hroom : StackRoom kernelRelocatedStack left.depth) :
    OnlyIn (kernelRelocatedStack.toNat - 64) kernelRelocatedStack.toNat c.mem
      (atCall (bootTables l tss kernelRelocatedStack g) l v errorCode c).mem := by
  have hesp : (c.onStack (bootTables l tss kernelRelocatedStack g)).esp = kernelRelocatedStack :=
    onStack_of_task hring
  have hmem := mem_atCall l v errorCode (room_of_task l g tss hring hroom)
  rw [hesp] at hmem
  exact hmem

theorem withGeneral_frameOf (t : Tables) (v : ℕ) (errorCode : Option Word) (c : Cpu) (eax : Word)
    (segments : Selector) (m : Mem) :
    withGeneral { c with es := segments, fs := segments, gs := segments, mem := m }
        { frameOf t v errorCode c with eax := eax.toNat } =
      { c with eax := eax, es := segments, fs := segments, gs := segments, mem := m } := by
  unfold withGeneral frameOf
  dsimp only
  simp only [ofNat_toNat_word]

theorem delivered_of_task (eax : Word) (hv : HasEntry v)
    (hpriv : software = true → c.cpl ≤ ((bootTables l tss kernelRelocatedStack g).gates v).dpl)
    (hmatch : errorCode.isSome = decide (v ∈ errCodeVectors))
    (hrun : Runnable (bootTables l tss kernelRelocatedStack g) c) (hring : c.cpl = 3)
    (hroom : StackRoom kernelRelocatedStack left.depth)
    (hhandler : commonHandler (handlerOf v)
      (atCall (bootTables l tss kernelRelocatedStack g) l v errorCode c).mem
      (frameOf (bootTables l tss kernelRelocatedStack g) v errorCode c) s =
      .ok ({ frameOf (bootTables l tss kernelRelocatedStack g) v errorCode c with
        eax := eax.toNat }, s')) :
    ∃ m', interrupt (bootTables l tss kernelRelocatedStack g) l commonHandler left v software
        errorCode c s = .ok ({ c with eax := eax, es := c.ds, fs := c.ds, gs := c.ds, mem := m' }, s') ∧
      OnlyIn (kernelRelocatedStack.toNat - (64 + left.depth)) kernelRelocatedStack.toNat c.mem m' := by
  have hesp : (c.onStack (bootTables l tss kernelRelocatedStack g)).esp = kernelRelocatedStack :=
    onStack_of_task hring
  obtain ⟨m', hreturn, honly⟩ := interrupt_returns (bootTables_serves l tss kernelRelocatedStack g)
    hv hpriv (room_of_task l g tss hring hroom) hmatch hrun hhandler ⟨rfl, rfl, rfl, rfl, rfl, rfl⟩
  rw [hesp] at honly
  refine ⟨m', ?_, honly⟩
  rw [hreturn, withGeneral_frameOf]

theorem stopped_of_task (hv : HasEntry v)
    (hpriv : software = true → c.cpl ≤ ((bootTables l tss kernelRelocatedStack g).gates v).dpl)
    (hmatch : errorCode.isSome = decide (v ∈ errCodeVectors)) (hring : c.cpl = 3)
    (hroom : StackRoom kernelRelocatedStack left.depth) {halt : Halt}
    (hhandler : commonHandler (handlerOf v)
      (atCall (bootTables l tss kernelRelocatedStack g) l v errorCode c).mem
      (frameOf (bootTables l tss kernelRelocatedStack g) v errorCode c) s = .error halt) :
    interrupt (bootTables l tss kernelRelocatedStack g) l commonHandler left v software errorCode c s =
      .error (.callee halt) :=
  interrupt_stops (bootTables_serves l tss kernelRelocatedStack g) hv hpriv
    (room_of_task l g tss hring hroom) hmatch hhandler

/-- What comes from outside a program does not look at the privilege of the gate. -/
theorem hardware_priv {p : Prop} : false = true → p := fun h => Bool.noConfusion h

/-! ## Exceptions -/

/-- An exception of a task without a handler is announced, and the task goes on where it was: at the
same instruction, if that is what the processor reports. -/
theorem exception_of_task (hv : v < 20) (h13 : v ≠ 13) (hnone : s.interruptHandlers v = none)
    (hmatch : errorCode.isSome = decide (v ∈ errCodeVectors))
    (hrun : Runnable (bootTables l tss kernelRelocatedStack g) c) (hring : c.cpl = 3)
    (hroom : StackRoom kernelRelocatedStack left.depth) :
    ∃ m', interrupt (bootTables l tss kernelRelocatedStack g) l commonHandler left v false
        errorCode c s =
        .ok ({ c with es := c.ds, fs := c.ds, gs := c.ds, mem := m' }, s.showing (announceText v)) ∧
      OnlyIn (kernelRelocatedStack.toNat - (64 + left.depth)) kernelRelocatedStack.toNat c.mem m' := by
  have hlow : handlerOf v = .isrCommonHandler := if_neg fun h => by omega
  have hcall : isrCommonHandler
      (atCall (bootTables l tss kernelRelocatedStack g) l v errorCode c).mem
      (frameOf (bootTables l tss kernelRelocatedStack g) v errorCode c) s = _ :=
    isrCommonHandler_none hnone hv
  have hno : (frameOf (bootTables l tss kernelRelocatedStack g) v errorCode c).intNo ≠ 13 := h13
  rw [if_neg hno] at hcall
  refine delivered_of_task c.eax (Or.inl (by omega)) hardware_priv hmatch hrun hring hroom ?_
  rw [hlow]
  exact hcall

/-- A protection fault of a task ends in a panic, as nothing is registered for it. -/
theorem protectionFault_of_task (code : Word) (hnone : s.interruptHandlers 13 = none)
    (hring : c.cpl = 3) (hroom : StackRoom kernelRelocatedStack left.depth) :
    interrupt (bootTables l tss kernelRelocatedStack g) l commonHandler left 13 false (some code) c s =
      .error (.callee (.panic "General protection fault :("
        (s.showing (literal "Received interrupt 13: General protection fault\n")))) := by
  have hcall : isrCommonHandler
      (atCall (bootTables l tss kernelRelocatedStack g) l 13 (some code) c).mem
      (frameOf (bootTables l tss kernelRelocatedStack g) 13 (some code) c) s = _ :=
    isrCommonHandler_none hnone (show 13 < 20 by decide)
  have hno : (frameOf (bootTables l tss kernelRelocatedStack g) 13 (some code) c).intNo = 13 := rfl
  rw [if_pos hno, announceText_13] at hcall
  exact stopped_of_task (Or.inl (by decide)) hardware_priv rfl hring hroom hcall

theorem pageFault_of_task (code : Word) (hregistered : s.interruptHandlers 14 = some .pageFaultHandler)
    (hring : c.cpl = 3) (hroom : StackRoom kernelRelocatedStack left.depth) :
    interrupt (bootTables l tss kernelRelocatedStack g) l commonHandler left 14 false (some code) c s =
      .error (.callee (.panic "Page fault!" (s.showing (pageFaultText code s.cr2 c.eip)))) := by
  have hcall : isrCommonHandler
      (atCall (bootTables l tss kernelRelocatedStack g) l 14 (some code) c).mem
      (frameOf (bootTables l tss kernelRelocatedStack g) 14 (some code) c) s =
      .error (.panic "Page fault!" (s.showing (pageFaultText code s.cr2 c.eip))) := by
    have hno : (frameOf (bootTables l tss kernelRelocatedStack g) 14 (some code) c).intNo = 14 := rfl
    unfold isrCommonHandler
    rw [hno, hregistered]
    dsimp only
    unfold callIsr
    dsimp only
    rw [pageFaultHandler_eq rfl rfl]
    rfl
  exact stopped_of_task (Or.inl (by decide)) hardware_priv rfl hring hroom hcall

/-! ## Lines -/

theorem not_mem_errCodeVectors (hv : 20 ≤ v) : v ∉ errCodeVectors := by
  have hall : ∀ n ∈ errCodeVectors, n < 20 := by decide
  exact fun hmem => absurd (hall v hmem) (by omega)

theorem irq_of_task (hlow : 32 ≤ v) (hhigh : v < 48) (hnone : s.interruptHandlers v = none)
    (hrun : Runnable (bootTables l tss kernelRelocatedStack g) c) (hring : c.cpl = 3)
    (hroom : StackRoom kernelRelocatedStack left.depth) :
    ∃ m', interrupt (bootTables l tss kernelRelocatedStack g) l commonHandler left v false none c s =
        .ok ({ c with es := c.ds, fs := c.ds, gs := c.ds, mem := m' },
          { s with devices := irqEoi v s.devices }) ∧
      OnlyIn (kernelRelocatedStack.toNat - (64 + left.depth)) kernelRelocatedStack.toNat c.mem m' := by
  have hirq : handlerOf v = .irqCommonHandler := if_pos ⟨hlow, hhigh⟩
  have hmatch : (none : Option Word).isSome = decide (v ∈ errCodeVectors) :=
    (decide_eq_false (not_mem_errCodeVectors (by omega))).symm
  refine delivered_of_task c.eax (Or.inl hhigh) hardware_priv hmatch hrun hring hroom ?_
  rw [hirq]
  exact irqCommonHandler_none hnone

/-- The timer: the controllers are told, and the task does not come back. -/
theorem timer_of_task (hregistered : s.interruptHandlers 32 = some .timerCallback)
    (hring : c.cpl = 3) (hroom : StackRoom kernelRelocatedStack left.depth) :
    interrupt (bootTables l tss kernelRelocatedStack g) l commonHandler left 32 false none c s =
      .error (.callee (.switched { s with devices := taskSwitchEoi s.devices })) := by
  have hcall : irqCommonHandler
      (atCall (bootTables l tss kernelRelocatedStack g) l 32 none c).mem
      (frameOf (bootTables l tss kernelRelocatedStack g) 32 none c) s =
      .error (.switched { s with devices := taskSwitchEoi s.devices }) := by
    have hno : (frameOf (bootTables l tss kernelRelocatedStack g) 32 none c).intNo = 32 := rfl
    unfold irqCommonHandler
    rw [hno, hregistered]
    rfl
  exact stopped_of_task (Or.inl (by decide)) hardware_priv rfl hring hroom hcall

end Task

end Evos
