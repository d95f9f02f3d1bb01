import Evos.Interrupt.Idt
import Evos.Task.Table

/-! # `idt_asm.s`: the stubs

Each vector has a stub that pushes what the processor did not, saves the registers, calls a C function
and puts everything back. The C function finds a `registers_t` at the top of the stack: it is the
interrupted program, and what the function leaves there is what the program goes on with. -/

namespace Evos
open Processor ByteMemory
set_option autoImplicit false

/-! ## The stubs -/

/-- The functions called from the stubs. -/
inductive CHandler where
  | isrCommonHandler
  | irqCommonHandler
  deriving DecidableEq

/-- A common stub up to its call. -/
def stubEntry : List Instr :=
  [.pusha, .movAxDs, .pushEax, .movAx 0x10, .movSegment .ds, .movSegment .es, .movSegment .fs,
    .movSegment .gs]

/-- A common stub from its call on. -/
def stubExit : List Instr :=
  [.popEax, .movSegment .ds, .movSegment .es, .movSegment .fs, .movSegment .gs, .popa, .addEsp 8, .sti,
    .iret]

def commonStub (f : CHandler) : List (Step CHandler) :=
  stubEntry.map .exec ++ .call f :: stubExit.map .exec

def isrCommonStub : List (Step CHandler) := commonStub .isrCommonHandler

def irqCommonStub : List (Step CHandler) := commonStub .irqCommonHandler

def isrNoErrCode (n : ℕ) : List (Step CHandler) :=
  [.cli, .push 0, .push (BitVec.ofNat 32 n)].map .exec ++ isrCommonStub

def isrErrCode (n : ℕ) : List (Step CHandler) :=
  [.cli, .push (BitVec.ofNat 32 n)].map .exec ++ isrCommonStub

/-- `IRQ`, for the vector that is its second argument. -/
def irqEntry (v : ℕ) : List (Step CHandler) :=
  [.cli, .push 0, .push (BitVec.ofNat 32 v)].map .exec ++ irqCommonStub

/-- The vectors set up with `ISR_ERRCODE`. -/
def errCodeVectors : List ℕ := [8, 10, 11, 12, 13, 14]

/-- `isr_n`. -/
def isrStub (n : ℕ) : List (Step CHandler) :=
  if n ∈ errCodeVectors then isrErrCode n else isrNoErrCode n

/-- `irq_i`. -/
def irqStub (i : ℕ) : List (Step CHandler) := irqEntry (32 + i)

/-- The labels of the stubs, and the code at an address. -/
structure Labels where
  isr : ℕ → Word
  irq : ℕ → Word
  code : Word → List (Step CHandler)
  isr_code : ∀ n, n < 32 ∨ n = isrSyscall → code (isr n) = isrStub n
  irq_code : ∀ i < 16, code (irq i) = irqStub i

/-- One way to place the stubs. -/
def stubsInRow : Labels where
  isr n := BitVec.ofNat 32 n
  irq i := BitVec.ofNat 32 (256 + i)
  code w := if w.toNat < 256 then isrStub w.toNat else irqStub (w.toNat - 256)
  isr_code n h := by
    have hlt : n < 256 := by
      unfold isrSyscall at h
      omega
    have hword : (BitVec.ofNat 32 n).toNat = n := by
      rw [BitVec.toNat_ofNat]
      omega
    rw [hword, if_pos hlt]
  irq_code i h := by
    have hword : (BitVec.ofNat 32 (256 + i)).toNat = 256 + i := by
      rw [BitVec.toNat_ofNat]
      omega
    rw [hword, if_neg (by omega), Nat.add_sub_cancel_left]

/-- What a stub does before its common part. -/
def prelude (v : ℕ) : List Instr :=
  .cli :: (if v ∈ errCodeVectors then [] else [.push 0]) ++ [.push (BitVec.ofNat 32 v)]

/-- The function a vector ends up in. -/
def handlerOf (v : ℕ) : CHandler :=
  if 32 ≤ v ∧ v < 48 then .irqCommonHandler else .isrCommonHandler

theorem Labels.code_labelOf (l : Labels) {v : ℕ} (h : HasEntry v) :
    l.code (labelOf l.isr l.irq v) =
      (prelude v ++ stubEntry).map .exec ++ .call (handlerOf v) :: stubExit.map .exec := by
  unfold labelOf handlerOf prelude
  by_cases hirq : 32 ≤ v ∧ v < 48
  · have hnone : v ∉ errCodeVectors := by
      have hall : ∀ n ∈ errCodeVectors, n < 32 := by decide
      exact fun hmem => absurd (hall v hmem) (by omega)
    rw [if_pos hirq, if_pos hirq, if_neg hnone, l.irq_code (v - 32) (by omega), irqStub,
      Nat.add_sub_cancel' hirq.1]
    rfl
  · have hisr : v < 32 ∨ v = isrSyscall := h.imp_left fun hlow => by omega
    rw [if_neg hirq, if_neg hirq, l.isr_code v hisr, isrStub]
    by_cases herr : v ∈ errCodeVectors
    · rw [if_pos herr, if_pos herr]
      rfl
    · rw [if_neg herr, if_neg herr]
      rfl

/-! ## The frame -/

/-- The sixteen words of the structure in memory. -/
def Registers.words (r : Registers) : List Word :=
  [r.ds, r.edi, r.esi, r.ebp, r.esp, r.ebx, r.edx, r.ecx, r.eax, r.intNo, r.errCode, r.eip, r.cs,
    r.eflags, r.useresp, r.ss].map (BitVec.ofNat 32)

/-- The structure read from sixteen words. -/
def Registers.ofWords (ws : List Word) : Registers where
  ds := (ws.getD 0 0).toNat
  edi := (ws.getD 1 0).toNat
  esi := (ws.getD 2 0).toNat
  ebp := (ws.getD 3 0).toNat
  esp := (ws.getD 4 0).toNat
  ebx := (ws.getD 5 0).toNat
  edx := (ws.getD 6 0).toNat
  ecx := (ws.getD 7 0).toNat
  eax := (ws.getD 8 0).toNat
  intNo := (ws.getD 9 0).toNat
  errCode := (ws.getD 10 0).toNat
  eip := (ws.getD 11 0).toNat
  cs := (ws.getD 12 0).toNat
  eflags := (ws.getD 13 0).toNat
  useresp := (ws.getD 14 0).toNat
  ss := (ws.getD 15 0).toNat

/-- The interrupted processor as the C function sees it. The upper half of the word for `ds` is that
of `eax`, and without a change of ring the last two words are the program's own. -/
def frameOf (t : Tables) (v : ℕ) (errorCode : Option Word) (c : Cpu) : Registers where
  ds := (c.eax.extractLsb' 16 16 ++ c.ds).toNat
  edi := c.edi.toNat
  esi := c.esi.toNat
  ebp := c.ebp.toNat
  esp := ((c.onStack t).esp - (if c.cpl = 0 then 20 else 28)).toNat
  ebx := c.ebx.toNat
  edx := c.edx.toNat
  ecx := c.ecx.toNat
  eax := c.eax.toNat
  intNo := v
  errCode := (errorCode.getD 0).toNat
  eip := c.eip.toNat
  cs := (c.cs.setWidth 32).toNat
  eflags := c.eflags.toNat
  useresp := if c.cpl = 0 then (readWord c.mem c.esp.toNat).toNat else c.esp.toNat
  ss := if c.cpl = 0 then (readWord c.mem (c.esp.toNat + 4)).toNat else (c.ss.setWidth 32).toNat

/-! ## Interrupts -/

/-- A C function on the frame at the top of the stack; `l` is what its code leaves behind. -/
def onFrame {ε σ : Type} (handler : CHandler → Mem → Registers → σ → Except ε (Registers × σ))
    (l : Leftover) (f : CHandler) : Cpu → σ → Except ε (Cpu × σ) :=
  callC 16 (fun m ws s =>
    match handler f m (Registers.ofWords ws) s with
    | .error e => .error e
    | .ok (r, s) => .ok (r.words, s)) l

/-- Deliver an interrupt and run the code its gate leads to. -/
def interrupt {ε σ : Type} (t : Tables) (l : Labels)
    (handler : CHandler → Mem → Registers → σ → Except ε (Registers × σ)) (left : Leftover) (v : ℕ)
    (software : Bool) (errorCode : Option Word) (c : Cpu) (s : σ) : Except (Stop ε) (Cpu × σ) :=
  match t.enter v software errorCode c with
  | .error f => .error (.fault f)
  | .ok c => run t (onFrame handler left) (l.code c.eip) c s

/-- The general registers taken from a frame; the word for `esp` is not used. -/
def withGeneral (c : Cpu) (r : Registers) : Cpu :=
  { c with
    eax := BitVec.ofNat 32 r.eax, ecx := BitVec.ofNat 32 r.ecx, edx := BitVec.ofNat 32 r.edx
    ebx := BitVec.ofNat 32 r.ebx, ebp := BitVec.ofNat 32 r.ebp, esi := BitVec.ofNat 32 r.esi
    edi := BitVec.ofNat 32 r.edi }

/-- What `iret` and the segment registers are restored from is as it was. -/
structure Registers.KeepsReturn (r r' : Registers) : Prop where
  ds : r'.ds = r.ds
  eip : r'.eip = r.eip
  cs : r'.cs = r.cs
  eflags : r'.eflags = r.eflags
  useresp : r'.useresp = r.useresp
  ss : r'.ss = r.ss

/-- A state a program can be in: its segments suit its ring. -/
structure Runnable (t : Tables) (c : Cpu) : Prop where
  code : t.codeOk c.cs = true
  stack : c.cpl ≠ 0 → t.stackOk c.cpl c.ss = true
  data : t.dataOk c.cpl c.ds = true

/-- The tables lead every vector to its stub. -/
structure TablesServe (t : Tables) (l : Labels) : Prop where
  gate : ∀ v, HasEntry v → t.KernelGate v kernelCode
  selector : ∀ v, HasEntry v → (t.gates v).selector = 0x08
  offset : ∀ v, HasEntry v → (t.gates v).offset = labelOf l.isr l.irq v
  data : t.dataOk 0 0x10 = true

theorem kernelTables_serves (l : Labels) (tss kernelRelocatedStack : BitVec 32) (g : Gdt) :
    TablesServe (kernelTables l.isr l.irq (initGdt tss kernelRelocatedStack true g)) l where
  gate _ hv := kernelGate tss kernelRelocatedStack g hv
  selector v hv := by
    show (initIdt l.isr l.irq v).gate.selector = 0x08
    rw [initIdt_of_hasEntry hv]
    rfl
  offset _ hv := kernelGate_offset _ hv
  data := by
    unfold Tables.dataOk
    rw [kernelTables_data]
    decide

/-! ## Behind `init_gdt` and `init_idt` -/

/-- The tables behind `init_gdt` and `init_idt`. -/
def bootTables (l : Labels) (tss kernelRelocatedStack : BitVec 32) (g : Gdt) : Tables :=
  kernelTables l.isr l.irq (initGdt tss kernelRelocatedStack true g)

theorem bootTables_serves (l : Labels) (tss kernelRelocatedStack : BitVec 32) (g : Gdt) :
    TablesServe (bootTables l tss kernelRelocatedStack g) l :=
  kernelTables_serves l tss kernelRelocatedStack g

theorem runnable_of_task (l : Labels) (g : Gdt) (tss kernelRelocatedStack : BitVec 32) {c : Cpu}
    (hcs : c.cs = 0x1b) (hss : c.ss = 0x23) (hds : c.ds = 0x23) :
    Runnable (bootTables l tss kernelRelocatedStack g) c := by
  have hring : c.cpl = 3 := by
    unfold Cpu.cpl
    rw [hcs]
    rfl
  have hcode : (bootTables l tss kernelRelocatedStack g).descriptor 0x1b =
      some ⟨true, false, true, true, false, 3⟩ :=
    initGdt_descriptor tss kernelRelocatedStack g (s := 0x1b) (i := 3) (by decide) (by decide)
      (by decide)
  have hdata : (bootTables l tss kernelRelocatedStack g).descriptor 0x23 =
      some ⟨true, false, false, true, false, 3⟩ :=
    initGdt_descriptor tss kernelRelocatedStack g (s := 0x23) (i := 4) (by decide) (by decide)
      (by decide)
  refine ⟨?_, fun _ => ?_, ?_⟩
  · unfold Tables.codeOk
    rw [hcs, hcode]
    rfl
  · unfold Tables.stackOk
    rw [hss, hring, hdata]
    rfl
  · unfold Tables.dataOk
    rw [hds, hring, hdata]
    rfl

/-- A task as `task_switch` enters it: at the start of its image, with its segments, and with
interrupts accepted. -/
def freshTask : Cpu where
  eax := 0
  ecx := 0
  edx := 0
  ebx := 0
  esp := 0xF0001000
  ebp := 0
  esi := 0
  edi := 0
  ds := 0x23
  es := 0x23
  fs := 0x23
  gs := 0x23
  cs := 0x1b
  ss := 0x23
  eip := 0x10000000
  eflags := 0x202
  mem := fun _ => 0

end Evos
