import Evos.Foundations.WordBlock

/-! # A 32-bit processor with rings

Registers, a flat memory, and what the processor does on an interrupt: the gate is checked, the stack
of the inner ring is taken from the task state, the interrupted registers are pushed, and `iret`
pops them. Routines are lists of instructions; `call` runs a C function over a block of words at the
top of the stack, and leaves in the scratch registers and below the stack whatever compiled code
leaves there. Task gates, 16-bit gates and virtual-8086 mode are not described. -/

namespace Processor
open ByteMemory
set_option autoImplicit false

abbrev Selector := BitVec 16

@[ext] structure Cpu where
  eax : Word
  ecx : Word
  edx : Word
  ebx : Word
  esp : Word
  ebp : Word
  esi : Word
  edi : Word
  ds : Selector
  es : Selector
  fs : Selector
  gs : Selector
  cs : Selector
  ss : Selector
  eip : Word
  eflags : Word
  mem : Mem

/-- The two lowest bits of a selector. -/
def rpl (s : Selector) : ℕ := s.toNat % 4

/-- The ring the processor is in. -/
def Cpu.cpl (c : Cpu) : ℕ := rpl c.cs

/-- Interrupts are accepted. -/
def Cpu.interruptFlag (c : Cpu) : Bool := c.eflags.getLsbD 9

/-! ## The stack -/

def Cpu.push (w : Word) (c : Cpu) : Cpu :=
  { c with esp := c.esp - 4, mem := store32 c.mem (c.esp - 4).toNat w.toNat }

/-- Push the words of a list, the first one first. -/
def Cpu.pushAll (ws : List Word) (c : Cpu) : Cpu := ws.foldl (fun c w => c.push w) c

/-- The word `i` places below the top of the stack. -/
def Cpu.top (c : Cpu) (i : ℕ) : Word := readWord c.mem (c.esp + BitVec.ofNat 32 (4 * i)).toNat

/-! ## Descriptors and gates -/

/-- What a segment descriptor says. -/
structure Descriptor where
  present : Bool
  system : Bool
  code : Bool
  /-- Code that can be read, data that can be written. -/
  readWrite : Bool
  conforming : Bool
  dpl : ℕ
  deriving DecidableEq

inductive GateType where
  | interrupt
  | trap
  | invalid
  deriving DecidableEq

structure Gate where
  type : GateType
  present : Bool
  dpl : ℕ
  selector : Selector
  offset : Word

/-- The tables of the processor: interrupt gates, segment descriptors, and from the task state the
stack of every inner ring. -/
structure Tables where
  gates : ℕ → Gate
  descriptor : Selector → Option Descriptor
  stack : ℕ → Selector × Word

/-- An exception the processor raises itself. -/
structure Fault where
  vector : ℕ
  errorCode : Word
  deriving DecidableEq

def invalidTss (code : Word) : Fault := ⟨10, code⟩
def notPresent (code : Word) : Fault := ⟨11, code⟩
def generalProtection (code : Word) : Fault := ⟨13, code⟩

/-- The error code for a selector; what came from outside the program sets the lowest bit. -/
def selectorCode (s : Selector) (external : Bool) : Word :=
  (s &&& 0xFFFC).setWidth 32 ||| if external then 1 else 0

/-- The error code for a gate. -/
def gateCode (v : ℕ) (external : Bool) : Word :=
  BitVec.ofNat 32 (8 * v + 2) ||| if external then 1 else 0

variable (t : Tables)

/-- A stack segment for a ring. -/
def Tables.stackOk (ring : ℕ) (s : Selector) : Bool :=
  match t.descriptor s with
  | none => false
  | some d => d.present && !d.system && !d.code && d.readWrite && d.dpl == ring && rpl s == ring

/-- A code segment that `iret` may return to. -/
def Tables.codeOk (s : Selector) : Bool :=
  match t.descriptor s with
  | none => false
  | some d => d.present && !d.system && d.code &&
      (if d.conforming then decide (d.dpl ≤ rpl s) else d.dpl == rpl s)

/-- A selector that may be loaded to a data segment register in a ring. -/
def Tables.dataOk (ring : ℕ) (s : Selector) : Bool :=
  decide (s.toNat < 4) ||
  match t.descriptor s with
  | none => false
  | some d => d.present && !d.system && (!d.code || d.readWrite) &&
      (d.code && d.conforming || decide (max ring (rpl s) ≤ d.dpl))

/-! ## Interrupts -/

/-- The flags behind a gate: no trap, nested task, resume or virtual-8086 flag, and no interrupt flag
behind an interrupt gate. -/
def gateFlags (type : GateType) (flags : Word) : Word :=
  match type with
  | .interrupt => flags &&& ~~~0x34300#32
  | _ => flags &&& ~~~0x34100#32

/-- What is pushed on the stack that is left in force. -/
def Cpu.returnWords (c : Cpu) (errorCode : Option Word) : List Word :=
  [c.eflags, c.cs.setWidth 32, c.eip] ++ errorCode.toList

/-- Jump through a gate to code of a ring, on a stack that is already loaded. -/
def Cpu.through (g : Gate) (ring : ℕ) (words : List Word) (c : Cpu) : Cpu :=
  { c.pushAll words with
    cs := (g.selector &&& 0xFFFC) ||| BitVec.ofNat 16 ring
    eip := g.offset
    eflags := gateFlags g.type c.eflags }

/-- Deliver interrupt `v`. Only an `int` instruction is held against the privilege of the gate. -/
def Tables.enter (v : ℕ) (software : Bool) (errorCode : Option Word) (c : Cpu) : Except Fault Cpu :=
  let g := t.gates v
  if g.type = .invalid then .error (generalProtection (gateCode v !software))
  else if software ∧ g.dpl < c.cpl then .error (generalProtection (gateCode v !software))
  else if ¬g.present then .error (notPresent (gateCode v !software))
  else match t.descriptor g.selector with
    | none => .error (generalProtection (selectorCode g.selector !software))
    | some d =>
      if d.system ∨ ¬d.code ∨ c.cpl < d.dpl then
        .error (generalProtection (selectorCode g.selector !software))
      else if ¬d.present then .error (notPresent (selectorCode g.selector !software))
      else if d.conforming ∨ d.dpl = c.cpl then .ok (c.through g c.cpl (c.returnWords errorCode))
      else
        let (ss, esp) := t.stack d.dpl
        if ¬t.stackOk d.dpl ss then .error (invalidTss (selectorCode ss !software))
        else .ok ({ c with ss := ss, esp := esp }.through g d.dpl
          ([c.ss.setWidth 32, c.esp] ++ c.returnWords errorCode))

/-- A data segment the outer ring may not use is lost. -/
def Tables.kept (ring : ℕ) (s : Selector) : Selector :=
  if s.toNat < 4 then s
  else match t.descriptor s with
    | none => s
    | some d => if (!d.code || !d.conforming) && decide (d.dpl < ring) then 0 else s

/-- `iret` in ring 0. -/
def Tables.iret (c : Cpu) : Except Fault Cpu :=
  let cs := (c.top 1).setWidth 16
  if rpl cs < c.cpl ∨ ¬t.codeOk cs then .error (generalProtection (selectorCode cs false))
  else if rpl cs = c.cpl then
    .ok { c with eip := c.top 0, cs := cs, eflags := c.top 2, esp := c.esp + 12 }
  else
    let ss := (c.top 4).setWidth 16
    if ¬t.stackOk (rpl cs) ss then .error (generalProtection (selectorCode ss false))
    else .ok { c with
      eip := c.top 0, cs := cs, eflags := c.top 2, esp := c.top 3, ss := ss
      ds := t.kept (rpl cs) c.ds, es := t.kept (rpl cs) c.es
      fs := t.kept (rpl cs) c.fs, gs := t.kept (rpl cs) c.gs }

/-! ## Instructions -/

inductive DataSegment where
  | ds
  | es
  | fs
  | gs
  deriving DecidableEq

def Cpu.setSegment (c : Cpu) (s : Selector) : DataSegment → Cpu
  | .ds => { c with ds := s }
  | .es => { c with es := s }
  | .fs => { c with fs := s }
  | .gs => { c with gs := s }

inductive Instr where
  | cli
  | sti
  | push (w : Word)
  | pushEax
  | popEax
  | pusha
  | popa
  /-- `mov ax, ds`. -/
  | movAxDs
  /-- `mov ax, v`. -/
  | movAx (v : BitVec 16)
  /-- `mov s, ax` for a data segment register. -/
  | movSegment (s : DataSegment)
  | addEsp (n : Word)
  | iret
  deriving DecidableEq

/-- `cli` and `sti` need a ring within the I/O privilege level. -/
def Cpu.mayMask (c : Cpu) : Bool := decide (c.cpl ≤ (c.eflags >>> 12).toNat % 4)

/-- `pusha`: `esp` is pushed as it was before. -/
def Cpu.pusha (c : Cpu) : Cpu :=
  c.pushAll [c.eax, c.ecx, c.edx, c.ebx, c.esp, c.ebp, c.esi, c.edi]

/-- `popa`: the word for `esp` is skipped. -/
def Cpu.popa (c : Cpu) : Cpu :=
  { c with
    edi := c.top 0, esi := c.top 1, ebp := c.top 2, ebx := c.top 4, edx := c.top 5, ecx := c.top 6
    eax := c.top 7, esp := c.esp + 32 }

def Instr.exec (i : Instr) (c : Cpu) : Except Fault Cpu :=
  match i with
  | .cli => if c.mayMask then .ok { c with eflags := c.eflags &&& ~~~0x200#32 }
      else .error (generalProtection 0)
  | .sti => if c.mayMask then .ok { c with eflags := c.eflags ||| 0x200#32 }
      else .error (generalProtection 0)
  | .push w => .ok (c.push w)
  | .pushEax => .ok (c.push c.eax)
  | .popEax => .ok { c with eax := c.top 0, esp := c.esp + 4 }
  | .pusha => .ok c.pusha
  | .popa => .ok c.popa
  | .movAxDs => .ok { c with eax := c.eax.extractLsb' 16 16 ++ c.ds }
  | .movAx v => .ok { c with eax := c.eax.extractLsb' 16 16 ++ v }
  | .movSegment s =>
      if t.dataOk c.cpl (c.eax.setWidth 16) then .ok (c.setSegment (c.eax.setWidth 16) s)
      else .error (generalProtection (selectorCode (c.eax.setWidth 16) false))
  | .addEsp n => .ok { c with esp := c.esp + n }
  | .iret => t.iret c

def execAll : List Instr → Cpu → Except Fault Cpu
  | [], c => .ok c
  | i :: is, c =>
    match i.exec t c with
    | .error f => .error f
    | .ok c => execAll is c

/-! ## Routines that call C functions -/

/-- A step of a routine; `F` names the functions it may call. -/
inductive Step (F : Type) where
  | exec (i : Instr)
  | call (f : F)

/-- Why a routine did not come to its end. -/
inductive Stop (ε : Type) where
  | fault (f : Fault)
  | callee (e : ε)

/-- Run a routine, with a state `σ` that only its callees see. -/
def run {F ε σ : Type} (callee : F → Cpu → σ → Except ε (Cpu × σ)) :
    List (Step F) → Cpu → σ → Except (Stop ε) (Cpu × σ)
  | [], c, s => .ok (c, s)
  | .exec i :: is, c, s =>
    match i.exec t c with
    | .error f => .error (.fault f)
    | .ok c => run callee is c s
  | .call f :: is, c, s =>
    match callee f c s with
    | .error e => .error (.callee e)
    | .ok (c, s) => run callee is c s

/-- What compiled code leaves behind: in the registers it need not restore, and in the memory below
the stack of its caller. -/
structure Leftover where
  eax : Word
  ecx : Word
  edx : Word
  eflags : Word
  depth : ℕ
  below : Mem

/-- The memory behind a call with the stack at `a`. -/
def Leftover.mem (l : Leftover) (a : ℕ) (m : Mem) : Mem := fun x =>
  if x < a ∧ a ≤ x + l.depth then l.below x else m x

/-- A call of a C function that reads the memory, and whose arguments are the `n` words at the top of
the stack, where it may write; `l` is what it leaves behind. -/
def callC {ε σ : Type} (n : ℕ) (f : Mem → List Word → σ → Except ε (List Word × σ)) (l : Leftover)
    (c : Cpu) (s : σ) : Except ε (Cpu × σ) :=
  match f c.mem (readWords c.mem c.esp.toNat n) s with
  | .error e => .error e
  | .ok (ws, s) => .ok ({ c with
      eax := l.eax, ecx := l.ecx, edx := l.edx, eflags := l.eflags
      mem := l.mem c.esp.toNat (writeWords c.mem c.esp.toNat ws) }, s)

/-! ## Rules for the stack -/

variable {t}

/-- The processor with a list of words pushed to the memory below `top`. -/
def Cpu.stacked (c : Cpu) (top : Word) (m : Mem) (ws : List Word) : Cpu :=
  { c with
    esp := top - BitVec.ofNat 32 (4 * ws.length)
    mem := writeWords m (top.toNat - 4 * ws.length) ws.reverse }

theorem Cpu.pushAll_eq (c : Cpu) (ws : List Word) (h : 4 * ws.length ≤ c.esp.toNat) :
    c.pushAll ws = c.stacked c.esp c.mem ws := by
  induction ws generalizing c with
  | nil =>
    have hesp : c.esp - BitVec.ofNat 32 (4 * ([] : List Word).length) = c.esp := BitVec.sub_zero _
    rw [Cpu.stacked, hesp]
    rfl
  | cons w ws ih =>
    rw [List.length_cons] at h
    have hesp : (c.push w).esp.toNat = c.esp.toNat - 4 := by
      show (c.esp - 4).toNat = _
      bv_omega
    have hpushed : c.pushAll (w :: ws) = (c.push w).pushAll ws := rfl
    have hlow : (c.push w).esp - BitVec.ofNat 32 (4 * ws.length) =
        c.esp - BitVec.ofNat 32 (4 * (w :: ws).length) := by
      show c.esp - 4 - _ = _
      rw [List.length_cons]
      bv_omega
    have hmem : writeWords (c.push w).mem ((c.push w).esp.toNat - 4 * ws.length) ws.reverse =
        writeWords c.mem (c.esp.toNat - 4 * (w :: ws).length) (w :: ws).reverse := by
      have hplace : c.esp.toNat - 4 * (ws.length + 1) + 4 * ws.reverse.length = (c.esp - 4).toNat := by
        rw [List.length_reverse]
        bv_omega
      have hlength : c.esp.toNat - 4 - 4 * ws.length = c.esp.toNat - 4 * (ws.length + 1) := by omega
      rw [List.reverse_cons, writeWords_append, List.length_cons, hplace, hesp, hlength]
      rfl
    rw [hpushed, ih (c.push w) (by omega), Cpu.stacked, Cpu.stacked, hlow, hmem]
    rfl

section Stacked
variable {c : Cpu} {top : Word} {m : Mem} {ws : List Word}

theorem Cpu.toNat_stacked (h : 4 * ws.length ≤ top.toNat) :
    (c.stacked top m ws).esp.toNat = top.toNat - 4 * ws.length := by
  show (top - BitVec.ofNat 32 (4 * ws.length)).toNat = _
  bv_omega

theorem Cpu.stacked_pushAll (vs : List Word) (h : 4 * (ws.length + vs.length) ≤ top.toNat) :
    (c.stacked top m ws).pushAll vs = c.stacked top m (ws ++ vs) := by
  have hesp : (c.stacked top m ws).esp.toNat = top.toNat - 4 * ws.length :=
    Cpu.toNat_stacked (by omega)
  have hlow : (c.stacked top m ws).esp - BitVec.ofNat 32 (4 * vs.length) =
      top - BitVec.ofNat 32 (4 * (ws ++ vs).length) := by
    show top - BitVec.ofNat 32 (4 * ws.length) - _ = _
    rw [List.length_append]
    bv_omega
  have hplace : top.toNat - 4 * (ws ++ vs).length + 4 * vs.reverse.length =
      top.toNat - 4 * ws.length := by
    rw [List.length_append, List.length_reverse]
    omega
  have hlength : top.toNat - 4 * ws.length - 4 * vs.length = top.toNat - 4 * (ws ++ vs).length := by
    rw [List.length_append]
    omega
  rw [Cpu.pushAll_eq _ _ (by omega), Cpu.stacked, hlow, hesp, hlength]
  unfold Cpu.stacked
  rw [List.reverse_append, writeWords_append, hplace]

theorem Cpu.readWords_stacked (h : 4 * ws.length ≤ top.toNat) (k : ℕ) :
    readWords (c.stacked top m ws).mem (c.stacked top m ws).esp.toNat (ws.length + k) =
      ws.reverse ++ readWords m top.toNat k := by
  have hbelow : readWords (c.stacked top m ws).mem (top.toNat - 4 * ws.length) ws.length =
      ws.reverse := by
    have hread := readWords_writeWords m (top.toNat - 4 * ws.length) ws.reverse
    rw [List.length_reverse] at hread
    exact hread
  have habove : readWords (c.stacked top m ws).mem top.toNat k = readWords m top.toNat k :=
    readWords_congr fun x hx _ => writeWords_outside m _ (by
      rw [List.length_reverse]
      omega)
  rw [Cpu.toNat_stacked h, readWords_append, hbelow, Nat.sub_add_cancel h, habove]

theorem Cpu.top_of_readWords {sp j i : ℕ} (hws : readWords c.mem sp ws.length = ws)
    (hesp : c.esp.toNat = sp + 4 * j) (hi : j + i < ws.length) (hroom : sp + 4 * ws.length ≤ 2 ^ 32) :
    c.top i = ws.getD (j + i) 0 := by
  have haddress : (c.esp + BitVec.ofNat 32 (4 * i)).toNat = sp + 4 * (j + i) := by bv_omega
  have hword := getD_readWords c.mem sp hi 0
  rw [hws] at hword
  unfold Cpu.top
  rw [haddress, hword]

end Stacked

/-! ## Rules for segments -/

theorem Tables.dataOk_of_le {ring ring' : ℕ} {s : Selector} (h : t.dataOk ring s = true)
    (hle : ring' ≤ ring) : t.dataOk ring' s = true := by
  unfold Tables.dataOk at h ⊢
  cases hd : t.descriptor s with
  | none =>
    rw [hd] at h
    exact h
  | some d =>
    rw [hd] at h
    simp only [Bool.or_eq_true, Bool.and_eq_true, decide_eq_true_eq] at h ⊢
    exact h.imp_right fun h => ⟨h.1, h.2.imp_right fun hmax => by omega⟩

theorem Tables.kept_of_dataOk {ring : ℕ} {s : Selector} (h : t.dataOk ring s = true) :
    t.kept ring s = s := by
  unfold Tables.dataOk at h
  unfold Tables.kept
  by_cases hnull : s.toNat < 4
  · exact if_pos hnull
  · rw [if_neg hnull]
    cases hd : t.descriptor s with
    | none => rfl
    | some d =>
      rw [hd] at h
      simp only [Bool.or_eq_true, Bool.and_eq_true, decide_eq_true_eq, hnull, false_or] at h
      refine if_neg ?_
      simp only [Bool.or_eq_true, Bool.and_eq_true, Bool.not_eq_true', decide_eq_true_eq]
      rcases h.2 with hconforming | hle
      · rw [hconforming.1, hconforming.2]
        rintro ⟨hfalse | hfalse, -⟩ <;> exact Bool.noConfusion hfalse
      · omega

/-! ## Rules for interrupts -/

/-- A gate to code of ring 0, with a stack to run it on. -/
structure Tables.KernelGate (t : Tables) (v : ℕ) (d : Descriptor) : Prop where
  type : (t.gates v).type = .interrupt
  present : (t.gates v).present = true
  descriptor : t.descriptor (t.gates v).selector = some d
  segment : d.present = true ∧ d.system = false ∧ d.code = true ∧ d.conforming = false ∧ d.dpl = 0
  stack : t.stackOk 0 (t.stack 0).1 = true

/-- The processor with the stack of ring 0 loaded. -/
def Cpu.onStack (t : Tables) (c : Cpu) : Cpu :=
  if c.cpl = 0 then c else { c with ss := (t.stack 0).1, esp := (t.stack 0).2 }

/-- The words that name the stack that was left. -/
def Cpu.stackWords (c : Cpu) : List Word := if c.cpl = 0 then [] else [c.ss.setWidth 32, c.esp]

theorem Tables.KernelGate.enter {v : ℕ} {d : Descriptor} (h : t.KernelGate v d) {software : Bool}
    (errorCode : Option Word) {c : Cpu} (hpriv : software = true → c.cpl ≤ (t.gates v).dpl) :
    t.enter v software errorCode c =
      .ok ((c.onStack t).through (t.gates v) 0 (c.stackWords ++ c.returnWords errorCode)) := by
  obtain ⟨hpresent, hsystem, hcode, hconforming, hdpl⟩ := h.segment
  have htype : (t.gates v).type ≠ .invalid := by
    rw [h.type]
    decide
  have hsoft : ¬(software = true ∧ (t.gates v).dpl < c.cpl) := fun hs => by
    have hle := hpriv hs.1
    omega
  have hsegment : ¬(d.system = true ∨ ¬d.code = true ∨ c.cpl < d.dpl) := by
    rw [hsystem, hcode, hdpl]
    simp
  unfold Tables.enter
  dsimp only
  rw [if_neg htype, if_neg hsoft, if_neg (not_not.mpr h.present), h.descriptor]
  dsimp only
  rw [if_neg hsegment, if_neg (not_not.mpr hpresent)]
  by_cases hring : c.cpl = 0
  · rw [if_pos (Or.inr (hdpl.trans hring.symm)), Cpu.onStack, if_pos hring, Cpu.stackWords,
      if_pos hring, hring, List.nil_append]
  · have hinner : ¬(d.conforming = true ∨ d.dpl = c.cpl) := by
      rw [hconforming, hdpl]
      simp [Ne.symm hring]
    rw [if_neg hinner, hdpl, Cpu.onStack, if_neg hring, Cpu.stackWords, if_neg hring,
      if_neg (not_not.mpr h.stack)]

theorem Tables.enter_closed {v : ℕ} (errorCode : Option Word) {c : Cpu}
    (h : (t.gates v).type = .invalid ∨ (t.gates v).dpl < c.cpl) :
    t.enter v true errorCode c = .error (generalProtection (gateCode v false)) := by
  unfold Tables.enter
  dsimp only
  by_cases htype : (t.gates v).type = .invalid
  · rw [if_pos htype]
    rfl
  · rw [if_neg htype, if_pos ⟨rfl, h.resolve_left htype⟩]
    rfl

/-- The two lowest words that `iret` pops, and the flags. -/
structure Cpu.ReturnsTo (c : Cpu) (eip : Word) (cs : Selector) (eflags : Word) : Prop where
  eip : c.top 0 = eip
  cs : c.top 1 = cs.setWidth 32
  eflags : c.top 2 = eflags

theorem setWidth_selector (s : Selector) : (s.setWidth 32).setWidth 16 = s := by
  rw [BitVec.setWidth_setWidth_of_le _ (by decide), BitVec.setWidth_eq]

theorem Tables.iret_same {c : Cpu} {eip eflags : Word} {cs : Selector}
    (h : c.ReturnsTo eip cs eflags) (hcs : t.codeOk cs = true) (hring : rpl cs = c.cpl) :
    t.iret c = .ok { c with eip := eip, cs := cs, eflags := eflags, esp := c.esp + 12 } := by
  unfold Tables.iret
  rw [h.eip, h.cs, h.eflags, setWidth_selector]
  dsimp only
  rw [if_neg (by rw [hcs]; simp [hring]), if_pos hring]

theorem Tables.iret_outer {c : Cpu} {eip eflags esp : Word} {cs ss : Selector}
    (h : c.ReturnsTo eip cs eflags) (hesp : c.top 3 = esp) (hss : c.top 4 = ss.setWidth 32)
    (hcs : t.codeOk cs = true) (hring : c.cpl < rpl cs) (hstack : t.stackOk (rpl cs) ss = true) :
    t.iret c = .ok { c with
      eip := eip, cs := cs, eflags := eflags, esp := esp, ss := ss
      ds := t.kept (rpl cs) c.ds, es := t.kept (rpl cs) c.es
      fs := t.kept (rpl cs) c.fs, gs := t.kept (rpl cs) c.gs } := by
  have hinner : ¬(rpl cs < c.cpl ∨ ¬t.codeOk cs = true) := by
    rw [hcs]
    simp only [not_true_eq_false, or_false]
    omega
  unfold Tables.iret
  rw [h.eip, h.cs, h.eflags, hesp, hss, setWidth_selector, setWidth_selector]
  dsimp only
  rw [if_neg hinner, if_neg (by omega), if_neg (not_not.mpr hstack)]

/-! ## Rules for calls -/

/-- Compiled code leaves the block of its arguments and what is above alone. -/
theorem Leftover.mem_of_le (l : Leftover) {a x : ℕ} (m : Mem) (h : a ≤ x) : l.mem a m x = m x :=
  if_neg fun hx => absurd hx.1 (Nat.not_lt.mpr h)

theorem Leftover.mem_of_lt (l : Leftover) {a x : ℕ} (m : Mem) (h : x + l.depth < a) :
    l.mem a m x = m x :=
  if_neg fun hx => absurd hx.2 (Nat.not_le.mpr h)

theorem readWords_callC (l : Leftover) (m : Mem) (a : ℕ) (ws : List Word) :
    readWords (l.mem a (writeWords m a ws)) a ws.length = ws := by
  rw [readWords_congr fun x hx _ => l.mem_of_le _ hx]
  exact readWords_writeWords m a ws

/-! ## Rules for routines -/

theorem execAll_cons {i : Instr} {is : List Instr} {c c' : Cpu} (h : i.exec t c = .ok c') :
    execAll t (i :: is) c = execAll t is c' := by
  rw [execAll, h]

theorem execAll_append {is js : List Instr} {c c' : Cpu} (h : execAll t is c = .ok c') :
    execAll t (is ++ js) c = execAll t js c' := by
  induction is generalizing c with
  | nil =>
    cases h
    rfl
  | cons i is ih =>
    cases hexec : i.exec t c with
    | error f =>
      rw [execAll, hexec] at h
      exact nomatch h
    | ok c₁ =>
      rw [execAll_cons hexec] at h
      rw [List.cons_append, execAll_cons hexec]
      exact ih h

section Run
variable {F ε σ : Type} {callee : F → Cpu → σ → Except ε (Cpu × σ)} {rest : List (Step F)}
  {c c' : Cpu} {s s' : σ}

theorem run_exec {is : List Instr} (h : execAll t is c = .ok c') :
    run t callee (is.map .exec ++ rest) c s = run t callee rest c' s := by
  induction is generalizing c with
  | nil =>
    cases h
    rfl
  | cons i is ih =>
    cases hexec : i.exec t c with
    | error f =>
      rw [execAll, hexec] at h
      exact nomatch h
    | ok c₁ =>
      rw [execAll_cons hexec] at h
      rw [List.map_cons, List.cons_append, run, hexec]
      exact ih h

theorem run_call {f : F} (h : callee f c s = .ok (c', s')) :
    run t callee (.call f :: rest) c s = run t callee rest c' s' := by
  rw [run, h]

theorem run_call_error {f : F} {e : ε} (h : callee f c s = .error e) :
    run t callee (.call f :: rest) c s = .error (.callee e) := by
  rw [run, h]

end Run

end Processor
