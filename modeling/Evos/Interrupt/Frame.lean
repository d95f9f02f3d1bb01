import Evos.Interrupt.Stubs

/-! # What a stub saves and restores

The stub of a vector is followed from the gate to its `iret`. At the call the words on the stack are
the frame of the interrupted program; behind the call they are popped again, whatever the compiled
code left in the registers and below the stack. -/

namespace Evos
open Processor ByteMemory
set_option autoImplicit false

variable {t : Tables} {l : Labels} {c : Cpu} {top : Word} {m : Mem} {ws : List Word} {v : ℕ}

/-! ## Words -/

theorem setWidth_append (hi lo : BitVec 16) : (hi ++ lo).setWidth 16 = lo := by
  apply BitVec.eq_of_toNat_eq
  have hlo := lo.isLt
  rw [BitVec.toNat_setWidth, BitVec.toNat_append, Nat.shiftLeft_eq, Nat.mul_comm,
    ← Nat.two_pow_add_eq_or_of_lt hlo]
  omega

theorem ofNat_toNat_word (w : Word) : BitVec.ofNat 32 w.toNat = w := by
  rw [BitVec.ofNat_toNat, BitVec.setWidth_eq]

/-! ## Up to the call -/

/-- The words a stub pushes before its common part. -/
def preludeWords (v : ℕ) : List Word :=
  (if v ∈ errCodeVectors then [] else [0]) ++ [BitVec.ofNat 32 v]

/-- The words the common part pushes, with `esp` as it is before `pusha`. -/
def savedWords (c : Cpu) (esp : Word) : List Word :=
  [c.eax, c.ecx, c.edx, c.ebx, esp, c.ebp, c.esi, c.edi, c.eax.extractLsb' 16 16 ++ c.ds]

theorem mayMask_of_cpl (h : c.cpl = 0) : c.mayMask = true := by
  unfold Cpu.mayMask
  rw [h]
  exact decide_eq_true (Nat.zero_le _)

theorem execAll_prelude (hcpl : c.cpl = 0) (hroom : 4 * (ws.length + 2) ≤ top.toNat) :
    execAll t (prelude v) (c.stacked top m ws) =
      .ok ({ c with eflags := c.eflags &&& ~~~0x200#32 }.stacked top m (ws ++ preludeWords v)) := by
  have hcli : Instr.exec t .cli (c.stacked top m ws) =
      .ok ({ c with eflags := c.eflags &&& ~~~0x200#32 }.stacked top m ws) := by
    have hmask : (c.stacked top m ws).mayMask = true := mayMask_of_cpl hcpl
    unfold Instr.exec
    dsimp only
    rw [if_pos hmask]
    rfl
  have hpush (vs : List Word) (h : vs.length ≤ 2) :
      ({ c with eflags := c.eflags &&& ~~~0x200#32 }.stacked top m ws).pushAll vs =
        { c with eflags := c.eflags &&& ~~~0x200#32 }.stacked top m (ws ++ vs) :=
    Cpu.stacked_pushAll vs (by omega)
  unfold prelude preludeWords
  rw [List.cons_append, execAll_cons hcli]
  by_cases herr : v ∈ errCodeVectors
  · rw [if_pos herr, if_pos herr]
    exact congrArg Except.ok (hpush [BitVec.ofNat 32 v] (Nat.le_succ 1))
  · rw [if_neg herr, if_neg herr]
    exact congrArg Except.ok (hpush [0, BitVec.ofNat 32 v] (Nat.le_refl 2))

/-- The processor in the C function, with the data segment of the kernel. -/
def inKernel (c : Cpu) : Cpu :=
  { c with
    eax := (c.eax.extractLsb' 16 16 ++ c.ds).extractLsb' 16 16 ++ 0x10#16
    ds := 0x10, es := 0x10, fs := 0x10, gs := 0x10 }

theorem exec_movSegment {seg : Selector} (d : DataSegment) (hax : c.eax.setWidth 16 = seg)
    (hdata : t.dataOk c.cpl seg = true) :
    Instr.exec t (.movSegment d) c = .ok (c.setSegment seg d) := by
  unfold Instr.exec
  dsimp only
  rw [hax, if_pos hdata]

theorem execAll_movSegments {seg : Selector} (is : List Instr) (hax : c.eax.setWidth 16 = seg)
    (hdata : t.dataOk c.cpl seg = true) :
    execAll t (.movSegment .ds :: .movSegment .es :: .movSegment .fs :: .movSegment .gs :: is) c =
      execAll t is { c with ds := seg, es := seg, fs := seg, gs := seg } := by
  rw [execAll_cons (exec_movSegment .ds hax hdata)]
  rw [execAll_cons (exec_movSegment (c := c.setSegment seg .ds) .es hax hdata)]
  rw [execAll_cons (exec_movSegment (c := (c.setSegment seg .ds).setSegment seg .es) .fs hax hdata)]
  rw [execAll_cons (exec_movSegment
    (c := ((c.setSegment seg .ds).setSegment seg .es).setSegment seg .fs) .gs hax hdata)]
  rfl

theorem execAll_stubEntry (hcpl : c.cpl = 0) (hdata : t.dataOk 0 0x10 = true)
    (hroom : 4 * (ws.length + 9) ≤ top.toNat) :
    execAll t stubEntry (c.stacked top m ws) =
      .ok ((inKernel c).stacked top m
        (ws ++ savedWords c (top - BitVec.ofNat 32 (4 * ws.length)))) := by
  let general : List Word := [c.eax, c.ecx, c.edx, c.ebx, top - BitVec.ofNat 32 (4 * ws.length),
    c.ebp, c.esi, c.edi]
  have hpusha : Instr.exec t .pusha (c.stacked top m ws) = .ok (c.stacked top m (ws ++ general)) :=
    congrArg Except.ok (Cpu.stacked_pushAll general (by
      show 4 * (ws.length + 8) ≤ _
      omega))
  have hds : Instr.exec t .pushEax
      ({ c with eax := c.eax.extractLsb' 16 16 ++ c.ds }.stacked top m (ws ++ general)) =
      .ok ({ c with eax := c.eax.extractLsb' 16 16 ++ c.ds }.stacked top m
        (ws ++ general ++ [c.eax.extractLsb' 16 16 ++ c.ds])) :=
    congrArg Except.ok (Cpu.stacked_pushAll [c.eax.extractLsb' 16 16 ++ c.ds] (by
      rw [List.length_append, List.length_singleton]
      show 4 * (ws.length + 8 + 1) ≤ _
      omega))
  have hsame : ws ++ general ++ [c.eax.extractLsb' 16 16 ++ c.ds] =
      ws ++ savedWords c (top - BitVec.ofNat 32 (4 * ws.length)) := List.append_assoc _ _ _
  have hmov : Instr.exec t .movAxDs (c.stacked top m (ws ++ general)) =
      .ok ({ c with eax := c.eax.extractLsb' 16 16 ++ c.ds }.stacked top m (ws ++ general)) := rfl
  let c₁ : Cpu := { c with eax := (c.eax.extractLsb' 16 16 ++ c.ds).extractLsb' 16 16 ++ 0x10#16 }
  have hax : Instr.exec t (.movAx 0x10)
      ({ c with eax := c.eax.extractLsb' 16 16 ++ c.ds }.stacked top m
        (ws ++ savedWords c (top - BitVec.ofNat 32 (4 * ws.length)))) =
      .ok (c₁.stacked top m (ws ++ savedWords c (top - BitVec.ofNat 32 (4 * ws.length)))) := rfl
  have hring : t.dataOk (c₁.stacked top m
      (ws ++ savedWords c (top - BitVec.ofNat 32 (4 * ws.length)))).cpl 0x10 = true := by
    have hzero : (c₁.stacked top m
        (ws ++ savedWords c (top - BitVec.ofNat 32 (4 * ws.length)))).cpl = 0 := hcpl
    rw [hzero]
    exact hdata
  have hsegments := execAll_movSegments [] (setWidth_append _ _) hring
  unfold stubEntry
  rw [execAll_cons hpusha, execAll_cons hmov, execAll_cons hds, hsame, execAll_cons hax, hsegments]
  rfl

/-! ## Behind the call -/

/-- The processor before `iret`, with the registers of a frame. -/
def restored (c : Cpu) (r : Registers) (seg : Selector) : Cpu :=
  withGeneral { c with
    ds := seg, es := seg, fs := seg, gs := seg
    eflags := c.eflags ||| 0x200#32, esp := c.esp + 44 } r

theorem execAll_iret (c : Cpu) : execAll t [.iret] c = t.iret c := by
  have hexec : Instr.exec t .iret c = t.iret c := rfl
  unfold execAll
  rw [hexec]
  cases t.iret c <;> rfl

theorem execAll_stubExit {r : Registers} {seg : Selector} (hcpl : c.cpl = 0)
    (hws : readWords c.mem c.esp.toNat 16 = r.words) (hroom : c.esp.toNat + 64 ≤ 2 ^ 32)
    (hds : (BitVec.ofNat 32 r.ds).setWidth 16 = seg) (hdata : t.dataOk 0 seg = true) :
    execAll t stubExit c = t.iret (restored c r seg) := by
  let c₁ : Cpu := { c with eax := c.top 0, esp := c.esp + 4 }
  let c₂ : Cpu := { c₁ with ds := seg, es := seg, fs := seg, gs := seg }
  have hpop : Instr.exec t .popEax c = .ok c₁ := rfl
  have hax : c₁.eax.setWidth 16 = seg := by
    have hword : c.top 0 = r.words.getD (0 + 0) 0 :=
      Cpu.top_of_readWords hws rfl (Nat.zero_lt_succ 15) hroom
    show (c.top 0).setWidth 16 = seg
    rw [hword]
    exact hds
  have hring : t.dataOk c₁.cpl seg = true := by
    have hzero : c₁.cpl = 0 := hcpl
    rw [hzero]
    exact hdata
  have hesp : c₂.esp.toNat = c.esp.toNat + 4 * 1 := by
    show (c.esp + 4).toNat = _
    bv_omega
  have htop (i : ℕ) (hi : 1 + i < 16) : c₂.top i = r.words.getD (1 + i) 0 :=
    Cpu.top_of_readWords hws hesp hi hroom
  have hpopa : Instr.exec t .popa c₂ = .ok (withGeneral { c₂ with esp := c₂.esp + 32 } r) := by
    show Except.ok c₂.popa = _
    unfold Cpu.popa
    rw [htop 0 (by decide), htop 1 (by decide), htop 2 (by decide), htop 4 (by decide),
      htop 5 (by decide), htop 6 (by decide), htop 7 (by decide)]
    rfl
  let c₃ : Cpu := withGeneral { c₂ with esp := c₂.esp + 32 + 8 } r
  have hadd : Instr.exec t (.addEsp 8) (withGeneral { c₂ with esp := c₂.esp + 32 } r) = .ok c₃ := rfl
  have hsti : Instr.exec t .sti c₃ = .ok (restored c r seg) := by
    have hmask : c₃.mayMask = true := mayMask_of_cpl hcpl
    have hsum : c.esp + 4 + 32 + 8 = c.esp + 44 := by
      rw [BitVec.add_assoc, BitVec.add_assoc]
      rfl
    unfold Instr.exec restored
    dsimp only
    rw [if_pos hmask, ← hsum]
    rfl
  unfold stubExit
  rw [execAll_cons hpop, execAll_movSegments _ hax hring, execAll_cons hpopa, execAll_cons hadd,
    execAll_cons hsti, execAll_iret]

/-! ## The whole stub -/

section Interrupt
variable {ε σ : Type} {handler : CHandler → Mem → Registers → σ → Except ε (Registers × σ)}
  {left : Leftover} {software : Bool} {errorCode : Option Word} {s s' : σ} {r' : Registers}

/-- There is room on the stack for the frame and what is called. -/
structure Room (t : Tables) (left : Leftover) (c : Cpu) : Prop where
  below : 64 + left.depth ≤ (c.onStack t).esp.toNat
  above : (c.onStack t).esp.toNat + 8 ≤ 2 ^ 32

/-- The processor behind the gate, but for what it pushed. -/
def behindGate (t : Tables) (l : Labels) (v : ℕ) (c : Cpu) : Cpu :=
  { c.onStack t with
    cs := 0x08, eip := labelOf l.isr l.irq v, eflags := gateFlags .interrupt c.eflags }

/-- All words pushed until the call. -/
def frameWords (t : Tables) (v : ℕ) (errorCode : Option Word) (c : Cpu) : List Word :=
  c.stackWords ++ ([c.eflags, c.cs.setWidth 32, c.eip, errorCode.getD 0, BitVec.ofNat 32 v] ++
    savedWords c ((c.onStack t).esp - (if c.cpl = 0 then 20 else 28)))

theorem onStack_mem (t : Tables) (c : Cpu) : (c.onStack t).mem = c.mem := by
  unfold Cpu.onStack
  split <;> rfl

theorem returnWords_prelude (hmatch : errorCode.isSome = decide (v ∈ errCodeVectors)) :
    c.returnWords errorCode ++ preludeWords v =
      [c.eflags, c.cs.setWidth 32, c.eip, errorCode.getD 0, BitVec.ofNat 32 v] := by
  unfold preludeWords
  cases errorCode with
  | none =>
    rw [if_neg (of_decide_eq_false hmatch.symm)]
    rfl
  | some e =>
    rw [if_pos (of_decide_eq_true hmatch.symm)]
    rfl

theorem length_returnWords_le (c : Cpu) (errorCode : Option Word) :
    (c.stackWords ++ c.returnWords errorCode).length ≤ 6 := by
  have hstack : c.stackWords.length ≤ 2 := by
    unfold Cpu.stackWords
    split
    · exact Nat.zero_le _
    · exact Nat.le_refl 2
  have hreturn : (c.returnWords errorCode).length ≤ 4 := by
    cases errorCode with
    | none => exact Nat.le_succ 3
    | some e => exact Nat.le_refl 4
  rw [List.length_append]
  omega

theorem enter_stacked (hs : TablesServe t l) (hv : HasEntry v)
    (hpriv : software = true → c.cpl ≤ (t.gates v).dpl) (hroom : Room t left c) :
    t.enter v software errorCode c =
      .ok ((behindGate t l v c).stacked (c.onStack t).esp c.mem
        (c.stackWords ++ c.returnWords errorCode)) := by
  have hlength := length_returnWords_le c errorCode
  have hbelow := hroom.below
  have hpush := Cpu.pushAll_eq (c.onStack t) (c.stackWords ++ c.returnWords errorCode) (by omega)
  have hthrough : (c.onStack t).through (t.gates v) 0 (c.stackWords ++ c.returnWords errorCode) =
      (behindGate t l v c).stacked (c.onStack t).esp c.mem
        (c.stackWords ++ c.returnWords errorCode) := by
    have hflags : (c.onStack t).eflags = c.eflags := by
      unfold Cpu.onStack
      split <;> rfl
    unfold Cpu.through
    rw [hpush, hs.selector v hv, hs.offset v hv, (hs.gate v hv).type, hflags, onStack_mem]
    rfl
  rw [(hs.gate v hv).enter errorCode hpriv, hthrough]

/-- The processor at the call, with the frame on the stack. -/
def atCall (t : Tables) (l : Labels) (v : ℕ) (errorCode : Option Word) (c : Cpu) : Cpu :=
  (inKernel { behindGate t l v c with
    eflags := (behindGate t l v c).eflags &&& ~~~0x200#32 }).stacked (c.onStack t).esp c.mem
    (frameWords t v errorCode c)

theorem run_toCall (hs : TablesServe t l) (hroom : Room t left c)
    (hmatch : errorCode.isSome = decide (v ∈ errCodeVectors)) {F : Type}
    {callee : F → Cpu → σ → Except ε (Cpu × σ)} (rest : List (Step F)) :
    run t callee ((prelude v ++ stubEntry).map .exec ++ rest)
      ((behindGate t l v c).stacked (c.onStack t).esp c.mem
        (c.stackWords ++ c.returnWords errorCode)) s =
    run t callee rest (atCall t l v errorCode c) s := by
  have hlength := length_returnWords_le c errorCode
  have hbelow := hroom.below
  have hring : (behindGate t l v c).cpl = 0 := by
    show rpl 0x08 = 0
    decide
  have hfirst : execAll t (prelude v) _ = _ := execAll_prelude (m := c.mem) hring
    (show 4 * ((c.stackWords ++ c.returnWords errorCode).length + 2) ≤ (c.onStack t).esp.toNat by
      omega)
  have hwords : (c.stackWords ++ (c.returnWords errorCode ++ preludeWords v)).length =
      (if c.cpl = 0 then 0 else 2) + 5 := by
    rw [returnWords_prelude hmatch, List.length_append, Cpu.stackWords]
    split <;> rfl
  have hesp : (c.onStack t).esp -
      BitVec.ofNat 32 (4 * (c.stackWords ++ (c.returnWords errorCode ++ preludeWords v)).length) =
      (c.onStack t).esp - (if c.cpl = 0 then 20 else 28) := by
    rw [hwords]
    split <;> rfl
  have hsaved : savedWords { behindGate t l v c with
      eflags := (behindGate t l v c).eflags &&& ~~~0x200#32 } =
      savedWords c := by
    unfold savedWords behindGate Cpu.onStack
    split <;> rfl
  rw [List.append_assoc] at hfirst
  have hsecond := execAll_stubEntry (m := c.mem)
    (c := { behindGate t l v c with eflags := (behindGate t l v c).eflags &&& ~~~0x200#32 })
    hring hs.data
    (show 4 * ((c.stackWords ++ (c.returnWords errorCode ++ preludeWords v)).length + 9) ≤
      (c.onStack t).esp.toNat by
        rw [hwords]
        split <;> omega)
  have hall : execAll t (prelude v ++ stubEntry) _ = _ := execAll_append hfirst
  rw [hsecond, hesp, hsaved, List.append_assoc, returnWords_prelude hmatch] at hall
  rw [run_exec hall]
  rfl

theorem length_frameWords (t : Tables) (v : ℕ) (errorCode : Option Word) (c : Cpu) :
    (frameWords t v errorCode c).length = if c.cpl = 0 then 14 else 16 := by
  unfold frameWords Cpu.stackWords
  split <;> rfl

/-- The words on the stack are the frame; without a change of ring the last two lie above it. -/
theorem frameOf_words (t : Tables) (v : ℕ) (errorCode : Option Word) (c : Cpu) :
    (frameOf t v errorCode c).words = (frameWords t v errorCode c).reverse ++
      readWords c.mem (c.onStack t).esp.toNat (if c.cpl = 0 then 2 else 0) := by
  unfold frameWords frameOf Registers.words savedWords Cpu.stackWords
  by_cases hring : c.cpl = 0
  · have hstack : c.onStack t = c := if_pos hring
    rw [hstack]
    simp only [if_pos hring, List.map_cons, List.map_nil, ofNat_toNat_word]
    rfl
  · simp only [if_neg hring, List.map_cons, List.map_nil, ofNat_toNat_word]
    rfl

theorem frameOf_ofWords (hv : v < 2 ^ 32) (errorCode : Option Word) (c : Cpu) :
    Registers.ofWords (frameOf t v errorCode c).words = frameOf t v errorCode c := by
  have hno : (BitVec.ofNat 32 v).toNat = v := by
    rw [BitVec.toNat_ofNat]
    exact Nat.mod_eq_of_lt hv
  by_cases hring : c.cpl = 0
  · unfold frameOf Registers.words
    simp only [if_pos hring, List.map_cons, List.map_nil, ofNat_toNat_word]
    unfold Registers.ofWords
    simp only [List.getD_cons_zero, List.getD_cons_succ, hno]
  · unfold frameOf Registers.words
    simp only [if_neg hring, List.map_cons, List.map_nil, ofNat_toNat_word]
    unfold Registers.ofWords
    simp only [List.getD_cons_zero, List.getD_cons_succ, hno]

theorem hasEntry_lt (hv : HasEntry v) : v < 2 ^ 32 := by
  have h : v < 48 ∨ v = 0x80 := hv
  omega

theorem toNat_atCall_esp (l : Labels) (v : ℕ) (errorCode : Option Word) (hroom : Room t left c) :
    (atCall t l v errorCode c).esp.toNat =
      (c.onStack t).esp.toNat - (if c.cpl = 0 then 56 else 64) := by
  have hlength := length_frameWords t v errorCode c
  have hbelow := hroom.below
  have hfits : 4 * (frameWords t v errorCode c).length ≤ (c.onStack t).esp.toNat := by
    rw [hlength]
    split <;> omega
  unfold atCall
  rw [Cpu.toNat_stacked hfits, hlength]
  split <;> rfl

theorem readWords_atCall (hroom : Room t left c) :
    readWords (atCall t l v errorCode c).mem (atCall t l v errorCode c).esp.toNat 16 =
      (frameOf t v errorCode c).words := by
  have hlength := length_frameWords t v errorCode c
  have hbelow := hroom.below
  have hfits : 4 * (frameWords t v errorCode c).length ≤ (c.onStack t).esp.toNat := by
    rw [hlength]
    split <;> omega
  have hcount : (frameWords t v errorCode c).length + (if c.cpl = 0 then 2 else 0) = 16 := by
    rw [hlength]
    split <;> rfl
  have hread := Cpu.readWords_stacked (m := c.mem) (c := inKernel { behindGate t l v c with
    eflags := (behindGate t l v c).eflags &&& ~~~0x200#32 }) hfits (if c.cpl = 0 then 2 else 0)
  rw [hcount, ← frameOf_words] at hread
  exact hread

/-- The processor behind the call. -/
def called (left : Leftover) (c : Cpu) (r : Registers) : Cpu :=
  { c with
    eax := left.eax, ecx := left.ecx, edx := left.edx, eflags := left.eflags
    mem := left.mem c.esp.toNat (writeWords c.mem c.esp.toNat r.words) }

theorem onFrame_error {f : CHandler} {r : Registers} {e : ε}
    (hframe : readWords c.mem c.esp.toNat 16 = r.words) (hr : Registers.ofWords r.words = r)
    (h : handler f c.mem r s = .error e) : onFrame handler left f c s = .error e := by
  unfold onFrame callC
  rw [hframe]
  dsimp only
  rw [hr, h]

theorem onFrame_ok {f : CHandler} {r : Registers}
    (hframe : readWords c.mem c.esp.toNat 16 = r.words) (hr : Registers.ofWords r.words = r)
    (h : handler f c.mem r s = .ok (r', s')) :
    onFrame handler left f c s = .ok (called left c r', s') := by
  unfold onFrame callC
  rw [hframe]
  dsimp only
  rw [hr, h]
  rfl

theorem interrupt_eq (hs : TablesServe t l) (hv : HasEntry v)
    (hpriv : software = true → c.cpl ≤ (t.gates v).dpl) (hroom : Room t left c)
    (hmatch : errorCode.isSome = decide (v ∈ errCodeVectors)) :
    interrupt t l handler left v software errorCode c s =
      run t (onFrame handler left) (.call (handlerOf v) :: stubExit.map .exec)
        (atCall t l v errorCode c) s := by
  have heip : ((behindGate t l v c).stacked (c.onStack t).esp c.mem
      (c.stackWords ++ c.returnWords errorCode)).eip = labelOf l.isr l.irq v := rfl
  unfold interrupt
  rw [enter_stacked hs hv hpriv hroom]
  dsimp only
  rw [heip, l.code_labelOf hv, run_toCall hs hroom hmatch]

theorem interrupt_stops (hs : TablesServe t l) (hv : HasEntry v)
    (hpriv : software = true → c.cpl ≤ (t.gates v).dpl) (hroom : Room t left c)
    (hmatch : errorCode.isSome = decide (v ∈ errCodeVectors)) {e : ε}
    (hhandler : handler (handlerOf v) (atCall t l v errorCode c).mem (frameOf t v errorCode c) s =
      .error e) :
    interrupt t l handler left v software errorCode c s = .error (.callee e) := by
  rw [interrupt_eq hs hv hpriv hroom hmatch]
  exact run_call_error
    (onFrame_error (readWords_atCall hroom) (frameOf_ofWords (hasEntry_lt hv) errorCode c) hhandler)

theorem readWords_called (left : Leftover) (c : Cpu) (r : Registers) :
    readWords (called left c r).mem (called left c r).esp.toNat 16 = r.words :=
  readWords_callC left c.mem c.esp.toNat r.words

theorem interrupt_toIret (hs : TablesServe t l) (hv : HasEntry v)
    (hpriv : software = true → c.cpl ≤ (t.gates v).dpl) (hroom : Room t left c)
    (hmatch : errorCode.isSome = decide (v ∈ errCodeVectors)) (hrun : Runnable t c)
    (hhandler : handler (handlerOf v) (atCall t l v errorCode c).mem (frameOf t v errorCode c) s =
      .ok (r', s'))
    (hkeep : (frameOf t v errorCode c).KeepsReturn r') {c' : Cpu}
    (hiret : t.iret (restored (called left (atCall t l v errorCode c) r') r' c.ds) = .ok c') :
    interrupt t l handler left v software errorCode c s = .ok (c', s') := by
  have hbelow := hroom.below
  have habove := hroom.above
  have hesp : (called left (atCall t l v errorCode c) r').esp.toNat + 64 ≤ 2 ^ 32 := by
    show (atCall t l v errorCode c).esp.toNat + 64 ≤ 2 ^ 32
    rw [toNat_atCall_esp l v errorCode hroom]
    split <;> omega
  have hring : (called left (atCall t l v errorCode c) r').cpl = 0 := by
    show rpl 0x08 = 0
    decide
  have hds : (BitVec.ofNat 32 r'.ds).setWidth 16 = c.ds := by
    rw [hkeep.ds]
    show (BitVec.ofNat 32 (c.eax.extractLsb' 16 16 ++ c.ds).toNat).setWidth 16 = c.ds
    rw [ofNat_toNat_word]
    exact setWidth_append _ _
  have hexit := execAll_stubExit hring (readWords_called left _ r') hesp hds
    (Tables.dataOk_of_le hrun.data (Nat.zero_le _))
  rw [hiret] at hexit
  have hrest : run t (onFrame handler left) (stubExit.map .exec)
      (called left (atCall t l v errorCode c) r') s' = .ok (c', s') := by
    have hrun' : run t (onFrame handler left) (stubExit.map .exec ++ [])
        (called left (atCall t l v errorCode c) r') s' = _ := run_exec hexit
    rw [List.append_nil] at hrun'
    exact hrun'
  rw [interrupt_eq hs hv hpriv hroom hmatch, run_call (onFrame_ok (readWords_atCall hroom)
    (frameOf_ofWords (hasEntry_lt hv) errorCode c) hhandler), hrest]

/-! ## The return -/

theorem restored_top (hroom : Room t left c) {i : ℕ} (hi : 11 + i < 16) :
    (restored (called left (atCall t l v errorCode c) r') r' c.ds).top i =
      r'.words.getD (11 + i) 0 := by
  have hbelow := hroom.below
  have habove := hroom.above
  have hesp := toNat_atCall_esp l v errorCode hroom
  refine Cpu.top_of_readWords (readWords_called left (atCall t l v errorCode c) r') ?_ hi ?_
  · show ((atCall t l v errorCode c).esp + 44).toNat = (atCall t l v errorCode c).esp.toNat + 4 * 11
    split at hesp <;> bv_omega
  · show (atCall t l v errorCode c).esp.toNat + 4 * 16 ≤ 2 ^ 32
    split at hesp <;> omega

theorem restored_returnsTo (hroom : Room t left c)
    (hkeep : (frameOf t v errorCode c).KeepsReturn r') :
    (restored (called left (atCall t l v errorCode c) r') r' c.ds).ReturnsTo c.eip c.cs c.eflags := by
  refine ⟨?_, ?_, ?_⟩
  · rw [restored_top hroom (by decide)]
    show BitVec.ofNat 32 r'.eip = c.eip
    rw [hkeep.eip]
    exact ofNat_toNat_word c.eip
  · rw [restored_top hroom (by decide)]
    show BitVec.ofNat 32 r'.cs = c.cs.setWidth 32
    rw [hkeep.cs]
    exact ofNat_toNat_word (c.cs.setWidth 32)
  · rw [restored_top hroom (by decide)]
    show BitVec.ofNat 32 r'.eflags = c.eflags
    rw [hkeep.eflags]
    exact ofNat_toNat_word c.eflags

/-- The memory at the call: the frame is written below `top`. -/
theorem mem_atCall (l : Labels) (v : ℕ) (errorCode : Option Word) (hroom : Room t left c) :
    OnlyIn ((c.onStack t).esp.toNat - 64) (c.onStack t).esp.toNat c.mem
      (atCall t l v errorCode c).mem := by
  have hbelow := hroom.below
  have hlength := length_frameWords t v errorCode c
  intro x hx
  exact writeWords_outside c.mem _ (by
    rw [List.length_reverse, hlength]
    split <;> omega)

/-- The memory behind the call: nothing is written but the stack below `top`. -/
theorem mem_called (hroom : Room t left c) (hkeep : (frameOf t v errorCode c).KeepsReturn r') :
    OnlyIn ((c.onStack t).esp.toNat - (64 + left.depth)) (c.onStack t).esp.toNat c.mem
      (called left (atCall t l v errorCode c) r').mem := by
  have hbelow := hroom.below
  have hesp := toNat_atCall_esp l v errorCode hroom
  have hpushed := mem_atCall l v errorCode hroom
  intro x hx
  show left.mem _ (writeWords _ _ r'.words) x = c.mem x
  rcases hx with hlow | hhigh
  · have hle : (c.onStack t).esp.toNat - 64 ≤ (atCall t l v errorCode c).esp.toNat := by
      split at hesp <;> omega
    rw [left.mem_of_lt _ (by omega), writeWords_outside _ _ (Or.inl (by omega))]
    exact hpushed x (Or.inl (by omega))
  · rw [left.mem_of_le _ (by split at hesp <;> omega)]
    by_cases hring : c.cpl = 0
    · -- the two words above the frame are written over with themselves
      rw [if_pos hring] at hesp
      have hstack : c.onStack t = c := if_pos hring
      have hlast : r'.words.drop 14 = readWords (atCall t l v errorCode c).mem
          (c.onStack t).esp.toNat 2 := by
        have hsame : readWords (atCall t l v errorCode c).mem (c.onStack t).esp.toNat 2 =
            readWords c.mem (c.onStack t).esp.toNat 2 :=
          readWords_congr fun y hy _ => hpushed y (Or.inr hy)
        have huseresp : BitVec.ofNat 32 r'.useresp = readWord c.mem c.esp.toNat := by
          rw [hkeep.useresp]
          show BitVec.ofNat 32 (if c.cpl = 0 then _ else _) = _
          rw [if_pos hring]
          exact ofNat_toNat_word _
        have hss : BitVec.ofNat 32 r'.ss = readWord c.mem (c.esp.toNat + 4) := by
          rw [hkeep.ss]
          show BitVec.ofNat 32 (if c.cpl = 0 then _ else _) = _
          rw [if_pos hring]
          exact ofNat_toNat_word _
        rw [hsame, hstack]
        show [BitVec.ofNat 32 r'.useresp, BitVec.ofNat 32 r'.ss] = _
        rw [huseresp, hss]
        rfl
      have hfirst : (r'.words.take 14).length = 14 := rfl
      have hplace : (atCall t l v errorCode c).esp.toNat + 4 * (r'.words.take 14).length =
          (c.onStack t).esp.toNat := by
        rw [hfirst]
        omega
      have houtside : x < (atCall t l v errorCode c).esp.toNat ∨
          (atCall t l v errorCode c).esp.toNat + 4 * (r'.words.take 14).length ≤ x := by
        rw [hfirst]
        omega
      rw [← List.take_append_drop 14 r'.words, writeWords_append, hplace, hlast,
        writeWords_readWords, writeWords_outside _ _ houtside]
      exact hpushed x (Or.inr hhigh)
    · rw [if_neg hring] at hesp
      have houtside : x < (atCall t l v errorCode c).esp.toNat ∨
          (atCall t l v errorCode c).esp.toNat + 4 * r'.words.length ≤ x := by
        show _ ∨ (atCall t l v errorCode c).esp.toNat + 4 * 16 ≤ x
        omega
      rw [writeWords_outside _ _ houtside]
      exact hpushed x (Or.inr hhigh)

/-- The program goes on with the registers the C function left in the frame. Its other data segment
registers become its `ds`, and the memory changes below the stack of the kernel at most. -/
theorem interrupt_returns (hs : TablesServe t l) (hv : HasEntry v)
    (hpriv : software = true → c.cpl ≤ (t.gates v).dpl) (hroom : Room t left c)
    (hmatch : errorCode.isSome = decide (v ∈ errCodeVectors)) (hrun : Runnable t c)
    (hhandler : handler (handlerOf v) (atCall t l v errorCode c).mem (frameOf t v errorCode c) s =
      .ok (r', s'))
    (hkeep : (frameOf t v errorCode c).KeepsReturn r') :
    ∃ m', interrupt t l handler left v software errorCode c s =
        .ok (withGeneral { c with es := c.ds, fs := c.ds, gs := c.ds, mem := m' } r', s') ∧
      OnlyIn ((c.onStack t).esp.toNat - (64 + left.depth)) (c.onStack t).esp.toNat c.mem m' := by
  refine ⟨(called left (atCall t l v errorCode c) r').mem, ?_, mem_called hroom hkeep⟩
  refine interrupt_toIret hs hv hpriv hroom hmatch hrun hhandler hkeep ?_
  have hreturns : (restored (called left (atCall t l v errorCode c) r') r' c.ds).ReturnsTo c.eip c.cs
      c.eflags := restored_returnsTo hroom hkeep
  have hzero : (restored (called left (atCall t l v errorCode c) r') r' c.ds).cpl = 0 := by
    show rpl 0x08 = 0
    decide
  have hcpl : rpl c.cs = c.cpl := rfl
  by_cases hring : c.cpl = 0
  · have hstack : c.onStack t = c := if_pos hring
    have hesp := toNat_atCall_esp l v errorCode hroom
    have hbelow := hroom.below
    rw [if_pos hring, hstack] at hesp
    rw [hstack] at hbelow
    rw [Tables.iret_same hreturns hrun.code (hcpl.trans (hring.trans hzero.symm))]
    have hback : (atCall t l v errorCode c).esp + 44 + 12 = c.esp := by bv_omega
    have hss : (c.onStack t).ss = c.ss := by rw [hstack]
    exact congrArg Except.ok (Cpu.ext rfl rfl rfl rfl hback rfl rfl rfl rfl rfl rfl rfl rfl hss rfl
      rfl rfl)
  · have hesp : (restored (called left (atCall t l v errorCode c) r') r' c.ds).top 3 = c.esp := by
      rw [restored_top hroom (by decide)]
      show BitVec.ofNat 32 r'.useresp = c.esp
      rw [hkeep.useresp]
      show BitVec.ofNat 32 (if c.cpl = 0 then _ else _) = _
      rw [if_neg hring]
      exact ofNat_toNat_word _
    have hss : (restored (called left (atCall t l v errorCode c) r') r' c.ds).top 4 =
        c.ss.setWidth 32 := by
      rw [restored_top hroom (by decide)]
      show BitVec.ofNat 32 r'.ss = c.ss.setWidth 32
      rw [hkeep.ss]
      show BitVec.ofNat 32 (if c.cpl = 0 then _ else _) = _
      rw [if_neg hring]
      exact ofNat_toNat_word _
    have hds : t.kept (rpl c.cs) c.ds = c.ds := Tables.kept_of_dataOk hrun.data
    rw [Tables.iret_outer hreturns hesp hss hrun.code (by omega) (hrun.stack hring)]
    exact congrArg Except.ok (Cpu.ext rfl rfl rfl rfl rfl rfl rfl rfl hds hds hds hds rfl rfl rfl
      rfl rfl)

/-- An interrupt whose handler changes nothing is not to be told from none, outside the stack of the
kernel, exactly for a program whose data segment registers are all alike. -/
theorem interrupt_transparent_iff (hs : TablesServe t l) (hv : HasEntry v)
    (hpriv : software = true → c.cpl ≤ (t.gates v).dpl) (hroom : Room t left c)
    (hmatch : errorCode.isSome = decide (v ∈ errCodeVectors)) (hrun : Runnable t c)
    (hhandler : handler (handlerOf v) (atCall t l v errorCode c).mem (frameOf t v errorCode c) s =
      .ok (frameOf t v errorCode c, s')) :
    (∃ m', interrupt t l handler left v software errorCode c s = .ok ({ c with mem := m' }, s') ∧
      OnlyIn ((c.onStack t).esp.toNat - (64 + left.depth)) (c.onStack t).esp.toNat c.mem m') ↔
      c.es = c.ds ∧ c.fs = c.ds ∧ c.gs = c.ds := by
  obtain ⟨m, hreturn, honly⟩ := interrupt_returns hs hv hpriv hroom hmatch hrun hhandler
    ⟨rfl, rfl, rfl, rfl, rfl, rfl⟩
  have hgeneral : withGeneral { c with es := c.ds, fs := c.ds, gs := c.ds, mem := m }
      (frameOf t v errorCode c) = { c with es := c.ds, fs := c.ds, gs := c.ds, mem := m } := by
    unfold withGeneral frameOf
    dsimp only
    simp only [ofNat_toNat_word]
  rw [hreturn, hgeneral]
  constructor
  · rintro ⟨m', hsame, -⟩
    have hcpu := congrArg Prod.fst (Except.ok.inj hsame)
    exact ⟨(congrArg Cpu.es hcpu).symm, (congrArg Cpu.fs hcpu).symm, (congrArg Cpu.gs hcpu).symm⟩
  · rintro ⟨hes, hfs, hgs⟩
    refine ⟨m, ?_, honly⟩
    exact congrArg (fun c => Except.ok (c, s')) (Cpu.ext rfl rfl rfl rfl rfl rfl rfl rfl rfl hes.symm
      hfs.symm hgs.symm rfl rfl rfl rfl rfl)

/-- A breakpoint of a task, with a handler that does nothing, and with another `fs`. -/
theorem interrupt_transparent_iff_breakpoint :
    (∃ m', interrupt (bootTables stubsInRow 0 0xD0010000 Gdt.zero) stubsInRow
        (fun _ _ r s => (.ok (r, s) : Except Empty (Registers × Unit))) ⟨1, 2, 3, 4, 100, fun _ => 5⟩ 3
        false none { freshTask with fs := 0 } () = .ok ({ freshTask with fs := 0, mem := m' }, ()) ∧
      OnlyIn ((0xD0010000 : Word).toNat - (64 + 100)) (0xD0010000 : Word).toNat freshTask.mem m') ↔
      (0x23 : Selector) = 0x23 ∧ (0 : Selector) = 0x23 ∧ (0x23 : Selector) = 0x23 :=
  interrupt_transparent_iff (bootTables_serves stubsInRow 0 0xD0010000 Gdt.zero)
    (show HasEntry 3 from Or.inl (by decide)) (fun h => Bool.noConfusion h) ⟨by decide, by decide⟩
    (by decide) (runnable_of_task stubsInRow Gdt.zero 0 0xD0010000 rfl rfl rfl) rfl

end Interrupt

end Evos
