import Evos.Interrupt.FromTask

/-! # `syscall.c`: system calls of a task

A task that executes `int $0x80` finds its registers as they were but for `eax`, where the result is,
and the segment registers, which all become its `ds`. What `tty_write` puts are the bytes of the task
up to the count, but for those that are 0. -/

namespace Evos
open Processor ByteMemory
set_option autoImplicit false

variable {m : Mem} {s : IrqState}

/-! ## `tty_write` -/

/-- The bytes from an address on; addresses wrap. -/
def userBytes (m : Mem) : ℕ → BitVec 32 → List (BitVec 8)
  | 0, _ => []
  | n + 1, data => (m data.toNat).toBitVec :: userBytes m n (data + 1)

theorem add_one_add_ofNat (a : BitVec 32) (i : ℕ) :
    a + 1 + BitVec.ofNat 32 i = a + BitVec.ofNat 32 (i + 1) := by
  rw [BitVec.ofNat_add, BitVec.add_assoc, BitVec.add_comm 1]
  rfl

/-- A character is printed, unless it is the one that ends strings. -/
theorem print_char (b : BitVec 8) (s : IrqState) :
    s.print "%c" [.word (b.signExtend 32)] = .ok (s.showing (if b = 0 then [] else [b])) := by
  have hword : (argWords [.word (b.signExtend 32)] 0).setWidth 8 = b := by
    show (b.signExtend 32).setWidth 8 = b
    apply BitVec.eq_of_getLsbD_eq
    intro i hi
    rw [BitVec.getLsbD_setWidth, BitVec.getLsbD_signExtend]
    simp only [hi, show i < 32 by omega, decide_true, Bool.true_and, if_true]
  unfold IrqState.print printkArgs
  rw [printk_char, hword]
  by_cases hb : b = 0
  · rw [if_pos hb, if_pos hb]
    rfl
  · rw [if_neg hb, if_neg hb]
    rfl

theorem userBytes_eq_map (m : Mem) (n : ℕ) (a : Word) :
    userBytes m n a = (List.range n).map fun i => (m (a + BitVec.ofNat 32 i).toNat).toBitVec := by
  induction n generalizing a with
  | zero => rfl
  | succ n ih =>
    have hzero : a + BitVec.ofNat 32 0 = a := BitVec.add_zero a
    rw [userBytes, ih, List.range_succ_eq_map, List.map_cons, List.map_map, hzero]
    refine congrArg _ (List.map_congr_left fun i _ => ?_)
    rw [add_one_add_ofNat]
    rfl

/-- The bytes that are printed of a text. -/
def shown (text : List (BitVec 8)) : List (BitVec 8) := text.filter (· ≠ 0)

theorem shown_cons (b : BitVec 8) (text : List (BitVec 8)) :
    shown (b :: text) = (if b = 0 then [] else [b]) ++ shown text := by
  unfold shown
  by_cases hb : b = 0
  · rw [if_pos hb, List.filter_cons_of_neg (by simpa using hb), List.nil_append]
  · rw [if_neg hb, List.filter_cons_of_pos (by simpa using hb)]
    rfl

theorem ttyWriteLoop_mapped (m : Mem) {n : ℕ} {data : BitVec 32} {s : IrqState}
    (h : ∀ i < n, s.reach.mapped (data + BitVec.ofNat 32 i) = true) :
    ttyWriteLoop m n data s = .ok (s.showing (shown (userBytes m n data))) := by
  induction n generalizing data s with
  | zero => rfl
  | succ n ih =>
    have hfirst : s.reach.mapped data = true := by simpa using h 0 (Nat.succ_pos n)
    have hrest : ∀ i < n, s.reach.mapped (data + 1 + BitVec.ofNat 32 i) = true := by
      intro i hi
      rw [add_one_add_ofNat]
      exact h (i + 1) (by omega)
    unfold ttyWriteLoop userBytes
    rw [if_pos hfirst, print_char]
    dsimp only
    rw [ih (s := s.showing _) hrest, shown_cons, IrqState.showing_append]

/-- At the first address where nothing is mapped the kernel itself faults. -/
theorem ttyWriteLoop_unmapped (m : Mem) {n k : ℕ} {data : BitVec 32} {s : IrqState} (hk : k < n)
    (h : ∀ i < k, s.reach.mapped (data + BitVec.ofNat 32 i) = true)
    (hbad : s.reach.mapped (data + BitVec.ofNat 32 k) = false) :
    ttyWriteLoop m n data s = .error (.panic "Page fault!"
      ({ s with cr2 := data + BitVec.ofNat 32 k }.showing (shown (userBytes m k data) ++
        pageFaultText 0 (data + BitVec.ofNat 32 k) s.reach.readAt))) := by
  induction n generalizing k data s with
  | zero => omega
  | succ n ih =>
    cases k with
    | zero =>
      have hzero : data + BitVec.ofNat 32 0 = data := BitVec.add_zero data
      rw [hzero] at hbad ⊢
      unfold ttyWriteLoop
      rw [if_neg (by rw [hbad]; exact Bool.false_ne_true), readFault_eq]
      rfl
    | succ k =>
      have hfirst : s.reach.mapped data = true := by simpa using h 0 (Nat.succ_pos k)
      have hrest : ∀ i < k, s.reach.mapped (data + 1 + BitVec.ofNat 32 i) = true := by
        intro i hi
        rw [add_one_add_ofNat]
        exact h (i + 1) (by omega)
      have hnext := add_one_add_ofNat data k
      rw [← hnext] at hbad ⊢
      unfold ttyWriteLoop userBytes
      rw [if_pos hfirst, print_char]
      dsimp only
      rw [ih (s := s.showing _) (by omega) hrest hbad, shown_cons, List.append_assoc,
        IrqState.showing_append (if (m data.toNat).toBitVec = 0 then [] else _)]
      rfl

/-! ## `syscall_handler` -/

/-- What a system call puts on the console, for `eax`, `ebx` and `ecx`. -/
def syscallText (m : Mem) (eax ebx ecx : BitVec 32) : List (BitVec 8) :=
  if numSyscalls ≤ eax.toNat then literal "Invalid syscall! Returning.\n"
  else if eax = 0 then literal "Null syscall\n"
  else shown (userBytes m ecx.toNat ebx)

/-- What it returns. -/
def syscallResult (eax ecx : BitVec 32) : BitVec 32 := if eax = 1 then ecx else -1

/-- The first byte that a system call is to print and that is not mapped. -/
def Reach.unmapped (r : Reach) (eax ebx ecx : BitVec 32) : Option ℕ :=
  if eax = 1 then
    (List.range ecx.toNat).find? fun i => !r.mapped (ebx + BitVec.ofNat 32 i)
  else none

theorem Reach.unmapped_none {r : Reach} {eax ebx ecx : BitVec 32}
    (h : r.unmapped eax ebx ecx = none) (heax : eax = 1) :
    ∀ i < ecx.toNat, r.mapped (ebx + BitVec.ofNat 32 i) = true := by
  intro i hi
  unfold Reach.unmapped at h
  rw [if_pos heax] at h
  simpa using List.find?_eq_none.mp h i (List.mem_range.mpr hi)

theorem Reach.unmapped_of_mapped {r : Reach} {ebx ecx : BitVec 32} (eax : BitVec 32)
    (h : ∀ i < ecx.toNat, r.mapped (ebx + BitVec.ofNat 32 i) = true) :
    r.unmapped eax ebx ecx = none := by
  unfold Reach.unmapped
  split
  · exact List.find?_eq_none.mpr fun i hi => by simpa using h i (List.mem_range.mp hi)
  · rfl

theorem Reach.unmapped_some {r : Reach} {eax ebx ecx : BitVec 32} {k : ℕ}
    (h : r.unmapped eax ebx ecx = some k) :
    eax = 1 ∧ k < ecx.toNat ∧ r.mapped (ebx + BitVec.ofNat 32 k) = false ∧
      ∀ i < k, r.mapped (ebx + BitVec.ofNat 32 i) = true := by
  unfold Reach.unmapped at h
  by_cases heax : eax = 1
  · rw [if_pos heax] at h
    obtain ⟨hbad, hlt, hfirst⟩ := List.find?_range_eq_some.mp h
    exact ⟨heax, List.mem_range.mp hlt, by simpa using hbad, fun i hi => by simpa using hfirst i hi⟩
  · rw [if_neg heax] at h
    exact nomatch h

/-- What is on the console when `tty_write` has come to a byte that is not mapped. -/
def readFaultText (m : Mem) (r : Reach) (ebx : BitVec 32) (k : ℕ) : List (BitVec 8) :=
  shown (userBytes m k ebx) ++ pageFaultText 0 (ebx + BitVec.ofNat 32 k) r.readAt

theorem syscallHandler_eq (m : Mem) (regs : Registers) {s : IrqState} {eax ebx ecx : BitVec 32}
    (heax : regs.eax = eax.toNat) (hebx : regs.ebx = ebx.toNat) (hecx : regs.ecx = ecx.toNat)
    (hmapped : s.reach.unmapped eax ebx ecx = none) :
    syscallHandler m regs s =
      .ok ({ regs with eax := (syscallResult eax ecx).toNat },
        s.showing (syscallText m eax ebx ecx)) := by
  unfold syscallHandler syscallResult syscallText
  rw [heax]
  by_cases hinvalid : numSyscalls ≤ eax.toNat
  · have hone : eax ≠ 1 := by
      rintro rfl
      exact absurd hinvalid (by decide)
    rw [if_pos hinvalid, if_pos hinvalid, if_neg hone,
      IrqState.print_text (by decide) (by decide)]
  · rw [if_neg hinvalid, if_neg hinvalid]
    unfold numSyscalls at hinvalid
    by_cases hzero : eax = 0
    · have htoNat : eax.toNat = 0 := by rw [hzero]; rfl
      have hone : eax ≠ 1 := by
        rw [hzero]
        decide
      rw [if_pos htoNat, if_pos hzero, if_neg hone]
      unfold nullSyscall
      rw [IrqState.print_text (by decide) (by decide)]
    · have htoNat : eax.toNat ≠ 0 := fun h => hzero (BitVec.eq_of_toNat_eq h)
      have hone : eax = 1 := by
        apply BitVec.eq_of_toNat_eq
        show eax.toNat = 1
        omega
      rw [if_neg htoNat, if_neg hzero, if_pos hone, hebx, hecx]
      unfold ttyWrite
      rw [ofNat_toNat_word, ofNat_toNat_word,
        ttyWriteLoop_mapped m (Reach.unmapped_none hmapped hone)]

theorem syscallHandler_fault (m : Mem) (regs : Registers) {s : IrqState} {eax ebx ecx : BitVec 32}
    (heax : regs.eax = eax.toNat) (hebx : regs.ebx = ebx.toNat) (hecx : regs.ecx = ecx.toNat) {k : ℕ}
    (hbad : s.reach.unmapped eax ebx ecx = some k) :
    syscallHandler m regs s = .error (.panic "Page fault!"
      ({ s with cr2 := ebx + BitVec.ofNat 32 k }.showing (readFaultText m s.reach ebx k))) := by
  obtain ⟨hone, hk, hfalse, hfirst⟩ := Reach.unmapped_some hbad
  have htoNat : regs.eax = 1 := by rw [heax, hone]; rfl
  unfold syscallHandler numSyscalls
  rw [htoNat, if_neg (by omega)]
  dsimp only
  rw [if_neg Nat.one_ne_zero, hebx, hecx]
  unfold ttyWrite
  rw [ofNat_toNat_word, ofNat_toNat_word, ttyWriteLoop_unmapped m hk hfirst hfalse]
  rfl

section Common
variable {regs : Registers} {eax ebx ecx : BitVec 32}
  (hregistered : s.interruptHandlers regs.intNo = some .syscallHandler)
  (heax : regs.eax = eax.toNat) (hebx : regs.ebx = ebx.toNat) (hecx : regs.ecx = ecx.toNat)

include hregistered heax hebx hecx

theorem isrCommonHandler_syscall (m : Mem) (hno : regs.intNo ≠ 13)
    (hmapped : s.reach.unmapped eax ebx ecx = none) :
    isrCommonHandler m regs s =
      .ok ({ regs with eax := (syscallResult eax ecx).toNat },
        s.showing (syscallText m eax ebx ecx)) := by
  unfold isrCommonHandler
  rw [hregistered]
  dsimp only
  unfold callIsr
  dsimp only
  rw [syscallHandler_eq m regs heax hebx hecx hmapped]
  dsimp only
  rw [if_neg hno]

theorem isrCommonHandler_fault (m : Mem) {k : ℕ} (hbad : s.reach.unmapped eax ebx ecx = some k) :
    isrCommonHandler m regs s = .error (.panic "Page fault!"
      ({ s with cr2 := ebx + BitVec.ofNat 32 k }.showing (readFaultText m s.reach ebx k))) := by
  unfold isrCommonHandler
  rw [hregistered]
  dsimp only
  unfold callIsr
  dsimp only
  rw [syscallHandler_fault m regs heax hebx hecx hbad]

end Common

/-! ## `int` in a task -/

/-- `int n`: an instruction of two bytes. A fault is delivered in its place. -/
def softwareInt {ε σ : Type} (t : Tables) (l : Labels)
    (handler : CHandler → Mem → Registers → σ → Except ε (Registers × σ)) (left : Leftover) (n : ℕ)
    (c : Cpu) (s : σ) : Except (Stop ε) (Cpu × σ) :=
  match t.enter n true none { c with eip := c.eip + 2 } with
  | .ok _ => interrupt t l handler left n true none { c with eip := c.eip + 2 } s
  | .error f => interrupt t l handler left f.vector false (some f.errorCode) c s

theorem userBytes_congr {m m' : Mem} {n : ℕ} {data : BitVec 32}
    (h : ∀ i < n, m' (data + BitVec.ofNat 32 i).toNat = m (data + BitVec.ofNat 32 i).toNat) :
    userBytes m' n data = userBytes m n data := by
  rw [userBytes_eq_map, userBytes_eq_map]
  refine List.map_congr_left fun i hi => ?_
  rw [h i (List.mem_range.mp hi)]

theorem syscallText_congr {m m' : Mem} {eax ebx ecx : BitVec 32}
    (h : eax = 1 → ∀ i < ecx.toNat,
      m' (ebx + BitVec.ofNat 32 i).toNat = m (ebx + BitVec.ofNat 32 i).toNat) :
    syscallText m' eax ebx ecx = syscallText m eax ebx ecx := by
  unfold syscallText
  by_cases hinvalid : numSyscalls ≤ eax.toNat
  · rw [if_pos hinvalid, if_pos hinvalid]
  · rw [if_neg hinvalid, if_neg hinvalid]
    by_cases hzero : eax = 0
    · rw [if_pos hzero, if_pos hzero]
    · have hone : eax = 1 := by
        have hne : eax.toNat ≠ 0 := fun h => hzero (BitVec.eq_of_toNat_eq h)
        unfold numSyscalls at hinvalid
        apply BitVec.eq_of_toNat_eq
        show eax.toNat = 1
        omega
      rw [if_neg hzero, if_neg hzero, userBytes_congr (h hone)]

/-- The bytes a task has printed are not where the kernel saves its registers. -/
def OffStack (top data count : BitVec 32) : Prop :=
  ∀ i < count.toNat, (data + BitVec.ofNat 32 i).toNat < top.toNat - 64 ∨
    top.toNat ≤ (data + BitVec.ofNat 32 i).toNat

section Task
variable {l : Labels} {left : Leftover} {c : Cpu} {g : Gdt} {tss kernelRelocatedStack : BitVec 32}

theorem Runnable.withEip {t : Tables} (h : Runnable t c) (eip : Word) :
    Runnable t { c with eip := eip } :=
  ⟨h.code, h.stack, h.data⟩

theorem syscall_priv (hring : c.cpl = 3) :
    c.cpl ≤ ((bootTables l tss kernelRelocatedStack g).gates isrSyscall).dpl := by
  have hdpl : ((bootTables l tss kernelRelocatedStack g).gates isrSyscall).dpl = _ :=
    kernelGate_dpl _ (Or.inr rfl)
  rw [if_pos rfl] at hdpl
  exact hring.le.trans hdpl.ge

theorem softwareInt_syscall (left : Leftover) (hring : c.cpl = 3) :
    softwareInt (bootTables l tss kernelRelocatedStack g) l commonHandler left isrSyscall c s =
      interrupt (bootTables l tss kernelRelocatedStack g) l commonHandler left isrSyscall true none
        { c with eip := c.eip + 2 } s := by
  have hs := bootTables_serves l tss kernelRelocatedStack g
  have hring' : ({ c with eip := c.eip + 2 } : Cpu).cpl = 3 := hring
  unfold softwareInt
  rw [(hs.gate _ (Or.inr rfl)).enter none fun _ => syscall_priv hring']

/-- A system call prints what it says and goes on behind the instruction with its result in `eax`. -/
theorem syscall_of_task (hrun : Runnable (bootTables l tss kernelRelocatedStack g) c)
    (hring : c.cpl = 3) (hroom : StackRoom kernelRelocatedStack left.depth)
    (hregistered : s.interruptHandlers isrSyscall = some .syscallHandler)
    (hmapped : s.reach.unmapped c.eax c.ebx c.ecx = none)
    (hdata : c.eax = 1 → OffStack kernelRelocatedStack c.ebx c.ecx) :
    ∃ m', softwareInt (bootTables l tss kernelRelocatedStack g) l commonHandler left isrSyscall c s =
        .ok ({ c with
          eip := c.eip + 2, eax := syscallResult c.eax c.ecx
          es := c.ds, fs := c.ds, gs := c.ds, mem := m' },
          s.showing (syscallText c.mem c.eax c.ebx c.ecx)) ∧
      OnlyIn (kernelRelocatedStack.toNat - (64 + left.depth)) kernelRelocatedStack.toNat c.mem m' := by
  have hring' : ({ c with eip := c.eip + 2 } : Cpu).cpl = 3 := hring
  have hmem := mem_of_task l g tss isrSyscall none hring' hroom
  have htext : syscallText (atCall (bootTables l tss kernelRelocatedStack g) l isrSyscall none
      { c with eip := c.eip + 2 }).mem c.eax c.ebx c.ecx =
      syscallText c.mem c.eax c.ebx c.ecx :=
    syscallText_congr fun heax i hi => hmem _ (hdata heax i hi)
  have hcall : isrCommonHandler (atCall (bootTables l tss kernelRelocatedStack g) l isrSyscall none
      { c with eip := c.eip + 2 }).mem (frameOf (bootTables l tss kernelRelocatedStack g) isrSyscall
        none { c with eip := c.eip + 2 }) s = .ok (_, s.showing (syscallText _ c.eax c.ebx c.ecx)) :=
    isrCommonHandler_syscall hregistered rfl rfl rfl _ (show isrSyscall ≠ 13 by decide) hmapped
  rw [htext] at hcall
  rw [softwareInt_syscall left hring]
  exact delivered_of_task (syscallResult c.eax c.ecx) (Or.inr rfl) (fun _ => syscall_priv hring') rfl
    (hrun.withEip (c.eip + 2)) hring' hroom hcall

/-- A task that has something printed that is not mapped has the kernel fault and panic. -/
theorem syscallFault_of_task (hring : c.cpl = 3) (hroom : StackRoom kernelRelocatedStack left.depth)
    (hregistered : s.interruptHandlers isrSyscall = some .syscallHandler) {k : ℕ}
    (hbad : s.reach.unmapped c.eax c.ebx c.ecx = some k)
    (hdata : OffStack kernelRelocatedStack c.ebx c.ecx) :
    softwareInt (bootTables l tss kernelRelocatedStack g) l commonHandler left isrSyscall c s =
      .error (.callee (.panic "Page fault!" ({ s with cr2 := c.ebx + BitVec.ofNat 32 k }.showing
        (readFaultText c.mem s.reach c.ebx k)))) := by
  have hring' : ({ c with eip := c.eip + 2 } : Cpu).cpl = 3 := hring
  have hmem := mem_of_task l g tss isrSyscall none hring' hroom
  have hk := (Reach.unmapped_some hbad).2.1
  have htext : userBytes (atCall (bootTables l tss kernelRelocatedStack g) l isrSyscall none
      { c with eip := c.eip + 2 }).mem k c.ebx = userBytes c.mem k c.ebx :=
    userBytes_congr fun i hi => hmem _ (hdata i (by omega))
  have hcall : isrCommonHandler (atCall (bootTables l tss kernelRelocatedStack g) l isrSyscall none
      { c with eip := c.eip + 2 }).mem (frameOf (bootTables l tss kernelRelocatedStack g) isrSyscall
        none { c with eip := c.eip + 2 }) s = .error _ :=
    isrCommonHandler_fault hregistered rfl rfl rfl _ hbad
  unfold readFaultText at hcall ⊢
  rw [htext] at hcall
  rw [softwareInt_syscall left hring]
  exact stopped_of_task (Or.inr rfl) (fun _ => syscall_priv hring') rfl hring' hroom hcall

/-- Any other `int` of a task ends in a panic: the gate is closed, and nothing is registered for the
protection fault that is raised instead. -/
theorem int_of_task {n : ℕ} (hn : n ≠ isrSyscall) (hring : c.cpl = 3)
    (hroom : StackRoom kernelRelocatedStack left.depth) (hnone : s.interruptHandlers 13 = none) :
    softwareInt (bootTables l tss kernelRelocatedStack g) l commonHandler left n c s =
      .error (.callee (.panic "General protection fault :("
        (s.showing (literal "Received interrupt 13: General protection fault\n")))) := by
  have hclosed : ((bootTables l tss kernelRelocatedStack g).gates n).type = .invalid ∨
      ((bootTables l tss kernelRelocatedStack g).gates n).dpl <
        ({ c with eip := c.eip + 2 } : Cpu).cpl := by
    by_cases hv : HasEntry n
    · have hdpl : ((bootTables l tss kernelRelocatedStack g).gates n).dpl = _ :=
        kernelGate_dpl _ hv
      rw [if_neg hn] at hdpl
      refine Or.inr (lt_of_eq_of_lt hdpl ?_)
      show 0 < c.cpl
      omega
    · exact Or.inl (kernelGate_invalid _ hv)
  unfold softwareInt
  rw [Tables.enter_closed none hclosed]
  exact protectionFault_of_task _ hnone hring hroom

end Task

end Evos
