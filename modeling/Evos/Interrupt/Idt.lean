import Evos.Interrupt.Segments

/-! # `idt.c`: the table of gates

`init_idt` clears the table and sets a gate for each exception, each interrupt line and the system
call. Only the gate of the system call is open to `int` instructions of a task. -/

namespace Evos
open Processor
set_option autoImplicit false

/-! ## Entries -/

/-- `idt_flags_t`. -/
structure IdtFlags where
  gateType : BitVec 4
  storageSegment : BitVec 1
  privilegeLevel : BitVec 2
  present : BitVec 1
  deriving DecidableEq

/-- `idt_entry_t`. -/
structure IdtEntry where
  handlerAddrLower : BitVec 16
  segment : BitVec 16
  reserved : BitVec 8
  flags : IdtFlags
  handlerAddrUpper : BitVec 16
  deriving DecidableEq

/-- All bytes zero. -/
def IdtEntry.zero : IdtEntry := ⟨0, 0, 0, ⟨0, 0, 0, 0⟩, 0⟩

def idt32bitInterruptGate : BitVec 4 := 0x0E
def picMasterLowInt : ℕ := 32
def picSlaveLowInt : ℕ := 40
def isrSyscall : ℕ := 0x80

/-- `idt_set_handler`; it sets every field. -/
def idtSetHandler (address : BitVec 32) (segment : BitVec 16) (flags : IdtFlags) : IdtEntry where
  handlerAddrLower := (address &&& 0xFFFF).setWidth 16
  handlerAddrUpper := ((address >>> 16) &&& 0xFFFF).setWidth 16
  segment := segment
  reserved := 0
  flags := flags

/-- `flags` of `init_idt`, for a privilege level. -/
def gateFlagsOf (privilegeLevel : BitVec 2) : IdtFlags :=
  { gateType := idt32bitInterruptGate, storageSegment := 0, privilegeLevel := privilegeLevel
    present := 1 }

/-- `init_idt` up to the load of the table, for the addresses of the labels `isr_n` and `irq_n`. -/
def initIdt (isr irq : ℕ → BitVec 32) : ℕ → IdtEntry :=
  let entries : ℕ → IdtEntry := fun _ => IdtEntry.zero
  let entries := (List.range 32).foldl (fun e i =>
    Function.update e i (idtSetHandler (isr i) 0x08 (gateFlagsOf 0))) entries
  let entries := Function.update entries 0x80 (idtSetHandler (isr 0x80) 0x08 (gateFlagsOf 3))
  (List.range 16).foldl (fun e i =>
    Function.update e (32 + i) (idtSetHandler (irq i) 0x08 (gateFlagsOf 0))) entries

/-! ## What the processor reads -/

/-- The gate an entry describes; types other than those of 32-bit interrupts and traps are left out. -/
def IdtEntry.gate (ent : IdtEntry) : Gate where
  type :=
    if ent.flags.storageSegment = 1 then .invalid
    else if ent.flags.gateType = 0xE then .interrupt
    else if ent.flags.gateType = 0xF then .trap
    else .invalid
  present := ent.flags.present == 1
  dpl := ent.flags.privilegeLevel.toNat
  selector := ent.segment
  offset := ent.handlerAddrUpper ++ ent.handlerAddrLower

variable {isr irq : ℕ → BitVec 32}

theorem idtSetHandler_offset (address : BitVec 32) (segment : BitVec 16) (flags : IdtFlags) :
    (idtSetHandler address segment flags).gate.offset = address := by
  have hlower : ((address &&& 0xFFFF).setWidth 16).toNat = address.toNat % 2 ^ 16 :=
    toNat_setWidth_mask address (by decide)
  have hupper : ((address >>> 16 &&& 0xFFFF).setWidth 16).toNat = address.toNat / 2 ^ 16 % 2 ^ 16 :=
    toNat_setWidth_shift address 16 (by decide)
  have hlt := address.isLt
  apply BitVec.eq_of_toNat_eq
  show (((address >>> 16 &&& 0xFFFF).setWidth 16) ++ ((address &&& 0xFFFF).setWidth 16)).toNat = _
  rw [BitVec.toNat_append, hlower, hupper, Nat.shiftLeft_eq, Nat.mul_comm,
    ← Nat.two_pow_add_eq_or_of_lt (by omega)]
  omega

theorem foldl_update {α : Type} (f : ℕ → ℕ) (hf : Function.Injective f) (value : ℕ → α) (n : ℕ)
    (e : ℕ → α) (i : ℕ) :
    (i < n → (List.range n).foldl (fun e i => Function.update e (f i) (value i)) e (f i) = value i) ∧
      ((∀ j < n, f j ≠ i) →
        (List.range n).foldl (fun e i => Function.update e (f i) (value i)) e i = e i) := by
  induction n with
  | zero => exact ⟨fun h => absurd h (Nat.not_lt_zero i), fun _ => rfl⟩
  | succ n ih =>
    rw [List.range_succ, List.foldl_append, List.foldl_cons, List.foldl_nil]
    refine ⟨fun h => ?_, fun h => ?_⟩
    · by_cases hi : i = n
      · rw [hi, Function.update_self]
      · rw [Function.update_of_ne fun he => hi (hf he)]
        exact ih.1 (by omega)
    · rw [Function.update_of_ne fun he => h n (by omega) he.symm]
      exact ih.2 fun j hj => h j (by omega)

theorem initIdt_isr {v : ℕ} (hv : v < 32) :
    initIdt isr irq v = idtSetHandler (isr v) 0x08 (gateFlagsOf 0) := by
  unfold initIdt
  rw [(foldl_update (32 + ·) (fun _ _ h => Nat.add_left_cancel h) _ 16 _ v).2 fun j _ => by omega,
    Function.update_of_ne (by omega)]
  exact (foldl_update id Function.injective_id _ 32 _ v).1 hv

theorem initIdt_irq {i : ℕ} (hi : i < 16) :
    initIdt isr irq (32 + i) = idtSetHandler (irq i) 0x08 (gateFlagsOf 0) := by
  unfold initIdt
  exact (foldl_update (32 + ·) (fun _ _ h => Nat.add_left_cancel h) _ 16 _ i).1 hi

theorem initIdt_syscall :
    initIdt isr irq 0x80 = idtSetHandler (isr 0x80) 0x08 (gateFlagsOf 3) := by
  unfold initIdt
  rw [(foldl_update (32 + ·) (fun _ _ h => Nat.add_left_cancel h) _ 16 _ 0x80).2 fun j _ => by omega,
    Function.update_self]

theorem initIdt_other {v : ℕ} (hv : 48 ≤ v) (hsyscall : v ≠ 0x80) :
    initIdt isr irq v = IdtEntry.zero := by
  unfold initIdt
  rw [(foldl_update (32 + ·) (fun _ _ h => Nat.add_left_cancel h) _ 16 _ v).2 fun j _ => by omega,
    Function.update_of_ne hsyscall]
  exact (foldl_update id Function.injective_id _ 32 _ v).2 fun j _ => by
    show j ≠ v
    omega

/-! ## The tables of the kernel -/

/-- The tables once `init_gdt` and `init_idt` are done. -/
def kernelTables (isr irq : ℕ → BitVec 32) (g : Gdt) : Tables where
  gates v := (initIdt isr irq v).gate
  descriptor := g.descriptor
  stack := g.tss.stack

/-- The label whose address is in the entry of a vector. -/
def labelOf (isr irq : ℕ → BitVec 32) (v : ℕ) : BitVec 32 :=
  if 32 ≤ v ∧ v < 48 then irq (v - 32) else isr v

/-- The vectors that have an entry. -/
def HasEntry (v : ℕ) : Prop := v < 48 ∨ v = isrSyscall

instance (v : ℕ) : Decidable (HasEntry v) := by
  unfold HasEntry
  infer_instance

theorem initIdt_of_hasEntry {v : ℕ} (h : HasEntry v) :
    initIdt isr irq v =
      idtSetHandler (labelOf isr irq v) 0x08 (gateFlagsOf (if v = isrSyscall then 3 else 0)) := by
  unfold labelOf
  by_cases hirq : 32 ≤ v ∧ v < 48
  · have hentry : initIdt isr irq (32 + (v - 32)) = _ := initIdt_irq (by omega)
    rw [Nat.add_sub_cancel' hirq.1] at hentry
    rw [if_pos hirq, if_neg (by unfold isrSyscall; omega)]
    exact hentry
  · rw [if_neg hirq]
    rcases h with hlow | rfl
    · rw [if_neg (by unfold isrSyscall; omega)]
      exact initIdt_isr (by omega)
    · rw [if_pos rfl]
      exact initIdt_syscall

variable (tss kernelRelocatedStack : BitVec 32) (g : Gdt)

/-- Code of the kernel. -/
def kernelCode : Descriptor := ⟨true, false, true, true, false, 0⟩

/-- The data segment of the kernel, which is also the segment of its stack. -/
theorem kernelTables_data :
    (kernelTables isr irq (initGdt tss kernelRelocatedStack true g)).descriptor 0x10 =
      some ⟨true, false, false, true, false, 0⟩ :=
  initGdt_descriptor tss kernelRelocatedStack g (s := 0x10) (i := 2) (by decide) (by decide)
    (by decide)

theorem kernelGate {v : ℕ} (h : HasEntry v) :
    (kernelTables isr irq (initGdt tss kernelRelocatedStack true g)).KernelGate v kernelCode := by
  have hgate : (kernelTables isr irq (initGdt tss kernelRelocatedStack true g)).gates v =
      (idtSetHandler (labelOf isr irq v) 0x08
        (gateFlagsOf (if v = isrSyscall then 3 else 0))).gate :=
    congrArg IdtEntry.gate (initIdt_of_hasEntry h)
  have hcode := initGdt_descriptor tss kernelRelocatedStack g (s := 0x08) (i := 1) (by decide)
    (by decide) (by decide)
  refine ⟨?_, ?_, ?_, ⟨rfl, rfl, rfl, rfl, rfl⟩, ?_⟩
  · rw [hgate]
    rfl
  · rw [hgate]
    rfl
  · have hselector : ((kernelTables isr irq (initGdt tss kernelRelocatedStack true g)).gates
        v).selector = 0x08 := by
      rw [hgate]
      rfl
    rw [hselector]
    refine hcode.trans ?_
    decide
  · show (kernelTables isr irq (initGdt tss kernelRelocatedStack true g)).stackOk 0 0x10 = true
    unfold Tables.stackOk
    rw [kernelTables_data]
    decide

theorem kernelGate_offset {v : ℕ} (h : HasEntry v) :
    ((kernelTables isr irq g).gates v).offset = labelOf isr irq v := by
  show (initIdt isr irq v).gate.offset = _
  rw [initIdt_of_hasEntry h]
  exact idtSetHandler_offset _ _ _

/-- The gate of the system call is open to tasks, the others are not, and the rest are no gates. -/
theorem kernelGate_dpl {v : ℕ} (h : HasEntry v) :
    ((kernelTables isr irq g).gates v).dpl = if v = isrSyscall then 3 else 0 := by
  show (initIdt isr irq v).gate.dpl = _
  rw [initIdt_of_hasEntry h]
  split <;> rfl

theorem kernelGate_invalid {v : ℕ} (h : ¬HasEntry v) :
    ((kernelTables isr irq g).gates v).type = .invalid := by
  have hv : ¬(v < 48 ∨ v = 0x80) := h
  show (initIdt isr irq v).gate.type = _
  rw [initIdt_other (by omega) (by omega)]
  rfl

end Evos
