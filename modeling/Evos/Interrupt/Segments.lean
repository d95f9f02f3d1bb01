import Evos.Foundations.Processor
import Evos.Gdt

/-! # `gdt.c`: the table and the task state

`init_gdt` sets up a null segment, code and data for rings 0 and 3, and the segment of the task state,
which holds the stack for ring 0. The I/O permission map of a task state lies where `iomap_base` says,
and `write_tss` leaves that at 0, so the fields of the task state are read as the map. -/

namespace Evos
open Processor
set_option autoImplicit false

/-! ## The task state -/

/-- `tss_entry_t`. -/
structure TssEntry where
  prevTss : BitVec 32
  esp0 : BitVec 32
  ss0 : BitVec 32
  esp1 : BitVec 32
  ss1 : BitVec 32
  esp2 : BitVec 32
  ss2 : BitVec 32
  cr3 : BitVec 32
  eip : BitVec 32
  eflags : BitVec 32
  eax : BitVec 32
  ecx : BitVec 32
  edx : BitVec 32
  ebx : BitVec 32
  esp : BitVec 32
  ebp : BitVec 32
  esi : BitVec 32
  edi : BitVec 32
  es : BitVec 32
  cs : BitVec 32
  ss : BitVec 32
  ds : BitVec 32
  fs : BitVec 32
  gs : BitVec 32
  ldt : BitVec 32
  trap : BitVec 16
  iomapBase : BitVec 16
  deriving DecidableEq

/-- All bytes zero. -/
def TssEntry.zero : TssEntry :=
  ⟨0, 0, 0, 0, 0, 0, 0, 0, 0, 0, 0, 0, 0, 0, 0, 0, 0, 0, 0, 0, 0, 0, 0, 0, 0, 0, 0⟩

/-- The words of the structure in memory. -/
def TssEntry.words (t : TssEntry) : List (BitVec 32) :=
  [t.prevTss, t.esp0, t.ss0, t.esp1, t.ss1, t.esp2, t.ss2, t.cr3, t.eip, t.eflags, t.eax, t.ecx,
    t.edx, t.ebx, t.esp, t.ebp, t.esi, t.edi, t.es, t.cs, t.ss, t.ds, t.fs, t.gs, t.ldt,
    t.iomapBase ++ t.trap]

/-- `sizeof(tss)`. -/
def sizeofTss : BitVec 32 := 104

/-! ## `init_gdt` -/

/-- `gdt_entries` and `tss`. -/
structure Gdt where
  entries : ℕ → GdtEntry
  tss : TssEntry

/-- `gdt_entries` and `tss` before anything is stored to them. -/
def Gdt.zero : Gdt := ⟨fun _ => ⟨0, 0, 0, ⟨0, 0, 0, 0, 0⟩, ⟨0, 0, 0, 0⟩, 0⟩, TssEntry.zero⟩

/-- `write_tss`, for `tss` at an address and the stack of the kernel. -/
def writeTss (tss kernelRelocatedStack : BitVec 32) (ent : GdtEntry) : GdtEntry × TssEntry :=
  let base := tss
  let limit := sizeofTss
  ({ ent with
      baseLower := (base &&& 0xFFFF).setWidth 16
      baseMid := ((base >>> 16) &&& 0xFF).setWidth 8
      baseHigh := ((base >>> 24) &&& 0xFF).setWidth 8
      accessFlags := { segmentParams := 1, isCode := 1, reserved := 0, ring := 3, present := 1 }
      granularity :=
        { limitHigh := ((limit >>> 16) &&& 0x0F).setWidth 4, reserved := 0, operandSize := 0
          granularity := 0 }
      limitLower := (limit &&& 0xFFFF).setWidth 16 },
    { TssEntry.zero with
      ss0 := 0x10, esp0 := kernelRelocatedStack, cs := 0x08 ||| 3
      ss := 0x10 ||| 3, ds := 0x10 ||| 3, es := 0x10 ||| 3, fs := 0x10 ||| 3, gs := 0x10 ||| 3 })

/-- The access flags of the code and data segments, for `is_code` and `ring`. -/
def segmentFlags (isCode : BitVec 1) (ring : BitVec 2) : AccessFlags :=
  { segmentParams := 2, isCode := isCode, reserved := 1, ring := ring, present := 1 }

/-- `init_gdt` up to the load of the table. -/
def initGdt (tss kernelRelocatedStack : BitVec 32) (initTss : Bool) (g : Gdt) : Gdt :=
  let set (i : ℕ) (limit : BitVec 32) (af : AccessFlags) (use4kib : BitVec 32)
      (entries : ℕ → GdtEntry) : ℕ → GdtEntry :=
    Function.update entries i (gdtSetEntry (entries i) 0 limit af use4kib)
  let entries := set 0 0 ⟨0, 0, 0, 0, 0⟩ 0 g.entries
  let entries := set 1 0xFFFFFFFF (segmentFlags 1 0) 1 entries
  let entries := set 2 0xFFFFFFFF (segmentFlags 0 0) 1 entries
  let entries := set 3 0xFFFFFFFF (segmentFlags 1 3) 1 entries
  let entries := set 4 0xFFFFFFFF (segmentFlags 0 3) 1 entries
  if initTss then
    let (ent, t) := writeTss tss kernelRelocatedStack (entries 5)
    ⟨Function.update entries 5 ent, t⟩
  else ⟨entries, g.tss⟩

/-! ## What the processor reads -/

/-- The descriptor of a code or data segment; the flag called reserved tells these from the others. -/
def GdtEntry.descriptor (ent : GdtEntry) : Descriptor where
  present := ent.accessFlags.present == 1
  system := ent.accessFlags.reserved == 0
  code := ent.accessFlags.isCode == 1
  readWrite := ent.accessFlags.segmentParams.getLsbD 1
  conforming := ent.accessFlags.segmentParams.getLsbD 2
  dpl := ent.accessFlags.ring.toNat

/-- The descriptor a selector names: there is no local table, and the first entry stands for none. -/
def Gdt.descriptor (g : Gdt) (s : Selector) : Option Descriptor :=
  if s.toNat / 4 % 2 = 1 ∨ s.toNat / 8 = 0 ∨ 6 ≤ s.toNat / 8 then none
  else some (g.entries (s.toNat / 8)).descriptor

/-- The stack for a ring. -/
def TssEntry.stack (t : TssEntry) : ℕ → Selector × BitVec 32
  | 0 => (t.ss0.setWidth 16, t.esp0)
  | 1 => (t.ss1.setWidth 16, t.esp1)
  | _ => (t.ss2.setWidth 16, t.esp2)

/-- A bit of the task state in memory. -/
def TssEntry.bit (t : TssEntry) (i : ℕ) : Bool := (t.words.getD (i / 32) 0).getLsbD (i % 32)

/-- Whether code outside the I/O privilege level may use a port: the two bytes of the map from the
bit on are within the limit, and the bit is clear. -/
def Gdt.ioAllowed (g : Gdt) (port : ℕ) : Bool :=
  let base := g.tss.iomapBase.toNat
  decide (base + port / 8 + 1 ≤ (g.entries 5).limit) && !g.tss.bit (8 * base + port)

variable (tss kernelRelocatedStack : BitVec 32) (g : Gdt)

/-! ## The segments -/

theorem initGdt_flat {i : ℕ} (hi : 1 ≤ i) (hi' : i ≤ 4) :
    ((initGdt tss kernelRelocatedStack true g).entries i).base = 0 ∧
      ((initGdt tss kernelRelocatedStack true g).entries i).limit = 0xFFFFFFFF := by
  have hentry : ∃ ent af, (initGdt tss kernelRelocatedStack true g).entries i =
      gdtSetEntry ent 0 0xFFFFFFFF af 1 := by
    have hcase : i = 1 ∨ i = 2 ∨ i = 3 ∨ i = 4 := by omega
    rcases hcase with rfl | rfl | rfl | rfl <;> exact ⟨_, _, rfl⟩
  obtain ⟨ent, af, he⟩ := hentry
  rw [he]
  exact ⟨gdtSetEntry_base ent 0 0xFFFFFFFF af 1, gdtSetEntry_limit_of_lt (by decide)⟩

theorem initGdt_descriptor {s : Selector} {i : ℕ} (hi : 1 ≤ i) (hi' : i ≤ 4)
    (hs : s.toNat = 8 * i + rpl s) :
    (initGdt tss kernelRelocatedStack true g).descriptor s =
      some ⟨true, false, i % 2 == 1, true, false, if i ≤ 2 then 0 else 3⟩ := by
  have hrpl : rpl s < 4 := Nat.mod_lt _ (by decide)
  have hindex : s.toNat / 8 = i := by omega
  have hcase : i = 1 ∨ i = 2 ∨ i = 3 ∨ i = 4 := by omega
  have hflags : ((initGdt tss kernelRelocatedStack true g).entries i).accessFlags =
      segmentFlags (if i % 2 = 1 then 1 else 0) (if i ≤ 2 then 0 else 3) := by
    rcases hcase with rfl | rfl | rfl | rfl <;> rfl
  unfold Gdt.descriptor GdtEntry.descriptor
  rw [if_neg (by omega), hindex, hflags]
  rcases hcase with rfl | rfl | rfl | rfl <;> decide

/-! ## The I/O permission map -/

/-- The ports whose bits are set in the words of the task state other than `esp0`: `ss0`, and the
six segment registers. -/
def closedPorts : List ℕ :=
  [68, 576, 577, 580, 608, 609, 611, 640, 641, 644, 672, 673, 676, 704, 705, 708, 736, 737, 740]

theorem writeTss_word (ent : GdtEntry) {w : ℕ} (hw : w ≠ 1) :
    (writeTss tss kernelRelocatedStack ent).2.words.getD w 0 = (writeTss 0 0 ent).2.words.getD w 0 := by
  cases w with
  | zero => rfl
  | succ w =>
    cases w with
    | zero => exact absurd rfl hw
    | succ w => rfl

set_option maxRecDepth 4000 in
theorem writeTss_bits (ent : GdtEntry) {w b : ℕ} (hw : w < 26) (hw' : w ≠ 1) (hb : b < 32) :
    ((writeTss tss kernelRelocatedStack ent).2.words.getD w 0).getLsbD b =
      decide (32 * w + b ∈ closedPorts) := by
  have hall : ∀ w < 26, w ≠ 1 → ∀ b < 32,
      ((writeTss 0 0 ⟨0, 0, 0, ⟨0, 0, 0, 0, 0⟩, ⟨0, 0, 0, 0⟩, 0⟩).2.words.getD w 0).getLsbD b =
        decide (32 * w + b ∈ closedPorts) := by
    decide +kernel
  rw [writeTss_word tss kernelRelocatedStack ent hw']
  exact hall w hw hw' b hb

theorem initGdt_tssLimit : ((initGdt tss kernelRelocatedStack true g).entries 5).limit = 104 := by
  have hgranularity : ((initGdt tss kernelRelocatedStack true g).entries 5).granularity =
      ⟨0, 0, 0, 0⟩ := rfl
  have hlower : ((initGdt tss kernelRelocatedStack true g).entries 5).limitLower = 104 := rfl
  unfold GdtEntry.limit GdtEntry.rawLimit
  rw [hgranularity, hlower]
  decide

/-- A task may use almost every port up to `0x33F`: the map is read from the fields of the task state,
and only the stack of the kernel and the selectors have bits set. -/
theorem ioAllowed_iff (port : ℕ) :
    (initGdt tss kernelRelocatedStack true g).ioAllowed port = true ↔
      port < 832 ∧ port ∉ closedPorts ∧
        ¬(port / 32 = 1 ∧ kernelRelocatedStack.getLsbD (port % 32) = true) := by
  have hlimit := initGdt_tssLimit tss kernelRelocatedStack g
  have hbase : (initGdt tss kernelRelocatedStack true g).tss.iomapBase.toNat = 0 := rfl
  have hport : 32 * (port / 32) + port % 32 = port := Nat.div_add_mod port 32
  unfold Gdt.ioAllowed TssEntry.bit
  dsimp only
  rw [hlimit, hbase, Nat.mul_zero, Nat.zero_add, Nat.zero_add, Bool.and_eq_true, decide_eq_true_eq,
    Bool.not_eq_true']
  by_cases hlow : port < 832
  · have hin : port / 8 + 1 ≤ 104 := by omega
    by_cases hword : port / 32 = 1
    · have hopen : port ∉ closedPorts := by
        intro hmem
        have hall : ∀ p ∈ closedPorts, p / 32 ≠ 1 := by decide
        exact hall port hmem hword
      have hbit : ((initGdt tss kernelRelocatedStack true g).tss.words.getD (port / 32) 0) =
          kernelRelocatedStack := by
        rw [hword]
        rfl
      rw [hbit]
      simp only [hin, hlow, hopen, hword, true_and, not_false_eq_true, Bool.not_eq_true]
    · have hbit := writeTss_bits tss kernelRelocatedStack (g.entries 5) (w := port / 32)
        (b := port % 32) (by omega) hword (Nat.mod_lt _ (by decide))
      rw [hport] at hbit
      have hsame : (initGdt tss kernelRelocatedStack true g).tss.words =
          (writeTss tss kernelRelocatedStack (g.entries 5)).2.words := rfl
      rw [hsame, hbit]
      simp only [hin, hlow, hword, true_and, false_and, not_false_eq_true, and_true,
        decide_eq_false_iff_not]
  · have hout : ¬port / 8 + 1 ≤ 104 := by omega
    simp only [hout, hlow, false_and]

end Evos
