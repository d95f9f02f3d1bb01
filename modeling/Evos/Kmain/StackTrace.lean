import Evos.Foundations.PartialChain
import Evos.Interrupt.FromTask

/-! # `__panic`

A panic prints where it comes from and follows the frame pointers up the stack. Where one of them is
not mapped, the page fault ends in a second panic. -/

namespace Evos
open Processor ByteMemory PartialChain
set_option autoImplicit false

/-! ## Symbols -/

/-- The fields of `elf_symbol_t` that are read. -/
structure ElfSymbol where
  name : Word
  value : Word
  size : Word
  info : BitVec 8

def elfSymbolFunction : BitVec 8 := 2

/-- `backtrace_lookup`; `none` is the string of its last line. -/
def backtraceLookup (strtab addr : Word) : List ElfSymbol → Option Word
  | [] => none
  | sym :: symbols =>
    if sym.info &&& 0xf ≠ elfSymbolFunction then backtraceLookup strtab addr symbols
    else if sym.value ≤ addr ∧ addr < sym.value + sym.size then some (strtab + sym.name)
    else backtraceLookup strtab addr symbols

/-! ## The panic -/

/-- What a panic reads. -/
structure PanicSource where
  symbols : List ElfSymbol
  strtab : Word
  /-- The string at an address. -/
  strings : Word → List (BitVec 8)
  /-- The word at an address, if that is mapped. -/
  read : Word → Option Word
  /-- The error code and the address of the instruction, of a page fault on the way. -/
  errCode : Word
  eip : Word

/-- The name printed for a return address. -/
def PanicSource.nameOf (p : PanicSource) (eip : Word) : List (BitVec 8) :=
  match backtraceLookup p.strtab eip p.symbols with
  | none => literal "(null)"
  | some name => p.strings name

/-- The arguments of `__panic`. -/
structure PanicSite where
  file : List (BitVec 8)
  func : List (BitVec 8)
  line : Word
  msg : List (BitVec 8)

/-- `print_stack_trace`, at most `n` frames of it. An address is where the trace faults. -/
def printStackTrace (p : PanicSource) :
    ℕ → Word → IrqState → Option (Except Halt (Option Word × IrqState))
  | 0, _, _ => none
  | n + 1, ebp, s =>
    if ebp = 0 then some (.ok (none, s))
    else match p.read (ebp + 4) with
    | none => some (.ok (some (ebp + 4), s))
    | some eip =>
      match s.print "  [%#08x] %s\n" [.word eip, .str (p.nameOf eip)] with
      | .error h => some (.error h)
      | .ok s =>
        match p.read ebp with
        | none => some (.ok (some ebp, s))
        | some ebp => printStackTrace p n ebp s

/-- `__panic` when `panicked_before` is set. -/
def doublePanic (s : IrqState) : Except Halt IrqState :=
  s.print "Double-panic. Flip the switch to `more magic' and try again" []

/-- A page fault in the trace ends in `__panic` again. -/
def nestedPanic (p : PanicSource) (address : Word) (s : IrqState) : Except Halt IrqState :=
  match pageFaultHandler { Registers.zero with
      intNo := 14, errCode := p.errCode.toNat, eip := p.eip.toNat } { s with cr2 := address } with
  | .error (.panic _ s) => doublePanic s
  | .error h => .error h
  -- the handler does not return
  | .ok (_, s) => .ok s

/-- `__panic` up to its `hlt`, for the first time, with at most `n` frames. -/
def kernelPanic (p : PanicSource) (site : PanicSite) (n : ℕ) (ebp : Word) (s : IrqState) :
    Option (Except Halt IrqState) :=
  match s.print "\n\rKernel panic\n'%s' in file %s:%d: %s\n"
      [.str site.func, .str site.file, .word site.line, .str site.msg] with
  | .error h => some (.error h)
  | .ok s =>
  match s.print "Stack trace:\n" [] with
  | .error h => some (.error h)
  | .ok s =>
  match printStackTrace p n ebp s with
  | none => none
  | some (.error h) => some (.error h)
  | some (.ok (none, s)) => some (.ok s)
  | some (.ok (some address, s)) => some (nestedPanic p address s)

/-! ## The texts -/

/-- `"\n\rKernel panic\n'%s' in file %s:%d: %s\n"`. -/
def panicPieces : List Piece :=
  [.text (literal "\n\rKernel panic\n'"), .string [] 0, .text (literal "' in file "), .string [] 0,
    .text (literal ":"), .number [] 0 (ch 'd'), .text (literal ": "), .string [] 0,
    .text (literal "\n")]

def panicArgs (site : PanicSite) : List PrintArg :=
  [.str site.func, .str site.file, .word site.line, .str site.msg]

/-- What is printed before the trace. -/
def panicText (site : PanicSite) : List (BitVec 8) :=
  printedText (argStrings (panicArgs site)) panicPieces (argWords (panicArgs site)) ++
    literal "Stack trace:\n"

/-- `"  [%#08x] %s\n"`. -/
def linePieces : List Piece :=
  [.text (literal "  ["), .number [ch '#', ch '0'] 8 (ch 'x'), .text (literal "] "), .string [] 0,
    .text (literal "\n")]

/-- One line of the trace. -/
def lineText (p : PanicSource) (eip : Word) : List (BitVec 8) :=
  printedText (argStrings [.word eip, .str (p.nameOf eip)]) linePieces
    (argWords [.word eip, .str (p.nameOf eip)])

/-- The strings of the kernel's functions and files fit into a message. -/
structure PanicSource.Fits (p : PanicSource) (site : PanicSite) : Prop where
  names : ∀ x, (p.strings x).length ≤ 4000 ∧ 0 ∉ p.strings x
  site : ∀ str ∈ [site.func, site.file, site.msg], str.length ≤ 1000 ∧ 0 ∉ str

section Texts
variable {p : PanicSource} {site : PanicSite}

theorem print_line (hfits : p.Fits site) (eip : Word) (s : IrqState) :
    s.print "  [%#08x] %s\n" [.word eip, .str (p.nameOf eip)] =
      .ok (s.showing (lineText p eip)) := by
  have hnull : (literal "(null)").length ≤ 4000 ∧ 0 ∉ literal "(null)" := by decide
  have hname : (p.nameOf eip).length ≤ 4000 ∧ 0 ∉ p.nameOf eip := by
    unfold PanicSource.nameOf
    cases backtraceLookup p.strtab eip p.symbols with
    | none => exact hnull
    | some name => exact hfits.names name
  have hroom : (linePieces.map (Piece.most 4000)).sum < sizeofBuf := by decide
  refine IrqState.print_message [.word eip, .str (p.nameOf eip)] linePieces rfl (by decide)
    (by unfold linePieces; simp [Piece.NoChar]) (by decide) (fun str hstr => ?_) hroom s
  simp only [List.mem_cons, List.not_mem_nil, or_false, reduceCtorEq, false_or,
    PrintArg.str.injEq] at hstr
  rw [hstr]
  exact hname

theorem print_panic (hfits : p.Fits site) (s : IrqState) :
    s.print "\n\rKernel panic\n'%s' in file %s:%d: %s\n" (panicArgs site) =
      .ok (s.showing (printedText (argStrings (panicArgs site)) panicPieces
        (argWords (panicArgs site)))) := by
  have hroom : (panicPieces.map (Piece.most 1000)).sum < sizeofBuf := by decide
  refine IrqState.print_message (panicArgs site) panicPieces rfl (by decide)
    (by unfold panicPieces; simp [Piece.NoChar]) (by decide) (fun str hstr => hfits.site str ?_) hroom s
  simp only [panicArgs, List.mem_cons, List.not_mem_nil, or_false, reduceCtorEq, false_or,
    PrintArg.str.injEq] at hstr ⊢
  exact hstr

end Texts

/-! ## The frames -/

/-- The frame above, if the one below and its return address can be read. -/
def frameAbove (p : PanicSource) (ebp : Word) : Option Word :=
  if ebp = 0 then none
  else match p.read (ebp + 4) with
  | none => none
  | some _ => p.read ebp

/-- The return addresses of at most `n` frames, and where the trace faults. -/
def returnAddresses (p : PanicSource) : ℕ → Word → List Word × Option Word
  | 0, _ => ([], none)
  | n + 1, ebp =>
    if ebp = 0 then ([], none)
    else match p.read (ebp + 4) with
    | none => ([], some (ebp + 4))
    | some eip =>
      match p.read ebp with
      | none => ([eip], some ebp)
      | some above =>
        let (eips, fault) := returnAddresses p n above
        (eip :: eips, fault)

/-- What a fault of the trace adds. -/
def faultText (p : PanicSource) : Option Word → List (BitVec 8)
  | none => []
  | some address =>
    pageFaultText p.errCode address p.eip ++
      literal "Double-panic. Flip the switch to `more magic' and try again"

/-- All that a panic prints, for a stack of less than `n` frames. -/
def haltText (p : PanicSource) (site : PanicSite) (n : ℕ) (ebp : Word) : List (BitVec 8) :=
  panicText site ++ (returnAddresses p n ebp).1.flatMap (lineText p) ++
    faultText p (returnAddresses p n ebp).2

section Trace
variable {p : PanicSource} {site : PanicSite}

theorem printStackTrace_eq (hfits : p.Fits site) (n : ℕ) (ebp : Word) (s : IrqState) :
    printStackTrace p n ebp s =
      if chain (frameAbove p) ebp n = none then
        some (.ok ((returnAddresses p n ebp).2,
          s.showing ((returnAddresses p n ebp).1.flatMap (lineText p))))
      else none := by
  induction n generalizing ebp s with
  | zero => exact (if_neg (Option.some_ne_none ebp)).symm
  | succ n ih =>
    rw [chain_succ]
    unfold printStackTrace returnAddresses
    by_cases hzero : ebp = 0
    · have hlast : frameAbove p ebp = none := if_pos hzero
      rw [if_pos hzero, if_pos hzero, hlast]
      rfl
    · have hframe : frameAbove p ebp = _ := if_neg hzero
      rw [if_neg hzero, if_neg hzero, hframe]
      cases hread : p.read (ebp + 4) with
      | none => rfl
      | some eip =>
        dsimp only
        rw [print_line hfits]
        cases p.read ebp with
        | none =>
          dsimp only
          rw [Option.bind_none, if_pos rfl, List.flatMap_singleton]
        | some above =>
          dsimp only
          rw [ih, Option.bind_some]
          by_cases hend : chain (frameAbove p) above n = none
          · rw [if_pos hend, if_pos hend, List.flatMap_cons, IrqState.showing_append]
          · rw [if_neg hend, if_neg hend]

theorem nestedPanic_eq (p : PanicSource) (address : Word) (s : IrqState) :
    nestedPanic p address s = .ok ({ s with cr2 := address }.showing
      (faultText p (some address))) := by
  unfold nestedPanic doublePanic
  rw [pageFaultHandler_eq rfl rfl]
  dsimp only
  rw [IrqState.print_text (by decide) (by decide)]
  unfold faultText
  rw [IrqState.showing_append]

theorem kernelPanic_eq (hfits : p.Fits site) (n : ℕ) (ebp : Word) (s : IrqState) :
    kernelPanic p site n ebp s =
      if chain (frameAbove p) ebp n = none then
        some (.ok (({ s with cr2 := (returnAddresses p n ebp).2.getD s.cr2 }).showing
          (haltText p site n ebp)))
      else none := by
  have hheader := print_panic hfits s
  unfold panicArgs at hheader
  unfold kernelPanic
  rw [hheader]
  dsimp only
  rw [IrqState.print_text (by decide) (by decide)]
  dsimp only
  rw [printStackTrace_eq hfits]
  by_cases hend : chain (frameAbove p) ebp n = none
  · rw [if_pos hend, if_pos hend]
    unfold haltText panicText panicArgs
    cases (returnAddresses p n ebp).2 with
    | none =>
      unfold faultText
      rw [List.append_nil, IrqState.showing_append, IrqState.showing_append]
      rfl
    | some address =>
      dsimp only
      rw [nestedPanic_eq, IrqState.showing_append, IrqState.showing_append, IrqState.showing_append]
      rfl
  · rw [if_neg hend, if_neg hend]

instance : Finite Word :=
  Finite.of_injective BitVec.toFin fun _ _ h => BitVec.eq_of_toNat_eq (congrArg Fin.val h)

/-- A panic comes to its `hlt` exactly if no frame pointer leads back to itself; then the console has
the whole trace, and behind it a page fault and a second panic where the stack ends in nothing. -/
theorem kernelPanic_halts_iff (hfits : p.Fits site) (ebp : Word) (s : IrqState) :
    (∃ n s', kernelPanic p site n ebp s = some (.ok s') ∧
      s'.devices.monitor = putAll (haltText p site n ebp) s.devices.monitor) ↔
      ¬∃ i j b, i < j ∧ chain (frameAbove p) ebp i = some b ∧ chain (frameAbove p) ebp j = some b := by
  rw [← chain_ends_iff]
  constructor
  · rintro ⟨n, s', hpanic, -⟩
    rw [kernelPanic_eq hfits] at hpanic
    by_cases hend : chain (frameAbove p) ebp n = none
    · exact ⟨n, hend⟩
    · rw [if_neg hend] at hpanic
      exact nomatch hpanic
  · rintro ⟨n, hend⟩
    have hpanic := kernelPanic_eq hfits n ebp s
    rw [if_pos hend] at hpanic
    exact ⟨n, _, hpanic, showing_monitor rfl _⟩

end Trace

/-- Two frames, the upper one in `__kmain`. -/
def kmainSource : PanicSource where
  symbols := [⟨1, 0x100000, 0x100, 1⟩, ⟨7, 0x100000, 0x100, 0x12⟩]
  strtab := 0xD0000100
  strings := fun _ => literal "__kmain"
  read := fun x =>
    if x = 0xD000FFE0 then some 0xD000FFF0 else if x = 0xD000FFF0 then some 0 else some 0x100010
  errCode := 0
  eip := 0x102000

def memSite : PanicSite where
  file := literal "mm/mem.c"
  func := literal "init_mem"
  line := 79
  msg := literal "Insufficient memory"

/-- Nothing is registered or mapped yet. -/
def bareIrq : IrqState := ⟨Devices.off, fun _ => none, 0, ⟨fun _ => false, 0⟩⟩

/-- The trace of two frames is printed. -/
theorem kernelPanic_halts_iff_kmain :
    ∃ n s', kernelPanic kmainSource memSite n 0xD000FFE0 bareIrq =
        some (.ok s') ∧
      s'.devices.monitor = putAll (haltText kmainSource memSite n 0xD000FFE0) Devices.off.monitor :=
  have hname : (literal "__kmain").length ≤ 4000 ∧ 0 ∉ literal "__kmain" := by decide
  (kernelPanic_halts_iff ⟨fun _ => hname, by decide⟩ _ _).mpr
    ((chain_ends_iff _ _).mp ⟨3, by decide⟩)

end Evos
