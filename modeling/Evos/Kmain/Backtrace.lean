import Evos.Mm.Frame

/-! # `init_panic_backtrace`

`kmain` calls it before `init_mem`, when `mem_first_unused` is still 0. A section named `.strtab` is
copied to a block of `kmalloc`. -/

namespace Evos
open ByteMemory
set_option autoImplicit false

/-- The fields of a section header that are read; `name` is the text its offset points to. -/
structure SectionHeader where
  name : String
  addr : ℕ
  size : ℕ

/-- The statics of `panic.c`. -/
structure Backtrace where
  symbols : ℕ
  strtab : ℕ
  numSymbols : ℕ
  strtabLength : ℕ

/-- The kernel before `init_mem`, with the blocks `kmalloc` returned, the latest first. -/
structure EarlyKernel where
  low : LowMemory
  linear : List (ℕ × ℕ)
  backtrace : Backtrace

/-- The statics at the start of `kmain`. -/
def EarlyKernel.start (m : Mem) : EarlyKernel := ⟨⟨m, 0⟩, [], ⟨0, 0, 0, 0⟩⟩

/-- `memcpy`, byte by byte. -/
def memcpy : ℕ → ℕ → ℕ → Mem → Mem
  | _, _, 0, m => m
  | dest, src, num + 1, m =>
    memcpy (u32 (dest + 1)) (u32 (src + 1)) num (Function.update m dest (m src))

/-- The branch on `.strtab`. -/
def copyStrtab (sh : SectionHeader) (s : EarlyKernel) : EarlyKernel :=
  let size := u32 (sh.size + 8)
  let block := linearKmalloc size false s.low.memFirstUnused
  { low := ⟨memcpy block.1 sh.addr sh.size s.low.mem, block.2⟩
    linear := (block.1, size) :: s.linear
    backtrace := { s.backtrace with strtab := block.1, strtabLength := sh.size } }

/-- The branch on `.symtab`; an `elf_symbol_t` has 16 bytes. -/
def noteSymtab (sh : SectionHeader) (s : EarlyKernel) : EarlyKernel :=
  { s with backtrace := { s.backtrace with symbols := sh.addr, numSymbols := sh.size / 16 } }

/-- One round of the loop. -/
def parseSection (s : EarlyKernel) (sh : SectionHeader) : EarlyKernel :=
  let s := if sh.name = ".strtab" then copyStrtab sh s else s
  if sh.name = ".symtab" then noteSymtab sh s else s

/-- `init_panic_backtrace`, for the section headers the loop reads. -/
def initPanicBacktrace (flags : ℕ) (sections : List SectionHeader) (s : EarlyKernel) : EarlyKernel :=
  if flags.testBit 5 then sections.foldl parseSection s else s

/-! ## The blocks -/

/-- No string table is there to be copied. -/
def NoStrtab (flags : ℕ) (sections : List SectionHeader) : Prop :=
  flags.testBit 5 = true → ∀ sh ∈ sections, sh.name ≠ ".strtab"

theorem parseSection_of_ne {sh : SectionHeader} (h : sh.name ≠ ".strtab") (s : EarlyKernel) :
    (parseSection s sh).low = s.low ∧ (parseSection s sh).linear = s.linear := by
  unfold parseSection
  rw [if_neg h]
  dsimp only
  split <;> exact ⟨rfl, rfl⟩

theorem parseSection_of_eq {sh : SectionHeader} (h : sh.name = ".strtab") (s : EarlyKernel) :
    (parseSection s sh).linear =
      (s.low.memFirstUnused, u32 (sh.size + 8)) :: s.linear := by
  have hne : sh.name ≠ ".symtab" := by
    rw [h]
    decide
  unfold parseSection
  rw [if_pos h]
  dsimp only
  rw [if_neg hne]
  rfl

theorem parseSections_suffix (sections : List SectionHeader) (s : EarlyKernel) :
    s.linear <:+ (sections.foldl parseSection s).linear := by
  induction sections generalizing s with
  | nil => exact List.suffix_refl _
  | cons sh sections ih =>
    refine List.IsSuffix.trans ?_ (ih (parseSection s sh))
    by_cases h : sh.name = ".strtab"
    · rw [parseSection_of_eq h]
      exact List.suffix_cons _ _
    · exact ⟨[], by rw [(parseSection_of_ne h s).2, List.nil_append]⟩

theorem parseSections_none {sections : List SectionHeader} (s : EarlyKernel)
    (h : ∀ sh ∈ sections, sh.name ≠ ".strtab") :
    (sections.foldl parseSection s).linear = s.linear := by
  induction sections generalizing s with
  | nil => rfl
  | cons sh sections ih =>
    rw [List.foldl_cons, ih _ fun x hx => h x (List.mem_cons_of_mem _ hx)]
    exact (parseSection_of_ne (h sh List.mem_cons_self) s).2

theorem parseSections_first {sections : List SectionHeader} (s : EarlyKernel) {sh : SectionHeader}
    (hmem : sh ∈ sections) (hname : sh.name = ".strtab") :
    ∃ size, (s.low.memFirstUnused, size) ∈ (sections.foldl parseSection s).linear := by
  induction sections generalizing s with
  | nil => exact absurd hmem List.not_mem_nil
  | cons first sections ih =>
    rw [List.foldl_cons]
    by_cases h : first.name = ".strtab"
    · refine ⟨u32 (first.size + 8), (parseSections_suffix sections _).subset ?_⟩
      rw [parseSection_of_eq h]
      exact List.mem_cons_self
    · have hrest : sh ∈ sections := by
        rcases List.mem_cons.mp hmem with rfl | hrest
        · exact absurd hname h
        · exact hrest
      obtain ⟨size, hsize⟩ := ih (parseSection s first) hrest
      rw [(parseSection_of_ne h s).1] at hsize
      exact ⟨size, hsize⟩

theorem initPanicBacktrace_none {flags : ℕ} {sections : List SectionHeader} (s : EarlyKernel)
    (h : NoStrtab flags sections) : (initPanicBacktrace flags sections s).linear = s.linear := by
  unfold initPanicBacktrace
  split
  · rename_i hflag
    exact parseSections_none s (h hflag)
  · rfl

/-- A string table is copied to address 0, as `mem_first_unused` has not been set. -/
theorem initPanicBacktrace_some {flags : ℕ} {sections : List SectionHeader} (m : Mem)
    (h : ¬NoStrtab flags sections) :
    ∃ size, (0, size) ∈ (initPanicBacktrace flags sections (EarlyKernel.start m)).linear := by
  unfold NoStrtab at h
  push Not at h
  obtain ⟨hflag, sh, hmem, hname⟩ := h
  unfold initPanicBacktrace
  rw [if_pos hflag]
  exact parseSections_first (EarlyKernel.start m) hmem hname

end Evos
