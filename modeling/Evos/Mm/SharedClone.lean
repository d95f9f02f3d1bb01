import Evos.Mm.PagedClone
import Evos.Mm.SharedGrowth

/-! # The blocks that cloning asks for

`clone_directory` asks for one block for the directory and one for each table that is not the
kernel's. What it asks for is known before the call, and the heap does not change otherwise. -/

namespace Evos
open ByteMemory Outcome
set_option autoImplicit false

/-! ## Steps that leave the heap alone -/

/-- The same heap and directories, and no growth in between. -/
structure SameHeap (s t : Kernel) : Prop where
  heap : t.heap = s.heap
  midpoints : t.midpoints = s.midpoints
  dirs : t.spaces.dirs = s.spaces.dirs

section Quiet
variable {s t u : Kernel} {top : ℕ} {rs : List (ℕ × Bool)}

theorem SameHeap.refl (s : Kernel) : SameHeap s s := ⟨rfl, rfl, rfl⟩

theorem SameHeap.trans (h : SameHeap s t) (h' : SameHeap t u) : SameHeap s u :=
  ⟨h'.heap.trans h.heap, h'.midpoints.trans h.midpoints, h'.dirs.trans h.dirs⟩

theorem Ready.same (h : Ready top rs s) (h' : SameHeap s t) : Ready top rs t :=
  h.congr h'.heap h'.midpoints

theorem pageAlloc_quiet (page : Option (ℕ × ℕ)) (w : Bool) (s : Kernel) :
    Ends (pageAlloc page w s) (fun _ t => SameHeap s t) fun t => SameHeap s t := by
  cases page with
  | none => exact ends_throw (SameHeap.refl s)
  | some page =>
    exact ends_pageAlloc (fun _ => SameHeap.refl s) (fun _ _ _ _ => ⟨rfl, rfl, rfl⟩)
      fun _ _ _ => SameHeap.refl s

theorem writeCloningPage_quiet (offset size : ℕ) (src : ℕ → UInt8) (s : Kernel) :
    Ends (writeCloningPage offset size src s) (fun _ t => SameHeap s t) fun t => SameHeap s t := by
  refine ends_get_bind (ends_get_bind ?_)
  cases s.spaces.translate s.cr3 pageCloningBuffer with
  | none => exact ends_throw (SameHeap.refl s)
  | some frame => exact ends_modify ⟨rfl, rfl, rfl⟩

theorem clonePageToPhysical_quiet (srcVirtual destPhysical : ℕ) (s : Kernel) :
    Ends (clonePageToPhysical srcVirtual destPhysical s) (fun _ t => SameHeap s t)
      fun t => SameHeap s t := by
  have hpoint : SameHeap s (s.pointCloningPage (destPhysical / 4096)) := ⟨rfl, rfl, rfl⟩
  refine ends_modify_bind (ends_get_bind (ends_get_bind ?_))
  cases (s.pointCloningPage (destPhysical / 4096)).spaces.translate
      (s.pointCloningPage (destPhysical / 4096)).cr3 srcVirtual with
  | none => exact ends_throw hpoint
  | some frame =>
    exact ends_get_bind ((writeCloningPage_quiet 0 4096 _ _).mono (fun _ _ h => hpoint.trans h)
      fun _ h => hpoint.trans h)

theorem mmMemcpyPhysical_quiet (destPhysical : ℕ) (src : ℕ → UInt8) (size : ℕ) (s : Kernel) :
    Ends (mmMemcpyPhysical destPhysical src size s) (fun _ t => SameHeap s t)
      fun t => SameHeap s t := by
  unfold mmMemcpyPhysical
  by_cases hsize : destPhysical % 4096 + size > 0x1000
  · rw [if_pos hsize]
    exact ends_throw (SameHeap.refl s)
  · rw [if_neg hsize]
    have hpoint : SameHeap s (s.pointCloningPage (destPhysical / 4096)) := ⟨rfl, rfl, rfl⟩
    exact ends_modify_bind ((writeCloningPage_quiet _ size src _).mono (fun _ _ h => hpoint.trans h)
      fun _ h => hpoint.trans h)

theorem clonePage_quiet (index src dest i : ℕ) (s : Kernel) :
    Ends (clonePage index src dest i s) (fun _ t => SameHeap s t) fun t => SameHeap s t := by
  refine ends_get_bind ?_
  by_cases h : (s.spaces.tables src i).address ≠ 0
  · rw [if_pos h]
    refine ends_bind (pageAlloc_quiet _ _ s) fun _ t ht => ends_get_bind ?_
    exact (clonePageToPhysical_quiet _ _ t).mono (fun _ _ h => ht.trans h) fun _ h => ht.trans h
  · rw [if_neg h]
    exact ends_pure (SameHeap.refl s)

theorem clonePages_quiet (index src dest i n : ℕ) (s : Kernel) :
    Ends (clonePages index src dest i n s) (fun _ t => SameHeap s t) fun t => SameHeap s t := by
  induction n generalizing i s with
  | zero => exact ends_pure (SameHeap.refl s)
  | succ n ih =>
    rw [clonePages_succ]
    refine ends_bind (clonePage_quiet index src dest i s) fun _ t ht => ?_
    exact (ih (i + 1) t).mono (fun _ _ h => ht.trans h) fun _ h => ht.trans h

theorem LowMidpoints.same (h : LowMidpoints top s) (h' : SameHeap s t) : LowMidpoints top t :=
  h.congr h'.midpoints

end Quiet

/-! ## What is asked for -/

/-- The block for a page table. -/
def tableRequest : ℕ × Bool := (pageTableSize, true)

/-- The block that `clone_directory` asks for at an entry: a table to copy. -/
def Kernel.entryRequests (s : Kernel) (src i : ℕ) : List (ℕ × Bool) :=
  if (s.spaces.dirs src).tables i ≠ 0 ∧ s.tableAt i ≠ (s.spaces.dirs src).tables i then [tableRequest]
  else []

/-- The blocks for the entries of a directory from `i` on. -/
def Kernel.entriesRequests (s : Kernel) (src i n : ℕ) : List (ℕ × Bool) :=
  (List.range' i n).flatMap (s.entryRequests src)

/-- The blocks for `clone_directory`. -/
def Kernel.cloneRequests (s : Kernel) (src : ℕ) : List (ℕ × Bool) :=
  (pageDirectorySize, true) :: s.entriesRequests src 0 1024

/-! ## Cloning -/

section Clone
variable {s t u : Kernel} {top src dir i p size : ℕ} {align : Bool} {rs : List (ℕ × Bool)}

theorem Took.ne_zero (h : Took s top size align p t) : p ≠ 0 := by
  obtain ⟨ts, hi⟩ := h.sound.inv
  have := (hi.live_bounds h.mem).1
  omega

/-- The entries of the source and of the kernel are as before. -/
structure SourceKept (s : Kernel) (src : ℕ) (t : Kernel) : Prop where
  source : (t.spaces.dirs src).tables = (s.spaces.dirs src).tables
  kernel : t.tableAt = s.tableAt

theorem SourceKept.trans (h : SourceKept s src t) (h' : SourceKept t src u) : SourceKept s src u :=
  ⟨h'.source.trans h.source, h'.kernel.trans h.kernel⟩

theorem sourceKept_of_dirs (hd : t.spaces.dirs = s.spaces.dirs)
    (hk : t.kernelDirectory = s.kernelDirectory) : SourceKept s src t := by
  refine ⟨by rw [hd], ?_⟩
  unfold Kernel.tableAt
  rw [hd, hk]

theorem sourceKept_setDir (hsrc : src ≠ dir) (hk : s.kernelDirectory ≠ dir) (x : PageDirectory) :
    SourceKept s src (s.setDir dir x) := by
  refine ⟨by rw [Kernel.setDir_of_ne hsrc], ?_⟩
  have hdir := @Kernel.setDir_of_ne s dir x _ hk
  funext j
  exact congrArg (fun x => PageDirectory.tables x j) hdir

theorem SourceKept.entriesRequests (h : SourceKept s src t) (i n : ℕ) :
    t.entriesRequests src i n = s.entriesRequests src i n := by
  unfold Kernel.entriesRequests Kernel.entryRequests
  rw [h.source, h.kernel]

/-- The entries below `i` are those the source has, and there are no others. -/
def EntriesMade (src dir i : ℕ) (s : Kernel) : Prop :=
  ∀ j, (s.spaces.dirs dir).tables j = 0 ↔ (j < i → (s.spaces.dirs src).tables j = 0)

theorem EntriesMade.congr (h : EntriesMade src dir i s) (hd : t.spaces.dirs = s.spaces.dirs) :
    EntriesMade src dir i t := by
  unfold EntriesMade
  rw [hd]
  exact h

theorem EntriesMade.setEntry (h : EntriesMade src dir i s) (hsrc : src ≠ dir) {table : ℕ}
    (physical : ℕ) (hne : (s.spaces.dirs src).tables i ≠ 0) (htable : table ≠ 0) :
    EntriesMade src dir (i + 1) (s.setDir dir ((s.spaces.dirs dir).setEntry i table physical)) := by
  intro j
  rw [Kernel.setDir_self, Kernel.setDir_of_ne hsrc]
  by_cases hji : j = i
  · subst hji
    rw [PageDirectory.setEntry_self]
    exact ⟨fun h0 => absurd h0 htable, fun h0 => absurd (h0 (Nat.lt_succ_self _)) hne⟩
  · rw [PageDirectory.setEntry_of_ne hji, h j]
    exact ⟨fun h0 hlt => h0 (by omega), fun h0 hlt => h0 (by omega)⟩

theorem EntriesMade.skip (h : EntriesMade src dir i s) (h0 : (s.spaces.dirs src).tables i = 0) :
    EntriesMade src dir (i + 1) s := by
  intro j
  rw [h j]
  constructor
  · intro hold hlt
    by_cases hji : j = i
    · exact hji ▸ h0
    · exact hold (by omega)
  · exact fun hnew hlt => hnew (by omega)

theorem cloneTable_ready (depth : ℕ) (hs : s.Sound top) (hr : Ready top (tableRequest :: rs) s)
    (index src : ℕ) :
    Ends (cloneTable depth index src s) (fun copy t => Ready top rs t ∧ copy.1 ≠ 0)
      (LowMidpoints top) := by
  have hsize : pageTableSize + 20 < 2 ^ 31 := by decide
  refine ends_bind (((kmallocAt_ready depth hs hsize hr true).and
    (kmallocAt_sound depth hs hsize true true)).mono (fun _ _ h => h) fun _ h => h.1) ?_
  rintro block t ⟨ht, htook, _⟩
  have hnew : Ready top rs ({ t.setTable block.1 PageTable.zero with
      paging := block.1 :: t.paging } : Kernel) := ht.congr rfl rfl
  refine ends_modify_bind (ends_bind ((clonePages_quiet index src block.1 0 1024 _).mono
    (fun _ _ h => h) fun _ h => hnew.low.same h) ?_)
  rintro _ u hu
  exact ends_pure ⟨hnew.same hu, htook.ne_zero⟩

theorem cloneEntry_ready (depth : ℕ) (h : Cloning top src dir i s) (hu : OwnSpaces s)
    (hm : EntriesMade src dir i s) (hr : Ready top (s.entryRequests src i ++ rs) s) :
    Ends (cloneEntry depth src dir i s)
      (fun _ t => Ready top rs t ∧ SourceKept s src t ∧ EntriesMade src dir (i + 1) t)
      (LowMidpoints top) := by
  have hsrc : src ≠ dir := fun he => h.new (he ▸ h.source)
  have hk : s.kernelDirectory ≠ dir := fun he => h.new (he ▸ h.paged.kernel)
  refine ends_get_bind ?_
  unfold Kernel.entryRequests at hr
  by_cases hne : (s.spaces.dirs src).tables i ≠ 0
  · rw [if_pos hne]
    by_cases hshared : (s.spaces.dirs s.kernelDirectory).tables i = (s.spaces.dirs src).tables i
    · rw [if_pos hshared]
      rw [if_neg fun hand => hand.2 hshared] at hr
      exact ends_modify ⟨hr.congr rfl rfl, sourceKept_setDir hsrc hk _, hm.setEntry hsrc _ hne hne⟩
    · rw [if_neg hshared]
      rw [if_pos ⟨hne, hshared⟩] at hr
      refine ends_bind (((cloneTable_paged depth h.paged hu i _).and
        (cloneTable_ready depth (h.paged.sound hu) hr i _)).mono (fun _ _ h => h) fun _ h => h.2) ?_
      rintro copy t ⟨⟨hp, ht⟩, hready, hcopy⟩
      have hkept : SourceKept s src t := sourceKept_of_dirs ht.dirs ht.use.kernelDirectory
      have hk' : t.kernelDirectory ≠ dir := by
        rw [ht.use.kernelDirectory]
        exact hk
      have hne' : (t.spaces.dirs src).tables i ≠ 0 := by
        rw [hkept.source]
        exact hne
      exact ends_modify ⟨hready.congr rfl rfl, hkept.trans (sourceKept_setDir hsrc hk' _),
        (hm.congr ht.dirs).setEntry hsrc _ hne' hcopy⟩
  · rw [if_neg hne]
    rw [if_neg fun hand => hne hand.1] at hr
    exact ends_pure ⟨hr, ⟨rfl, rfl⟩, hm.skip (Decidable.not_not.mp hne)⟩

theorem cloneEntries_ready (depth : ℕ) {n : ℕ} (h : Cloning top src dir i s) (hu : OwnSpaces s)
    (hm : EntriesMade src dir i s) (hr : Ready top (s.entriesRequests src i n ++ rs) s) :
    Ends (cloneEntries depth src dir i n s)
      (fun _ t => Ready top rs t ∧ SourceKept s src t ∧ EntriesMade src dir (i + n) t)
      (LowMidpoints top) := by
  induction n generalizing i s with
  | zero => exact ends_pure ⟨hr, ⟨rfl, rfl⟩, hm⟩
  | succ n ih =>
    have hsplit : s.entriesRequests src i (n + 1) =
        s.entryRequests src i ++ s.entriesRequests src (i + 1) n := by
      unfold Kernel.entriesRequests
      rw [List.range'_succ, List.flatMap_cons]
    rw [hsplit, List.append_assoc] at hr
    refine ends_bind (((cloneEntry_paged depth h).and (cloneEntry_ready depth h hu hm hr)).mono
      (fun _ _ h => h) fun _ h => h.2) ?_
    rintro _ t ⟨⟨ht, huse, _⟩, hready, hkept, hmade⟩
    rw [← hkept.entriesRequests] at hready
    have hnext := ih ht (huse.ownSpaces hu) hmade hready
    rw [show i + 1 + n = i + (n + 1) by omega] at hnext
    refine hnext.mono ?_ fun _ hu => hu
    exact fun _ u hu => ⟨hu.1, hkept.trans hu.2.1, hu.2.2⟩

/-- `clone_directory` asks for what it was said to ask for, and has the entries of its source. -/
theorem cloneDirectory_ready (depth : ℕ) (hs : s.Paged top) (hu : OwnSpaces s) (hsrc : src ∈ s.created)
    (hr : Ready top (s.cloneRequests src ++ rs) s) :
    Ends (cloneDirectory depth src s)
      (fun dir t => Ready top rs t ∧ ∀ j < 1024, (t.spaces.dirs dir).tables j = 0 ↔
        (s.spaces.dirs src).tables j = 0) (LowMidpoints top) := by
  have hsize : pageDirectorySize + 20 < 2 ^ 31 := by decide
  have hr' : Ready top ((pageDirectorySize, true) :: (s.entriesRequests src 0 1024 ++ rs)) s := hr
  refine ends_bind (((kmallocAt_ready depth (hs.sound hu) hsize hr' true).and
    (kmallocAp_paged depth hs hu hsize)).mono (fun _ _ h => h) fun _ h => h.1) ?_
  rintro block t ⟨hready, htook, ht⟩
  obtain ⟨hstart, huse⟩ := hs.startCloning (Or.inr hu) hsrc ht htook.grew.kept htook.mem htook.fresh
    block.2
  have hne : src ≠ block.1 := fun he => hstart.new (he ▸ hstart.source)
  have hk : t.kernelDirectory ≠ block.1 := fun he => hstart.new (he ▸ hstart.paged.kernel)
  have hset : SourceKept t src (t.addDirectory block.1 block.2) := by
    obtain ⟨hentries, hat⟩ := sourceKept_setDir hne hk
      { PageDirectory.zero with ismetaTablesPhysicalAddr := u32 (block.2 + 4096) }
    exact ⟨hentries, hat⟩
  have hkept : SourceKept s src (t.addDirectory block.1 block.2) :=
    (sourceKept_of_dirs htook.grew.dirs htook.grew.kept.kernelDirectory).trans hset
  have hmade : EntriesMade src block.1 0 (t.addDirectory block.1 block.2) := by
    intro j
    have hzero : ((t.addDirectory block.1 block.2).spaces.dirs block.1).tables j = 0 := by
      unfold Kernel.addDirectory
      dsimp only
      rw [Kernel.setDir_self]
      rfl
    exact ⟨fun _ hlt => absurd hlt (Nat.not_lt_zero j), fun _ => hzero⟩
  have hadd : Ready top (s.entriesRequests src 0 1024 ++ rs) (t.addDirectory block.1 block.2) :=
    hready.congr rfl rfl
  rw [← hkept.entriesRequests] at hadd
  refine ends_modify_bind (ends_bind (cloneEntries_ready depth hstart (huse.ownSpaces hu) hmade hadd) ?_)
  rintro _ u ⟨hready', hkept', hmade'⟩
  refine ends_modify_bind (ends_pure ⟨hready'.congr rfl rfl, fun j hj => ?_⟩)
  have hiff := hmade' j
  rw [(hkept.trans hkept').source] at hiff
  exact hiff.trans ⟨fun h0 => h0 (by omega), fun h0 _ => h0⟩

end Clone

end Evos
