import Evos.Mm.CopyTable
import Evos.Mm.Paged

/-! # Cloning keeps the invariant

`clone_directory` enters the kernel's own tables in the new directory, and copies the others into new
blocks. So the clone shares the tables of the heap and that of the cloning page, like every directory
made before. -/

namespace Evos
open ByteMemory Segments Outcome
set_option autoImplicit false

/-! ## What is loaded and who uses it -/

/-- The same directories are loaded and in use, and none is forgotten. -/
structure SameUse (s t : Kernel) : Prop where
  kernelDirectory : t.kernelDirectory = s.kernelDirectory
  currentDirectory : t.currentDirectory = s.currentDirectory
  cr3 : t.cr3 = s.cr3
  tasks : t.tasks = s.tasks
  currentTask : t.currentTask = s.currentTask
  created : ∀ d ∈ s.created, d ∈ t.created

section Use
variable {s t u : Kernel}

theorem SameUse.refl (s : Kernel) : SameUse s s := ⟨rfl, rfl, rfl, rfl, rfl, fun _ h => h⟩

theorem SameUse.trans (h : SameUse s t) (h' : SameUse t u) : SameUse s u :=
  ⟨h'.kernelDirectory.trans h.kernelDirectory, h'.currentDirectory.trans h.currentDirectory,
    h'.cr3.trans h.cr3, h'.tasks.trans h.tasks, h'.currentTask.trans h.currentTask,
    fun d hd => h'.created d (h.created d hd)⟩

theorem Kept.sameUse (h : Kept s t) : SameUse s t :=
  ⟨h.kernelDirectory, h.currentDirectory, h.cr3, h.tasks, h.currentTask,
    fun d hd => by rw [h.created]; exact hd⟩

theorem SameUse.inUse (h : SameUse s t) : t.inUse = s.inUse := by
  unfold Kernel.inUse Kernel.taskDirectories Kernel.alive
  rw [h.currentDirectory, h.tasks]

theorem SameUse.ownSpaces (h : SameUse s t) (hu : OwnSpaces s) : OwnSpaces t := by
  intro d hd
  rw [h.cr3, h.inUse] at hd
  obtain ⟨hcreated, hne⟩ := hu d hd
  rw [h.kernelDirectory]
  exact ⟨h.created d hcreated, hne⟩

end Use

theorem Kernel.Paged.sound {s : Kernel} {top : ℕ} (hs : s.Paged top) (hu : OwnSpaces s) :
    s.Sound top := ⟨hs.inv, hu⟩

theorem kmallocAp_paged (depth : ℕ) {s : Kernel} {top size : ℕ} (hs : s.Paged top)
    (hu : OwnSpaces s) (hsize : size + 20 < 2 ^ 31) :
    Ends (kmallocAp depth size s) (fun block t => Took s top size true block.1 t ∧ t.Paged top)
      (MidpointsOK top) :=
  (kmallocAt_sound depth (hs.sound hu) hsize true true).mono (fun _ _ h => ⟨h.1, hs.took h.1⟩)
    fun _ h => h

/-! ## One table -/

section Table
variable {s t : Kernel} {top : ℕ}

/-- Copying pages changes pages, frames and their bytes only. -/
structure PagesOnly (s t : Kernel) : Prop where
  use : SameUse s t
  heap : t.heap = s.heap
  dirs : t.spaces.dirs = s.spaces.dirs
  paging : t.paging = s.paging
  created : t.created = s.created

theorem PagesOnly.refl (s : Kernel) : PagesOnly s s := ⟨SameUse.refl s, rfl, rfl, rfl, rfl⟩

theorem PagesOnly.trans {u : Kernel} (h : PagesOnly s t) (h' : PagesOnly t u) : PagesOnly s u :=
  ⟨h.use.trans h'.use, h'.heap.trans h.heap, h'.dirs.trans h.dirs, h'.paging.trans h.paging,
    h'.created.trans h.created⟩

theorem PageAllocated.pagesOnly {v i : ℕ} {w : Bool} (h : PageAllocated s v i w t) :
    PagesOnly s t :=
  ⟨h.kept.sameUse, h.heap, h.dirs, h.paging, h.kept.created⟩

theorem pagesOnly_pointCloningPage (s : Kernel) (f : ℕ) : PagesOnly s (s.pointCloningPage f) :=
  ⟨⟨rfl, rfl, rfl, rfl, rfl, fun _ h => h⟩, rfl, rfl, rfl, rfl⟩

theorem pagesOnly_writeRam (s : Kernel) (f offset size : ℕ) (src : ℕ → UInt8) :
    PagesOnly s (s.writeRam f offset size src) :=
  ⟨⟨rfl, rfl, rfl, rfl, rfl, fun _ h => h⟩, rfl, rfl, rfl, rfl⟩

theorem writeCloningPage_paged (hs : s.Paged top) (offset size : ℕ) (src : ℕ → UInt8) :
    Ends (writeCloningPage offset size src s) (fun _ t => t.Paged top ∧ PagesOnly s t)
      (MidpointsOK top) := by
  refine ends_get_bind (ends_get_bind ?_)
  cases s.spaces.translate s.cr3 pageCloningBuffer with
  | none => exact ends_throw hs.midpointsOK
  | some frame =>
    exact ends_modify ⟨hs.writeRam frame offset size src, pagesOnly_writeRam s frame offset size src⟩

theorem clonePageToPhysical_paged (hs : s.Paged top) (srcVirtual destPhysical : ℕ) :
    Ends (clonePageToPhysical srcVirtual destPhysical s) (fun _ t => t.Paged top ∧ PagesOnly s t)
      (MidpointsOK top) := by
  have hpoint := hs.pointCloningPage (destPhysical / 4096)
  refine ends_modify_bind (ends_get_bind (ends_get_bind ?_))
  cases (s.pointCloningPage (destPhysical / 4096)).spaces.translate
      (s.pointCloningPage (destPhysical / 4096)).cr3 srcVirtual with
  | none => exact ends_throw hpoint.midpointsOK
  | some frame =>
    refine ends_get_bind ((writeCloningPage_paged hpoint 0 4096 _).mono ?_ fun _ h => h)
    exact fun _ t ht => ⟨ht.1, (pagesOnly_pointCloningPage s _).trans ht.2⟩

theorem mmMemcpyPhysical_paged (hs : s.Paged top) (destPhysical : ℕ) (src : ℕ → UInt8) (size : ℕ) :
    Ends (mmMemcpyPhysical destPhysical src size s) (fun _ t => t.Paged top ∧ PagesOnly s t)
      (MidpointsOK top) := by
  unfold mmMemcpyPhysical
  by_cases hsize : destPhysical % 4096 + size > 0x1000
  · rw [if_pos hsize]
    exact ends_throw hs.midpointsOK
  · rw [if_neg hsize]
    have hpoint := hs.pointCloningPage (destPhysical / 4096)
    refine ends_modify_bind ((writeCloningPage_paged hpoint _ size src).mono ?_ fun _ h => h)
    exact fun _ t ht => ⟨ht.1, (pagesOnly_pointCloningPage s _).trans ht.2⟩

theorem clonePage_paged (hs : s.Paged top) (index src dest i : ℕ) :
    Ends (clonePage index src dest i s) (fun _ t => t.Paged top ∧ PagesOnly s t)
      (MidpointsOK top) := by
  refine ends_get_bind ?_
  by_cases h : (s.spaces.tables src i).address ≠ 0
  · rw [if_pos h]
    refine ends_bind ((pageAlloc_ends hs.framesOK dest i _).mono (fun _ _ hp => hp) fun t ht => ?_)
      fun _ t ht => ends_get_bind ?_
    · rw [ht]
      exact hs.midpointsOK
    · refine (clonePageToPhysical_paged (hs.pageAllocated ht) _ _).mono ?_ fun _ hu => hu
      exact fun _ u hu => ⟨hu.1, ht.pagesOnly.trans hu.2⟩
  · rw [if_neg h]
    exact ends_pure ⟨hs, PagesOnly.refl s⟩

theorem clonePages_paged (hs : s.Paged top) (index src dest i n : ℕ) :
    Ends (clonePages index src dest i n s) (fun _ t => t.Paged top ∧ PagesOnly s t)
      (MidpointsOK top) := by
  induction n generalizing i s with
  | zero => exact ends_pure ⟨hs, PagesOnly.refl s⟩
  | succ n ih =>
    rw [clonePages_succ]
    refine ends_bind (clonePage_paged hs index src dest i) fun _ t ht => ?_
    exact (ih ht.1 (i + 1)).mono (fun _ u hu => ⟨hu.1, ht.2.trans hu.2⟩) fun _ hu => hu

/-- What `clone_table` leaves alone. -/
structure TablesOnly (s t : Kernel) : Prop where
  use : SameUse s t
  dirs : t.spaces.dirs = s.spaces.dirs
  paging : ∀ p ∈ s.paging, p ∈ t.paging
  created : t.created = s.created

theorem cloneTable_paged (depth : ℕ) (hs : s.Paged top) (hu : OwnSpaces s) (index src : ℕ) :
    Ends (cloneTable depth index src s) (fun _ t => t.Paged top ∧ TablesOnly s t)
      (MidpointsOK top) := by
  refine ends_bind (kmallocAp_paged depth hs hu (by decide)) ?_
  rintro block t ⟨htook, ht⟩
  have hnew : (t.newTable block.1).Paged top := ht.newTable htook.mem
  refine ends_modify_bind (ends_bind (clonePages_paged hnew index src block.1 0 1024) ?_)
  rintro _ u ⟨hpaged, honly⟩
  have hkept := htook.grew.kept
  have huse : SameUse t (t.newTable block.1) := ⟨rfl, rfl, rfl, rfl, rfl, fun _ h => h⟩
  refine ends_pure ⟨hpaged, hkept.sameUse.trans (huse.trans honly.use), ?_, ?_, ?_⟩
  · exact honly.dirs.trans htook.grew.dirs
  · intro p hp
    rw [honly.paging]
    refine List.mem_cons_of_mem _ ?_
    rw [htook.grew.paging]
    exact hp
  · exact honly.created.trans hkept.created

end Table

/-! ## The entries -/

/-- The entries that every directory shares with the kernel's, or lacks. -/
def CommonEntry (j : ℕ) : Prop := 60 ≤ j ∧ j < 64 ∨ j = 960

instance (j : ℕ) : Decidable (CommonEntry j) := inferInstanceAs (Decidable (_ ∨ _))

theorem Kernel.Paged.common {s : Kernel} {top d j : ℕ} (hs : s.Paged top) (hd : d ∈ s.created)
    (hj : CommonEntry j) : (s.spaces.dirs d).tables j = s.tableAt j := by
  by_cases hk : d = s.kernelDirectory
  · rw [hk]
    rfl
  · obtain ⟨ts, h⟩ := hs.inv
    have hsh := (h.pages.shares d hd hk).1
    rcases hj with ⟨h1, h2⟩ | rfl
    · by_cases htop : j < top
      · exact hsh.heap j h1 htop
      · rw [hsh.none j (by omega) h2, hs.low j (by omega) h2]
    · exact hsh.cloning

/-- The entries below `i` are made; what is loaded are clones, unless it is the kernel's own directory
that is cloned. -/
structure Cloning (top src dir i : ℕ) (s : Kernel) : Prop where
  paged : s.Paged top
  own : src = s.kernelDirectory ∨ OwnSpaces s
  source : src ∈ s.created
  new : dir ∉ s.created
  held : dir ∈ s.paging
  inside : ¬Outside dir
  done : ∀ j, CommonEntry j → (s.spaces.dirs dir).tables j = if j < i then s.tableAt j else 0

section Entries
variable {s t : Kernel} {top src dir i : ℕ}

theorem Cloning.tablesOnly (h : Cloning top src dir i s) (hp : t.Paged top) (ht : TablesOnly s t) :
    Cloning top src dir i t := by
  have hk := ht.use.kernelDirectory
  have hat : t.tableAt = s.tableAt := by
    unfold Kernel.tableAt
    rw [ht.dirs, hk]
  refine ⟨hp, ?_, ?_, ?_, ht.paging dir h.held, h.inside, ?_⟩
  · rw [hk]
    exact h.own.imp id ht.use.ownSpaces
  · rw [ht.created]
    exact h.source
  · rw [ht.created]
    exact h.new
  · rw [ht.dirs, hat]
    exact h.done

/-- Entry `i` is set, to the kernel's table if it is one of the common ones. -/
theorem Cloning.setEntry (h : Cloning top src dir i s) {table : ℕ} (physical : ℕ)
    (htable : CommonEntry i → table = s.tableAt i) :
    Cloning top src dir (i + 1)
      (s.setDir dir ((s.spaces.dirs dir).setEntry i table physical)) := by
  have hk : dir ≠ s.kernelDirectory := fun he => h.new (he ▸ h.paged.kernel)
  have hat : (s.setDir dir ((s.spaces.dirs dir).setEntry i table physical)).tableAt = s.tableAt := by
    have hdir := @Kernel.setDir_of_ne s dir ((s.spaces.dirs dir).setEntry i table physical) _ hk.symm
    funext j
    exact congrArg (fun x => PageDirectory.tables x j) hdir
  refine ⟨h.paged.setDir h.new _, h.own, h.source, h.new, h.held, h.inside, fun j hj => ?_⟩
  rw [hat, Kernel.setDir_self]
  by_cases hji : j = i
  · subst hji
    rw [PageDirectory.setEntry_self, if_pos (Nat.lt_succ_self _), htable hj]
  · rw [PageDirectory.setEntry_of_ne hji, h.done j hj]
    by_cases hlt : j < i
    · rw [if_pos hlt, if_pos (by omega)]
    · rw [if_neg hlt, if_neg (by omega)]

theorem Cloning.skip (h : Cloning top src dir i s) (h0 : (s.spaces.dirs src).tables i = 0) :
    Cloning top src dir (i + 1) s := by
  refine { h with done := fun j hj => ?_ }
  rw [h.done j hj]
  by_cases hji : j = i
  · subst hji
    rw [if_neg (Nat.lt_irrefl _), if_pos (Nat.lt_succ_self _), ← h.paged.common h.source hj, h0]
  · by_cases hlt : j < i
    · rw [if_pos hlt, if_pos (by omega)]
    · rw [if_neg hlt, if_neg (by omega)]

theorem cloneEntry_paged (depth : ℕ) (h : Cloning top src dir i s) :
    Ends (cloneEntry depth src dir i s)
      (fun _ t => Cloning top src dir (i + 1) t ∧ SameUse s t ∧ t.created = s.created)
      (MidpointsOK top) := by
  refine ends_get_bind ?_
  by_cases hne : (s.spaces.dirs src).tables i ≠ 0
  · rw [if_pos hne]
    by_cases hk : (s.spaces.dirs s.kernelDirectory).tables i = (s.spaces.dirs src).tables i
    · rw [if_pos hk]
      exact ends_modify ⟨h.setEntry _ fun _ => hk.symm, ⟨rfl, rfl, rfl, rfl, rfl, fun _ hd => hd⟩, rfl⟩
    · rw [if_neg hk]
      have hcommon : ¬CommonEntry i := fun hi => hk (h.paged.common h.source hi).symm
      have hown : OwnSpaces s := h.own.resolve_left fun he => hk (by rw [he])
      refine ends_bind (cloneTable_paged depth h.paged hown i _) ?_
      rintro copy t ⟨hp, ht⟩
      have hnot : CommonEntry i → copy.1 = t.tableAt i := fun hi => absurd hi hcommon
      have ht' := (h.tablesOnly hp ht).setEntry (copy.2 ||| 7) hnot
      exact ends_modify ⟨ht', ⟨ht.use.1, ht.use.2, ht.use.3, ht.use.4, ht.use.5, ht.use.6⟩, ht.created⟩
  · rw [if_neg hne]
    exact ends_pure ⟨h.skip (Decidable.not_not.mp hne), SameUse.refl s, rfl⟩

theorem cloneEntries_paged (depth : ℕ) {n : ℕ} (h : Cloning top src dir i s) :
    Ends (cloneEntries depth src dir i n s)
      (fun _ t => Cloning top src dir (i + n) t ∧ SameUse s t ∧ t.created = s.created)
      (MidpointsOK top) := by
  induction n generalizing i s with
  | zero => exact ends_pure ⟨h, SameUse.refl s, rfl⟩
  | succ n ih =>
    refine ends_bind (cloneEntry_paged depth h) ?_
    rintro _ t ⟨ht, huse, hcreated⟩
    have hnext := ih ht
    rw [show i + 1 + n = i + (n + 1) by omega] at hnext
    refine hnext.mono ?_ fun _ hu => hu
    exact fun _ u hu => ⟨hu.1, huse.trans hu.2.1, hu.2.2.trans hcreated⟩

theorem Cloning.shares (h : Cloning top src dir 1024 s) : Shares s top dir := by
  have htop := h.paged.topLe
  have hdone : ∀ j, CommonEntry j → (s.spaces.dirs dir).tables j = s.tableAt j := by
    intro j hj
    have hlt : j < 1024 := by
      unfold CommonEntry at hj
      omega
    rw [h.done j hj, if_pos hlt]
  refine ⟨fun i h1 h2 => hdone i (Or.inl ⟨h1, by omega⟩), fun i h1 h2 => ?_, hdone 960 (Or.inr rfl)⟩
  by_cases h60 : 60 ≤ i
  · rw [hdone i (Or.inl ⟨h60, h2⟩)]
    exact h.paged.low i h1 h2
  · obtain ⟨ts, hi⟩ := h.paged.inv
    have := hi.pages.topGe
    omega

end Entries

/-! ## The directory -/

/-- What `clone_directory` leaves. -/
structure CloneMade (s : Kernel) (top d : ℕ) (t : Kernel) : Prop where
  paged : t.Paged top
  use : SameUse s t
  created : t.created = d :: s.created
  new : d ∉ s.created

theorem CloneMade.ne {s t : Kernel} {top d : ℕ} (h : CloneMade s top d t)
    (hk : s.kernelDirectory ∈ s.created) : d ≠ t.kernelDirectory := by
  rw [h.use.kernelDirectory]
  exact fun he => h.new (he ▸ hk)

theorem Kernel.Paged.startCloning {s t : Kernel} {top src b n : ℕ} (hs : s.Paged top)
    (hu : src = s.kernelDirectory ∨ OwnSpaces s) (hsrc : src ∈ s.created) (ht : t.Paged top)
    (hkept : Kept s t) (hl : (b, n) ∈ t.heap.live) (hfresh : ∀ n, (b, n) ∉ s.heap.live)
    (physical : ℕ) :
    Cloning top src b 0 (t.addDirectory b physical) ∧ SameUse s (t.addDirectory b physical) := by
  have hin := ht.live_inside hl
  have hnew : b ∉ t.created := by
    rw [hkept.created]
    exact (hs.fresh hfresh hin).1
  have huse : SameUse s (t.addDirectory b physical) :=
    hkept.sameUse.trans ⟨rfl, rfl, rfl, rfl, rfl, fun _ h => h⟩
  refine ⟨⟨ht.addDirectory hl hnew physical, ?_, huse.created src hsrc, hnew, List.mem_cons_self, hin,
    fun j _ => ?_⟩, huse⟩
  · rw [huse.kernelDirectory]
    exact hu.imp id huse.ownSpaces
  · unfold Kernel.addDirectory
    rw [if_neg (Nat.not_lt_zero j)]
    dsimp only
    rw [Kernel.setDir_self]
    rfl

theorem cloneDirectory_of_took (depth : ℕ) {s : Kernel} {top src : ℕ} (hs : s.Paged top)
    (hu : src = s.kernelDirectory ∨ OwnSpaces s) (hsrc : src ∈ s.created)
    (hblock : Ends (kmallocAp depth pageDirectorySize s) (fun block t => t.Paged top ∧ Kept s t ∧
      (∃ n, (block.1, n) ∈ t.heap.live) ∧ ∀ n, (block.1, n) ∉ s.heap.live) (MidpointsOK top)) :
    Ends (cloneDirectory depth src s) (CloneMade s top) (MidpointsOK top) := by
  refine ends_bind hblock ?_
  rintro block t ⟨ht, hkept, ⟨n, hl⟩, hfresh⟩
  obtain ⟨hstart, huse⟩ := hs.startCloning hu hsrc ht hkept hl hfresh block.2
  refine ends_modify_bind (ends_bind (cloneEntries_paged depth (n := 1024) hstart) ?_)
  rintro _ u ⟨hu', huse', hcreated⟩
  rw [Nat.zero_add] at hu'
  have hsame := huse.trans huse'
  have hmade : u.created = s.created := hcreated.trans hkept.created
  refine ends_modify_bind (ends_pure ⟨hu'.paged.addCreated hu'.shares hu'.held hu'.inside, ?_, ?_, ?_⟩)
  · exact ⟨hsame.1, hsame.2, hsame.3, hsame.4, hsame.5,
      fun d hd => List.mem_cons_of_mem _ (hsame.created d hd)⟩
  · rw [← hmade]
  · rw [← hmade]
    exact hu'.new

theorem cloneDirectory_paged (depth : ℕ) {s : Kernel} {top src : ℕ} (hs : s.Paged top)
    (hu : OwnSpaces s) (hsrc : src ∈ s.created) :
    Ends (cloneDirectory depth src s) (CloneMade s top) (MidpointsOK top) := by
  refine cloneDirectory_of_took depth hs (Or.inr hu) hsrc ?_
  refine (kmallocAp_paged depth hs hu (by decide)).mono ?_ fun _ h => h
  exact fun _ _ h => ⟨h.2, h.1.grew.kept, ⟨_, h.1.mem⟩, h.1.fresh⟩

end Evos
