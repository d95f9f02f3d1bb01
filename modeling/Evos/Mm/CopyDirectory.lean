import Evos.Mm.CopyTable

/-! # Copying a page directory

`clone_directory` shares the tables of the kernel and copies the others. Both it and `clone_table`
take their memory from `kmalloc_ap`, and all they need of it is that the memory is new and mapped. -/

namespace Evos
open Outcome
set_option autoImplicit false

/-! ## Cloning with any allocator -/

section Allocator
variable (alloc : ℕ → KM (ℕ × ℕ))

/-- `clone_table`. -/
def cloneTableWith (index src : ℕ) : KM (ℕ × ℕ) := do
  let block ← alloc pageTableSize
  modify fun s => { s.setTable block.1 PageTable.zero with paging := block.1 :: s.paging }
  clonePages index src block.1 0 1024
  return block

/-- One entry of `clone_directory`. -/
def cloneEntryWith (src dir i : ℕ) : KM Unit := do
  let s ← get
  let table := (s.spaces.dirs src).tables i
  if table ≠ 0 then
    if (s.spaces.dirs s.kernelDirectory).tables i = table then
      modify fun s => s.setDir dir ((s.spaces.dirs dir).setEntry i table
        ((s.spaces.dirs src).tablesPhysicalAddr i))
    else
      let copy ← cloneTableWith alloc i table
      modify fun s => s.setDir dir ((s.spaces.dirs dir).setEntry i copy.1 (copy.2 ||| 7))
  else return ()

/-- The loop of `clone_directory` with `n` entries to go. -/
def cloneEntriesWith (src dir : ℕ) : ℕ → ℕ → KM Unit
  | _, 0 => return ()
  | i, n + 1 => do
    cloneEntryWith alloc src dir i
    cloneEntriesWith src dir (i + 1) n

/-- `clone_directory`. -/
def cloneDirectoryWith (src : ℕ) : KM ℕ := do
  let block ← alloc pageDirectorySize
  modify (·.addDirectory block.1 block.2)
  cloneEntriesWith alloc src block.1 0 1024
  modify fun s => { s with created := block.1 :: s.created }
  return block.1

end Allocator

theorem cloneEntries_eq (depth src dir i n : ℕ) :
    cloneEntries depth src dir i n = cloneEntriesWith (kmallocAp depth) src dir i n := by
  induction n generalizing i with
  | zero => rfl
  | succ n ih =>
    rw [cloneEntries, cloneEntriesWith, ih]
    rfl

theorem cloneDirectory_eq (depth src : ℕ) :
    cloneDirectory depth src = cloneDirectoryWith (kmallocAp depth) src := by
  unfold cloneDirectory cloneDirectoryWith
  simp only [cloneEntries_eq]

/-! ## What the allocator does -/

/-- A new block of page-aligned memory in pages that are mapped already. -/
structure HandsOut (s : Kernel) (size : ℕ) (block : ℕ × ℕ) (t : Kernel) : Prop where
  aligned : block.1 % 4096 = 0
  ne : block.1 ≠ 0
  apart : ∀ x ∈ s.blocks, block.1 + size ≤ x.1 ∨ x.1 + x.2 ≤ block.1
  blocks : ∀ x, x ∈ t.blocks ↔ x = (block.1, size) ∨ x ∈ s.blocks
  spaces : t.spaces = s.spaces
  frames : t.frames = s.frames
  ram : t.ram = s.ram
  cr3 : t.cr3 = s.cr3
  kernelDirectory : t.kernelDirectory = s.kernelDirectory
  cloningBufferPage : t.cloningBufferPage = s.cloningBufferPage

/-- Whatever the allocator hands out is new. -/
def HandsOutNew (alloc : ℕ → KM (ℕ × ℕ)) : Prop :=
  ∀ size s block t, alloc size s = .ok block t → HandsOut s size block t

/-- The allocator stops. -/
def Fails (alloc : ℕ → KM (ℕ × ℕ)) : Prop := ∃ size s e t, alloc size s = .error e t

theorem HandsOutNew.ends {alloc : ℕ → KM (ℕ × ℕ)} (h : HandsOutNew alloc) (size : ℕ) (s : Kernel) :
    Ends (alloc size s) (fun block t => HandsOut s size block t) fun _ => Fails alloc :=
  ⟨fun block t hr => h size s block t hr, fun e t hr => ⟨size, s, e, t, hr⟩⟩

section HandsOut
variable {s t : Kernel} {size v n : ℕ} {block : ℕ × ℕ}

theorem HandsOut.framesKept (h : HandsOut s size block t) : FramesKept s t := by
  refine ⟨by rw [h.frames], fun f hf => ?_, fun _ _ => by rw [h.ram]⟩
  unfold Kernel.used
  rw [h.frames]
  exact hf

theorem HandsOut.free (h : HandsOut s size block t) : t.free = s.free := by
  unfold Kernel.free
  rw [h.frames]

theorem HandsOut.ne_of_mem (h : HandsOut s size block t) (hv : (v, n) ∈ s.blocks) (hsize : 0 < size)
    (hn : 0 < n) : block.1 ≠ v := by
  rintro rfl
  have := h.apart _ hv
  dsimp only at this
  omega

end HandsOut

/-! ## One table -/

/-- The table `d` is a copy of the table `v`, in new memory and new frames. -/
structure TableCopied (s t : Kernel) (v d : ℕ) : Prop where
  aligned : d % 4096 = 0
  ne : d ≠ 0
  new : ∀ x ∈ s.blocks, d + 4096 ≤ x.1 ∨ x.1 + x.2 ≤ d
  held : (d, 4096) ∈ t.blocks
  pages : ∀ j < 1024, PageCopied s t (s.spaces.tables v j) (t.spaces.tables d j)
  apart : ∀ j k, j < k → k < 1024 → (s.spaces.tables v j).address ≠ 0 →
    (s.spaces.tables v k).address ≠ 0 →
      (t.spaces.tables d j).address ≠ (t.spaces.tables d k).address

/-- What `clone_table` does. -/
structure TableDone (v : ℕ) (s : Kernel) (d : ℕ) (t : Kernel) : Prop where
  copying : Copying d s t
  frames : FramesOK t.frames
  copied : TableCopied s t v d
  free : t.free + pagesNeeded s v 0 1024 = s.free

section Table
variable {alloc : ℕ → KM (ℕ × ℕ)} {i v : ℕ} {s t u : Kernel} {block : ℕ × ℕ}

/-- The cleared table in its new memory. -/
def Kernel.clearTable (s : Kernel) (d : ℕ) : Kernel :=
  { s.setTable d PageTable.zero with paging := d :: s.paging }

theorem HandsOut.copying (h : HandsOut s pageTableSize block u) :
    Copying block.1 s (u.clearTable block.1) where
  cr3 := h.cr3
  kernelDirectory := h.kernelDirectory
  cloningBufferPage := h.cloningBufferPage
  dirs := by
    show u.spaces.dirs = s.spaces.dirs
    rw [h.spaces]
  blocks x hx := (h.blocks x).mpr (Or.inr hx)
  page w hw j _ := by
    have hset : (u.clearTable block.1).spaces.tables w j = u.spaces.tables w j :=
      congrFun (Kernel.setTable_of_ne hw) j
    rw [hset, h.spaces]
  frames := ⟨h.framesKept.length, h.framesKept.used, h.framesKept.ram⟩

theorem PagesDone.table (h : Source i v s) (ha : HandsOut s pageTableSize block u)
    (hv : block.1 ≠ v) (hp : PagesDone v block.1 0 1024 (u.clearTable block.1) t) :
    TableDone v s block.1 t := by
  have hc := ha.copying
  have hsame := h.page hc hv
  have hkept := hc.frames
  refine ⟨hc.trans hp.copying, hp.frames, ⟨ha.aligned, ha.ne, ha.apart, ?_, ?_, ?_⟩, ?_⟩
  · exact hp.copying.blocks _ ((ha.blocks _).mpr (Or.inl rfl))
  · intro j hj
    have hpage := hp.copied j (Nat.zero_le j) (by omega)
    rw [hsame] at hpage
    exact hpage.before hkept (h.used j hj)
  · intro j k hjk hk hj' hk'
    rw [← hsame] at hj' hk'
    exact hp.apart j k (Nat.zero_le j) hjk (by omega) hj' hk'
  · have hfree : (u.clearTable block.1).free = s.free := ha.free
    have hcount := hp.free
    rw [pagesNeeded_congr hsame, hfree] at hcount
    exact hcount

/-- `clone_table` of a table that is a block, as that of the cloning page is. -/
theorem cloneTableWith_ends (hA : HandsOutNew alloc) (h : Source i v s) (hv : (v, 4096) ∈ s.blocks)
    (hcb : (s.cloningBufferPage.1, 4096) ∈ s.blocks) :
    Ends (cloneTableWith alloc i v s) (fun block t => TableDone v s block.1 t)
      fun _ => Fails alloc ∨ PagesStop v 0 1024 s := by
  refine ends_bind ((hA.ends pageTableSize s).mono (fun _ _ hu => hu) fun _ hf => Or.inl hf)
    fun block u hu => ends_modify_bind ?_
  have hne : block.1 ≠ v := hu.ne_of_mem hv (by decide) (by decide)
  have hnecb : block.1 ≠ s.cloningBufferPage.1 := hu.ne_of_mem hcb (by decide) (by decide)
  have hframes : FramesOK (u.clearTable block.1).frames := by
    show FramesOK u.frames
    rw [hu.frames]
    exact h.frames
  have hsource := h.copying hu.copying hne hframes
  have hnecb' : block.1 ≠ (u.clearTable block.1).cloningBufferPage.1 := by
    rw [hu.copying.cloningBufferPage]
    exact hnecb
  have hzero : ∀ k, 0 ≤ k → (u.clearTable block.1).spaces.tables block.1 k = Page.zero := fun k _ =>
    congrFun (u.setTable_self block.1 PageTable.zero) k
  refine ends_bind ((clonePages_ends hsource hne hnecb' (Nat.le_refl _) hzero).mono
    (fun _ _ ht => ht) fun _ hstop => Or.inr ?_) fun _ t ht => ends_pure (ht.table h hu hne)
  have hsame := h.page hu.copying hne
  have hfree : (u.clearTable block.1).free = s.free := hu.free
  rcases hstop with ⟨k, h1, h2, hk, hp⟩ | hlt
  · rw [hsame] at hk hp
    exact Or.inl ⟨k, h1, h2, hk, hp⟩
  · rw [pagesNeeded_congr hsame, hfree] at hlt
    exact Or.inr hlt

end Table

/-! ## The directory to clone -/

/-- Entry `i` of the directory is a table that `kernel_directory` does not have there. -/
def OwnTable (s : Kernel) (src i : ℕ) : Prop :=
  (s.spaces.dirs src).tables i ≠ 0 ∧ s.tableAt i ≠ (s.spaces.dirs src).tables i

instance (s : Kernel) (src i : ℕ) : Decidable (OwnTable s src i) :=
  inferInstanceAs (Decidable (_ ∧ _))

/-- The loaded directory, which shares the kernel's tables. Directories and tables are blocks, and
no table is the one of the cloning page but at its own place. -/
structure ActiveSpace (src : ℕ) (s : Kernel) : Prop where
  active : s.cr3 = src
  shares : ∀ i < 1024, s.tableAt i ≠ 0 → (s.spaces.dirs src).tables i = s.tableAt i
  cloning : s.cloningBufferPage = (s.tableAt 960, 0)
  cloningNe : s.tableAt 960 ≠ 0
  own : ∀ i < 1024, OwnTable s src i → (s.spaces.dirs src).tables i ≠ s.tableAt 960
  directories : (src, pageDirectorySize) ∈ s.blocks ∧
    (s.kernelDirectory, pageDirectorySize) ∈ s.blocks
  tables : ∀ i < 1024, (s.spaces.dirs src).tables i ≠ 0 →
    ((s.spaces.dirs src).tables i, pageTableSize) ∈ s.blocks
  frames : FramesOK s.frames

/-- The frames of its own tables are used. -/
structure Cloneable (src : ℕ) (s : Kernel) : Prop extends ActiveSpace src s where
  used : ∀ i < 1024, OwnTable s src i → ∀ j < 1024,
    (s.spaces.tables ((s.spaces.dirs src).tables i) j).address ≠ 0 →
      s.used (s.spaces.tables ((s.spaces.dirs src).tables i) j).address = true

/-- What cloning entries into the directory `dir` keeps. -/
structure Entered (dir : ℕ) (s t : Kernel) : Prop where
  cr3 : t.cr3 = s.cr3
  kernelDirectory : t.kernelDirectory = s.kernelDirectory
  cloningBufferPage : t.cloningBufferPage = s.cloningBufferPage
  dirs : ∀ d, d ≠ dir → t.spaces.dirs d = s.spaces.dirs d
  blocks : ∀ x ∈ s.blocks, x ∈ t.blocks
  page : ∀ v, (v, pageTableSize) ∈ s.blocks → ∀ j, (v, j) ≠ s.cloningBufferPage →
    t.spaces.tables v j = s.spaces.tables v j
  frames : FramesKept s t

theorem Entered.refl (dir : ℕ) (s : Kernel) : Entered dir s s :=
  ⟨rfl, rfl, rfl, fun _ _ => rfl, fun _ h => h, fun _ _ _ _ => rfl, FramesKept.refl s⟩

theorem Entered.trans {dir : ℕ} {s t u : Kernel} (h : Entered dir s t) (h' : Entered dir t u) :
    Entered dir s u where
  cr3 := h'.cr3.trans h.cr3
  kernelDirectory := h'.kernelDirectory.trans h.kernelDirectory
  cloningBufferPage := h'.cloningBufferPage.trans h.cloningBufferPage
  dirs d hd := (h'.dirs d hd).trans (h.dirs d hd)
  blocks x hx := h'.blocks x (h.blocks x hx)
  page v hv j hj :=
    (h'.page v (h.blocks _ hv) j (by rw [h.cloningBufferPage]; exact hj)).trans (h.page v hv j hj)
  frames := h.frames.trans h'.frames

theorem Copying.entered {d dir : ℕ} {s t : Kernel} (h : Copying d s t)
    (hd : ∀ x ∈ s.blocks, d + 4096 ≤ x.1 ∨ x.1 + x.2 ≤ d) (x : PageDirectory) :
    Entered dir s (t.setDir dir x) where
  cr3 := h.cr3
  kernelDirectory := h.kernelDirectory
  cloningBufferPage := h.cloningBufferPage
  dirs e he := by
    rw [Kernel.setDir_of_ne he, h.dirs]
  blocks := h.blocks
  page v hv j hj := by
    have hvd : v ≠ d := by
      rintro rfl
      have := hd _ hv
      unfold pageTableSize at this
      omega
    exact h.page v hvd j hj
  frames := ⟨h.frames.length, h.frames.used, h.frames.ram⟩

section Entered
variable {src dir i : ℕ} {s t : Kernel}

theorem Entered.tableAt (h : Entered dir s t) (hk : dir ≠ s.kernelDirectory) :
    t.tableAt = s.tableAt := by
  unfold Kernel.tableAt
  rw [h.kernelDirectory, h.dirs _ hk.symm]

theorem Entered.ownTable (h : Entered dir s t) (hk : dir ≠ s.kernelDirectory) (hd : dir ≠ src) :
    OwnTable t src i ↔ OwnTable s src i := by
  unfold OwnTable
  rw [h.tableAt hk, h.dirs _ hd.symm]

theorem ActiveSpace.entered (hs : ActiveSpace src s) (h : Entered dir s t)
    (hk : dir ≠ s.kernelDirectory) (hd : dir ≠ src) (hf : FramesOK t.frames) :
    ActiveSpace src t := by
  have htable := h.tableAt hk
  have hdirs := h.dirs _ hd.symm
  refine ⟨h.cr3.trans hs.active, ?_, ?_, ?_, ?_, ⟨h.blocks _ hs.directories.1, ?_⟩, ?_, hf⟩
  · rw [htable, hdirs]
    exact hs.shares
  · rw [h.cloningBufferPage, htable]
    exact hs.cloning
  · rw [htable]
    exact hs.cloningNe
  · intro i hi ho
    rw [htable, hdirs]
    exact hs.own i hi ((h.ownTable hk hd).mp ho)
  · rw [h.kernelDirectory]
    exact h.blocks _ hs.directories.2
  · rw [hdirs]
    exact fun i hi hne => h.blocks _ (hs.tables i hi hne)

theorem Entered.own_page (h : Entered dir s t) (hs : ActiveSpace src s) (hi : i < 1024)
    (ho : OwnTable s src i) (j : ℕ) :
    t.spaces.tables ((s.spaces.dirs src).tables i) j =
      s.spaces.tables ((s.spaces.dirs src).tables i) j := by
  refine h.page _ (hs.tables i hi ho.1) j fun he => hs.own i hi ho ?_
  rw [hs.cloning] at he
  exact congrArg Prod.fst he

theorem Cloneable.entered (hs : Cloneable src s) (h : Entered dir s t)
    (hk : dir ≠ s.kernelDirectory) (hd : dir ≠ src) (hf : FramesOK t.frames) :
    Cloneable src t := by
  refine ⟨hs.toActiveSpace.entered h hk hd hf, fun i hi ho j hj => ?_⟩
  have ho' := (h.ownTable hk hd).mp ho
  rw [h.dirs _ hd.symm, h.own_page hs.toActiveSpace hi ho']
  exact fun hne => h.frames.used _ (hs.used i hi ho' j hj hne)

theorem Cloneable.source (hs : Cloneable src s) (hi : i < 1024) (ho : OwnTable s src i) :
    Source i ((s.spaces.dirs src).tables i) s := by
  have h960 : (s.spaces.dirs src).tables 960 = s.tableAt 960 :=
    hs.shares 960 (by decide) hs.cloningNe
  refine ⟨⟨?_, ho.1, ?_, ?_, ?_⟩, hs.frames, hs.used i hi ho⟩
  · rw [hs.active]
  · rw [hs.active, h960]
    exact hs.cloning
  · rw [hs.active, h960]
    exact hs.cloningNe
  · rw [hs.cloning]
    exact hs.own i hi ho

theorem ActiveSpace.cloning_block (hs : ActiveSpace src s) :
    (s.cloningBufferPage.1, 4096) ∈ s.blocks := by
  have h960 : (s.spaces.dirs src).tables 960 = s.tableAt 960 :=
    hs.shares 960 (by decide) hs.cloningNe
  have hmem := hs.tables 960 (by decide) (by rw [h960]; exact hs.cloningNe)
  rw [h960] at hmem
  rw [hs.cloning]
  exact hmem

end Entered

/-! ## One entry -/

/-- What entry `i` of the new directory `x` is. -/
structure EntryCloned (src i : ℕ) (s t : Kernel) (x : PageDirectory) : Prop where
  null : (s.spaces.dirs src).tables i = 0 → x.tables i = 0
  shared : s.tableAt i = (s.spaces.dirs src).tables i → (s.spaces.dirs src).tables i ≠ 0 →
    x.tables i = (s.spaces.dirs src).tables i ∧
      x.tablesPhysicalAddr i = (s.spaces.dirs src).tablesPhysicalAddr i
  copied : OwnTable s src i → TableCopied s t ((s.spaces.dirs src).tables i) (x.tables i)

/-- The frames that the copy of entry `i` takes. -/
def entryNeeded (s : Kernel) (src i : ℕ) : ℕ :=
  if OwnTable s src i then pagesNeeded s ((s.spaces.dirs src).tables i) 0 1024 else 0

/-- The two directories have the same entry. -/
def SameEntry (i : ℕ) (x y : PageDirectory) : Prop :=
  y.tables i = x.tables i ∧ y.tablesPhysicalAddr i = x.tablesPhysicalAddr i

/-- What cloning entry `i` does. -/
structure EntryDone (src dir i : ℕ) (s t : Kernel) : Prop where
  entered : Entered dir s t
  frames : FramesOK t.frames
  entry : EntryCloned src i s t (t.spaces.dirs dir)
  others : ∀ k, k ≠ i → SameEntry k (s.spaces.dirs dir) (t.spaces.dirs dir)
  free : t.free + entryNeeded s src i = s.free

/-- Where cloning entry `i` can stop. -/
def EntryStops (alloc : ℕ → KM (ℕ × ℕ)) (src i : ℕ) (s : Kernel) : Prop :=
  OwnTable s src i ∧ (Fails alloc ∨ PagesStop ((s.spaces.dirs src).tables i) 0 1024 s)

section Entry
variable {alloc : ℕ → KM (ℕ × ℕ)} {src dir i : ℕ} {s t : Kernel} {block : ℕ × ℕ}

theorem sameEntry_setEntry (x : PageDirectory) {k : ℕ} (h : k ≠ i) (v w : ℕ) :
    SameEntry k x (x.setEntry i v w) := ⟨if_neg h, if_neg h⟩

theorem entryDone_shared (hs : Cloneable src s) (hne : (s.spaces.dirs src).tables i ≠ 0)
    (hk : s.tableAt i = (s.spaces.dirs src).tables i) :
    EntryDone src dir i s (s.setDir dir ((s.spaces.dirs dir).setEntry i
      ((s.spaces.dirs src).tables i) ((s.spaces.dirs src).tablesPhysicalAddr i))) := by
  have hnot : ¬OwnTable s src i := fun ho => ho.2 hk
  refine ⟨⟨rfl, rfl, rfl, fun _ hd => Kernel.setDir_of_ne hd, fun _ hx => hx, fun _ _ _ _ => rfl,
    rfl, fun _ hf => hf, fun _ _ => rfl⟩, hs.frames, ?_, fun k hk => ?_, ?_⟩
  · rw [Kernel.setDir_self]
    exact ⟨fun h0 => absurd h0 hne, fun _ _ => ⟨if_pos rfl, if_pos rfl⟩, fun ho => absurd ho hnot⟩
  · rw [Kernel.setDir_self]
    exact sameEntry_setEntry _ hk _ _
  · rw [entryNeeded, if_neg hnot]
    rfl

theorem TableCopied.congr {u : Kernel} {v d : ℕ} (h : TableCopied s t v d)
    (htables : u.spaces.tables = t.spaces.tables) (hheap : u.heap = t.heap)
    (hlinear : u.linear = t.linear) (hframes : FramesKept t u) : TableCopied s u v d := by
  refine ⟨h.aligned, h.ne, h.new, ?_, fun j hj => ?_, ?_⟩
  · unfold Kernel.blocks
    rw [hheap, hlinear]
    exact h.held
  · rw [htables]
    exact (h.pages j hj).after hframes
  · rw [htables]
    exact h.apart

theorem TableDone.entry (ho : OwnTable s src i)
    (h : TableDone ((s.spaces.dirs src).tables i) s block.1 t) :
    EntryDone src dir i s (t.setDir dir ((t.spaces.dirs dir).setEntry i block.1
      (block.2 ||| 7))) := by
  have hc := h.copied
  refine ⟨h.copying.entered hc.new _, h.frames, ?_, fun k hk => ?_, ?_⟩
  · rw [Kernel.setDir_self]
    refine ⟨fun h0 => absurd h0 ho.1, fun he => absurd he ho.2, fun _ => ?_⟩
    rw [PageDirectory.setEntry_self]
    exact hc.congr rfl rfl rfl ⟨rfl, fun _ hf => hf, fun _ _ => rfl⟩
  · rw [Kernel.setDir_self, h.copying.dirs]
    exact sameEntry_setEntry _ hk _ _
  · rw [entryNeeded, if_pos ho]
    exact h.free

theorem cloneEntryWith_ends (hA : HandsOutNew alloc) (hs : Cloneable src s) (hi : i < 1024)
    (hnull : (s.spaces.dirs dir).tables i = 0) :
    Ends (cloneEntryWith alloc src dir i s) (fun _ t => EntryDone src dir i s t)
      fun _ => EntryStops alloc src i s := by
  refine ends_get_bind ?_
  by_cases hne : (s.spaces.dirs src).tables i ≠ 0
  · rw [if_pos hne]
    by_cases hk : s.tableAt i = (s.spaces.dirs src).tables i
    · have hk' : (s.spaces.dirs s.kernelDirectory).tables i = (s.spaces.dirs src).tables i := hk
      rw [if_pos hk']
      exact ends_modify (entryDone_shared hs hne hk)
    · have hk' : (s.spaces.dirs s.kernelDirectory).tables i ≠ (s.spaces.dirs src).tables i := hk
      have ho : OwnTable s src i := ⟨hne, hk⟩
      rw [if_neg hk']
      refine ends_bind ((cloneTableWith_ends hA (hs.source hi ho) (hs.tables i hi hne)
        hs.cloning_block).mono (fun _ _ ht => ht) fun _ hstop => ⟨ho, hstop⟩) fun block t ht =>
          ends_modify (TableDone.entry ho ht)
  · have h0 : (s.spaces.dirs src).tables i = 0 := Decidable.not_not.mp hne
    have hnot : ¬OwnTable s src i := fun ho => ho.1 h0
    rw [if_neg hne]
    refine ends_pure ⟨Entered.refl dir s, hs.frames, ⟨fun _ => hnull, fun _ hn => absurd h0 hn,
      fun ho => absurd ho hnot⟩, fun _ _ => ⟨rfl, rfl⟩, ?_⟩
    rw [entryNeeded, if_neg hnot]
    rfl

end Entry

/-! ## The loop over the entries -/

/-- Two copies share neither memory nor frames. -/
structure CopiesApart (s t : Kernel) (v d v' d' : ℕ) : Prop where
  table : d ≠ d'
  pages : ∀ j < 1024, ∀ k < 1024, (s.spaces.tables v j).address ≠ 0 →
    (s.spaces.tables v' k).address ≠ 0 →
      (t.spaces.tables d j).address ≠ (t.spaces.tables d' k).address

/-- The frames that the copies of `n` entries from entry `i` on take. -/
def entriesNeeded (s : Kernel) (src i n : ℕ) : ℕ :=
  ((List.range' i n).map (entryNeeded s src)).sum

/-- What cloning `n` entries from entry `i` on does. -/
structure EntriesDone (src dir i n : ℕ) (s t : Kernel) : Prop where
  entered : Entered dir s t
  frames : FramesOK t.frames
  entries : ∀ k, i ≤ k → k < i + n → EntryCloned src k s t (t.spaces.dirs dir)
  apart : ∀ k l, i ≤ k → k < l → l < i + n → OwnTable s src k → OwnTable s src l →
    CopiesApart s t ((s.spaces.dirs src).tables k) ((t.spaces.dirs dir).tables k)
      ((s.spaces.dirs src).tables l) ((t.spaces.dirs dir).tables l)
  others : ∀ k, k < i ∨ i + n ≤ k → SameEntry k (s.spaces.dirs dir) (t.spaces.dirs dir)
  free : t.free + entriesNeeded s src i n = s.free

/-- Where cloning these entries can stop. -/
def EntriesStop (alloc : ℕ → KM (ℕ × ℕ)) (src i n : ℕ) (s : Kernel) : Prop :=
  Fails alloc ∨ (∃ k, i ≤ k ∧ k < i + n ∧ OwnTable s src k ∧ ∃ j < 1024,
    (s.spaces.tables ((s.spaces.dirs src).tables k) j).address ≠ 0 ∧
      (s.spaces.tables ((s.spaces.dirs src).tables k) j).present = false) ∨
    s.free < entriesNeeded s src i n

section Entries
variable {alloc : ℕ → KM (ℕ × ℕ)} {src dir i n v d : ℕ} {s t u : Kernel}

theorem TableCopied.after (h : TableCopied s u v d) (he : Entered dir u t)
    (hcb : d ≠ u.cloningBufferPage.1) : TableCopied s t v d := by
  have hpage : ∀ j, t.spaces.tables d j = u.spaces.tables d j := fun j =>
    he.page d h.held j fun heq => hcb (congrArg Prod.fst heq)
  refine ⟨h.aligned, h.ne, h.new, he.blocks _ h.held, fun j hj => ?_, fun j k hjk hk hj hk' => ?_⟩
  · rw [hpage]
    exact (h.pages j hj).after he.frames
  · rw [hpage, hpage]
    exact h.apart j k hjk hk hj hk'

theorem TableCopied.before (h : TableCopied u t v d) (he : Entered dir s u)
    (hpage : ∀ j, u.spaces.tables v j = s.spaces.tables v j)
    (hused : ∀ j < 1024, (s.spaces.tables v j).address ≠ 0 →
      s.used (s.spaces.tables v j).address = true) : TableCopied s t v d := by
  refine ⟨h.aligned, h.ne, fun x hx => h.new x (he.blocks x hx), h.held, fun j hj => ?_,
    fun j k hjk hk hj hk' => ?_⟩
  · rw [← hpage]
    refine (h.pages j hj).before he.frames fun hne => ?_
    rw [hpage] at hne ⊢
    exact hused j hj hne
  · rw [← hpage] at hj hk'
    exact h.apart j k hjk hk hj hk'

theorem TableCopied.ne_cloning (h : TableCopied s t v d) (hs : ActiveSpace src s) :
    d ≠ s.cloningBufferPage.1 := by
  rintro rfl
  have := h.new _ hs.cloning_block
  dsimp only at this
  omega

theorem EntryCloned.after {x y : PageDirectory} (h : EntryCloned src i s u x)
    (hs : ActiveSpace src s) (he : Entered dir u t)
    (hcb : u.cloningBufferPage = s.cloningBufferPage) (hxy : SameEntry i x y) :
    EntryCloned src i s t y := by
  obtain ⟨htable, hphysical⟩ := hxy
  refine ⟨fun h0 => ?_, fun hk hne => ?_, fun ho => ?_⟩
  · rw [htable]
    exact h.null h0
  · rw [htable, hphysical]
    exact h.shared hk hne
  · rw [htable]
    have hcopied := h.copied ho
    exact hcopied.after he (by rw [hcb]; exact hcopied.ne_cloning hs)

theorem EntryCloned.before {x : PageDirectory} (h : EntryCloned src i u t x) (hs : Cloneable src s)
    (he : Entered dir s u) (hk : dir ≠ s.kernelDirectory) (hd : dir ≠ src) (hi : i < 1024) :
    EntryCloned src i s t x := by
  have hdirs := he.dirs _ hd.symm
  have htable := he.tableAt hk
  refine ⟨fun h0 => h.null ?_, fun hk' hne => ?_, fun ho => ?_⟩
  · rw [hdirs]
    exact h0
  · rw [← hdirs] at hk' hne ⊢
    rw [← htable] at hk'
    exact h.shared hk' hne
  · have hcopied := h.copied ((he.ownTable hk hd).mpr ho)
    rw [hdirs] at hcopied
    exact hcopied.before he (he.own_page hs.toActiveSpace hi ho) (hs.used i hi ho)

theorem entriesNeeded_succ (s : Kernel) (src i n : ℕ) :
    entriesNeeded s src i (n + 1) = entryNeeded s src i + entriesNeeded s src (i + 1) n := by
  unfold entriesNeeded
  rw [List.range'_succ, List.map_cons, List.sum_cons]

theorem entryNeeded_entered (hs : ActiveSpace src s) (he : Entered dir s u)
    (hk : dir ≠ s.kernelDirectory) (hd : dir ≠ src) (hi : i < 1024) :
    entryNeeded u src i = entryNeeded s src i := by
  unfold entryNeeded
  by_cases ho : OwnTable s src i
  · rw [if_pos ho, if_pos ((he.ownTable hk hd).mpr ho), he.dirs _ hd.symm,
      pagesNeeded_congr (he.own_page hs hi ho)]
  · rw [if_neg ho, if_neg (mt (he.ownTable hk hd).mp ho)]

theorem entriesNeeded_entered (hs : ActiveSpace src s) (he : Entered dir s u)
    (hk : dir ≠ s.kernelDirectory) (hd : dir ≠ src) (hn : i + n ≤ 1024) :
    entriesNeeded u src i n = entriesNeeded s src i n := by
  unfold entriesNeeded
  congr 1
  refine List.map_congr_left fun k hmem => entryNeeded_entered hs he hk hd ?_
  obtain ⟨_, hlt⟩ := List.mem_range'_1.mp hmem
  omega

theorem entriesDone_zero (h : FramesOK s.frames) (src dir i : ℕ) : EntriesDone src dir i 0 s s :=
  ⟨Entered.refl dir s, h, fun k h1 h2 => absurd h2 (by omega),
    fun k l h1 h2 h3 => absurd h3 (by omega), fun _ _ => ⟨rfl, rfl⟩, rfl⟩

theorem TableCopied.apart_later {v' d' : ℕ} (h : TableCopied s u v d) (hlater : TableCopied u t v' d')
    (he : Entered dir u t) (hcb : d ≠ u.cloningBufferPage.1)
    (hv' : ∀ j, u.spaces.tables v' j = s.spaces.tables v' j) : CopiesApart s t v d v' d' := by
  refine ⟨?_, fun j hj k hk hj' hk' heq => ?_⟩
  · rintro rfl
    have := hlater.new _ h.held
    dsimp only at this
    omega
  · have hpage : t.spaces.tables d j = u.spaces.tables d j :=
      he.page d h.held j fun hc => hcb (congrArg Prod.fst hc)
    have hused := (h.pages j hj).used hj'
    rw [← hv'] at hk'
    have hfree := (hlater.pages k hk).free hk'
    rw [hpage] at heq
    rw [heq, hfree] at hused
    exact nomatch hused

theorem CopiesApart.before {v' d' : ℕ} (h : CopiesApart u t v d v' d')
    (hv : ∀ j, u.spaces.tables v j = s.spaces.tables v j)
    (hv' : ∀ j, u.spaces.tables v' j = s.spaces.tables v' j) : CopiesApart s t v d v' d' := by
  refine ⟨h.table, fun j hj k hk hj' hk' => ?_⟩
  rw [← hv] at hj'
  rw [← hv'] at hk'
  exact h.pages j hj k hk hj' hk'

theorem EntryDone.entries (h : EntryDone src dir i s u) (hr : EntriesDone src dir (i + 1) n u t)
    (hs : Cloneable src s) (hk : dir ≠ s.kernelDirectory) (hd : dir ≠ src)
    (hn : i + (n + 1) ≤ 1024) : EntriesDone src dir i (n + 1) s t := by
  have he := h.entered
  have hcb := he.cloningBufferPage
  have hdirs := he.dirs _ hd.symm
  have hfirst : SameEntry i (u.spaces.dirs dir) (t.spaces.dirs dir) :=
    hr.others i (Or.inl (by omega))
  refine ⟨he.trans hr.entered, hr.frames, ?_, ?_, ?_, ?_⟩
  · intro k h1 h2
    by_cases hki : k = i
    · subst hki
      exact h.entry.after hs.toActiveSpace hr.entered hcb hfirst
    · exact (hr.entries k (by omega) (by omega)).before hs he hk hd (by omega)
  · intro k l h1 h2 h3 hok hol
    have hol' := (he.ownTable hk hd).mpr hol
    by_cases hki : k = i
    · subst hki
      have hcopied := h.entry.copied hok
      have hlater := (hr.entries l (by omega) (by omega)).copied hol'
      rw [hdirs] at hlater
      rw [hfirst.1]
      refine hcopied.apart_later hlater hr.entered ?_ (he.own_page hs.toActiveSpace (by omega) hol)
      rw [hcb]
      exact hcopied.ne_cloning hs.toActiveSpace
    · have hapart := hr.apart k l (by omega) h2 (by omega) ((he.ownTable hk hd).mpr hok) hol'
      rw [hdirs] at hapart
      exact hapart.before (he.own_page hs.toActiveSpace (by omega) hok)
        (he.own_page hs.toActiveSpace (by omega) hol)
  · intro k hk'
    obtain ⟨ht, hp⟩ := hr.others k (by omega)
    obtain ⟨ht', hp'⟩ := h.others k (by omega)
    exact ⟨ht.trans ht', hp.trans hp'⟩
  · have h1 := h.free
    have h2 := hr.free
    rw [entriesNeeded_entered hs.toActiveSpace he hk hd (by omega)] at h2
    rw [entriesNeeded_succ]
    omega

theorem EntryStops.entries (h : EntryStops alloc src i s) (n : ℕ) :
    EntriesStop alloc src i (n + 1) s := by
  obtain ⟨ho, hfail | ⟨j, _, hj, hne, hp⟩ | hlt⟩ := h
  · exact Or.inl hfail
  · exact Or.inr (Or.inl ⟨i, Nat.le_refl i, by omega, ho, j, by omega, hne, hp⟩)
  · refine Or.inr (Or.inr ?_)
    rw [entriesNeeded_succ, entryNeeded, if_pos ho]
    omega

/-- What stops the loop later stops it for a reason that was there before. -/
theorem EntriesStop.entered (hr : EntriesStop alloc src i n u) (he : Entered dir s u)
    (hs : ActiveSpace src s) (hk : dir ≠ s.kernelDirectory) (hd : dir ≠ src) (hn : i + n ≤ 1024) :
    EntriesStop alloc src i n s ∨ u.free < entriesNeeded s src i n := by
  have hdirs := he.dirs _ hd.symm
  rcases hr with hfail | ⟨k, h1, h2, ho, j, hj, hne, hp⟩ | hlt
  · exact Or.inl (Or.inl hfail)
  · have ho' := (he.ownTable hk hd).mp ho
    rw [hdirs, he.own_page hs (by omega) ho'] at hne hp
    exact Or.inl (Or.inr (Or.inl ⟨k, h1, h2, ho', j, hj, hne, hp⟩))
  · rw [entriesNeeded_entered hs he hk hd hn] at hlt
    exact Or.inr hlt

theorem EntriesStop.entries (h : EntryDone src dir i s u)
    (hr : EntriesStop alloc src (i + 1) n u) (hs : Cloneable src s)
    (hk : dir ≠ s.kernelDirectory) (hd : dir ≠ src) (hn : i + (n + 1) ≤ 1024) :
    EntriesStop alloc src i (n + 1) s := by
  have hneeded := entriesNeeded_succ s src i n
  have hfree := h.free
  rcases hr.entered h.entered hs.toActiveSpace hk hd (by omega) with
    (hfail | ⟨k, h1, h2, hcause⟩ | hlt) | hlt
  · exact Or.inl hfail
  · exact Or.inr (Or.inl ⟨k, by omega, by omega, hcause⟩)
  · exact Or.inr (Or.inr (by omega))
  · exact Or.inr (Or.inr (by omega))

theorem cloneEntriesWith_ends (hA : HandsOutNew alloc) (hs : Cloneable src s)
    (hk : dir ≠ s.kernelDirectory) (hd : dir ≠ src) (hn : i + n ≤ 1024)
    (hnull : ∀ k, i ≤ k → (s.spaces.dirs dir).tables k = 0) :
    Ends (cloneEntriesWith alloc src dir i n s) (fun _ t => EntriesDone src dir i n s t)
      fun _ => EntriesStop alloc src i n s := by
  induction n generalizing i s with
  | zero => exact ends_pure (entriesDone_zero hs.frames src dir i)
  | succ n ih =>
    refine ends_bind ((cloneEntryWith_ends hA hs (by omega) (hnull i (Nat.le_refl i))).mono
      (fun _ _ hu => hu) fun _ hstop => hstop.entries n) fun _ u hu => ?_
    have hk' : dir ≠ u.kernelDirectory := by
      rw [hu.entered.kernelDirectory]
      exact hk
    have hnull' : ∀ k, i + 1 ≤ k → (u.spaces.dirs dir).tables k = 0 := by
      intro k hki
      rw [(hu.others k (by omega)).1]
      exact hnull k (by omega)
    exact (ih (hs.entered hu.entered hk hd hu.frames) hk' (by omega) hnull').mono
      (fun _ t ht => hu.entries ht hs hk hd hn) fun _ hstop => hstop.entries hu hs hk hd hn

end Entries

end Evos
