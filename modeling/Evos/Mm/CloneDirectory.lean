import Evos.Kheap.Safety
import Evos.Mm.CopyDirectory

/-! # What `clone_directory` returns

The new directory shares the kernel's tables and has copies of the others, and the directory it was
made from is as before. -/

namespace Evos
open Outcome
set_option autoImplicit false

/-- All the frames that the directory maps are used. -/
def FramesUsed (src : ℕ) (s : Kernel) : Prop :=
  ∀ i < 1024, (s.spaces.dirs src).tables i ≠ 0 → ∀ j < 1024,
    (s.spaces.tables ((s.spaces.dirs src).tables i) j).address ≠ 0 →
      s.used (s.spaces.tables ((s.spaces.dirs src).tables i) j).address = true

/-- The pages to copy are present. -/
def PagesPresent (src : ℕ) (s : Kernel) : Prop :=
  ∀ i < 1024, OwnTable s src i → ∀ j < 1024,
    (s.spaces.tables ((s.spaces.dirs src).tables i) j).address ≠ 0 →
      (s.spaces.tables ((s.spaces.dirs src).tables i) j).present = true

/-- The directory `dir` is a clone of the directory `src`, which is as it was. -/
structure DirectoryCloned (src : ℕ) (s : Kernel) (dir : ℕ) (t : Kernel) : Prop where
  new : ∀ x ∈ s.blocks, dir + pageDirectorySize ≤ x.1 ∨ x.1 + x.2 ≤ dir
  null : ∀ i < 1024, (s.spaces.dirs src).tables i = 0 → (t.spaces.dirs dir).tables i = 0
  shared : ∀ i < 1024, s.tableAt i = (s.spaces.dirs src).tables i →
    (s.spaces.dirs src).tables i ≠ 0 →
      (t.spaces.dirs dir).tables i = (s.spaces.dirs src).tables i ∧
        (t.spaces.dirs dir).tablesPhysicalAddr i = (s.spaces.dirs src).tablesPhysicalAddr i
  copied : ∀ i < 1024, OwnTable s src i →
    TableCopied s t ((s.spaces.dirs src).tables i) ((t.spaces.dirs dir).tables i)
  apart : ∀ i k, i < k → k < 1024 → OwnTable s src i → OwnTable s src k →
    CopiesApart s t ((s.spaces.dirs src).tables i) ((t.spaces.dirs dir).tables i)
      ((s.spaces.dirs src).tables k) ((t.spaces.dirs dir).tables k)
  directory : t.spaces.dirs src = s.spaces.dirs src
  tables : ∀ i < 1024, (s.spaces.dirs src).tables i ≠ 0 → ∀ j,
    ((s.spaces.dirs src).tables i, j) ≠ s.cloningBufferPage →
      t.spaces.tables ((s.spaces.dirs src).tables i) j =
        s.spaces.tables ((s.spaces.dirs src).tables i) j
  contents : ∀ i < 1024, (s.spaces.dirs src).tables i ≠ 0 → ∀ j < 1024,
    (s.spaces.tables ((s.spaces.dirs src).tables i) j).address ≠ 0 →
      t.ram (s.spaces.tables ((s.spaces.dirs src).tables i) j).address =
        s.ram (s.spaces.tables ((s.spaces.dirs src).tables i) j).address

section Clone
variable {alloc : ℕ → KM (ℕ × ℕ)} {src : ℕ} {s t u : Kernel} {block : ℕ × ℕ}

theorem ActiveSpace.cloneable (h : ActiveSpace src s) (hused : FramesUsed src s) :
    Cloneable src s := ⟨h, fun i hi ho j hj => hused i hi ho.1 j hj⟩

theorem HandsOut.entered (h : HandsOut s pageDirectorySize block u) :
    Entered block.1 s (u.addDirectory block.1 block.2) where
  cr3 := h.cr3
  kernelDirectory := h.kernelDirectory
  cloningBufferPage := h.cloningBufferPage
  dirs d hd := by
    have hset : (u.addDirectory block.1 block.2).spaces.dirs d = u.spaces.dirs d :=
      Kernel.setDir_of_ne hd
    rw [hset, h.spaces]
  blocks x hx := (h.blocks x).mpr (Or.inr hx)
  page v _ j _ := by
    show u.spaces.tables v j = s.spaces.tables v j
    rw [h.spaces]
  frames := ⟨h.framesKept.length, h.framesKept.used, h.framesKept.ram⟩

theorem EntriesDone.directory (h : ActiveSpace src s) (hused : FramesUsed src s)
    (ha : HandsOut s pageDirectorySize block u)
    (hl : EntriesDone src block.1 0 1024 (u.addDirectory block.1 block.2) t) :
    DirectoryCloned src s block.1 t := by
  have he := ha.entered
  have hk : block.1 ≠ s.kernelDirectory := ha.ne_of_mem h.directories.2 (by decide) (by decide)
  have hd : block.1 ≠ src := ha.ne_of_mem h.directories.1 (by decide) (by decide)
  have hs := h.cloneable hused
  have hdirs := he.dirs _ hd.symm
  have hentry : ∀ i < 1024, EntryCloned src i s t (t.spaces.dirs block.1) := fun i hi =>
    (hl.entries i (Nat.zero_le i) (by omega)).before hs he hk hd hi
  have hall := he.trans hl.entered
  refine ⟨ha.apart, fun i hi => (hentry i hi).null, fun i hi => (hentry i hi).shared,
    fun i hi => (hentry i hi).copied, ?_, hall.dirs _ hd.symm, ?_, ?_⟩
  · intro i k hik hki hoi hok
    have hapart := hl.apart i k (Nat.zero_le i) hik (by omega) ((he.ownTable hk hd).mpr hoi)
      ((he.ownTable hk hd).mpr hok)
    rw [hdirs] at hapart
    exact hapart.before (he.own_page h (by omega) hoi) (he.own_page h hki hok)
  · exact fun i hi hne j hj => hall.page _ (h.tables i hi hne) j hj
  · exact fun i hi hne j hj hmapped => hall.frames.ram _ (hused i hi hne j hj hmapped)

theorem DirectoryCloned.created {dir : ℕ} (h : DirectoryCloned src s dir t) (created : List ℕ) :
    DirectoryCloned src s dir { t with created := created } where
  new := h.new
  null := h.null
  shared := h.shared
  copied i hi ho := (h.copied i hi ho).congr rfl rfl rfl ⟨rfl, fun _ hf => hf, fun _ _ => rfl⟩
  apart i k hik hk hoi hok :=
    ⟨(h.apart i k hik hk hoi hok).table, (h.apart i k hik hk hoi hok).pages⟩
  directory := h.directory
  tables := h.tables
  contents := h.contents

theorem EntriesDone.activeSpace (h : ActiveSpace src s) (hused : FramesUsed src s)
    (ha : HandsOut s pageDirectorySize block u)
    (hl : EntriesDone src block.1 0 1024 (u.addDirectory block.1 block.2) t) :
    ActiveSpace block.1 { t with currentDirectory := block.1, cr3 := block.1 } := by
  have hk : block.1 ≠ s.kernelDirectory := ha.ne_of_mem h.directories.2 (by decide) (by decide)
  have hclone := hl.directory h hused ha
  have hall := ha.entered.trans hl.entered
  have hat : t.tableAt = s.tableAt := hall.tableAt hk
  have hat' : ∀ i, Kernel.tableAt { t with currentDirectory := block.1, cr3 := block.1 } i =
      s.tableAt i := fun i => congrFun hat i
  have hkd : t.kernelDirectory = s.kernelDirectory := hall.kernelDirectory
  refine ⟨rfl, fun i hi hne => ?_, ?_, ?_, fun i hi ho => ?_, ⟨?_, ?_⟩, fun i hi hne => ?_,
    hl.frames⟩
  · rw [hat'] at hne ⊢
    have hsrc := h.shares i hi hne
    rw [← hsrc] at hne ⊢
    exact (hclone.shared i hi hsrc.symm hne).1
  · show t.cloningBufferPage = (t.tableAt 960, 0)
    rw [hall.cloningBufferPage, hat]
    exact h.cloning
  · rw [hat']
    exact h.cloningNe
  · obtain ⟨hne, hown⟩ := ho
    rw [hat'] at hown ⊢
    by_cases h0 : (s.spaces.dirs src).tables i = 0
    · exact absurd (hclone.null i hi h0) hne
    by_cases hshared : s.tableAt i = (s.spaces.dirs src).tables i
    · have hentry := (hclone.shared i hi hshared h0).1
      exact absurd (hshared.trans hentry.symm) hown
    · have hcb : s.cloningBufferPage.1 = s.tableAt 960 := congrArg Prod.fst h.cloning
      rw [← hcb]
      exact (hclone.copied i hi ⟨h0, hshared⟩).ne_cloning h
  · exact hl.entered.blocks _ ((ha.blocks _).mpr (Or.inl rfl))
  · show (t.kernelDirectory, pageDirectorySize) ∈ t.blocks
    rw [hkd]
    exact hall.blocks _ h.directories.2
  · show ((t.spaces.dirs block.1).tables i, pageTableSize) ∈ t.blocks
    by_cases h0 : (s.spaces.dirs src).tables i = 0
    · exact absurd (hclone.null i hi h0) hne
    by_cases hshared : s.tableAt i = (s.spaces.dirs src).tables i
    · rw [(hclone.shared i hi hshared h0).1]
      exact hall.blocks _ (h.tables i hi h0)
    · exact (hclone.copied i hi ⟨h0, hshared⟩).held

theorem cloneDirectoryWith_ends (hA : HandsOutNew alloc) (h : ActiveSpace src s)
    (hused : FramesUsed src s) :
    Ends (cloneDirectoryWith alloc src s) (fun dir t => DirectoryCloned src s dir t ∧
      ActiveSpace dir { t with currentDirectory := dir, cr3 := dir })
        fun _ => EntriesStop alloc src 0 1024 s := by
  refine ends_bind ((hA.ends pageDirectorySize s).mono (fun _ _ hu => hu) fun _ hf => Or.inl hf)
    fun block u hu => ends_modify_bind ?_
  have he := hu.entered
  have hk : block.1 ≠ s.kernelDirectory := hu.ne_of_mem h.directories.2 (by decide) (by decide)
  have hd : block.1 ≠ src := hu.ne_of_mem h.directories.1 (by decide) (by decide)
  have hframes : FramesOK (u.addDirectory block.1 block.2).frames := by
    show FramesOK u.frames
    rw [hu.frames]
    exact h.frames
  have hclone := (h.cloneable hused).entered he hk hd hframes
  have hk' : block.1 ≠ (u.addDirectory block.1 block.2).kernelDirectory := by
    rw [he.kernelDirectory]
    exact hk
  have hnull : ∀ k, 0 ≤ k →
      ((u.addDirectory block.1 block.2).spaces.dirs block.1).tables k = 0 := by
    intro k _
    have hdir : (u.addDirectory block.1 block.2).spaces.dirs block.1 =
        { PageDirectory.zero with ismetaTablesPhysicalAddr := u32 (block.2 + 4096) } := if_pos rfl
    rw [hdir]
    rfl
  refine ends_bind ((cloneEntriesWith_ends hA hclone hk' hd (Nat.le_refl _) hnull).mono
    (fun _ _ ht => ht) fun _ hstop => ?_) fun _ t ht => ends_modify_bind (ends_pure ?_)
  · have hfree : (u.addDirectory block.1 block.2).free = s.free := hu.free
    rcases hstop.entered he h hk hd (Nat.le_refl _) with hstop | hlt
    · exact hstop
    · rw [hfree] at hlt
      exact Or.inr (Or.inr hlt)
  · have hactive := ht.activeSpace h hused hu
    exact ⟨(ht.directory h hused hu).created _, hactive.active, hactive.shares, hactive.cloning,
      hactive.cloningNe, hactive.own, hactive.directories, hactive.tables, hactive.frames⟩

/-- With memory from an allocator that hands out new blocks, the directory that `clone_directory`
returns is a clone of the loaded directory; and it returns one, if the allocator does not stop, the
pages to copy are present and there are frames enough. -/
theorem cloneDirectory_copies (hA : HandsOutNew alloc) (h : ActiveSpace src s)
    (hused : FramesUsed src s) :
    (∀ dir t, cloneDirectoryWith alloc src s = .ok dir t → DirectoryCloned src s dir t) ∧
      (¬Fails alloc → PagesPresent src s → entriesNeeded s src 0 1024 ≤ s.free →
        ∃ dir t, cloneDirectoryWith alloc src s = .ok dir t) := by
  have hends := cloneDirectoryWith_ends hA h hused
  refine ⟨fun dir t hr => (hends.ok hr).1, fun hreturns hpresent hfree => ?_⟩
  have hgo : ∀ t : Kernel, ¬EntriesStop alloc src 0 1024 s := by
    rintro - (hfail | ⟨k, _, hk, ho, j, hj, hne, hp⟩ | hlt)
    · exact hreturns hfail
    · rw [hpresent k (by omega) ho j hj hne] at hp
      exact nomatch hp
    · omega
  obtain ⟨dir, t, hr, _⟩ := hends.returns hgo
  exact ⟨dir, t, hr⟩

/-- `get_page` on the loaded directory keeps it fit to be cloned: a table it adds is new. -/
theorem getPageWith_activeSpace (hA : HandsOutNew alloc) (h : ActiveSpace src s) (address : ℕ) :
    Ends (getPageWith alloc address src s) (fun _ t => ActiveSpace src t) fun _ => Fails alloc := by
  refine ends_get_bind ?_
  by_cases hne : (s.spaces.dirs src).tables (tableIndex address) ≠ 0
  · rw [if_pos hne]
    exact ends_get_bind (ends_pure h)
  · have hnull : (s.spaces.dirs src).tables (tableIndex address) = 0 := Decidable.not_not.mp hne
    rw [if_neg hne]
    refine ends_bind (hA.ends pageTableSize s) fun block u hu => ends_modify_bind (ends_get_bind
      (ends_pure ?_))
    generalize hindex : tableIndex address = index at hnull ⊢
    have h960 : (s.spaces.dirs src).tables 960 = s.tableAt 960 :=
      h.shares 960 (by decide) h.cloningNe
    have hindex960 : index ≠ 960 := by
      rintro rfl
      rw [hnull] at h960
      exact h.cloningNe h960.symm
    have hat0 : index < 1024 → s.tableAt index = 0 := by
      intro hlt
      by_contra hne'
      exact hne' ((h.shares index hlt hne').symm.trans hnull)
    have hentry : ∀ d i, ((u.addTable src index block.1 block.2).spaces.dirs d).tables i =
        if d = src ∧ i = index then block.1 else (s.spaces.dirs d).tables i := by
      intro d i
      rw [Kernel.addTable_entry, hu.spaces]
    have hat : ∀ i, i ≠ index → (u.addTable src index block.1 block.2).tableAt i = s.tableAt i := by
      intro i hi
      unfold Kernel.tableAt
      rw [hentry, if_neg fun he => hi he.2, Kernel.addTable_kernelDirectory, hu.kernelDirectory]
    have hsrc : ∀ i, i ≠ index → ((u.addTable src index block.1 block.2).spaces.dirs src).tables i =
        (s.spaces.dirs src).tables i := by
      intro i hi
      rw [hentry, if_neg fun he => hi he.2]
    have hnew : ((u.addTable src index block.1 block.2).spaces.dirs src).tables index =
        block.1 := by
      rw [hentry, if_pos ⟨rfl, rfl⟩]
    have hblocks : ∀ x ∈ s.blocks, x ∈ (u.addTable src index block.1 block.2).blocks :=
      fun x hx => (hu.blocks x).mpr (Or.inr hx)
    have hcb : s.cloningBufferPage.1 = s.tableAt 960 := congrArg Prod.fst h.cloning
    refine ⟨hu.cr3.trans h.active, fun i hi hi0 => ?_, ?_, ?_, fun i hi ho => ?_,
      ⟨hblocks _ h.directories.1, ?_⟩, fun i hi hi0 => ?_, ?_⟩
    · by_cases hii : i = index
      · rw [hii] at hi hi0 ⊢
        rw [hnew]
        unfold Kernel.tableAt at hi0 ⊢
        rw [hentry] at hi0 ⊢
        by_cases hk : (u.addTable src index block.1 block.2).kernelDirectory = src
        · rw [if_pos ⟨hk, rfl⟩]
        · have hzero := hat0 hi
          unfold Kernel.tableAt at hzero
          rw [if_neg fun he => hk he.1, Kernel.addTable_kernelDirectory, hu.kernelDirectory] at hi0
          exact absurd hzero hi0
      · rw [hat i hii] at hi0 ⊢
        rw [hsrc i hii]
        exact h.shares i hi hi0
    · rw [hat 960 hindex960.symm]
      exact hu.cloningBufferPage.trans h.cloning
    · rw [hat 960 hindex960.symm]
      exact h.cloningNe
    · rw [hat 960 hindex960.symm]
      by_cases hii : i = index
      · rw [hii, hnew, ← hcb]
        exact hu.ne_of_mem h.cloning_block (by decide) (by decide)
      · unfold OwnTable at ho
        rw [hat i hii, hsrc i hii] at ho
        rw [hsrc i hii]
        exact h.own i hi ho
    · show (u.kernelDirectory, pageDirectorySize) ∈ _
      rw [hu.kernelDirectory]
      exact hblocks _ h.directories.2
    · by_cases hii : i = index
      · rw [hii, hnew]
        exact (hu.blocks _).mpr (Or.inl rfl)
      · rw [hsrc i hii] at hi0 ⊢
        exact hblocks _ (h.tables i hi hi0)
    · show FramesOK u.frames
      rw [hu.frames]
      exact h.frames

end Clone

/-! ## A directory with a table of its own -/

/-- An allocator that hands out the first page above all blocks. -/
def allocAbove (size : ℕ) : KM (ℕ × ℕ) := fun s =>
  let p := 4096 * ((s.blocks.map fun x => x.1 + x.2).foldr max 0 / 4096 + 1)
  .ok (p, p) { s with linear := (p, size) :: s.linear }

theorem le_foldr_max {x : ℕ} {xs : List ℕ} (h : x ∈ xs) : x ≤ xs.foldr max 0 := by
  induction xs with
  | nil => exact absurd h List.not_mem_nil
  | cons y ys ih =>
    rcases List.mem_cons.mp h with rfl | h
    · exact Nat.le_max_left _ _
    · exact (ih h).trans (Nat.le_max_right _ _)

theorem allocAbove_handsOutNew : HandsOutNew allocAbove := by
  intro size s block t hr
  cases hr
  refine ⟨Nat.mul_mod_right _ _, by omega, fun x hx => ?_, fun x => ?_, rfl, rfl, rfl, rfl, rfl, rfl⟩
  · have hle := le_foldr_max (List.mem_map_of_mem (f := fun x : ℕ × ℕ => x.1 + x.2) hx)
    dsimp only at hle ⊢
    omega
  · unfold Kernel.blocks
    simp only [List.mem_append, List.mem_cons]
    tauto

theorem allocAbove_returns : ¬Fails allocAbove := fun ⟨_, _, _, _, h⟩ => nomatch h

/-- The loaded directory at `0x4000` has the kernel's table for the cloning page, and at entry 5 a
table of its own with two pages. -/
def twoPages : Kernel where
  heap := ⟨initialHeap, []⟩
  kernelHeap := false
  memFirstUnused := 0x9000
  frames := [15, 0]
  spaces :=
    { dirs := fun d =>
        ⟨fun i => if i = 960 then 0x7000 else if d = 0x4000 ∧ i = 5 then 0x8000 else 0,
          fun i => if i = 960 then 0x7007 else if d = 0x4000 ∧ i = 5 then 0x8007 else 0, d + 4096⟩
      tables := fun v j =>
        if v = 0x7000 ∧ j = 0 then ⟨true, true, true, 3⟩
        else if v = 0x8000 ∧ j = 0 then ⟨true, true, true, 1⟩
        else if v = 0x8000 ∧ j = 7 then ⟨true, false, true, 2⟩
        else Page.zero }
  kernelDirectory := 0x1000
  currentDirectory := 0x4000
  cr3 := 0x4000
  cloningBufferPage := (0x7000, 0)
  ram := fun f o => UInt8.ofNat (f + o)
  tasks := fun _ => Task.zero
  currentTask := 0
  linear := [(0x8000, 4096), (0x7000, 4096), (0x4000, 8196), (0x1000, 8196)]
  paging := [0x8000, 0x7000, 0x4000, 0x1000]
  created := []
  midpoints := []

theorem twoPages_tableAt {i : ℕ} (h : twoPages.tableAt i ≠ 0) : i = 960 := by
  by_contra h960
  exact h ((if_neg h960).trans (if_neg (by simp [twoPages])))

theorem twoPages_entry {i : ℕ} (h : (twoPages.spaces.dirs 0x4000).tables i ≠ 0) :
    i = 960 ∨ i = 5 := by
  by_contra hne
  obtain ⟨h960, h5⟩ := not_or.mp hne
  exact h ((if_neg h960).trans (if_neg fun he => h5 he.2))

theorem twoPages_page {v j : ℕ} (h : (twoPages.spaces.tables v j).address ≠ 0) :
    twoPages.used (twoPages.spaces.tables v j).address = true ∧
      (twoPages.spaces.tables v j).present = true := by
  by_cases h7 : v = 0x7000 ∧ j = 0
  · obtain ⟨rfl, rfl⟩ := h7
    decide
  by_cases h8 : v = 0x8000 ∧ j = 0
  · obtain ⟨rfl, rfl⟩ := h8
    decide
  by_cases h87 : v = 0x8000 ∧ j = 7
  · obtain ⟨rfl, rfl⟩ := h87
    decide
  · have hzero : twoPages.spaces.tables v j = Page.zero :=
      (if_neg h7).trans ((if_neg h8).trans (if_neg h87))
    rw [hzero] at h
    exact absurd rfl h

theorem twoPages_active : ActiveSpace 0x4000 twoPages where
  active := rfl
  shares i _ hne := by
    rw [twoPages_tableAt hne]
    decide
  cloning := rfl
  cloningNe := by decide
  own i _ ho := by
    rcases twoPages_entry ho.1 with rfl | rfl
    · exact absurd rfl ho.2
    · decide
  directories := by decide
  tables i _ hne := by
    rcases twoPages_entry hne with rfl | rfl <;> decide
  frames := ⟨by decide, by decide, by decide⟩

theorem twoPages_used : FramesUsed 0x4000 twoPages := fun _ _ _ _ _ h => (twoPages_page h).1

theorem twoPages_present : PagesPresent 0x4000 twoPages := fun _ _ _ _ _ h => (twoPages_page h).2

theorem cloneDirectory_copies_twoPages : ∃ dir t,
    cloneDirectoryWith allocAbove 0x4000 twoPages = .ok dir t ∧
      DirectoryCloned 0x4000 twoPages dir t := by
  obtain ⟨hcloned, hreturns⟩ :=
    cloneDirectory_copies allocAbove_handsOutNew twoPages_active twoPages_used
  obtain ⟨dir, t, hr⟩ := hreturns allocAbove_returns twoPages_present (by decide +kernel)
  exact ⟨dir, t, hr, hcloned dir t hr⟩

/-! ## The kernel's own allocator -/

section Checked
variable {alloc : ℕ → KM (ℕ × ℕ)} {src dir i n : ℕ} {s t : Kernel}

open Classical in
/-- The allocator, stopped where a block it hands out is not new or not in mapped pages. -/
noncomputable def checked (alloc : ℕ → KM (ℕ × ℕ)) (size : ℕ) : KM (ℕ × ℕ) := fun s =>
  match alloc size s with
  | .ok block t => if HandsOut s size block t then .ok block t else .error .stackOverflow t
  | .error e t => .error e t

theorem checked_ok {size : ℕ} {block : ℕ × ℕ} (h : checked alloc size s = .ok block t) :
    alloc size s = .ok block t ∧ HandsOut s size block t := by
  unfold checked at h
  cases ha : alloc size s with
  | error e u =>
    rw [ha] at h
    exact nomatch h
  | ok b u =>
    rw [ha] at h
    dsimp only at h
    by_cases hout : HandsOut s size b u
    · rw [if_pos hout] at h
      cases h
      exact ⟨rfl, hout⟩
    · rw [if_neg hout] at h
      exact nomatch h

theorem checked_handsOutNew (alloc : ℕ → KM (ℕ × ℕ)) : HandsOutNew (checked alloc) :=
  fun _ _ _ _ h => (checked_ok h).2

theorem cloneTable_of_checked {v : ℕ} {block : ℕ × ℕ}
    (h : cloneTableWith (checked alloc) i v s = .ok block t) :
    cloneTableWith alloc i v s = .ok block t := by
  unfold cloneTableWith at h ⊢
  obtain ⟨b, u, ha, h⟩ := bind_ok h
  rw [bind_of_ok (checked_ok ha).1]
  exact h

theorem cloneEntry_of_checked (h : cloneEntryWith (checked alloc) src dir i s = .ok () t) :
    cloneEntryWith alloc src dir i s = .ok () t := by
  have hget : (get : KM Kernel) s = .ok s s := rfl
  unfold cloneEntryWith at h ⊢
  rw [bind_of_ok hget] at h ⊢
  by_cases hne : (s.spaces.dirs src).tables i ≠ 0
  · rw [if_pos hne] at h ⊢
    by_cases hk : (s.spaces.dirs s.kernelDirectory).tables i = (s.spaces.dirs src).tables i
    · rw [if_pos hk] at h ⊢
      exact h
    · rw [if_neg hk] at h ⊢
      obtain ⟨b, u, ha, h⟩ := bind_ok h
      rw [bind_of_ok (cloneTable_of_checked ha)]
      exact h
  · rw [if_neg hne] at h ⊢
    exact h

theorem cloneEntries_of_checked (h : cloneEntriesWith (checked alloc) src dir i n s = .ok () t) :
    cloneEntriesWith alloc src dir i n s = .ok () t := by
  induction n generalizing i s with
  | zero => exact h
  | succ n ih =>
    obtain ⟨⟨⟩, u, ha, h⟩ := bind_ok h
    exact (bind_of_ok (cloneEntry_of_checked ha) _).trans (ih h)

theorem cloneDirectory_of_checked (h : cloneDirectoryWith (checked alloc) src s = .ok dir t) :
    cloneDirectoryWith alloc src s = .ok dir t := by
  unfold cloneDirectoryWith at h ⊢
  obtain ⟨b, u, ha, h⟩ := bind_ok h
  obtain ⟨⟨⟩, v, hm, h⟩ := bind_ok h
  obtain ⟨⟨⟩, w, hl, h⟩ := bind_ok h
  rw [bind_of_ok (checked_ok ha).1, bind_of_ok hm, bind_of_ok (cloneEntries_of_checked hl)]
  exact h

/-- In the kernel itself: where every call of `kmalloc_ap` hands out a new block in mapped pages,
`clone_directory` returns a clone. -/
theorem cloneDirectory_cloned {depth : ℕ} (h : ActiveSpace src s) (hused : FramesUsed src s)
    (hr : cloneDirectoryWith (checked (kmallocAp depth)) src s = .ok dir t) :
    cloneDirectory depth src s = .ok dir t ∧ DirectoryCloned src s dir t := by
  rw [cloneDirectory_eq]
  exact ⟨cloneDirectory_of_checked hr,
    ((cloneDirectoryWith_ends (checked_handsOutNew _) h hused).ok hr).1⟩

end Checked

section Heap
variable {s t : Kernel} {ts : List Tile} {size i : ℕ} {block : ℕ × ℕ}

theorem kmallocAp_found {depth : ℕ} (hon : s.kernelHeap = true)
    (hf : findHole s.arena (u32 (size + 20)) true = some i)
    (hok : kmallocAp (depth + 1) size s = .ok block t) :
    ∃ a', carve i (u32 (size + 20)) true s.arena = .ok (block.1, a') ∧
      t = (s.setArena a').tookBlock block.1 size := by
  have hget : (get : KM Kernel) s = .ok s s := rfl
  unfold kmallocAp kmallocAt at hok
  rw [bind_of_ok hget, if_pos hon] at hok
  obtain ⟨new, u, halloc, hok⟩ := bind_ok hok
  obtain ⟨⟨⟩, w, htook, hok⟩ := bind_ok hok
  cases htook
  rw [if_pos rfl] at hok
  obtain ⟨physical, w, hp, hok⟩ := bind_ok hok
  cases hok
  obtain ⟨j, s₁, a, hchoose, hcarve, rfl⟩ := heapAlloc_ok halloc
  have hfound := @chooseHole_of_found Kernel
    (kernelHost (getPageWith fun n => kmallocAt depth n true true)) s (u32 (size + 20)) i true hf
  rw [hfound] at hchoose
  cases hchoose
  exact ⟨a, hcarve, (physicalOf_kept new _).ok hp⟩

/-- With a hole that fits, `kmalloc_ap` hands out a new block in mapped pages. -/
theorem kmallocAp_handsOut {depth : ℕ} (hon : s.kernelHeap = true) (ht : Tiled s.heap ts)
    (hr : Request size true) (hf : findHole s.arena (size + 20) true = some i)
    (hlinear : ∀ x ∈ s.linear, x.1 + x.2 ≤ s.arena.heap.allocatedStart)
    (hok : kmallocAp (depth + 1) size s = .ok block t) : HandsOut s size block t := by
  have hf' := hf
  rw [← u32_of_lt hr.noWrap] at hf'
  obtain ⟨a', hcarve, rfl⟩ := kmallocAp_found hon hf' hok
  have hhost : heapAlloc Arena.host size true s.arena = .ok block.1 a' :=
    heapAlloc_of_choose (H := Arena.host) (chooseHole_of_found (H := Arena.host) hf') hcarve
  have hmax : StaysUnderMax s.heap.arena size true := fun hnone =>
    absurd (hf.symm.trans hnone) (Option.some_ne_none i)
  obtain ⟨pre, x, post, halloc⟩ := ht.heap.alloc hr hmax hhost
  have hnew := ht.allocated halloc
  have hres := halloc.result
  have hmem : (⟨x.addr + leftOffset x.addr true, blockLen x.len (size + 20), .used size⟩ : Tile) ∈
      pre ++ carved x size true ++ post := by
    unfold carved
    simp
  have hbounds := halloc.inv.bounds hmem
  have hlt := halloc.inv.end_lt
  have hlen := (halloc.inv.good _ hmem).payload size rfl
  have hstart := halloc.start
  dsimp only at hbounds hlen
  refine ⟨?_, by omega, fun y hy => ?_, fun y => ?_, rfl, rfl, rfl, rfl, rfl, rfl⟩
  · have hx : x.addr + 12 < 2 ^ 32 := by omega
    rw [hres]
    by_cases hpage : (x.addr + 12) % 4096 = 0
    · rw [leftOffset, if_pos rfl, pageAlignGetOffset_aligned hx hpage, Nat.add_zero]
      exact hpage
    · rw [leftOffset, if_pos rfl]
      exact (pageAlignGetOffset_misaligned hx hpage).2.2
  · rcases List.mem_append.mp hy with hy | hy
    · exact (List.pairwise_cons.mp hnew.safe.apart).1 y hy
    · have hbelow : y.1 + y.2 ≤ s.heap.arena.heap.allocatedStart := hlinear y hy
      exact Or.inr (by omega)
  · show y ∈ (block.1, size) :: s.heap.live ++ s.linear ↔ _
    rw [List.cons_append, List.mem_cons]
    rfl

end Heap

end Evos
