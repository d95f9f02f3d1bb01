import Evos.Mm.Walks

/-! # The page walks of a clone

`clone_directory` copies the physical addresses of the tables that are the kernel's, and takes those
that `kmalloc_ap` reports for the tables it copies. Copying moves no page but the cloning page, so the
physical addresses of all other directories stay right. -/

namespace Evos
open ByteMemory Segments Outcome
set_option autoImplicit false

/-! ## Copying pages -/

section Copy
variable {s t : Kernel} {top : ℕ}

theorem PagesOnly.tableAt (h : PagesOnly s t) : t.tableAt = s.tableAt := by
  unfold Kernel.tableAt
  rw [h.dirs, h.use.kernelDirectory]

theorem PagesOnly.apart (h : PagesOnly s t) (ha : s.TablesApart) : t.TablesApart := by
  unfold Kernel.TablesApart
  rw [h.tableAt]
  exact ha

theorem Kernel.Walks.pagesOnly (h : s.Walks) (ho : PagesOnly s t) (hp : Pins s t) : t.Walks := by
  refine h.congr hp ho.tableAt (fun p hp => ?_) ho.created fun d _ => ?_
  · rw [ho.paging]
    exact hp
  · rw [ho.dirs]

theorem writeCloningPage_pins (offset size : ℕ) (src : ℕ → UInt8) (s : Kernel) :
    Ends (writeCloningPage offset size src s) (fun _ t => Pins s t) fun _ => True := by
  refine ends_get_bind (ends_get_bind ?_)
  cases s.spaces.translate s.cr3 pageCloningBuffer with
  | none => exact ends_throw trivial
  | some frame => exact ends_modify (pins_of_spaces rfl rfl)

theorem clonePageToPhysical_pins (hs : s.Paged top) (ha : s.TablesApart)
    (srcVirtual destPhysical : ℕ) :
    Ends (clonePageToPhysical srcVirtual destPhysical s) (fun _ t => Pins s t) fun _ => True := by
  have hpoint := hs.pins_pointCloningPage ha (destPhysical / 4096)
  refine ends_modify_bind (ends_get_bind (ends_get_bind ?_))
  cases (s.pointCloningPage (destPhysical / 4096)).spaces.translate
      (s.pointCloningPage (destPhysical / 4096)).cr3 srcVirtual with
  | none => exact ends_throw trivial
  | some frame =>
    exact ends_get_bind ((writeCloningPage_pins 0 4096 _ _).mono (fun _ _ h => hpoint.trans h)
      fun _ h => h)

theorem mmMemcpyPhysical_pins (hs : s.Paged top) (ha : s.TablesApart) (destPhysical : ℕ)
    (src : ℕ → UInt8) (size : ℕ) :
    Ends (mmMemcpyPhysical destPhysical src size s) (fun _ t => Pins s t) fun _ => True := by
  unfold mmMemcpyPhysical
  by_cases hsize : destPhysical % 4096 + size > 0x1000
  · rw [if_pos hsize]
    exact ends_throw trivial
  · rw [if_neg hsize]
    have hpoint := hs.pins_pointCloningPage ha (destPhysical / 4096)
    exact ends_modify_bind ((writeCloningPage_pins _ size src _).mono (fun _ _ h => hpoint.trans h)
      fun _ h => h)

theorem clonePage_pins (hs : s.Paged top) (ha : s.TablesApart) (index src dest i : ℕ) :
    Ends (clonePage index src dest i s) (fun _ t => Pins s t) fun _ => True := by
  refine ends_get_bind ?_
  by_cases h : (s.spaces.tables src i).address ≠ 0
  · rw [if_pos h]
    refine ends_bind ((pageAlloc_ends hs.framesOK dest i _).mono (fun _ _ hp => hp) fun _ _ => trivial)
      fun _ t ht => ends_get_bind ?_
    refine (clonePageToPhysical_pins (hs.pageAllocated ht) (ht.pagesOnly.apart ha) _ _).mono ?_
      fun _ hu => hu
    exact fun _ u hu => ht.grew.pins.trans hu
  · rw [if_neg h]
    exact ends_pure (Pins.refl s)

theorem clonePages_pins (hs : s.Paged top) (ha : s.TablesApart) (index src dest i n : ℕ) :
    Ends (clonePages index src dest i n s) (fun _ t => Pins s t) fun _ => True := by
  induction n generalizing i s with
  | zero => exact ends_pure (Pins.refl s)
  | succ n ih =>
    rw [clonePages_succ]
    refine ends_bind (((clonePage_paged hs index src dest i).and
      (clonePage_pins hs ha index src dest i)).mono (fun _ _ h => h) fun _ _ => trivial) ?_
    rintro _ t ⟨⟨ht, honly⟩, hpins⟩
    exact (ih ht (honly.apart ha) (i + 1)).mono (fun _ u hu => hpins.trans hu) fun _ hu => hu

theorem cloneTable_walks (depth : ℕ) (hs : s.Paged top) (hu : OwnSpaces s) (hw : s.Walks)
    (index src : ℕ) :
    Ends (cloneTable depth index src s)
      (fun copy t => t.Walks ∧ Pins s t ∧ t.EntryOK copy.1 (copy.2 ||| 7)) fun _ => True := by
  have hsize : pageTableSize + 20 < 2 ^ 31 := by decide
  refine ends_bind (kmallocAp_newBlock depth hs hu hsize) ?_
  rintro block t hb
  have hnew := (hb.new hs).2
  rw [← hb.grew.paging] at hnew
  have hwt := hw.grew hb.grew
  have hpaged : (t.newTable block.1).Paged top := hb.paged.newTable hb.mem
  have hclear : (t.newTable block.1).Walks := hwt.newTable hnew hb.inside
  have hpins : Pins s (t.newTable block.1) :=
    hb.grew.pins.trans (pins_newTable (hwt.table_ne hnew hb.inside))
  have hentry := (hb.entry (by decide)).mono (pins_newTable (hwt.table_ne hnew hb.inside))
  refine ends_modify_bind (ends_bind (((clonePages_paged hpaged index src block.1 0 1024).and
    (clonePages_pins hpaged hclear.apart index src block.1 0 1024)).mono (fun _ _ h => h)
      fun _ _ => trivial) ?_)
  rintro _ u ⟨⟨_, honly⟩, hcopied⟩
  exact ends_pure ⟨hclear.pagesOnly honly hcopied, hpins.trans hcopied, hentry.mono hcopied⟩

end Copy

/-! ## The entries -/

section Entries
variable {s t : Kernel} {top src dir i : ℕ}

theorem cloneEntry_walks (depth : ℕ) (h : Cloning top src dir i s) (hw : s.Walks)
    (hd : s.DirectoryOK dir) :
    Ends (cloneEntry depth src dir i s) (fun _ t => t.Walks ∧ t.DirectoryOK dir ∧ Pins s t)
      fun _ => True := by
  have hk : s.kernelDirectory ≠ dir := fun he => h.new (he ▸ h.paged.kernel)
  refine ends_get_bind ?_
  by_cases hne : (s.spaces.dirs src).tables i ≠ 0
  · rw [if_pos hne]
    by_cases hshared : (s.spaces.dirs s.kernelDirectory).tables i = (s.spaces.dirs src).tables i
    · rw [if_pos hshared]
      have hentry := (hw.dirs src h.source).entries i
      exact ends_modify ⟨hw.setDir h.paged.kernel h.new,
        hd.setEntry hentry (pins_setDir hk) (Kernel.setDir_self _ _ _), pins_setDir hk⟩
    · rw [if_neg hshared]
      have hown : OwnSpaces s := h.own.resolve_left fun he => hshared (by rw [he])
      refine ends_bind (((cloneTable_paged depth h.paged hown i _).and
        (cloneTable_walks depth h.paged hown hw i _)).mono (fun _ _ h => h) fun _ _ => trivial) ?_
      rintro copy t ⟨⟨hp, honly⟩, hwt, hpins, hentry⟩
      have hnew : dir ∉ t.created := by
        rw [honly.created]
        exact h.new
      have hkt : t.kernelDirectory ≠ dir := by
        rw [honly.use.kernelDirectory]
        exact hk
      have hdt := hd.mono hpins (congrFun honly.dirs dir)
      exact ends_modify ⟨hwt.setDir hp.kernel hnew,
        hdt.setEntry hentry (pins_setDir hkt) (Kernel.setDir_self _ _ _),
        hpins.trans (pins_setDir hkt)⟩
  · rw [if_neg hne]
    exact ends_pure ⟨hw, hd, Pins.refl s⟩

theorem cloneEntries_walks (depth : ℕ) {n : ℕ} (h : Cloning top src dir i s) (hw : s.Walks)
    (hd : s.DirectoryOK dir) :
    Ends (cloneEntries depth src dir i n s) (fun _ t => t.Walks ∧ t.DirectoryOK dir ∧ Pins s t)
      fun _ => True := by
  induction n generalizing i s with
  | zero => exact ends_pure ⟨hw, hd, Pins.refl s⟩
  | succ n ih =>
    refine ends_bind (((cloneEntry_paged depth h).and (cloneEntry_walks depth h hw hd)).mono
      (fun _ _ h => h) fun _ _ => trivial) ?_
    rintro _ t ⟨⟨ht, _, _⟩, hwt, hdt, hpins⟩
    exact (ih ht hwt hdt).mono (fun _ u hu => ⟨hu.1, hu.2.1, hpins.trans hu.2.2⟩) fun _ hu => hu

end Entries

/-! ## The directory -/

/-- What `clone_directory` leaves behind. -/
structure ClonedWalks (s : Kernel) (dir : ℕ) (t : Kernel) : Prop where
  walks : t.Walks
  pins : Pins s t
  created : t.created = dir :: s.created
  row : t.InARow dir ↔ s.DirectoryContiguous

section Directory
variable {s t : Kernel} {top src dir f g : ℕ} {block : ℕ × ℕ}

theorem ClonedWalks.rows_iff (h : ClonedWalks s dir t) (hw : s.Walks) :
    t.Rows ↔ s.Rows ∧ s.DirectoryContiguous := by
  unfold Kernel.Rows
  rw [h.created]
  constructor
  · intro hr
    refine ⟨fun d hd => ?_, h.row.mp (hr dir List.mem_cons_self)⟩
    exact ((hw.dirs d hd).inARow_iff h.pins).mp (hr d (List.mem_cons_of_mem _ hd))
  · rintro ⟨hr, hc⟩ d hd
    rcases List.mem_cons.mp hd with rfl | hold
    · exact h.row.mpr hc
    · exact ((hw.dirs d hold).inARow_iff h.pins).mpr (hr d hold)

theorem NewBlock.addDirectory (h : NewBlock s top pageDirectorySize block t) (hs : s.Paged top)
    (hw : s.Walks) (hb : DirectoryBlock s block t f g) :
    (t.addDirectory block.1 block.2).Walks ∧ (t.addDirectory block.1 block.2).DirectoryOK block.1 ∧
      Pins t (t.addDirectory block.1 block.2) := by
  have hnew := (h.new hs).1
  rw [← h.grew.kept.created] at hnew
  have hk : t.kernelDirectory ≠ block.1 := fun he => hnew (he ▸ h.paged.kernel)
  have hwd := (hw.grew h.grew).setDir (x := { PageDirectory.zero with
    ismetaTablesPhysicalAddr := u32 (block.2 + 4096) }) h.paged.kernel hnew
  have hset : Pins t (t.setDir block.1 { PageDirectory.zero with
      ismetaTablesPhysicalAddr := u32 (block.2 + 4096) }) := pins_setDir hk
  have hpins : Pins t (t.addDirectory block.1 block.2) := hset.trans (pins_of_spaces rfl rfl)
  have hdir : (t.addDirectory block.1 block.2).spaces.dirs block.1 = { PageDirectory.zero with
      ismetaTablesPhysicalAddr := u32 (block.2 + 4096) } := Kernel.setDir_self _ _ _
  refine ⟨hwd.congr (pins_of_spaces rfl rfl) rfl (fun _ hp => List.mem_cons_of_mem _ hp) rfl
    fun _ _ => rfl, ⟨fun i => ?_, ⟨f, g, hpins _ _ hb.first, hpins _ _ hb.second, ?_⟩, h.aligned⟩,
    hpins⟩
  · rw [hdir]
    exact Or.inl ⟨rfl, rfl⟩
  · rw [hdir]
    exact congrArg (fun x => u32 (x + 4096)) hb.physical

theorem cloneDirectory_walks_of_block (depth : ℕ) (hs : s.Paged top)
    (hu : src = s.kernelDirectory ∨ OwnSpaces s) (hsrc : src ∈ s.created) (hw : s.Walks)
    (hblock : Ends (kmallocAp depth pageDirectorySize s) (fun block t =>
      NewBlock s top pageDirectorySize block t ∧ ∃ f g, DirectoryBlock s block t f g)
      fun _ => True) :
    Ends (cloneDirectory depth src s) (ClonedWalks s) fun _ => True := by
  refine ends_bind hblock ?_
  rintro block t ⟨hb, f, g, hframes⟩
  obtain ⟨hstart, _⟩ := hs.startCloning hu hsrc hb.paged hb.grew.kept hb.mem hb.fresh block.2
  obtain ⟨hwd, hdir, hadd⟩ := hb.addDirectory hs hw hframes
  refine ends_modify_bind (ends_bind (((cloneEntries_paged depth hstart).and
    (cloneEntries_walks depth hstart hwd hdir)).mono (fun _ _ h => h) fun _ _ => trivial) ?_)
  rintro _ u ⟨⟨_, _, hcreated⟩, hwu, hdu, hpins⟩
  have hsame : u.created = s.created := hcreated.trans hb.grew.kept.created
  have hrecord : Pins u { u with created := block.1 :: u.created } := pins_of_spaces rfl rfl
  have htu : Pins t { u with created := block.1 :: u.created } := hadd.trans (hpins.trans hrecord)
  refine ends_modify_bind (ends_pure ⟨⟨hwu.apart, hwu.held, fun d hd => ?_⟩,
    hb.grew.pins.trans htu, congrArg (List.cons _) hsame, ?_⟩)
  · rcases List.mem_cons.mp hd with rfl | hold
    · exact hdu.mono hrecord rfl
    · exact (hwu.dirs d hold).mono hrecord rfl
  · have hrow := hframes.inARow_iff hb.aligned
    rw [← hrow, hframes.first.inARow_iff hframes.second hb.aligned,
      (htu _ _ hframes.first).inARow_iff (htu _ _ hframes.second) hb.aligned]

theorem cloneDirectory_walks (depth : ℕ) (hs : s.Paged top) (hu : OwnSpaces s) (hsrc : src ∈ s.created)
    (hw : s.Walks) : Ends (cloneDirectory depth src s) (ClonedWalks s) fun _ => True := by
  have hsize : pageDirectorySize + 20 < 2 ^ 31 := by decide
  refine cloneDirectory_walks_of_block depth hs (Or.inr hu) hsrc hw ?_
  refine ((kmallocAp_newBlock depth hs hu hsize).and
    (kmallocAt_foreseen depth (hs.sound hu) hw.apart hsize true true)).mono ?_ fun _ _ => trivial
  rintro block t ⟨hb, hok, hf⟩
  exact ⟨hb, hb.directory hok hf⟩

end Directory

end Evos
