import Evos.Mm.GrowthFrames
import Evos.Mm.PagedClone

/-! # Do the page walks agree?

The kernel walks the page tables by their virtual addresses, the processor by the physical addresses
that the directories keep beside them. `kmalloc` reports the physical address of a block's first page
only, and `clone_directory` adds 4096 for the second one of a directory. -/

namespace Evos
open ByteMemory Segments Outcome
set_option autoImplicit false

/-! ## The law -/

/-- The physical address of a virtual one, as `kernel_directory` maps it. -/
def Kernel.phys (s : Kernel) (address : ℕ) : Option ℕ :=
  (s.spaces.translate s.kernelDirectory address).map fun frame => frame * 4096 + address % 4096

/-- The physical addresses that the directories keep are those of their tables, and of the array that
holds them. -/
structure Kernel.WalksAgree (s : Kernel) : Prop where
  tables : ∀ d ∈ s.created, ∀ i, (s.spaces.dirs d).tables i ≠ 0 →
    ∃ x, s.phys ((s.spaces.dirs d).tables i) = some x ∧
      (s.spaces.dirs d).tablesPhysicalAddr i = x ||| 7
  none : ∀ d ∈ s.created, ∀ i, (s.spaces.dirs d).tables i = 0 →
    (s.spaces.dirs d).tablesPhysicalAddr i = 0
  ismeta : ∀ d ∈ s.created, s.phys (d + 4096) = some (s.spaces.dirs d).ismetaTablesPhysicalAddr

/-- The two pages that a directory needs lie in frames that follow each other. -/
def Kernel.InARow (s : Kernel) (d : ℕ) : Prop :=
  ∃ x, s.phys d = some x ∧ s.phys (d + 4096) = some (u32 (x + 4096))

/-- All directories lie so. -/
def Kernel.Rows (s : Kernel) : Prop := ∀ d ∈ s.created, s.InARow d

/-! ## Where the next directory goes -/

/-- The frames of the first two pages of the block that the next directory gets. -/
def Kernel.directoryFrames (s : Kernel) : Option (ℕ × ℕ) :=
  match heapAlloc Arena.host pageDirectorySize true s.arena with
  | .ok p a => some (s.frameOf a.heap.allocatedEnd (p / 4096),
      s.frameOf a.heap.allocatedEnd (p / 4096 + 1))
  | .error _ _ => none

/-- The second frame follows the first one; frames have 20 bits. -/
def Kernel.DirectoryContiguous (s : Kernel) : Prop :=
  ∀ x ∈ s.directoryFrames, x.2 = (x.1 + 1) % 2 ^ 20

instance (s : Kernel) : Decidable s.DirectoryContiguous := inferInstanceAs (Decidable (∀ _ ∈ _, _))

/-! ## Pages that keep their frames -/

/-- The page of an address has a frame that it keeps. -/
structure Kernel.Pinned (s : Kernel) (address frame : ℕ) : Prop where
  ne : frame ≠ 0
  page : address / 4096 ≠ 983040
  mapped : s.spaces.translate s.kernelDirectory address = some frame

/-- No page loses its frame. -/
def Pins (s t : Kernel) : Prop := ∀ x f, s.Pinned x f → t.Pinned x f

section Pins
variable {s t u : Kernel} {top x f p n : ℕ}

theorem Pins.refl (s : Kernel) : Pins s s := fun _ _ h => h

theorem Pins.trans (h : Pins s t) (h' : Pins t u) : Pins s u := fun x f hx => h' x f (h x f hx)

theorem Kernel.Pinned.phys (h : s.Pinned x f) : s.phys x = some (f * 4096 + x % 4096) := by
  unfold Kernel.phys
  rw [h.mapped]
  rfl

theorem Kernel.Pinned.table (h : s.Pinned x f) : s.tableAt (tableIndex x) ≠ 0 ∧
    (s.spaces.tables (s.tableAt (tableIndex x)) (pageIndex x)).present = true ∧
    (s.spaces.tables (s.tableAt (tableIndex x)) (pageIndex x)).address = f := by
  have hmapped := h.mapped
  unfold Spaces.translate at hmapped
  dsimp only at hmapped
  by_cases h0 : (s.spaces.dirs s.kernelDirectory).tables (tableIndex x) = 0
  · rw [if_pos h0] at hmapped
    cases hmapped
  · rw [if_neg h0] at hmapped
    by_cases hp : (s.spaces.tables ((s.spaces.dirs s.kernelDirectory).tables (tableIndex x))
        (pageIndex x)).present = true
    · rw [if_pos hp] at hmapped
      exact ⟨h0, hp, Option.some.inj hmapped⟩
    · rw [if_neg hp] at hmapped
      cases hmapped

theorem pins_of (hat : ∀ i, s.tableAt i ≠ 0 → t.tableAt i = s.tableAt i)
    (hpages : ∀ i j, s.tableAt i ≠ 0 → (i = 960 → j ≠ 0) →
      (s.spaces.tables (s.tableAt i) j).address ≠ 0 →
      t.spaces.tables (s.tableAt i) j = s.spaces.tables (s.tableAt i) j) : Pins s t := by
  intro x f h
  obtain ⟨hne, hpresent, haddress⟩ := h.table
  have hpage := h.page
  have hindex : tableIndex x = 960 → pageIndex x ≠ 0 := by
    unfold tableIndex pageIndex
    omega
  have hsame := hpages _ _ hne hindex (haddress ▸ h.ne)
  refine ⟨h.ne, hpage, ?_⟩
  have htable : (t.spaces.dirs t.kernelDirectory).tables (tableIndex x) =
      s.tableAt (tableIndex x) := hat _ hne
  rw [← haddress, ← hsame]
  refine Spaces.translate_of_table htable hne ?_
  rw [hsame]
  exact hpresent

theorem pins_of_spaces (hs : t.spaces = s.spaces) (hk : t.kernelDirectory = s.kernelDirectory) :
    Pins s t := by
  refine pins_of (fun i _ => ?_) fun _ _ _ _ _ => by rw [hs]
  unfold Kernel.tableAt
  rw [hs, hk]

theorem Grew.pins (h : Grew s t) : Pins s t :=
  pins_of (fun _ _ => congrFun h.tableAt _) fun _ _ _ _ ha => h.pages _ _ ha

theorem Kernel.Paged.pins_pointCloningPage (hs : s.Paged top) (ha : s.TablesApart) (frame : ℕ) :
    Pins s (s.pointCloningPage frame) := by
  obtain ⟨ts, h⟩ := hs.inv
  refine pins_of (fun _ _ => rfl) fun i j hne hj _ => ?_
  unfold Kernel.pointCloningPage
  rw [h.pages.cloning]
  by_cases hi : s.tableAt i = s.tableAt 960
  · rw [hi, Kernel.setPage_self, if_neg (hj (ha i 960 hne hi))]
  · rw [Kernel.setPage_of_ne hi]

theorem Kernel.Paged.pinned (hs : s.Paged top) (hl : (p, n) ∈ s.heap.live) (h1 : p ≤ x)
    (h2 : x < p + n) : s.Pinned x (s.pageAt (x / 4096)).address := by
  obtain ⟨ts, h⟩ := hs.inv
  have hlo := (h.live_range hl).1
  have hhi := (h.live_bounds hl).2
  have hend := h.endLe
  have htop := heapTop_le h.pages.topLe
  have hstart : kheapStart = 4096 * 61440 := rfl
  have hmapped := h.pages.mapped (x / 4096) (by omega) (by omega)
  have htrans := h.pages.toHeapPages.translate (d := s.kernelDirectory) (a := x) rfl (by omega)
    (by omega) (by omega)
  exact ⟨hmapped, by omega, htrans⟩

end Pins

/-! ## The invariant -/

/-- A table and the physical address that is kept for it. -/
def Kernel.EntryOK (s : Kernel) (table physical : ℕ) : Prop :=
  table = 0 ∧ physical = 0 ∨
    table ≠ 0 ∧ table % 4096 = 0 ∧ ∃ f, s.Pinned table f ∧ physical = f * 4096 ||| 7

/-- The physical addresses of the tables in a directory are right, and stay so; that of the second
page is right if the frames follow each other. -/
structure Kernel.DirectoryOK (s : Kernel) (d : ℕ) : Prop where
  entries : ∀ i, s.EntryOK ((s.spaces.dirs d).tables i) ((s.spaces.dirs d).tablesPhysicalAddr i)
  ismeta : ∃ f g, s.Pinned d f ∧ s.Pinned (d + 4096) g ∧
    (s.spaces.dirs d).ismetaTablesPhysicalAddr = u32 (f * 4096 + 4096)
  aligned : d % 4096 = 0

/-- The tables of the kernel's directory are different ones and no new block overwrites them, and all
directories are as above. -/
structure Kernel.Walks (s : Kernel) : Prop where
  apart : s.TablesApart
  held : ∀ i, s.tableAt i ≠ 0 → Outside (s.tableAt i) ∨ s.tableAt i ∈ s.paging
  dirs : ∀ d ∈ s.created, s.DirectoryOK d

section Walks
variable {s t : Kernel} {top d dir i p f g table physical : ℕ} {x : PageDirectory}

theorem Kernel.EntryOK.mono (h : s.EntryOK table physical) (hp : Pins s t) :
    t.EntryOK table physical := by
  rcases h with h0 | ⟨hne, hmod, f, hf, hphys⟩
  · exact Or.inl h0
  · exact Or.inr ⟨hne, hmod, f, hp _ _ hf, hphys⟩

theorem Kernel.DirectoryOK.mono (h : s.DirectoryOK d) (hp : Pins s t)
    (hd : t.spaces.dirs d = s.spaces.dirs d) : t.DirectoryOK d := by
  obtain ⟨f, g, hf, hg, hphys⟩ := h.ismeta
  refine ⟨fun i => ?_, ⟨f, g, hp _ _ hf, hp _ _ hg, ?_⟩, h.aligned⟩
  · rw [hd]
    exact (h.entries i).mono hp
  · rw [hd]
    exact hphys

theorem Kernel.Pinned.phys_of_mod (h : s.Pinned d f) (hmod : d % 4096 = 0) :
    s.phys d = some (f * 4096) := by
  rw [h.phys, hmod, Nat.add_zero]

theorem Kernel.Pinned.inARow_iff (hf : s.Pinned d f) (hg : s.Pinned (d + 4096) g)
    (hmod : d % 4096 = 0) : s.InARow d ↔ g * 4096 = u32 (f * 4096 + 4096) := by
  unfold Kernel.InARow
  rw [hf.phys_of_mod hmod, hg.phys_of_mod (by omega)]
  constructor
  · rintro ⟨x, hx, hy⟩
    cases hx
    exact Option.some.inj hy
  · intro h
    exact ⟨_, rfl, congrArg some h⟩

/-- The frames of a directory stay, so it lies in a row for good or never does. -/
theorem Kernel.DirectoryOK.inARow_iff (h : s.DirectoryOK d) (hp : Pins s t) :
    t.InARow d ↔ s.InARow d := by
  obtain ⟨f, g, hf, hg, _⟩ := h.ismeta
  rw [hf.inARow_iff hg h.aligned, (hp _ _ hf).inARow_iff (hp _ _ hg) h.aligned]

/-- The physical address of the second page is right where the frames follow each other. -/
theorem Kernel.DirectoryOK.ismeta_iff (h : s.DirectoryOK d) :
    s.phys (d + 4096) = some (s.spaces.dirs d).ismetaTablesPhysicalAddr ↔ s.InARow d := by
  obtain ⟨f, g, hf, hg, hphys⟩ := h.ismeta
  have hmod := h.aligned
  rw [hf.inARow_iff hg hmod, hg.phys_of_mod (by omega), hphys]
  exact ⟨fun h => Option.some.inj h, fun h => congrArg some h⟩

theorem Kernel.DirectoryOK.tables_agree (h : s.DirectoryOK d) (i : ℕ) :
    ((s.spaces.dirs d).tables i ≠ 0 → ∃ x, s.phys ((s.spaces.dirs d).tables i) = some x ∧
      (s.spaces.dirs d).tablesPhysicalAddr i = x ||| 7) ∧
    ((s.spaces.dirs d).tables i = 0 → (s.spaces.dirs d).tablesPhysicalAddr i = 0) := by
  rcases h.entries i with ⟨h0, hphys⟩ | ⟨hne, hmod, f, hf, hphys⟩
  · exact ⟨fun hne => absurd h0 hne, fun _ => hphys⟩
  · exact ⟨fun _ => ⟨_, hf.phys_of_mod hmod, hphys⟩, fun h0 => absurd h0 hne⟩

theorem Kernel.Walks.agree_iff (h : s.Walks) : s.WalksAgree ↔ s.Rows := by
  constructor
  · intro ha d hd
    exact (h.dirs d hd).ismeta_iff.mp (ha.ismeta d hd)
  · intro hr
    exact ⟨fun d hd i => ((h.dirs d hd).tables_agree i).1,
      fun d hd i => ((h.dirs d hd).tables_agree i).2,
      fun d hd => (h.dirs d hd).ismeta_iff.mpr (hr d hd)⟩

/-- Nothing that the invariant reads has changed, but for pages that had no frame. -/
theorem Kernel.Walks.congr (h : s.Walks) (hp : Pins s t) (hat : t.tableAt = s.tableAt)
    (hpaging : ∀ p ∈ s.paging, p ∈ t.paging) (hcreated : t.created = s.created)
    (hdirs : ∀ d ∈ s.created, t.spaces.dirs d = s.spaces.dirs d) : t.Walks := by
  refine ⟨?_, fun i hne => ?_, fun d hd => ?_⟩
  · unfold Kernel.TablesApart
    rw [hat]
    exact h.apart
  · rw [hat] at hne ⊢
    exact (h.held i hne).imp id (hpaging _)
  · rw [hcreated] at hd
    exact (h.dirs d hd).mono hp (hdirs d hd)

theorem Kernel.Walks.grew (h : s.Walks) (hg : Grew s t) : t.Walks := by
  refine h.congr hg.pins hg.tableAt (fun p hp => ?_) hg.kept.created fun d _ => ?_
  · rw [hg.paging]
    exact hp
  · rw [hg.dirs]

theorem pins_setDir (hk : s.kernelDirectory ≠ d) : Pins s (s.setDir d x) := by
  refine pins_of (fun i _ => ?_) fun _ _ _ _ _ => rfl
  exact congrArg (fun x => PageDirectory.tables x i) (Kernel.setDir_of_ne hk)

theorem Kernel.Walks.setDir (h : s.Walks) (hk : s.kernelDirectory ∈ s.created)
    (hd : d ∉ s.created) : (s.setDir d x).Walks := by
  have hne : s.kernelDirectory ≠ d := fun he => hd (he ▸ hk)
  refine h.congr (pins_setDir hne) ?_ (fun _ hp => hp) rfl fun e he => ?_
  · funext i
    exact congrArg (fun x => PageDirectory.tables x i) (Kernel.setDir_of_ne hne)
  · exact Kernel.setDir_of_ne fun heq => hd (heq ▸ he)

theorem Kernel.DirectoryOK.setEntry (h : s.DirectoryOK d) (he : s.EntryOK table physical)
    (hp : Pins s t) (hd : t.spaces.dirs d = (s.spaces.dirs d).setEntry i table physical) :
    t.DirectoryOK d := by
  obtain ⟨f, g, hf, hg, hphys⟩ := h.ismeta
  refine ⟨fun j => ?_, ⟨f, g, hp _ _ hf, hp _ _ hg, ?_⟩, h.aligned⟩
  · rw [hd]
    by_cases hj : j = i
    · rw [hj, PageDirectory.setEntry_self, PageDirectory.setEntry_physical_self]
      exact he.mono hp
    · rw [PageDirectory.setEntry_of_ne hj, PageDirectory.setEntry_physical_of_ne hj]
      exact (h.entries j).mono hp
  · rw [hd]
    exact hphys

/-! ## New blocks -/

theorem Kernel.Walks.table_ne (h : s.Walks) (hp : p ∉ s.paging) (hin : ¬Outside p) (i : ℕ)
    (hne : s.tableAt i ≠ 0) : s.tableAt i ≠ p := by
  intro he
  rcases h.held i hne with hout | hheld
  · exact hin (he ▸ hout)
  · exact hp (he ▸ hheld)

theorem pins_newTable (hne : ∀ i, s.tableAt i ≠ 0 → s.tableAt i ≠ p) : Pins s (s.newTable p) :=
  pins_of (fun _ _ => rfl) fun i _ hi _ _ => congrFun (Kernel.setTable_of_ne (hne i hi)) _

theorem Kernel.Walks.newTable (h : s.Walks) (hp : p ∉ s.paging) (hin : ¬Outside p) :
    (s.newTable p).Walks :=
  h.congr (pins_newTable (h.table_ne hp hin)) rfl (fun _ hq => List.mem_cons_of_mem _ hq) rfl
    fun _ _ => rfl

theorem pins_addTable (hne : ∀ i, s.tableAt i ≠ 0 → s.tableAt i ≠ p)
    (hnone : (s.spaces.dirs dir).tables i = 0) : Pins s (s.addTable dir i p physical) := by
  refine pins_of (fun j hj => ?_) fun j k hj _ _ => ?_
  · unfold Kernel.tableAt
    rw [Kernel.addTable_kernelDirectory, Kernel.addTable_entry, if_neg]
    rintro ⟨rfl, rfl⟩
    exact hj hnone
  · rw [Kernel.addTable_tables, if_neg (hne j hj)]

end Walks

/-! ## `kmalloc_ap` -/

/-- What `kmalloc_ap` hands out. -/
structure NewBlock (s : Kernel) (top size : ℕ) (block : ℕ × ℕ) (t : Kernel) : Prop where
  paged : t.Paged top
  grew : Grew s t
  mem : (block.1, size) ∈ t.heap.live
  fresh : ∀ n, (block.1, n) ∉ s.heap.live
  aligned : block.1 % 4096 = 0
  physical : physicalOf block.1 t = .ok block.2 t

section Block
variable {s t : Kernel} {top size depth : ℕ} {block : ℕ × ℕ}

/-- The physical address is that of the first page, when the block is there. -/
theorem kmallocAp_physical (hon : s.kernelHeap = true)
    (hok : kmallocAp (depth + 1) size s = .ok block t) : physicalOf block.1 t = .ok block.2 t := by
  have hget : (get : KM Kernel) s = .ok s s := rfl
  unfold kmallocAp kmallocAt at hok
  rw [bind_of_ok hget, if_pos hon] at hok
  obtain ⟨new, u, _, hok⟩ := bind_ok hok
  obtain ⟨⟨⟩, w, htook, hok⟩ := bind_ok hok
  cases htook
  rw [if_pos rfl] at hok
  obtain ⟨physical, w, hp, hok⟩ := bind_ok hok
  cases hok
  have hsame := (physicalOf_kept new _).ok hp
  subst hsame
  exact hp

theorem kmallocAp_newBlock (depth : ℕ) (hs : s.Paged top) (hu : OwnSpaces s)
    (hsize : size + 20 < 2 ^ 31) :
    Ends (kmallocAp depth size s) (fun block t => NewBlock s top size block t) fun _ => True := by
  cases depth with
  | zero => exact ends_throw trivial
  | succ depth =>
    obtain ⟨ts, h⟩ := hs.inv
    refine ⟨fun block t hok => ?_, fun _ _ _ => trivial⟩
    obtain ⟨htook, hpaged⟩ := (kmallocAp_paged (depth + 1) hs hu hsize).ok hok
    exact ⟨hpaged, htook.grew, htook.mem, htook.fresh, htook.aligned rfl,
      kmallocAp_physical h.on hok⟩

theorem NewBlock.inside (h : NewBlock s top size block t) : ¬Outside block.1 :=
  h.paged.live_inside h.mem

theorem NewBlock.new (h : NewBlock s top size block t) (hs : s.Paged top) :
    block.1 ∉ s.created ∧ block.1 ∉ s.paging :=
  hs.fresh h.fresh h.inside

theorem NewBlock.ne_zero (h : NewBlock s top size block t) : block.1 ≠ 0 := by
  obtain ⟨ts, hi⟩ := h.paged.inv
  have := (hi.live_bounds h.mem).1
  omega

theorem NewBlock.first (h : NewBlock s top size block t) (hsize : 0 < size) :
    t.Pinned block.1 (t.pageAt (block.1 / 4096)).address ∧
      block.2 = (t.pageAt (block.1 / 4096)).address * 4096 := by
  have hpinned := h.paged.pinned h.mem (Nat.le_refl _) (by omega)
  obtain ⟨ts, hi⟩ := h.paged.inv
  obtain ⟨f, hf, hok⟩ := hi.physicalOf h.mem
  rw [hpinned.mapped] at hf
  cases hf
  rw [h.physical, h.aligned, Nat.add_zero] at hok
  exact ⟨hpinned, (EStateM.Result.ok.inj hok).1⟩

theorem NewBlock.entry (h : NewBlock s top size block t) (hsize : 0 < size) :
    t.EntryOK block.1 (block.2 ||| 7) := by
  obtain ⟨hpinned, hphys⟩ := h.first hsize
  refine Or.inr ⟨h.ne_zero, h.aligned, _, hpinned, ?_⟩
  rw [← hphys]

theorem directoryFrames_of_ok {p : ℕ} {a : Arena}
    (h : heapAlloc Arena.host pageDirectorySize true s.arena = .ok p a) :
    s.directoryFrames = some (s.frameOf a.heap.allocatedEnd (p / 4096),
      s.frameOf a.heap.allocatedEnd (p / 4096 + 1)) := by
  unfold Kernel.directoryFrames
  rw [h]

/-- The frames of the two pages of a new directory, known before it is allocated. -/
structure DirectoryBlock (s : Kernel) (block : ℕ × ℕ) (t : Kernel) (f g : ℕ) : Prop where
  frames : s.directoryFrames = some (f, g)
  first : t.Pinned block.1 f
  physical : block.2 = f * 4096
  second : t.Pinned (block.1 + 4096) g

theorem NewBlock.directory (h : NewBlock s top pageDirectorySize block t)
    (hok : heapAlloc Arena.host pageDirectorySize true s.arena = .ok block.1 t.arena)
    (hf : Foreseen s t) : ∃ f g, DirectoryBlock s block t f g := by
  have hsize : pageDirectorySize = 8196 := rfl
  have hpinned := h.paged.pinned (x := block.1 + 4096) h.mem (by omega) (by omega)
  have hpage : (block.1 + 4096) / 4096 = block.1 / 4096 + 1 := Nat.add_div_right _ (by decide)
  rw [hpage] at hpinned
  obtain ⟨hfirst, hphys⟩ := h.first (by omega)
  obtain ⟨ts, hi⟩ := h.paged.inv
  have hlo := (hi.live_range h.mem).1
  have hhi := (hi.live_bounds h.mem).2
  have hbase : kheapStart = 4096 * heapPage := rfl
  have hframes := directoryFrames_of_ok hok
  rw [hf _ (by omega) (by omega), hf _ (by omega) (by omega)] at hframes
  exact ⟨_, _, hframes, hfirst, hphys, hpinned⟩

/-- The directory lies in a row where the frames that were computed follow each other. -/
theorem DirectoryBlock.inARow_iff {f g : ℕ} (h : DirectoryBlock s block t f g)
    (hmod : block.1 % 4096 = 0) : t.InARow block.1 ↔ s.DirectoryContiguous := by
  rw [h.first.inARow_iff h.second hmod]
  unfold Kernel.DirectoryContiguous
  rw [h.frames]
  have harith : g * 4096 = u32 (f * 4096 + 4096) ↔ g = (f + 1) % 2 ^ 20 := by
    unfold u32
    omega
  rw [harith]
  constructor
  · rintro h x hx
    cases hx
    exact h
  · intro h
    exact h (f, g) rfl

end Block

end Evos
