import Evos.Mm.BootClone
import Evos.Mm.CloneDirectory
import Evos.Task.PagedTasks

/-! # The invariant when `init_paging` returns

If the blocks of the boot stay out of the heap's addresses, the kernel that `init_paging` leaves meets
the invariant. Its directory has the first page table of the heap, or all of them where the identity
mapping goes beyond the heap; the clone of it is the directory in use. -/

namespace Evos
open ByteMemory Segments Outcome Bump
set_option autoImplicit false

/-! ## Where the boot starts -/

/-- Every page that has a frame is present. -/
def Kernel.Neat (s : Kernel) : Prop :=
  ∀ t j, (s.spaces.tables t j).address ≠ 0 → (s.spaces.tables t j).present = true

/-- The blocks of the boot end below the heap's addresses, or start behind them. -/
def Kernel.OutsideHeap (o : Kernel) : Prop := o.bootBase ≤ 0x0efbe000 ∨ 0x10000000 ≤ o.bootBase

/-- The kernel that `init_mem` leaves to `init_paging`. -/
structure Kernel.Startup (o : Kernel) : Prop where
  room : o.HasRoom
  bitmap : o.Bitmap
  noHeap : o.kernelHeap = false
  neat : o.Neat
  paging : o.paging = []
  midpoints : o.midpoints = []
  tasks : ∀ i < maxNumTasks, o.alive i = false
  outside : o.OutsideHeap

/-- The tables of the heap's addresses below this one are in the kernel's directory when the boot is
done. -/
def Kernel.bootTop (o : Kernel) : ℕ := if o.bootBase ≤ 0x0efbe000 then 61 else 64

theorem Kernel.bootTop_bounds (o : Kernel) : 61 ≤ o.bootTop ∧ o.bootTop ≤ 64 := by
  unfold Kernel.bootTop
  split <;> decide

variable {o s t : Kernel} {n top limit : ℕ}

/-! ## Pages with a frame are present -/

theorem Kernel.Neat.setPage (h : s.Neat) {v i : ℕ} {p : Page} (hp : p.present = true) :
    (s.setPage v i p).Neat := by
  intro u j hne
  by_cases hu : u = v
  · subst hu
    rw [Kernel.setPage_self] at hne ⊢
    by_cases hj : j = i
    · rw [if_pos hj]
      exact hp
    · rw [if_neg hj] at hne ⊢
      exact h u j hne
  · rw [Kernel.setPage_of_ne hu] at hne ⊢
    exact h u j hne

theorem Kernel.Neat.addTable (h : s.Neat) (dir index table physical : ℕ) :
    (s.addTable dir index table physical).Neat := by
  intro u j hne
  rw [Kernel.addTable_tables] at hne ⊢
  by_cases hu : u = table
  · rw [if_pos hu] at hne
    exact absurd rfl hne
  · rw [if_neg hu] at hne ⊢
    exact h u j hne

theorem Kernel.Neat.congr (h : s.Neat) (ht : t.spaces.tables = s.spaces.tables) : t.Neat := by
  unfold Kernel.Neat
  rw [ht]
  exact h

theorem Kernel.Neat.withTable (h : s.Neat) (j : ℕ) : (s.withTable j).Neat := by
  unfold Kernel.withTable
  split
  · exact h
  · have htook : (s.tookLinear pageTableSize true).Neat := h.congr (by rw [Kernel.tookLinear_spaces])
    exact htook.addTable _ _ _ _

theorem pageAlloc_neat (h : s.Neat) (v i : ℕ) (w : Bool) :
    Ends (pageAlloc (some (v, i)) w s) (fun _ t => t.Neat ∧ t.kernelHeap = s.kernelHeap)
      fun _ => True :=
  ends_pageAlloc (fun _ => ⟨h, rfl⟩)
    (fun _ ws _ _ => ⟨Kernel.Neat.setPage (s := { s with frames := ws }) h rfl, rfl⟩)
    fun _ _ _ => trivial

theorem identityMap_neat (depth fuel i : ℕ) (hk : s.kernelHeap = false) (h : s.Neat) :
    Ends (identityMap (depth + 1) fuel i s) (fun _ t => t.Neat) fun _ => True := by
  induction fuel generalizing i s with
  | zero => exact ends_throw trivial
  | succ fuel ih =>
    refine ends_get_bind ?_
    by_cases hi : i < u32 (s.memFirstUnused + 4096 * 4)
    · rw [if_pos hi]
      refine ends_get_bind (ends_bind_of_ok (getPage_linear depth hk i) ?_)
      have hneat := h.withTable (tableIndex i)
      have hkind := Kernel.withTable_kernelHeap (s := s) (tableIndex i)
      cases (s.withTable (tableIndex i)).findPage i s.kernelDirectory with
      | none =>
        refine ends_bind (Q := fun _ _ => False) ?_ fun _ _ hf => hf.elim
        exact ends_throw trivial
      | some page =>
        refine ends_bind (pageAlloc_neat hneat page.1 page.2 true) ?_
        rintro _ t ⟨ht, hkt⟩
        refine ends_get_bind ?_
        dsimp only
        by_cases ha : (t.spaces.tables page.1 page.2).address = i / 4096
        · rw [if_pos ha]
          exact ih _ (hkt.trans (hkind.trans hk)) ht
        · rw [if_neg ha]
          exact ends_throw trivial
    · rw [if_neg hi]
      exact ends_pure h

theorem initIdentity_neat (depth : ℕ) (ho : o.Startup) :
    Ends (initIdentity (depth + 1) o) (fun _ t => t.Neat) fun _ => True := by
  have hstart := booting_start ho.room ho.noHeap
  have hk : o.withDirectory.kernelHeap = false := by
    rw [withDirectory_kernelHeap]
    exact ho.noHeap
  have h60 : (o.withDirectory.withTable 60).tableAt 60 ≠ 0 := (hstart.tables 60).mpr (Or.inl rfl)
  have hneat : o.withDirectory.Neat := by
    refine Kernel.Neat.congr (s := o.tookLinear pageDirectorySize true) ?_ rfl
    exact ho.neat.congr (by rw [Kernel.tookLinear_spaces])
  unfold initIdentity
  exact ends_bind_of_ok (makeKernelDirectory_linear depth ho.room ho.noHeap)
    (ends_bind_of_ok (prepareHeapPages_start depth hk h60)
      (identityMap_neat depth _ _ hstart.noHeap (hneat.withTable 60)))

/-! ## The tables behind the loop -/

/-- The boot's blocks below the heap need no table but the heap's first one up there. -/
theorem Booting.bound_low (h : Booting o n n s) (hend : 4096 * n = s.memFirstUnused + 0x4000)
    (hlow : o.bootBase ≤ 0x0efbe000) : n ≤ 61 * 1024 ∧ s.memFirstUnused ≤ 0x0effe000 := by
  have hfirst := h.first
  unfold tablesBelow at hfirst
  split at hfirst <;> omega

theorem Booting.heapTables (ho : o.OutsideHeap) (h : Booting o n n s)
    (hend : 4096 * n = s.memFirstUnused + 0x4000) {i : ℕ} (h60 : 60 ≤ i) (h64 : i < 64) :
    s.tableAt i ≠ 0 ↔ i < o.bootTop := by
  rw [h.tables i]
  unfold Kernel.bootTop
  by_cases hlow : o.bootBase ≤ 0x0efbe000
  · obtain ⟨hn, _⟩ := h.bound_low hend hlow
    rw [if_pos hlow]
    omega
  · have hhigh := ho.resolve_left hlow
    have hfirst := h.first
    rw [if_neg hlow]
    omega

theorem Booting.outside (ho : o.OutsideHeap) (h : Booting o n n s)
    (hend : 4096 * n = s.memFirstUnused + 0x4000) {p : ℕ} (hlo : o.bootBase ≤ p)
    (hhi : p < s.memFirstUnused + 4096 + 36) : Outside p := by
  unfold Outside kheapStart
  rcases ho with hlow | hhigh
  · obtain ⟨_, hfirst⟩ := h.bound_low hend hlow
    omega
  · omega

theorem Booting.framesOK (hb : o.Bitmap) (h : Booting o n n s) (hn : 0 < n) : FramesOK s.frames := by
  have hsince := h.since hb
  have hlength := hsince.length
  refine ⟨by rw [hlength]; exact hb.length, hsince.word, ?_⟩
  rw [hsince.bits 0 (hsince.free 0 hn).1, decide_eq_true hn, Bool.or_true]

/-! ## The pages of the heap and the cloning page -/

theorem PageAllocated.neat {v i : ℕ} {w : Bool} (h : PageAllocated s v i w t) (hs : s.Neat) :
    t.Neat := by
  rcases h with ⟨_, rfl⟩ | ⟨_, f, ws, _, _, _, _, rfl⟩
  · exact hs
  · exact Kernel.Neat.setPage (s := { s with frames := ws }) hs rfl

theorem mapHeapPages_pages {v count : ℕ} (h : HeapPages s top (4096 * v)) (hs : s.Neat)
    (hlo : kheapStart ≤ 4096 * v) (hhi : 4096 * (v + count) ≤ heapTop top) :
    Ends (mapHeapPages (4096 * v) count s)
      (fun _ t => HeapPages t top (4096 * (v + count)) ∧ t.Neat) fun _ => True := by
  induction count generalizing v s with
  | zero => exact ends_pure ⟨h, hs⟩
  | succ count ih =>
    obtain ⟨h60, htop⟩ := tableIndex_below hlo (show 4096 * v < heapTop top by omega)
    have hne : (s.spaces.dirs s.kernelDirectory).tables (tableIndex (4096 * v)) ≠ 0 :=
      h.tableNe _ h60 htop
    have hfind : s.findPage (4096 * v) s.kernelDirectory =
        some (s.tableAt (tableIndex (4096 * v)), pageIndex (4096 * v)) := by
      unfold Kernel.findPage
      rw [if_pos hne]
      rfl
    refine ends_get_bind ?_
    rw [hfind]
    refine ends_bind ((pageAlloc_ends h.frames _ _ true).mono (fun _ _ ht => ht) fun _ _ => trivial) ?_
    rintro _ t ht
    have hnext := (h.pageAllocated ht).extend ht.pageAt
    have hsum : v + 1 + count = v + (count + 1) := by omega
    have hloop := ih hnext (ht.neat hs) (by omega) (by omega)
    rw [hsum] at hloop
    exact hloop

/-- The heap's pages are as before when the cloning page gets its table. -/
theorem HeapPages.withTable (h : HeapPages s top limit) (hbelow : ∀ j, s.tableAt j < s.memFirstUnused)
    (hroom : roundUp s.memFirstUnused + pageTableSize < 2 ^ 32) (hle : limit ≤ heapTop top)
    (htop : top ≤ 64) : HeapPages (s.withTable 960) top limit := by
  by_cases h960 : s.tableAt 960 = 0
  · have htableAt := Kernel.withTable_tableAt h960 hroom
    have htables := Kernel.withTable_tables h960 hroom
    have hround := le_roundUp s.memFirstUnused
    have hat : ∀ i, i < 64 → (s.withTable 960).tableAt i = s.tableAt i := by
      intro i hi
      rw [htableAt, if_neg (by omega)]
    have hold : ∀ i, (s.withTable 960).spaces.tables (s.tableAt i) = s.spaces.tables (s.tableAt i) := by
      intro i
      have hi := hbelow i
      rw [htables, if_neg (by omega)]
    have hbase : kheapStart = 4096 * 61440 := rfl
    refine ⟨?_, ?_, ?_, ?_⟩
    · intro i h1 h2
      rw [hat i (by omega)]
      exact h.tableNe i h1 h2
    · intro i h1 h2
      rw [hat i (by omega), hold]
      exact h.present i h1 h2
    · intro v h1 h2
      have hv : v / 1024 < top := by
        unfold heapTop at hle
        omega
      unfold Kernel.pageAt
      rw [hat _ (by omega), hold]
      exact h.mapped v h1 h2
    · rw [Kernel.withTable_frames]
      exact h.frames
  · rw [Kernel.withTable_of_ne h960]
    exact h

/-- The cloning page: page 0 of table 960. -/
structure CloningReady (s t : Kernel) : Prop where
  tableAt : ∀ i, i ≠ 960 → t.tableAt i = s.tableAt i
  ne : t.tableAt 960 ≠ 0
  page : t.cloningBufferPage = (t.tableAt 960, 0)
  present : (t.pageAt 983040).present = true

theorem makeCloningPage_pages (depth : ℕ) (hst : Staged o n s) (hs : s.Neat)
    (h : HeapPages s top limit) (hroom : roundUp s.memFirstUnused + pageTableSize < 2 ^ 32)
    (hle : limit ≤ heapTop top) (htop : top ≤ 64) :
    Ends (makeCloningPage (depth + 1) s)
      (fun _ t => HeapPages t top limit ∧ t.Neat ∧ CloningReady s t) fun _ => True := by
  have hnew := h.withTable hst.below hroom hle htop
  have hneat := hs.withTable 960
  have hkernel := Kernel.withTable_kernelDirectory (s := s) 960
  have hat : ∀ i, i ≠ 960 → (s.withTable 960).tableAt i = s.tableAt i := by
    intro i hi
    by_cases h960 : s.tableAt 960 = 0
    · rw [Kernel.withTable_tableAt h960 hroom, if_neg hi]
    · rw [Kernel.withTable_of_ne h960]
  have hne : (s.withTable 960).tableAt 960 ≠ 0 := by
    by_cases h960 : s.tableAt 960 = 0
    · have hpos := hst.below 960
      have hround := le_roundUp s.memFirstUnused
      rw [Kernel.withTable_tableAt h960 hroom, if_pos rfl]
      omega
    · rw [Kernel.withTable_of_ne h960]
      exact h960
  have hindex : tableIndex pageCloningBuffer = 960 := by decide
  have hpage : pageIndex pageCloningBuffer = 0 := by decide
  have hfind : (s.withTable 960).findPage pageCloningBuffer s.kernelDirectory =
      some ((s.withTable 960).tableAt 960, 0) := by
    have hne' : ((s.withTable 960).spaces.dirs s.kernelDirectory).tables 960 ≠ 0 := by
      rw [← hkernel]
      exact hne
    unfold Kernel.findPage
    rw [hindex, hpage, if_pos hne']
    unfold Kernel.tableAt
    rw [hkernel]
  have hpg := getPage_linear depth hst.noHeap pageCloningBuffer
  rw [hindex, hfind] at hpg
  generalize s.withTable 960 = u at *
  refine ends_get_bind (ends_bind_of_ok hpg (ends_modify_bind ?_))
  refine (pageAlloc_ends (s := { u with cloningBufferPage := (u.tableAt 960, 0) }) hnew.frames
    (u.tableAt 960) 0 true).mono ?_ fun _ _ => trivial
  rintro _ t ht
  have htable : t.tableAt = u.tableAt := ht.tableAt
  have hcloning : t.cloningBufferPage = (u.tableAt 960, 0) := ht.kept.cloningBufferPage
  have hmarked : HeapPages { u with cloningBufferPage := (u.tableAt 960, 0) } top limit :=
    ⟨hnew.tableNe, hnew.present, hnew.mapped, hnew.frames⟩
  refine ⟨hmarked.pageAllocated ht, ht.neat hneat, ?_, ?_, ?_, ?_⟩
  · intro i hi
    rw [htable]
    exact hat i hi
  · rw [htable]
    exact hne
  · rw [hcloning, htable]
  · have haddress : (t.pageAt 983040).address ≠ 0 := by
      unfold Kernel.pageAt
      rw [htable]
      exact ht.address
    exact ht.neat hneat _ _ haddress

/-! ## The kernel with its heap -/

/-- Everything is mapped for the heap to be made. -/
structure HeapPrepared (o : Kernel) (top : ℕ) (s : Kernel) : Prop where
  pages : HeapPages s top (kheapStart + kheapInitialSize)
  low : ∀ i, top ≤ i → i < 64 → s.tableAt i = 0
  apart : ∀ i, 60 ≤ i → i < top → s.tableAt i ≠ s.tableAt 960
  out : ∀ p, o.bootBase ≤ p → p < s.memFirstUnused → Outside p
  below : ∀ j, s.tableAt j < s.memFirstUnused
  recorded : Recorded o s
  cloningNe : s.tableAt 960 ≠ 0
  cloning : s.cloningBufferPage = (s.tableAt 960, 0)
  present : (s.pageAt 983040).present = true

theorem HeapPrepared.paged {mem : Mem} {a : Arena} (ho : o.Startup) (h61 : 61 ≤ top) (h64 : top ≤ 64)
    (h : HeapPrepared o top s) (ha : Created mem kheapStart (kheapStart + kheapInitialSize) kheapMaxAddress a) :
    (s.startHeap a).Paged top := by
  obtain ⟨_, hstart, hend, hmax, _⟩ := ha.eq
  have hdirectory := h.recorded.directory
  have hcreated := h.recorded.created
  have hbase : o.bootBase < s.memFirstUnused := by
    have hlo := h.recorded.base 960 h.cloningNe
    have hhi := h.below 960
    omega
  have hstop : kheapStart + kheapInitialSize ≤ heapTop top := by
    unfold heapTop kheapStart kheapInitialSize
    omega
  have htable : ∀ i, s.tableAt i ≠ 0 → Outside (s.tableAt i) := fun i hi =>
    h.out _ (by have := h.recorded.base i hi; omega) (h.below i)
  have hp : ∀ p ∈ s.paging, Outside p := by
    intro p hp
    rcases h.recorded.paging p hp with hold | ⟨hlo, hhi⟩
    · rw [ho.paging] at hold
      exact absurd hold List.not_mem_nil
    · exact h.out p hlo hhi
  have hpages : PagesOK s top (kheapStart + kheapInitialSize) := by
    refine ⟨h.pages, h61, h64, ?_, ?_, h.cloningNe, htable 960 h.cloningNe, h.cloning, h.present, ?_, ?_⟩
    · rw [hdirectory]
      exact h.out _ (Nat.le_refl _) hbase
    · exact fun i h1 h2 => htable i (h.pages.tableNe i h1 h2)
    · intro d hd hne
      rw [hcreated, List.mem_singleton] at hd
      exact absurd (hd.trans hdirectory.symm) hne
    · intro v hv
      rw [h.recorded.midpoints, ho.midpoints] at hv
      exact absurd hv List.not_mem_nil
  refine ⟨⟨_, rfl, ha.tiled, hstart, hmax, hend.le.trans hstop, ?_, ?_, fun p h => Or.inl (hp p h)⟩,
    h.low, h.apart, ?_⟩
  · change a.heap.allocatedEnd % 4096 = 0
    rw [hend]
    decide
  · change PagesOK _ _ a.heap.allocatedEnd
    rw [hend]
    exact hpages.congr rfl rfl rfl rfl rfl (fun _ hd => hd) hpages.midpoints
  · change s.kernelDirectory ∈ s.created
    rw [hcreated, hdirectory]
    exact List.mem_singleton_self _

/-- The heap is there, and the kernel's own directory is the only one. -/
structure HeapOn (o : Kernel) (n : ℕ) (t : Kernel) : Prop where
  paged : t.Paged o.bootTop
  ready : HeapReady o n (o.lastTable n) t
  tasks : t.tasks = o.tasks
  created : t.created = [t.kernelDirectory]

theorem initHeap_paged (depth : ℕ) (ho : o.Startup) (h : Booting o n n s) (hs : s.Neat)
    (hend : 4096 * n = s.memFirstUnused + 0x4000) :
    Ends (initHeap (depth + 1) s) (fun _ t => HeapOn o n t ∧ t.midpoints = []) fun _ => True := by
  obtain ⟨_, htables, hle⟩ := h.bound ho.room (by omega)
  obtain ⟨htop, htop'⟩ := o.bootTop_bounds
  have hbase := ho.room.bootBase
  have hmod := bootBase_mod o
  have hfirst := h.first
  have hfin : Finishing o n 0 s.memFirstUnused s :=
    { toStaged := h.toStaged, heapTable := (h.tables 60).mpr (Or.inl rfl), first := rfl
      frames := fun hc => ⟨n, by omega, h.frames hc⟩ }
  have hpages : HeapPages s o.bootTop (4096 * 61440) := by
    refine ⟨fun i h1 h2 => ?_, fun i _ _ j hj => hs _ j hj, fun v h1 h2 => ?_, ?_⟩
    · exact (h.heapTables ho.outside hend h1 (by omega)).mpr h2
    · unfold kheapStart at h1
      omega
    · exact h.framesOK ho.bitmap (by omega)
  have hout : ∀ p, o.bootBase ≤ p → p < s.memFirstUnused + 4096 + 36 → Outside p :=
    fun p h1 h2 => h.outside ho.outside hend h1 h2
  have hheap : ∀ i, 60 ≤ i → i < 64 → (s.tableAt i ≠ 0 ↔ i < o.bootTop) :=
    fun i h1 h2 => h.heapTables ho.outside hend h1 h2
  have hready := initHeap_ends depth ho.room h hend
  have hcount : kheapInitialSize / 4096 = 16 := by decide
  have hlimit : 4096 * (61440 + 16) ≤ heapTop o.bootTop := by
    unfold heapTop
    omega
  have hstart : kheapStart = 4096 * 61440 := rfl
  refine (hready.and (F := fun _ t => t.Paged o.bootTop ∧ t.tasks = o.tasks ∧
    t.created = [t.kernelDirectory] ∧ t.midpoints = []) (G := fun _ => True) ?_).mono
      (fun _ t ht => ⟨⟨ht.2.1, ht.1, ht.2.2.1, ht.2.2.2.1⟩, ht.2.2.2.2⟩) fun _ _ => trivial
  clear hready
  unfold initHeap
  rw [hcount, hstart]
  have hmap := (mapHeapPages_ends (i := 4096 * 61440) hfin (by omega)
    (show 4096 * (n + 0 + 16) ≤ _ by omega) (Nat.le_refl _) (by decide)).and
    (mapHeapPages_pages hpages hs (Nat.le_refl _) hlimit)
  refine ends_bind (hmap.mono (fun _ _ h => h) fun _ _ => trivial) ?_
  rintro _ u ⟨⟨hfinu, hatu⟩, hpagesu, hsu⟩
  have hfirstu := hfinu.first
  have hround : roundUp u.memFirstUnused = s.memFirstUnused := by
    rw [hfirstu]
    exact roundUp_of_mod (by omega)
  have hsize : pageTableSize = 4096 := rfl
  have hclone := (makeCloningPage_ends depth hfinu (by omega) (by omega) (by omega) ho.room
    (by omega)).and (makeCloningPage_pages depth hfinu.toStaged hsu hpagesu (by omega) hlimit htop')
  refine ends_bind (hclone.mono (fun _ _ h => h) fun _ _ => trivial) ?_
  rintro _ v ⟨hfinv, hpagesv, hsv, hcloning⟩
  have hlast : v.memFirstUnused ≤ s.memFirstUnused + 4096 := by
    rw [hfinv.first]
    split <;> omega
  refine ends_get_bind (ends_modify_bind ?_)
  obtain ⟨a, ha, hcreated⟩ := makeHeap_eq depth (s := { v with
    currentDirectory := v.kernelDirectory, cr3 := v.kernelDirectory }) hfinv.noHeap
  rw [ha]
  have htable : ∀ i, i < 64 → v.tableAt i = s.tableAt i := by
    intro i hi
    rw [hcloning.tableAt i (by omega), hatu]
  have hprepared : HeapPrepared o o.bootTop { v with
      currentDirectory := v.kernelDirectory, cr3 := v.kernelDirectory } := by
    refine ⟨⟨hpagesv.tableNe, hpagesv.present, hpagesv.mapped, hpagesv.frames⟩, ?_, ?_, ?_, hfinv.below,
      hfinv.recorded.congr rfl rfl rfl rfl rfl rfl rfl, hcloning.ne, hcloning.page, hcloning.present⟩
    · intro i h1 h2
      have hiff := hheap i (by omega) h2
      refine (htable i h2).trans ?_
      by_contra hne
      have := hiff.mp hne
      omega
    · intro i h1 h2 heq
      have := hfinv.apart i 960 heq (hpagesv.tableNe i h1 h2)
      omega
    · intro p h1 h2
      have h2' : p < v.memFirstUnused := h2
      exact hout p h1 (by omega)
  refine ends_ok ⟨hprepared.paged ho htop htop' hcreated, hfinv.recorded.tasks, ?_, ?_⟩
  · change v.created = [v.kernelDirectory]
    rw [hfinv.recorded.created, hfinv.recorded.directory]
  · exact hfinv.recorded.midpoints.trans ho.midpoints

/-! ## The directory in use -/

theorem HeapOn.carved (depth : ℕ) (h : HeapOn o n s) :
    ∃ a physical, findHole s.arena (pageDirectorySize + 20) true = some 0 ∧
      carve 0 (pageDirectorySize + 20) true s.arena = .ok (cloneAddress, a) ∧
      kmallocAp (depth + 1) pageDirectorySize s =
        .ok (cloneAddress, physical) ((s.setArena a).tookBlock cloneAddress pageDirectorySize) := by
  obtain ⟨physical, t, hok, _⟩ := kmallocAp_directory depth h.ready
  obtain ⟨mem, a, hheap, hcreated⟩ := h.ready.heap
  have harena : s.arena = a := congrArg HeapState.arena hheap
  have hfound := hcreated.carve_directory.1
  rw [← harena] at hfound
  have hreq : u32 (pageDirectorySize + 20) = pageDirectorySize + 20 := by decide
  obtain ⟨a', hcarve, rfl⟩ := kmallocAp_found h.ready.on hfound hok
  rw [hreq] at hfound hcarve
  exact ⟨a', physical, hfound, hcarve, hok⟩

theorem HeapOn.firstBlock (depth : ℕ) (h : HeapOn o n s) :
    Ends (kmallocAp (depth + 1) pageDirectorySize s) (fun block t => t.Paged o.bootTop ∧ Kept s t ∧
      (∃ k, (block.1, k) ∈ t.heap.live) ∧ ∀ k, (block.1, k) ∉ s.heap.live)
      (MidpointsOK o.bootTop) := by
  obtain ⟨ts, hi⟩ := h.paged.inv
  obtain ⟨a, physical, hfound, hcarve, hok⟩ := h.carved depth
  obtain ⟨hinv, hfresh, _⟩ := hi.carved (by decide) hfound hcarve
  have hkept := (kmallocAt_kept (depth + 1) pageDirectorySize true true s).ok hok
  rw [hok]
  exact ends_ok ⟨⟨hinv, h.paged.low, h.paged.apart, h.paged.kernel⟩, hkept,
    ⟨pageDirectorySize, List.mem_cons_self⟩, hfresh⟩

theorem cloneEntry_midpoints (depth dir i : ℕ) (s : Kernel) :
    Ends (cloneEntry depth s.kernelDirectory dir i s)
      (fun _ t => t.midpoints = s.midpoints ∧ t.kernelDirectory = s.kernelDirectory) fun _ => True := by
  refine ends_get_bind ?_
  by_cases h : (s.spaces.dirs s.kernelDirectory).tables i ≠ 0
  · rw [if_pos h, if_pos rfl]
    exact ends_modify ⟨rfl, rfl⟩
  · rw [if_neg h]
    exact ends_pure ⟨rfl, rfl⟩

theorem cloneEntries_midpoints (depth dir count i : ℕ) (s : Kernel) :
    Ends (cloneEntries depth s.kernelDirectory dir i count s)
      (fun _ t => t.midpoints = s.midpoints) fun _ => True := by
  induction count generalizing i s with
  | zero => exact ends_pure rfl
  | succ count ih =>
    refine ends_bind (cloneEntry_midpoints depth dir i s) ?_
    rintro _ t ⟨hm, hk⟩
    have hnext := ih (i + 1) t
    rw [hk] at hnext
    exact hnext.mono (fun _ _ hu => hu.trans hm) fun _ hu => hu

theorem HeapOn.clone_midpoints (depth : ℕ) (h : HeapOn o n s) :
    Ends (cloneDirectory (depth + 1) s.kernelDirectory s) (fun _ t => t.midpoints = s.midpoints)
      fun _ => True := by
  obtain ⟨_, _, _, _, hok⟩ := h.carved depth
  refine ends_bind_of_ok hok (ends_modify_bind (ends_bind
    (cloneEntries_midpoints (depth + 1) cloneAddress 1024 0 _) ?_))
  rintro _ u hu
  exact ends_modify_bind (ends_pure hu)

theorem enterClone_settled (depth : ℕ) (ho : o.Startup) (h : HeapOn o n s) (hm : s.midpoints = []) :
    Ends (enterClone (depth + 1) s)
      (fun _ t => t.Settled o.bootTop ∧ (∀ i < maxNumTasks, t.alive i = false) ∧ t.midpoints = [])
      fun _ => True := by
  refine ends_get_bind (ends_bind (((cloneDirectory_of_took (depth + 1) h.paged (Or.inl rfl)
    h.paged.kernel (h.firstBlock depth)).and (h.clone_midpoints depth)).mono (fun _ _ ht => ht)
      fun _ _ => trivial) ?_)
  rintro dir t ⟨ht, hmid⟩
  have hdir : dir ∈ t.created := by
    rw [ht.created]
    exact List.mem_cons_self
  have hne := ht.ne h.paged.kernel
  have hdead : ∀ i < maxNumTasks, t.alive i = false := by
    unfold Kernel.alive
    rw [ht.use.tasks, h.tasks]
    exact ho.tasks
  refine ends_modify ⟨⟨ht.paged.same ⟨rfl, rfl, rfl, rfl, rfl, rfl, rfl, fun _ _ => rfl,
    fun _ _ _ => rfl, fun h => h, fun _ hp => hp, fun _ hp => Or.inl hp⟩, fun d hd => ?_, ?_⟩, hdead,
    hmid.trans hm⟩
  · rcases List.mem_cons.mp hd with rfl | hd
    · exact ⟨hdir, hne⟩
    rcases List.mem_cons.mp hd with rfl | hd
    · exact ⟨hdir, hne⟩
    · obtain ⟨i, hi, ha, _⟩ := mem_taskDirectories.mp hd
      exact absurd ((hdead i hi).symm.trans ha) Bool.false_ne_true
  · intro i hi ha
    exact absurd ((hdead i hi).symm.trans ha) Bool.false_ne_true

/-- `init_paging` returns a kernel that meets the invariant. Its heap has not grown yet. -/
theorem initPaging_settled (depth : ℕ) (ho : o.Startup) :
    Ends (initPaging depth o) (fun _ t => t.Settled o.bootTop ∧
      (∀ i < maxNumTasks, t.alive i = false) ∧ t.midpoints = []) fun _ => True := by
  unfold initPaging
  cases depth with
  | zero =>
    have hstop : Ends (initIdentity 0 o) (fun _ _ => False) fun _ => True := by
      unfold initIdentity makeKernelDirectory
      exact ends_bind (Q := fun _ _ => False)
        (ends_bind (Q := fun _ _ => False) (ends_throw trivial) fun _ _ h => h.elim)
        fun _ _ h => h.elim
    exact ends_bind hstop fun _ _ h => h.elim
  | succ depth =>
    have hloop := (initIdentity_ends depth ho.room ho.noHeap).and (initIdentity_neat depth ho)
    refine ends_bind (hloop.mono (fun _ _ h => h) fun _ _ => trivial) ?_
    rintro _ s ⟨⟨n, hboot, hend, _⟩, hneat⟩
    exact ends_bind (initHeap_paged depth ho hboot hneat hend) fun _ t ht =>
      enterClone_settled depth ho ht.1 ht.2

theorem lowKernel_startup {memFirstUnused words : ℕ} (hlow : roundUp memFirstUnused ≤ 0x0efbe000)
    (hwords : words ≤ 2 ^ 15) : (lowKernel memFirstUnused words).Startup where
  room := by
    have hle := le_roundUp memFirstUnused
    exact lowKernel_hasRoom (by omega)
  bitmap := by
    refine ⟨List.length_replicate.trans_le hwords, fun w hw => ?_⟩
    rw [List.eq_of_mem_replicate hw]
    decide
  noHeap := rfl
  neat := fun _ _ hne => absurd rfl hne
  paging := rfl
  midpoints := rfl
  tasks := fun _ _ => rfl
  outside := Or.inl hlow

/-- The kernel that `init_paging` leaves, if it returns. -/
def booted (depth : ℕ) (o : Kernel) : Option Kernel :=
  match initPaging depth o with
  | .ok _ boot => some boot
  | .error _ _ => none

theorem booted_some {depth : ℕ} {boot : Kernel} (h : booted depth o = some boot) :
    initPaging depth o = .ok () boot := by
  unfold booted at h
  cases hb : initPaging depth o with
  | error e t =>
    rw [hb] at h
    cases h
  | ok _ t =>
    rw [hb] at h
    cases h
    rfl

end Evos
