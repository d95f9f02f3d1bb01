import Evos.Mm.BootInvariant
import Evos.Mm.WalksClone

/-! # The page walks when `init_paging` returns

The blocks of the boot are mapped to themselves, so the addresses that `__linear_kmalloc` reports are
the physical ones. The first block of the heap is the directory that `init_paging` ends with. -/

namespace Evos
open ByteMemory Segments Outcome Bump
set_option autoImplicit false

/-! ## The kernel's own directory -/

/-- `init_paging` up to its `clone_directory`. -/
def beforeClone (depth : ℕ) : KM Unit := do
  initIdentity depth
  initHeap depth

/-- The blocks of the boot neither start at a null pointer nor reach into the cloning page. -/
def Kernel.ClearOfCloning (o : Kernel) : Prop :=
  0 < o.bootBase ∧ (o.bootBase + 0x410000 ≤ pageCloningBuffer ∨ pageCloningBuffer < o.bootBase)

instance (o : Kernel) : Decidable o.ClearOfCloning := inferInstanceAs (Decidable (_ ∧ _))

section Kernel
variable {o s t : Kernel} {n x : ℕ}

theorem HeapReady.pinned (ho : o.HasRoom) (h : Booting o n n s)
    (hend : 4096 * n = s.memFirstUnused + 0x4000) (ht : HeapReady o n (o.lastTable n) t)
    (hclear : o.ClearOfCloning) (h1 : o.bootBase ≤ x) (h2 : x < o.lastTable n) :
    t.Pinned x (x / 4096) := by
  obtain ⟨_, hhi, hlast⟩ := h.lastTable_bounds ho hend
  have hmod := bootBase_mod o
  unfold Kernel.ClearOfCloning pageCloningBuffer at hclear
  exact ⟨by omega, by omega, ht.mapped x (by omega)⟩

section Finish
variable {v : Kernel} {a : Arena} (ho : o.Startup) (h : Booting o n n s)
  (hend : 4096 * n = s.memFirstUnused + 0x4000) (hv : Finishing o n 17 (o.lastTable n) v)
  (hcreated : Created v.arena.mem kheapStart (kheapStart + kheapInitialSize) kheapMaxAddress a)
  (hclear : o.ClearOfCloning)

include ho h hend hv hcreated hclear

/-- The kernel's directory: its tables, and its second page behind the first one. -/
theorem Finishing.directory_walks : (v.startHeap a).DirectoryOK o.bootBase ∧
    (v.startHeap a).InARow o.bootBase := by
  have hbase := ho.room.bootBase
  obtain ⟨hlo, hhi, hlast⟩ := h.lastTable_bounds ho.room hend
  have hready := hv.startHeap hlo (by omega) hcreated
  have hrec := hv.recorded
  have hpinned := fun x => @HeapReady.pinned _ _ _ _ x ho.room h hend hready hclear
  have hfirst : o.bootBase + 4096 < o.lastTable n := by
    unfold Kernel.lastTable
    omega
  have hmod := bootBase_mod o
  have hone := hpinned o.bootBase (Nat.le_refl _) (by omega)
  have htwo := hpinned (o.bootBase + 4096) (by omega) hfirst
  have hsecond : u32 (o.bootBase / 4096 * 4096 + 4096) = o.bootBase + 4096 := by
    rw [Nat.div_mul_cancel (Nat.dvd_of_mod_eq_zero hmod)]
    exact Nat.mod_eq_of_lt (by omega)
  have hphysical := hrec.physical
  have hismeta := hrec.ismeta
  rw [hrec.directory] at hphysical hismeta
  have htables : ∀ i, (v.spaces.dirs o.bootBase).tables i = v.tableAt i := by
    intro i
    unfold Kernel.tableAt
    rw [hrec.directory]
  refine ⟨⟨fun i => ?_, ⟨_, _, hone, htwo, hismeta.trans hsecond.symm⟩, hmod⟩, ?_⟩
  · change (v.startHeap a).EntryOK ((v.spaces.dirs o.bootBase).tables i)
      ((v.spaces.dirs o.bootBase).tablesPhysicalAddr i)
    rw [htables, hphysical]
    by_cases h0 : v.tableAt i = 0
    · rw [if_pos h0]
      exact Or.inl ⟨h0, rfl⟩
    · rw [if_neg h0]
      have hi := hrec.base i h0
      have halign := hrec.aligned i
      have hbelow := hv.below i
      rw [hv.first] at hbelow
      refine Or.inr ⟨h0, halign, _, hpinned _ (by omega) hbelow, ?_⟩
      rw [Nat.div_mul_cancel (Nat.dvd_of_mod_eq_zero halign)]
  · rw [hone.inARow_iff htwo hmod, hsecond]
    omega

theorem Finishing.walks : (v.startHeap a).Walks ∧ (v.startHeap a).Rows := by
  obtain ⟨hlo, _, hlast⟩ := h.lastTable_bounds ho.room hend
  obtain ⟨hok, hrow⟩ := Finishing.directory_walks ho h hend hv hcreated hclear
  have hrec := hv.recorded
  have hat : (v.startHeap a).tableAt = v.tableAt := rfl
  have hone : ∀ d ∈ (v.startHeap a).created, d = o.bootBase := by
    intro d hd
    have hd' : d ∈ v.created := hd
    rw [hrec.created] at hd'
    exact List.mem_singleton.mp hd'
  refine ⟨⟨fun i j hne heq => hv.apart i j heq hne, fun i hne => Or.inl ?_,
    fun d hd => hone d hd ▸ hok⟩, fun d hd => hone d hd ▸ hrow⟩
  rw [hat] at hne ⊢
  have hi := hrec.base i hne
  have hbelow := hv.below i
  rw [hv.first] at hbelow
  exact h.outside ho.outside hend (by omega) (by omega)

end Finish

end Kernel

/-! ## The directory in use -/

section Clone
variable {o s : Kernel} {n : ℕ}

theorem HeapOn.newBlock (depth : ℕ) (h : HeapOn o n s) :
    Ends (kmallocAp (depth + 1) pageDirectorySize s) (fun block t =>
      NewBlock s o.bootTop pageDirectorySize block t ∧ ∃ f g, DirectoryBlock s block t f g)
      fun _ => True := by
  obtain ⟨ts, hi⟩ := h.paged.inv
  obtain ⟨a, physical, hfound, hcarve, hok⟩ := h.carved depth
  obtain ⟨hinv, hfresh, haligned⟩ := hi.carved (by decide) hfound hcarve
  have hgrew : Grew s ((s.setArena a).tookBlock cloneAddress pageDirectorySize) :=
    (grew_setArena (keepsBounds_carve _ _ _ _ _ _ hcarve)).trans (Kernel.grew_tookBlock _ _ _)
  have hb : NewBlock s o.bootTop pageDirectorySize (cloneAddress, physical)
      ((s.setArena a).tookBlock cloneAddress pageDirectorySize) :=
    ⟨⟨hinv, h.paged.low, h.paged.apart, h.paged.kernel⟩, hgrew, List.mem_cons_self, hfresh,
      haligned rfl, kmallocAp_physical hi.on hok⟩
  have halloc : heapAlloc Arena.host pageDirectorySize true s.arena = .ok cloneAddress a :=
    heapAlloc_of_choose (H := Arena.host) (chooseHole_of_found (H := Arena.host) hfound) hcarve
  have hforeseen : Foreseen s ((s.setArena a).tookBlock cloneAddress pageDirectorySize) :=
    hi.foreseen (carve_stop hcarve)
  rw [hok]
  exact ends_ok ⟨hb, hb.directory halloc hforeseen⟩

/-- The page walks when `init_paging` returns: `u` is the kernel before its `clone_directory`. -/
structure BootWalks (o : Kernel) (depth : ℕ) (t u : Kernel) : Prop where
  before : beforeClone depth o = .ok () u
  walks : t.Walks
  rows : t.Rows ↔ u.DirectoryContiguous

theorem initPaging_walks (depth : ℕ) (ho : o.Startup) (hclear : o.ClearOfCloning) :
    Ends (initPaging depth o) (fun _ t => ∃ u, BootWalks o depth t u) fun _ => True := by
  cases depth with
  | zero =>
    refine ⟨fun _ t ht => ?_, fun _ _ _ => trivial⟩
    obtain ⟨_, u, hu, _⟩ := bind_ok ht
    obtain ⟨_, v, hv, _⟩ := bind_ok hu
    obtain ⟨_, w, hw, _⟩ := bind_ok hv
    cases hw
  | succ depth =>
    refine ⟨fun _ t ht => ?_, fun _ _ _ => trivial⟩
    obtain ⟨⟨⟩, s, hs, ht⟩ := bind_ok ht
    obtain ⟨⟨⟩, u, hu, ht⟩ := bind_ok ht
    have hbefore : beforeClone (depth + 1) o = .ok () u := by
      unfold beforeClone
      rw [bind_of_ok hs]
      exact hu
    obtain ⟨n, hboot, hend, _⟩ := (initIdentity_ends depth ho.room ho.noHeap).ok hs
    have hneat := (initIdentity_neat depth ho).ok hs
    obtain ⟨hon, _⟩ := (initHeap_paged depth ho hboot hneat hend).ok hu
    obtain ⟨v, a, hv, hcreated, hstart⟩ := (initHeap_finishing depth ho.room hboot hend).ok hu
    have hwalks : u.Walks ∧ u.Rows := by
      rw [hstart]
      exact Finishing.walks ho hboot hend hv hcreated hclear
    obtain ⟨_, _, hget, ht⟩ := bind_ok ht
    cases hget
    obtain ⟨dir, w, hw, ht⟩ := bind_ok ht
    cases ht
    have hclone := (cloneDirectory_walks_of_block (depth + 1) hon.paged (Or.inl rfl) hon.paged.kernel
      hwalks.1 (hon.newBlock depth)).ok hw
    exact ⟨u, hbefore, hclone.walks.congr (pins_of_spaces rfl rfl) rfl (fun _ hp => hp) rfl
      fun _ _ => rfl, (hclone.rows_iff hwalks.1).trans (and_iff_right hwalks.2)⟩

end Clone

end Evos
