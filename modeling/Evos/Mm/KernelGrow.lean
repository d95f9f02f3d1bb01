import Evos.Mm.KernelAlloc

/-! # `kmalloc` keeps the invariant

A call that returns has left the page tables to those that every directory shares. A call that takes
the heap past them does not return: the first access to the new footer goes through the loaded
directory, which has no table there. Calls nest, and each nested call meets the same invariant. -/

namespace Evos
open ByteMemory Segments Outcome
set_option autoImplicit false

/-! ## Growing -/

section Growing
variable {s t : Kernel} {top : ℕ} {ts : List Tile} {size : ℕ}

/-- The state recorded right behind `expand`. -/
def Kernel.recorded (s : Kernel) : Kernel := { s with midpoints := s.midpoint :: s.midpoints }

@[simp] theorem Kernel.recorded_heap (s : Kernel) : s.recorded.heap = s.heap := rfl

theorem Kernel.kept_recorded (s : Kernel) : Kept s s.recorded :=
  ⟨rfl, fun _ => rfl, rfl, rfl, rfl, rfl, rfl, rfl, rfl, rfl, fun _ _ => rfl, SameBounds.refl _, rfl⟩

theorem Kernel.grew_recorded (s : Kernel) : Grew s s.recorded :=
  grew_of_eq s.kept_recorded rfl rfl

theorem grew_setArena {a : Arena} (h : SameBounds s.arena a) : Grew s (s.setArena a) :=
  grew_of_eq (kept_setArena h) rfl rfl

theorem enterPages_ends {gp : ℕ → ℕ → KM (Option (ℕ × ℕ))} {E : Kernel → Prop} (x y : ℕ)
    (hm : E s.recorded) :
    Ends ((kernelHost gp).enterPages x y s)
      (fun _ u => u = s.recorded ∧ s.spaces.translate s.cr3 (sub32 y 8) ≠ none) E := by
  refine ends_modify_bind (ends_bind (Q := fun _ u => u = s.recorded)
    (ends_touch (fun _ => rfl) fun _ => hm) ?_)
  rintro _ _ rfl
  exact ends_touch (fun hne => ⟨rfl, hne⟩) fun _ => hm

theorem midpointsOK_recorded (hm : MidpointsOK top s) (hv : s.midpoint.OK top) : MidpointsOK top s.recorded := by
  intro v hv'
  rcases List.mem_cons.mp hv' with rfl | hold
  · exact hv
  · exact hm v hold

theorem KInv.expand_sizes (h : KInv s top ts) (hsize : size + 20 < 2 ^ 31) :
    sub32 s.arena.heap.allocatedEnd s.arena.heap.allocatedStart =
        s.arena.heap.allocatedEnd - s.arena.heap.allocatedStart ∧
      u32 (s.arena.heap.allocatedStart + pageRoundUp (u32 (s.arena.heap.allocatedEnd -
        s.arena.heap.allocatedStart + (size + 20) + 4096))) = grownEnd s.arena size ∧
      s.arena.heap.allocatedStart + (s.arena.heap.allocatedEnd - s.arena.heap.allocatedStart) +
          4096 * ((pageRoundUp (u32 (s.arena.heap.allocatedEnd - s.arena.heap.allocatedStart +
            (size + 20) + 4096)) - (s.arena.heap.allocatedEnd - s.arena.heap.allocatedStart) +
              4095) / 4096) = grownEnd s.arena size ∧
      s.arena.heap.allocatedEnd + (size + 20) + 4096 ≤ grownEnd s.arena size ∧
      grownEnd s.arena size % 4096 = 0 := by
  have hstart := h.start
  have hend := h.endLe.trans (heapTop_le h.pages.topLe)
  have hmod := h.endPage
  have hle : s.arena.heap.allocatedStart ≤ s.arena.heap.allocatedEnd := h.tiled.heap.tiles.le
  have hbase : kheapStart = 0x0f000000 := rfl
  unfold grownEnd
  generalize s.arena.heap.allocatedStart = a at *
  generalize s.arena.heap.allocatedEnd = b at *
  have hwrap : b - a + (size + 20) + 4096 < 2 ^ 32 - 4096 := by omega
  have hround : roundUp (b - a + (size + 20) + 4096) < 2 ^ 32 := by
    unfold roundUp
    omega
  rw [u32_of_lt (Nat.lt_of_lt_of_le hwrap (by decide)), pageRoundUp_eq hround]
  have hmod' := roundUp_mod (b - a + (size + 20) + 4096)
  have hge := le_roundUp (b - a + (size + 20) + 4096)
  have hlt : roundUp (b - a + (size + 20) + 4096) < b - a + (size + 20) + 4096 + 4096 := by
    unfold roundUp
    omega
  generalize roundUp (b - a + (size + 20) + 4096) = r at *
  refine ⟨sub32_of_le hle (by omega), u32_of_lt (by omega), ?_, by omega, by omega⟩
  omega

/-- What a growth that returns has done. -/
structure GrownHeap (s : Kernel) (top newEnd size : ℕ) (pageAlign : Bool) (i : ℕ) (t : Kernel) :
    Prop where
  inv : ∃ ts, KInv t top ts
  grew : Grew s t
  live : t.heap.live = s.heap.live
  stop : t.arena.heap.allocatedEnd = newEnd
  found : findHole t.arena (size + 20) pageAlign = some i

/-- The heap with its end moved, once the pages are mapped. -/
def Kernel.extended (newEnd : ℕ) (t : Kernel) : Kernel := t.setArena (t.arena.extended newEnd)

theorem Kernel.kept_extended (t : Kernel) (newEnd : ℕ) : Kept t (t.extended newEnd) :=
  kept_setArena ⟨rfl, rfl⟩

theorem Kernel.extended_start (t : Kernel) (newEnd : ℕ) :
    (t.extended newEnd).arena.heap.allocatedStart = t.arena.heap.allocatedStart := rfl

theorem Kernel.extended_stop (t : Kernel) (newEnd : ℕ) :
    (t.extended newEnd).arena.heap.allocatedEnd = newEnd := rfl

theorem Kernel.grew_extended (t : Kernel) (newEnd : ℕ) : Grew t (t.extended newEnd) :=
  grew_of_eq (t.kept_extended newEnd) rfl rfl

section Extended
variable {newEnd : ℕ} {a : Arena}

theorem PagesOK.extended {limit : ℕ} (h : PagesOK t top limit) : PagesOK (t.extended newEnd) top limit :=
  h.congr rfl rfl rfl rfl rfl (fun _ hd => hd) h.midpoints

theorem Grew.midpoint_ok (hg : Grew s t) (h : KInv s top ts) (hu : OwnSpaces s)
    (hpages : PagesOK t top newEnd) (hle : newEnd ≤ heapTop top) :
    (t.extended newEnd).midpoint.OK top := by
  have hkept := t.kept_extended newEnd
  have hbase : kheapStart + 8192 ≤ heapTableEnd := by decide
  have hstart : t.arena.heap.allocatedStart = kheapStart + 8192 :=
    hg.kept.bounds.start.trans h.start
  refine hpages.extended.midpoint_ok (hkept.ownSpaces (hg.kept.ownSpaces hu)) ?_ ?_ ?_
    fun _ => Nat.le_refl _
  · rw [Kernel.extended_start, hstart]
    exact Nat.le_add_right _ _
  · rw [Kernel.extended_start, hstart]
    exact hbase
  · rw [Kernel.extended_stop]
    exact hle.trans (heapTop_le h.pages.topLe)

theorem Grew.addHole (hg : Grew s t) (h : KInv s top ts) (hheap : t.heap = s.heap)
    (hpages : PagesOK t top newEnd) (hge : s.arena.heap.allocatedEnd + 20 ≤ newEnd)
    (hmod : newEnd % 4096 = 0) (hle : newEnd ≤ heapTop top)
    (hmid : MidpointsOK top (t.extended newEnd).recorded)
    (hadd : addHole s.arena.heap.allocatedEnd
      (s.arena.heap.allocatedEnd - s.arena.heap.allocatedStart)
      (t.arena.extended newEnd) = .ok ((), a)) :
    (∃ ts, KInv ((t.extended newEnd).recorded.setArena a) top ts) ∧ a.heap.allocatedEnd = newEnd := by
  have harena : t.arena = s.arena := congrArg HeapState.arena hheap
  have hend := heapTop_le h.pages.topLe
  rw [harena] at hadd
  have hgrown := h.tiled.heap.addHole hge (by omega) hadd
  have hstop : a.heap.allocatedEnd = newEnd := hgrown.extent.stop
  refine ⟨⟨_, ?_, ⟨hgrown.inv, ?_⟩, ?_, ?_, ?_, ?_, ?_, ?_⟩, hstop⟩
  · exact hg.kept.kernelHeap.trans h.on
  · have hlive : t.heap.live = s.heap.live := congrArg HeapState.live hheap
    change t.heap.live.Perm _
    rw [hlive, payloads_append, payloads_cons_hole _ rfl]
    exact h.tiled.live.trans (by simp [payloads])
  · exact hgrown.extent.start.trans h.start
  · exact hgrown.extent.max.trans h.max
  · change a.heap.allocatedEnd ≤ _
    rw [hstop]
    exact hle
  · change a.heap.allocatedEnd % 4096 = 0
    rw [hstop]
    exact hmod
  · change PagesOK _ _ a.heap.allocatedEnd
    rw [hstop]
    exact hpages.congr rfl rfl rfl rfl rfl (fun _ hd => hd) hmid
  · intro p hp
    have hpaging : p ∈ s.paging := hg.paging ▸ hp
    rcases h.paging p hpaging with hout | ⟨n, hl⟩
    · exact Or.inl hout
    · refine Or.inr ⟨n, ?_⟩
      change (p, n) ∈ t.heap.live
      rw [hheap]
      exact hl

end Extended

section Grow
variable {alloc : ℕ → KM (ℕ × ℕ)} {pageAlign : Bool}

theorem KInv.extended_eq (gp : ℕ → ℕ → KM (Option (ℕ × ℕ))) (h : KInv s top ts) (hk : Kept s t)
    (hsize : size + 20 < 2 ^ 31) :
    (kernelHost gp).setArena (((kernelHost gp).arena t).extended
      (u32 (((kernelHost gp).arena t).heap.allocatedStart + pageRoundUp (u32
        (sub32 ((kernelHost gp).arena s).heap.allocatedEnd
          ((kernelHost gp).arena s).heap.allocatedStart + (size + 20) + 4096))))) t =
      t.extended (grownEnd s.arena size) := by
  obtain ⟨hold, hnew, _⟩ := h.expand_sizes hsize
  have hstart : t.arena.heap.allocatedStart = s.arena.heap.allocatedStart := hk.bounds.start
  change t.setArena (t.arena.extended (u32 (t.arena.heap.allocatedStart + pageRoundUp (u32
    (sub32 s.arena.heap.allocatedEnd s.arena.heap.allocatedStart + (size + 20) + 4096))))) = _
  rw [hstart, hold, hnew]
  rfl

/-- The growth branch on a kernel with its invariant: the pages up to the new end are mapped, then the
end moves. -/
theorem KInv.ends_growHeap {gp : ℕ → ℕ → KM (Option (ℕ × ℕ))} {Q : ℕ → Kernel → Prop}
    {E : Kernel → Prop} (h : KInv s top ts) (he : E s) (hsize : size + 20 < 2 ^ 31)
    (hmap : grownEnd s.arena size ≤ kheapMaxAddress →
      ∀ count, s.arena.heap.allocatedStart +
          (s.arena.heap.allocatedEnd - s.arena.heap.allocatedStart) + 4096 * count =
            grownEnd s.arena size →
      Ends (mapPages (kernelHost gp) s.arena.heap.allocatedStart
          (s.arena.heap.allocatedEnd - s.arena.heap.allocatedStart) count s)
        (fun _ t => Kept s t ∧ E t ∧
          Ends ((kernelHost gp).enterPages s.arena.heap.allocatedEnd (grownEnd s.arena size)
              (t.extended (grownEnd s.arena size)))
            (fun _ u => E u ∧ ∀ a, addHole s.arena.heap.allocatedEnd
                (s.arena.heap.allocatedEnd - s.arena.heap.allocatedStart) u.arena = .ok ((), a) →
              E (u.setArena a) ∧
                ∀ i, findHole a (size + 20) pageAlign = some i → Q i (u.setArena a))
            E)
        E) :
    Ends (growHeap (kernelHost gp) (size + 20) pageAlign s) Q E := by
  obtain ⟨hold, hnew, hcount, _⟩ := h.expand_sizes hsize
  have hmaxAddr := h.max
  have harena : (kernelHost gp).arena s = s.arena := rfl
  refine Evos.ends_growHeap (ends_expand he rfl fun _ hmax => ?_)
  rw [harena, hold, hnew, hmaxAddr] at hmax
  have hext := fun (t : Kernel) (hk : Kept s t) => h.extended_eq gp hk hsize
  rw [harena, hold] at hext ⊢
  refine (hmap hmax _ hcount).mono ?_ fun _ hu => hu
  rintro _ t ⟨hkept, hm, henter⟩
  refine ⟨hm, ?_⟩
  rw [hext t hkept]
  exact henter

theorem growHeap_low (hs : s.Sound top) (h : KInv s top ts) (hsize : size + 20 < 2 ^ 31)
    (hlow : grownEnd s.arena size ≤ heapTop top) :
    Ends (growHeap (kernelHost (getPageWith alloc)) (size + 20) pageAlign s)
      (GrownHeap s top (grownEnd s.arena size) size pageAlign) (MidpointsOK top) := by
  obtain ⟨_, _, _, hge, hmod⟩ := h.expand_sizes hsize
  have hstart := h.start
  have hle : s.arena.heap.allocatedStart ≤ s.arena.heap.allocatedEnd := h.tiled.heap.tiles.le
  have hsum : s.arena.heap.allocatedStart +
      (s.arena.heap.allocatedEnd - s.arena.heap.allocatedStart) = s.arena.heap.allocatedEnd := by
    omega
  obtain ⟨v, hv⟩ : ∃ v, s.arena.heap.allocatedEnd = 4096 * v :=
    ⟨_, (Nat.mul_div_cancel' (Nat.dvd_of_mod_eq_zero h.endPage)).symm⟩
  have hpages := h.pages
  rw [hv] at hpages
  refine h.ends_growHeap h.pages.midpoints hsize fun _ count hcount => ?_
  have hgrown : 4096 * (v + count) = grownEnd s.arena size := by
    omega
  have hmapped := @mapPages_low _ alloc _ _ _ _ _ hpages (hsum.trans hv)
    (hstart ▸ Nat.le_add_right _ _) (hgrown ▸ hlow)
  rw [hgrown] at hmapped
  refine hmapped.mono ?_ fun u hu => ?_
  swap
  · unfold MidpointsOK
    rw [hu]
    exact h.pages.midpoints
  rintro _ t ⟨hg, hheap, hp, _⟩
  have hmid := hg.midpoint_ok h hs.own hp hlow
  have hstop : ∀ a, addHole s.arena.heap.allocatedEnd (s.arena.heap.allocatedEnd -
      s.arena.heap.allocatedStart) (t.arena.extended (grownEnd s.arena size)) = .ok ((), a) →
      MidpointsOK top (t.extended (grownEnd s.arena size)).recorded →
      (∃ ts, KInv ((t.extended (grownEnd s.arena size)).recorded.setArena a) top ts) ∧
        a.heap.allocatedEnd = grownEnd s.arena size := fun a hadd hrec =>
    hg.addHole h hheap hp (by omega) hmod hlow hrec hadd
  generalize grownEnd s.arena size = newEnd at *
  have hrec := midpointsOK_recorded hp.extended.midpoints hmid
  refine ⟨hg.kept, hp.midpoints, (enterPages_ends _ _ hrec).mono ?_ fun _ hu => hu⟩
  rintro _ _ ⟨rfl, _⟩
  refine ⟨hrec, fun a hadd => ?_⟩
  have hbounds := keepsBounds_addHole _ _ _ () a hadd
  obtain ⟨hinv, hend⟩ := hstop a hadd hrec
  have hgrew := ((hg.trans (t.grew_extended newEnd)).trans (t.extended newEnd).grew_recorded).trans
    (grew_setArena hbounds)
  refine ⟨hrec, fun i hf => ⟨hinv, hgrew, ?_, ?_, hf⟩⟩
  · rw [Kernel.setArena_live, Kernel.recorded_heap, Kernel.extended, Kernel.setArena_live, hheap]
  · rw [Kernel.setArena_arena]
    exact hend

/-- Behind the shared tables the new end is recorded with a state that is not coherent. -/
theorem Kernel.Sound.midpoint_behind {newEnd : ℕ} (ht : t.Sound top) (hbehind : heapTop top < newEnd)
    (hlast : newEnd ≤ 0x10000000) : (t.extended newEnd).midpoint.OK top := by
  obtain ⟨ts, h⟩ := ht.inv
  have hbase : kheapStart + 8192 ≤ heapTableEnd := by decide
  have hpages : PagesOK (t.extended newEnd) top t.arena.heap.allocatedEnd := h.pages.extended
  have hown := (t.kept_extended newEnd).ownSpaces ht.own
  refine hpages.midpoint_ok hown ?_ ?_ ?_ fun hlow => ?_
  · rw [Kernel.extended_start, h.start]
    exact Nat.le_add_right _ _
  · rw [Kernel.extended_start, h.start]
    exact hbase
  · rw [Kernel.extended_stop]
    exact hlast
  · rw [Kernel.extended_stop] at hlow
    omega

theorem Kernel.Sound.footer_missing {newEnd : ℕ} (ht : t.Sound top) (hbehind : heapTop top < newEnd)
    (hmod : newEnd % 4096 = 0) (hlast : newEnd ≤ 0x10000000) :
    (t.extended newEnd).spaces.translate (t.extended newEnd).cr3 (sub32 newEnd 8) = none := by
  obtain ⟨ts, h⟩ := ht.inv
  have hpages : PagesOK (t.extended newEnd) top t.arena.heap.allocatedEnd := h.pages.extended
  have htopMod := heapTop_mod top
  obtain ⟨hcreated, hclone⟩ := (t.kept_extended newEnd).ownSpaces ht.own _ List.mem_cons_self
  have hfooter : sub32 newEnd 8 = newEnd - 8 := sub32_of_le (by omega) (by omega)
  rw [hfooter]
  exact hpages.translate_behind hcreated hclone (by omega) (by omega)

theorem growHeap_behind (ha : AllocSound top alloc) (hs : s.Sound top) (h : KInv s top ts)
    (hsize : size + 20 < 2 ^ 31) (hbehind : heapTop top < grownEnd s.arena size) :
    Ends (growHeap (kernelHost (getPageWith alloc)) (size + 20) pageAlign s)
      (fun _ _ => False) (MidpointsOK top) := by
  have hmod := (h.expand_sizes hsize).2.2.2.2
  have hfirst : kheapStart ≤ s.arena.heap.allocatedStart := by
    rw [h.start]
    exact Nat.le_add_right _ _
  refine h.ends_growHeap h.pages.midpoints hsize fun hle count hcount => ?_
  have hlast : grownEnd s.arena size ≤ 0x10000000 := hle.trans (by decide)
  refine (mapPages_sound ha hs hfirst (hcount ▸ hlast)).mono ?_ fun _ hu => hu
  rintro _ t ⟨ht, hkept⟩
  obtain ⟨ts', h'⟩ := ht.inv
  have hrec := midpointsOK_recorded h'.pages.extended.midpoints (ht.midpoint_behind hbehind hlast)
  refine ⟨hkept, h'.pages.midpoints, (enterPages_ends _ _ hrec).mono ?_ fun _ hu => hu⟩
  rintro _ _ ⟨_, hne⟩
  exact absurd (ht.footer_missing hbehind hmod hlast) hne

end Grow

end Growing

/-! ## Carving -/

section Carving
variable {s : Kernel} {top : ℕ} {ts : List Tile} {size p i : ℕ} {pageAlign : Bool} {a : Arena}

/-- What a `kmalloc` that returns has done. -/
structure Took (s : Kernel) (top size : ℕ) (pageAlign : Bool) (p : ℕ) (t : Kernel) : Prop where
  sound : t.Sound top
  grew : Grew s t
  live : t.heap.live = (p, size) :: s.heap.live
  fresh : ∀ n, (p, n) ∉ s.heap.live
  aligned : pageAlign = true → p % 4096 = 0

theorem KInv.carved (h : KInv s top ts) (hsize : size + 20 < 2 ^ 31)
    (hf : findHole s.arena (size + 20) pageAlign = some i)
    (hc : carve i (size + 20) pageAlign s.arena = .ok (p, a)) :
    (∃ ts, KInv ((s.setArena a).tookBlock p size) top ts) ∧ (∀ n, (p, n) ∉ s.heap.live) ∧
      (pageAlign = true → p % 4096 = 0) := by
  have hreq : Request size pageAlign := ⟨by omega, fun _ => hsize⟩
  obtain ⟨t, ht, hk, hn, hi, _, hfit⟩ := h.tiled.heap.findHole hreq hf
  obtain ⟨pre, post, rfl⟩ := List.append_of_mem ht
  have hserved := h.tiled.heap.carve hk hn hi hfit hc
  have htiled := h.tiled.allocated (hserved.allocated hf hi hk hfit)
  have hextent : SameExtent s.arena.heap a.heap := hserved.extent
  have hresult := hserved.result
  have hb := h.tiled.heap.bounds ht
  have hlt := h.tiled.heap.end_lt
  refine ⟨⟨_, h.on, htiled, ?_, ?_, ?_, ?_, ?_, ?_⟩, ?_, ?_⟩
  · exact hextent.start.trans h.start
  · exact hextent.max.trans h.max
  · exact hextent.stop.le.trans h.endLe
  · change a.heap.allocatedEnd % 4096 = 0
    rw [hextent.stop]
    exact h.endPage
  · change PagesOK _ _ a.heap.allocatedEnd
    rw [hextent.stop]
    exact h.pages.congr rfl rfl rfl rfl rfl (fun _ hd => hd) h.pages.midpoints
  · intro q hq
    rcases h.paging q hq with hout | ⟨n, hl⟩
    · exact Or.inl hout
    · exact Or.inr ⟨n, List.mem_cons_of_mem _ hl⟩
  · intro n hl
    obtain ⟨u, hu, huk, hp, _⟩ := h.tiled.tile hl
    have hlen := (h.tiled.heap.good u hu).minLen
    have hsu := u.stop_eq
    have hst := t.stop_eq
    rcases h.tiled.heap.tiles.eq_or_disjoint hu ht with rfl | hd
    · rw [huk] at hk
      cases hk
    · omega
  · intro halign
    subst halign
    have hoff : leftOffset t.addr true = pageAlignGetOffset t.addr := if_pos rfl
    rw [hresult, hoff]
    by_cases hmod : (t.addr + 12) % 4096 = 0
    · rw [pageAlignGetOffset_aligned (by omega) hmod]
      exact hmod
    · exact (pageAlignGetOffset_misaligned (by omega) hmod).2.2

theorem Kernel.grew_tookBlock (s : Kernel) (p size : ℕ) : Grew s (s.tookBlock p size) :=
  grew_of_eq ⟨rfl, fun _ => rfl, rfl, rfl, rfl, rfl, rfl, rfl, rfl, rfl, fun _ _ => rfl,
    SameBounds.refl _, rfl⟩ rfl rfl

theorem Took.mem {t : Kernel} (h : Took s top size pageAlign p t) : (p, size) ∈ t.heap.live := by
  rw [h.live]
  exact List.mem_cons_self

theorem KInv.took {t : Kernel} (h : KInv t top ts) (hg : Grew s t) (hu : OwnSpaces s)
    (hlive : t.heap.live = s.heap.live) (hsize : size + 20 < 2 ^ 31)
    (hf : findHole t.arena (size + 20) pageAlign = some i)
    (hc : carve i (size + 20) pageAlign t.arena = .ok (p, a)) :
    Took s top size pageAlign p ((t.setArena a).tookBlock p size) := by
  obtain ⟨hinv, hfresh, haligned⟩ := h.carved hsize hf hc
  have hgrew : Grew s ((t.setArena a).tookBlock p size) :=
    (hg.trans (grew_setArena (keepsBounds_carve _ _ _ _ _ _ hc))).trans (Kernel.grew_tookBlock _ _ _)
  refine ⟨⟨hinv, hgrew.kept.ownSpaces hu⟩, hgrew, ?_, ?_, haligned⟩
  · change (p, size) :: t.heap.live = _
    rw [hlive]
  · rw [← hlive]
    exact hfresh

end Carving

/-! ## The calls -/

section Calls
variable {s : Kernel} {top : ℕ} {ts : List Tile} {p n size : ℕ}

theorem heapAlloc_sound {alloc : ℕ → KM (ℕ × ℕ)} (ha : AllocSound top alloc) (hs : s.Sound top)
    (hsize : size + 20 < 2 ^ 31) (pageAlign : Bool) :
    Ends (heapAlloc (kernelHost (getPageWith alloc)) size pageAlign s)
      (fun p t => Took s top size pageAlign p (t.tookBlock p size)) (MidpointsOK top) := by
  obtain ⟨ts, h⟩ := hs.inv
  have hwrap : u32 (size + 20) = size + 20 := u32_of_lt (by omega)
  refine ends_heapAlloc ?_ ?_
  · rw [hwrap]
    intro i hf
    exact ⟨hs.midpointsOK, fun p a hc => h.took (Grew.refl s) hs.own rfl hsize hf hc⟩
  · rw [hwrap]
    intro _
    by_cases hlow : grownEnd s.arena size ≤ heapTop top
    · refine (growHeap_low hs h hsize hlow).mono ?_ fun _ hu => hu
      rintro i t hgrown
      obtain ⟨ts', h'⟩ := hgrown.inv
      exact ⟨h'.pages.midpoints, fun p a hc =>
        h'.took hgrown.grew hs.own hgrown.live hsize hgrown.found hc⟩
    · exact (growHeap_behind ha hs h hsize (Nat.lt_of_not_le hlow)).mono (fun _ _ hf => hf.elim)
        fun _ hu => hu

theorem KInv.physicalOf (h : KInv s top ts) (hl : (p, n) ∈ s.heap.live) :
    ∃ f, s.spaces.translate s.kernelDirectory p = some f ∧
      physicalOf p s = .ok (f * 4096 + p % 4096) s := by
  obtain ⟨hlo, hhi, hlt⟩ := h.live_range hl
  obtain ⟨h60, htop⟩ := tableIndex_below hlo hlt
  have hne : (s.spaces.dirs s.kernelDirectory).tables (tableIndex p) ≠ 0 :=
    h.pages.tableNe _ h60 htop
  have hget : (get : KM Kernel) s = .ok s s := rfl
  refine ⟨_, h.pages.toHeapPages.translate rfl hlo hhi hlt, ?_⟩
  unfold Evos.physicalOf Kernel.findPage
  rw [bind_of_ok hget, bind_of_ok hget, if_pos hne]
  rfl

/-- `kmalloc`, however deep it nests: a call that returns leaves the page tables to the heap's first
table, and every state recorded on the way is as the invariant says. -/
theorem kmallocAt_sound (depth : ℕ) (hs : s.Sound top) (hsize : size + 20 < 2 ^ 31)
    (align wantPhysical : Bool) :
    Ends (kmallocAt depth size align wantPhysical s)
      (fun block t => Took s top size align block.1 t ∧ (wantPhysical = true →
        ∃ f, t.spaces.translate t.kernelDirectory block.1 = some f ∧
          block.2 = f * 4096 + block.1 % 4096)) (MidpointsOK top) := by
  induction depth generalizing size align wantPhysical s with
  | zero => exact ends_throw hs.midpointsOK
  | succ depth ih =>
    obtain ⟨ts, h⟩ := hs.inv
    have ha : AllocSound top fun n => kmallocAt depth n true true := by
      intro u hu
      have hpage : pageTableSize + 20 < 2 ^ 31 := by decide
      refine (ih hu hpage true true).mono ?_ fun _ hv => hv
      rintro block t ⟨htook, _⟩
      exact ⟨htook.sound, htook.grew.kept, pageTableSize, htook.mem⟩
    refine ends_get_bind ?_
    rw [if_pos h.on]
    refine ends_bind (heapAlloc_sound ha hs hsize align) fun p t htook => ends_modify_bind ?_
    cases wantPhysical with
    | false => exact ends_pure ⟨htook, fun hf => nomatch hf⟩
    | true =>
      obtain ⟨ts', h'⟩ := htook.sound.inv
      have hmem : (p, size) ∈ (t.tookBlock p size).heap.live := List.mem_cons_self
      obtain ⟨f, htrans, hphys⟩ := h'.physicalOf hmem
      exact ends_bind_of_ok hphys (ends_pure ⟨htook, fun _ => ⟨f, htrans, rfl⟩⟩)

theorem allocSound_kmallocAt (top depth : ℕ) :
    AllocSound top fun n => kmallocAt depth n true true := by
  intro u hu
  have hpage : pageTableSize + 20 < 2 ^ 31 := by decide
  refine (kmallocAt_sound depth hu hpage true true).mono ?_ fun _ hv => hv
  rintro block t ⟨htook, _⟩
  exact ⟨htook.sound, htook.grew.kept, pageTableSize, htook.mem⟩

end Calls

end Evos
