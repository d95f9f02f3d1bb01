import Evos.Mm.CopyTable
import Evos.Mm.KernelGrow

/-! # Growing past the shared tables

Where frames and a hole for a page table suffice, `expand` maps every page of a growth that goes
beyond the tables that the directories share, and moves the end of the heap. What is recorded then is
not coherent. -/

namespace Evos
open ByteMemory Segments Outcome
set_option autoImplicit false

/-! ## Pages whose table is there -/

section Found
variable {s t u : Kernel} {v i : ℕ} {w : Bool}

theorem PageAllocated.free_le (h : PageAllocated s v i w u) (hf : FramesOK s.frames) :
    s.free ≤ u.free + 1 := by
  rcases h with ⟨_, rfl⟩ | ⟨_, f, ws, hws, _, _, _, rfl⟩
  · exact Nat.le_succ _
  · have hcount := freeFrames_alloc (Words.list_lawful s.frames.length) ⟨rfl, hf.word⟩ hws
    have hlen : ws.length = s.frames.length := frameAlloc_length hws
    change s.free ≤ freeFrames Words.list ws.length ws + 1
    rw [hlen, hcount]
    exact Nat.le_refl _

theorem pageAlloc_total (hf : FramesOK s.frames) (hfree : 0 < s.free) (v i : ℕ) (w : Bool) :
    Ends (pageAlloc (some (v, i)) w s) (fun _ u => PageAllocated s v i w u) fun _ => False := by
  have hstop : Ends (pageAlloc (some (v, i)) w s) (fun _ _ => True) fun _ => False := by
    refine ends_pageAlloc (fun _ => trivial) (fun _ _ _ _ => trivial) fun e _ he => ?_
    have hnone : s.free = 0 := freeFrames_of_error he
    omega
  exact ((pageAlloc_ends hf v i w).and hstop).mono (fun _ _ h => h.1) fun _ h => h.2

/-- Pages of tables that are there, with frames for all of them. -/
structure PagesMapped (s : Kernel) (count : ℕ) (t : Kernel) : Prop where
  grew : Grew s t
  heap : t.heap = s.heap
  frames : FramesOK t.frames
  tableAt : t.tableAt = s.tableAt
  free : s.free ≤ t.free + count

theorem PagesMapped.refl (hf : FramesOK s.frames) : PagesMapped s 0 s :=
  ⟨Grew.refl s, rfl, hf, rfl, Nat.le_refl _⟩

theorem PagesMapped.trans {m n : ℕ} (h : PagesMapped s m t) (h' : PagesMapped t n u) :
    PagesMapped s (m + n) u := by
  have hfree := h.free
  have hfree' := h'.free
  exact ⟨h.grew.trans h'.grew, h'.heap.trans h.heap, h'.frames, h'.tableAt.trans h.tableAt, by omega⟩

theorem PageAllocated.mapped (h : PageAllocated s v i w u) (hf : FramesOK s.frames) :
    PagesMapped s 1 u :=
  ⟨h.grew, h.heap, h.frames hf, h.tableAt, h.free_le hf⟩

theorem mapPages_total (alloc : ℕ → KM (ℕ × ℕ)) {start i count : ℕ} (hf : FramesOK s.frames)
    (htable : ∀ a, start + i ≤ a → a < start + i + 4096 * count → s.tableAt (tableIndex a) ≠ 0)
    (hfree : count ≤ s.free) (hend : start + i + 4096 * count ≤ 2 ^ 32) :
    Ends (mapPages (kernelHost (getPageWith alloc)) start i count s)
      (fun _ t => PagesMapped s count t) fun _ => False := by
  induction count generalizing i s with
  | zero => exact ends_pure (PagesMapped.refl hf)
  | succ count ih =>
    have haddr : u32 (start + i) = start + i := u32_of_lt (by omega)
    have hne := htable (start + i) (Nat.le_refl _) (by omega)
    refine ends_bind (Q := fun _ u => PagesMapped s 1 u) ?_ ?_
    · rw [haddr]
      refine ends_get_bind (ends_bind_of_ok (getPageWith_found hne) (ends_get_bind ?_))
      exact (pageAlloc_total hf (by omega) _ _ _).mono (fun _ _ h => h.mapped hf) fun _ h => h
    · rintro _ t ht
      have hleft := ht.free
      refine (ih ht.frames ?_ (by omega) (by omega)).mono ?_ fun _ h => h
      · intro a h1 h2
        rw [ht.tableAt]
        exact htable a (by omega) (by omega)
      · rintro _ u hu
        have hall := ht.trans hu
        rw [Nat.add_comm] at hall
        exact hall

end Found

/-! ## A page whose table is missing -/

section Missing
variable {s : Kernel} {top : ℕ}

/-- The heap can carve a page table out of a hole it has. -/
def Kernel.HasTableHole (s : Kernel) : Prop :=
  ∃ i p a, findHole s.arena (pageTableSize + 20) true = some i ∧
    carve i (pageTableSize + 20) true s.arena = .ok (p, a)

theorem kmallocAt_table (depth : ℕ) (hs : s.Sound top) (hhole : s.HasTableHole) :
    Ends (kmallocAt (depth + 1) pageTableSize true true s)
      (fun block t => Took s top pageTableSize true block.1 t ∧ t.frames = s.frames ∧
        t.tableAt = s.tableAt) fun _ => False := by
  obtain ⟨ts, h⟩ := hs.inv
  obtain ⟨i, p, a, hf, hc⟩ := hhole
  have hsize : pageTableSize + 20 < 2 ^ 31 := by decide
  have hwrap : u32 (pageTableSize + 20) = pageTableSize + 20 := by decide
  have htook := h.took (Grew.refl s) hs.own rfl hsize hf hc
  have halloc : heapAlloc (kernelHost (getPageWith fun n => kmallocAt depth n true true))
      pageTableSize true s = .ok p (s.setArena a) := by
    refine heapAlloc_of_choose (H := kernelHost _) (chooseHole_of_found (H := kernelHost _)
      (hwrap.symm ▸ hf)) ?_
    rw [hwrap]
    exact hc
  refine ends_get_bind ?_
  rw [if_pos h.on]
  refine ends_bind_of_ok halloc (ends_modify_bind ?_)
  obtain ⟨ts', h'⟩ := htook.sound.inv
  obtain ⟨f, _, hphys⟩ := h'.physicalOf htook.mem
  exact ends_bind_of_ok hphys (ends_pure ⟨htook, rfl, rfl⟩)

theorem mapPage_missing (depth : ℕ) (hs : s.Sound top) (hhole : s.HasTableHole) (hfree : 0 < s.free)
    {address : ℕ} (h0 : s.tableAt (tableIndex address) = 0) :
    Ends ((kernelHost (getPageWith fun n => kmallocAt (depth + 1) n true true)).mapPage address s)
      (fun _ t => t.tableAt (tableIndex address) ≠ 0 ∧ s.free ≤ t.free + 1) fun _ => False := by
  refine ends_get_bind (ends_bind (Q := fun page t => ∃ v, page = some (v, pageIndex address) ∧
    FramesOK t.frames ∧ t.free = s.free ∧ t.tableAt (tableIndex address) ≠ 0) ?_ ?_)
  · refine ends_get_bind ?_
    rw [if_neg (show ¬(s.spaces.dirs s.kernelDirectory).tables (tableIndex address) ≠ 0 from
      not_not.mpr h0)]
    refine ends_bind (kmallocAt_table depth hs hhole) ?_
    rintro block t ⟨htook, hframes, _⟩
    obtain ⟨ts, h⟩ := htook.sound.inv
    have hblock : block.1 ≠ 0 := by
      have := (h.live_bounds htook.mem).1
      omega
    refine ends_modify_bind (ends_get_bind (ends_pure ⟨block.1, ?_, h.pages.frames, ?_, ?_⟩))
    · exact t.findPage_addTable _ _ _ hblock
    · unfold Kernel.free
      rw [Kernel.addTable_frames, hframes]
    · unfold Kernel.tableAt
      rw [Kernel.addTable_kernelDirectory, htook.grew.kept.kernelDirectory, Kernel.addTable_entry,
        if_pos ⟨rfl, rfl⟩]
      exact hblock
  · rintro page t ⟨v, rfl, hf, hcount, hne⟩
    refine ends_get_bind ((pageAlloc_total hf (by omega) _ _ _).mono ?_ fun _ h => h)
    rintro _ u hu
    have hleft := hu.free_le hf
    exact ⟨hu.tableAt ▸ hne, by omega⟩

end Missing

/-! ## The whole loop -/

section Loop
variable {s : Kernel} {top : ℕ}

theorem ends_mapPages_add {σ : Type} {H : Host σ} {start i m n : ℕ} {s : σ} {Q R : Unit → σ → Prop}
    {E : σ → Prop} (h : Ends (mapPages H start i m s) Q E)
    (h' : ∀ t, Q () t → Ends (mapPages H start (i + 4096 * m) n t) R E) :
    Ends (mapPages H start i (m + n) s) R E := by
  induction m generalizing i s with
  | zero =>
    have hnone : mapPages H start i 0 s = .ok () s := rfl
    rw [Nat.mul_zero, Nat.add_zero] at h'
    rw [Nat.zero_add]
    exact h' s (h.ok hnone)
  | succ m ih =>
    have hcount : m + 1 + n = m + n + 1 := by omega
    have hnext : i + 4096 + 4096 * m = i + 4096 * (m + 1) := by omega
    rw [hcount]
    unfold mapPages at h ⊢
    cases hm : H.mapPage (u32 (start + i)) s with
    | ok x t =>
      rw [bind_of_ok hm] at h ⊢
      refine ih h fun u hu => ?_
      rw [hnext]
      exact h' u hu
    | error e t =>
      rw [bind_of_error hm] at h ⊢
      exact ends_error (h.error rfl)

/-- What is needed for a growth that goes past the shared tables by one table. -/
structure Kernel.GrowsPast (s : Kernel) (top size : ℕ) (align : Bool) : Prop where
  request : size + 20 < 2 ^ 31
  noHole : findHole s.arena (size + 20) align = none
  past : heapTop top < grownEnd s.arena size
  oneTable : grownEnd s.arena size ≤ heapTop (top + 1)
  space : grownEnd s.arena size ≤ kheapMaxAddress
  missing : s.tableAt top = 0
  tableHole : s.HasTableHole
  frames : (grownEnd s.arena size - s.arena.heap.allocatedEnd) / 4096 ≤ s.free

theorem mapPages_past (depth : ℕ) {size : ℕ} {align : Bool} {ts : List Tile} (hs : s.Sound top)
    (h : KInv s top ts) (hg : s.GrowsPast top size align) {i count : ℕ}
    (hi : s.arena.heap.allocatedStart + i = s.arena.heap.allocatedEnd)
    (hcount : s.arena.heap.allocatedEnd + 4096 * count = grownEnd s.arena size) :
    Ends (mapPages (kernelHost (getPageWith fun n => kmallocAt (depth + 1) n true true))
      s.arena.heap.allocatedStart i count s) (fun _ _ => True) fun _ => False := by
  have hpast := hg.past
  have hone := hg.oneTable
  have hmax : grownEnd s.arena size ≤ 0x0ffff000 := hg.space
  have hframes := hg.frames
  have htop := heapTop_mod top
  have hend := h.endLe
  have hmod := h.endPage
  have hlo : kheapStart ≤ s.arena.heap.allocatedEnd := by
    have hstart := h.start
    omega
  have hnext : heapTop (top + 1) = heapTop top + 0x400000 := by
    unfold heapTop
    omega
  have hindex : ∀ a, heapTop top ≤ a → a < heapTop top + 0x400000 → tableIndex a = top := by
    intro a h1 h2
    unfold heapTop at h1 h2
    unfold tableIndex
    omega
  obtain ⟨low, hlow⟩ : ∃ low, s.arena.heap.allocatedEnd + 4096 * low = heapTop top :=
    ⟨(heapTop top - s.arena.heap.allocatedEnd) / 4096, by omega⟩
  obtain ⟨rest, hrest⟩ : ∃ rest, count = low + (rest + 1) := ⟨count - low - 1, by omega⟩
  have hleft : count ≤ s.free := by
    have hdiv : (grownEnd s.arena size - s.arena.heap.allocatedEnd) / 4096 = count := by omega
    omega
  have hsound : AllocSound top fun n => kmallocAt (depth + 1) n true true := allocSound_kmallocAt _ _
  have hbase : kheapStart ≤ s.arena.heap.allocatedStart := by
    rw [h.start]
    exact Nat.le_add_right _ _
  rw [hrest]
  refine ends_mapPages_add (Q := fun _ t => PagesMapped s low t ∧ t.Sound top) ?_ ?_
  · have hmapped : Ends (mapPages (kernelHost (getPageWith fun n => kmallocAt (depth + 1) n true true))
        s.arena.heap.allocatedStart i low s) (fun _ t => PagesMapped s low t) fun _ => False := by
      refine mapPages_total _ h.pages.frames ?_ (by omega) (by omega)
      intro a h1 h2
      obtain ⟨hge, hlt⟩ := tableIndex_below (show kheapStart ≤ a by omega)
        (show a < heapTop top by omega)
      exact h.pages.tableNe _ hge hlt
    refine (hmapped.and (mapPages_sound hsound hs hbase (by omega))).mono ?_ fun _ h => h.1
    exact fun _ _ h => ⟨h.1, h.2.1⟩
  · rintro t ⟨ht, hts⟩
    have hused := ht.free
    have harena : t.arena = s.arena := congrArg HeapState.arena ht.heap
    have haddr : u32 (s.arena.heap.allocatedStart + (i + 4096 * low)) = heapTop top := by
      rw [u32_of_lt (by omega)]
      omega
    have hat : tableIndex (heapTop top) = top := hindex _ (Nat.le_refl _) (by omega)
    have hhole : t.HasTableHole := by
      unfold Kernel.HasTableHole
      rw [harena]
      exact hg.tableHole
    have h0 : t.tableAt (tableIndex (heapTop top)) = 0 := by
      rw [hat, ht.tableAt]
      exact hg.missing
    have hstep := (mapPage_missing depth hts hhole (by omega) h0).and
      (mapPage_sound hsound hts (show kheapStart ≤ heapTop top by omega) (by omega))
    rw [← haddr] at hstep
    refine ends_bind (hstep.mono (fun _ _ h => h) fun _ h => h.1) ?_
    rintro _ u ⟨⟨hne, hcount'⟩, hus, _⟩
    rw [haddr, hat] at hne
    obtain ⟨ts', h'⟩ := hus.inv
    refine (mapPages_total _ h'.pages.frames ?_ (by omega) (by omega)).mono (fun _ _ _ => trivial)
      fun _ h => h
    intro a h1 h2
    rw [hindex a (by omega) (by omega)]
    exact hne

/-- The state right behind such a growth is recorded, and it is not coherent. -/
theorem growHeap_past (depth : ℕ) {size : ℕ} {align : Bool} (hs : s.Sound top)
    (hg : s.GrowsPast top size align) :
    Ends (growHeap (kernelHost (getPageWith fun n => kmallocAt (depth + 1) n true true)) (size + 20)
      align s) (fun _ _ => False) fun u => ∃ v ∈ u.midpoints, ¬v.Coherent := by
  obtain ⟨ts, h⟩ := hs.inv
  obtain ⟨hold, hnew, hcount, hge, hmod⟩ := h.expand_sizes hg.request
  have hle : s.arena.heap.allocatedStart ≤ s.arena.heap.allocatedEnd := h.tiled.heap.tiles.le
  have hlast : grownEnd s.arena size ≤ 0x10000000 := hg.space.trans (by decide)
  have hbase : kheapStart ≤ s.arena.heap.allocatedStart := by
    rw [h.start]
    exact Nat.le_add_right _ _
  obtain ⟨count, hcount'⟩ : ∃ count, count = (pageRoundUp (u32 (s.arena.heap.allocatedEnd -
      s.arena.heap.allocatedStart + (size + 20) + 4096)) -
        (s.arena.heap.allocatedEnd - s.arena.heap.allocatedStart) + 4095) / 4096 := ⟨_, rfl⟩
  rw [← hcount'] at hcount
  have hloop := @mapPages_past s top depth size align ts hs h hg
    (s.arena.heap.allocatedEnd - s.arena.heap.allocatedStart) count (by omega) (by omega)
  obtain ⟨⟨⟩, t, hmap, -⟩ := hloop.returns fun _ hf => hf
  obtain ⟨ht, hkept⟩ := (mapPages_sound (allocSound_kmallocAt top (depth + 1)) hs hbase
    (hcount ▸ hlast)).ok hmap
  have hext := h.extended_eq (getPageWith fun n => kmallocAt (depth + 1) n true true) hkept hg.request
  have harena : (kernelHost (getPageWith fun n => kmallocAt (depth + 1) n true true)).arena s =
    s.arena := rfl
  have hgrow : s.arena.heap.allocatedEnd - s.arena.heap.allocatedStart < pageRoundUp (u32
      (s.arena.heap.allocatedEnd - s.arena.heap.allocatedStart + (size + 20) + 4096)) := by
    omega
  have hexp : expand (kernelHost (getPageWith fun n => kmallocAt (depth + 1) n true true))
      (u32 (sub32 s.arena.heap.allocatedEnd s.arena.heap.allocatedStart + (size + 20) + 4096)) s =
        .ok () (t.extended (grownEnd s.arena size)) := by
    rw [harena] at hext
    rw [← hext]
    refine expand_of_checks ?_ ?_ ?_
    · rw [harena, hold]
      exact hgrow
    · rw [harena, hold, hnew, h.max]
      exact hg.space
    · rw [harena, hold, ← hcount']
      exact hmap
  refine ends_get_bind (ends_bind_of_ok hexp (ends_get_bind (ends_bind (Q := fun _ _ => False) ?_
    fun _ _ hf => hf.elim)))
  have hmid := ht.midpoint_behind hg.past hlast
  have hnot : ¬(t.extended (grownEnd s.arena size)).midpoint.Coherent := fun hc =>
    Nat.not_le_of_lt hg.past (hmid.mp hc)
  refine (enterPages_ends (E := fun u => ∃ v ∈ u.midpoints, ¬v.Coherent) _ _ ?_).mono ?_ fun _ h => h
  · exact ⟨_, List.mem_cons_self, hnot⟩
  · rintro _ _ ⟨_, hne⟩
    exact absurd (ht.footer_missing hg.past hmod hlast) hne

end Loop

/-! ## `kmalloc` -/

section Call
variable {s : Kernel} {top size : ℕ} {align : Bool}

/-- A `kmalloc` that has to grow the heap, where growing does not return. -/
theorem ends_kmallocAt_grow {depth : ℕ} {E : Kernel → Prop} (hon : s.kernelHeap = true)
    (hsize : size + 20 < 2 ^ 31) (hnone : findHole s.arena (size + 20) align = none)
    (hgrow : Ends (growHeap (kernelHost (getPageWith fun n => kmallocAt depth n true true)) (size + 20)
      align s) (fun _ _ => False) E) (wantPhysical : Bool) :
    Ends (kmallocAt (depth + 1) size align wantPhysical s) (fun _ _ => False) E := by
  have hwrap : u32 (size + 20) = size + 20 := u32_of_lt (by omega)
  refine ends_get_bind ?_
  rw [if_pos hon]
  refine ends_bind (Q := fun _ _ => False) (ends_heapAlloc ?_ ?_) fun _ _ hf => hf.elim
  · rw [hwrap]
    intro i hf
    exact absurd (hnone.symm.trans hf).symm (Option.some_ne_none i)
  · rw [hwrap]
    intro _
    exact hgrow.mono (fun _ _ hf => hf.elim) fun _ hu => hu

/-- Whatever frames there are, a `kmalloc` that takes the heap past the shared tables does not
return. -/
theorem kmallocAt_behind (depth : ℕ) (hs : s.Sound top) (hsize : size + 20 < 2 ^ 31)
    (hnone : findHole s.arena (size + 20) align = none)
    (hbehind : heapTop top < grownEnd s.arena size) (wantPhysical : Bool) :
    Ends (kmallocAt depth size align wantPhysical s) (fun _ _ => False) fun _ => True := by
  obtain ⟨ts, h⟩ := hs.inv
  cases depth with
  | zero => exact ends_throw trivial
  | succ depth =>
    exact ends_kmallocAt_grow h.on hsize hnone ((growHeap_behind (allocSound_kmallocAt top depth) hs h
      hsize hbehind).mono (fun _ _ hf => hf) fun _ _ => trivial) wantPhysical

/-- With frames enough it stops behind `expand`, in a state that is not coherent. -/
theorem kmallocAt_past (depth : ℕ) (hs : s.Sound top) (hg : s.GrowsPast top size align)
    (wantPhysical : Bool) :
    Ends (kmallocAt (depth + 2) size align wantPhysical s) (fun _ _ => False)
      fun u => ∃ v ∈ u.midpoints, ¬v.Coherent := by
  obtain ⟨ts, h⟩ := hs.inv
  exact ends_kmallocAt_grow h.on hg.request hg.noHole (growHeap_past depth hs hg) wantPhysical

end Call

end Evos
