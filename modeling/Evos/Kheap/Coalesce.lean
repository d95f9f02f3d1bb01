import Evos.Kheap.Safety

/-! # Coalescing over runs

No two holes are neighbours, as long as no request is served page-aligned by leaving a left part,
and no block is freed behind a hole whose footer was never written: the initial hole has none until
a merge or an allocation writes one. -/

namespace Evos
open ByteMemory Segments BubblePass Outcome Runs
set_option autoImplicit false

/-! ## The conditions -/

/-- The hole found for a page-aligned request starts a page already. -/
def ServesInPlace (a : Arena) (size : ℕ) : Prop :=
  ∃ i ∈ findHole a (size + 20) true, ∃ x ∈ a.heap.index.array[i]?, (x + 12) % 4096 = 0

/-- A hole that ends at `header` has a footer there that names it. -/
def FooterWritten (a : Arena) (header : ℕ) : Prop :=
  ∀ x ∈ a.heap.index.array, x + headerSize a.mem x = header →
    footerMagic a.mem (header - 8) = kheapMagic ∧ footerHeader a.mem (header - 8) = x

/-- The condition on a step for neighbouring holes always to be merged. -/
def CoalescingStep (op : HeapOp) (s : HeapState) : Prop :=
  WellFormed op s ∧
    match op with
    | .alloc size pageAlign =>
      pageAlign = true → size + 20 < 2 ^ 31 ∧ ServesInPlace s.arena size
    | .free ptr => FooterWritten s.arena (ptr - 12)
    | .write _ _ => True

/-! ## The invariant -/

/-- No two neighbours are holes. -/
def Separated (ts : List Tile) : Prop :=
  ts.IsChain fun t u => ¬(t.kind.isHole = true ∧ u.kind.isHole = true)

/-- A tiling without husks and without neighbouring holes. -/
structure Coalesced (ts : List Tile) : Prop where
  noHusk : ∀ t ∈ ts, t.kind ≠ .husk
  separated : Separated ts

theorem separated_around {pre post : List Tile} {t : Tile} (ht : t.kind.isHole = false)
    (hpre : Separated pre) (hpost : Separated post) : Separated (pre ++ t :: post) := by
  refine hpre.append (hpost.cons fun y _ => ?_) fun x _ y hy => ?_
  · simp [ht]
  · simp only [List.head?_cons, Option.mem_some_iff] at hy
    subst hy
    simp [ht]

theorem separated_around_hole {pre post : List Tile} {t : Tile}
    (hpre : Separated pre) (hpost : Separated post)
    (hl : ∀ x ∈ pre.getLast?, x.kind.isHole = false)
    (hr : ∀ y ∈ post.head?, y.kind.isHole = false) : Separated (pre ++ t :: post) := by
  refine hpre.append (hpost.cons fun y hy => ?_) fun x hx y _ => ?_
  · simp [hr y hy]
  · simp [hl x hx]

theorem Separated.parts {pre post : List Tile} {t : Tile} (h : Separated (pre ++ t :: post)) :
    Separated pre ∧ Separated post ∧ (t.kind.isHole = true →
      (∀ x ∈ pre.getLast?, x.kind.isHole = false) ∧
        ∀ y ∈ post.head?, y.kind.isHole = false) := by
  obtain ⟨h1, h2, h3⟩ := List.isChain_append.mp h
  obtain ⟨h4, h5⟩ := List.isChain_cons.mp h2
  refine ⟨h1, h5, fun ht => ⟨fun x hx => ?_, fun y hy => ?_⟩⟩
  · have := h3 x hx t (by simp)
    simpa [ht] using this
  · have := h4 y hy
    simpa [ht] using this

/-! ## Allocation -/

/-- A hole taken from its first byte leaves the block and at most one hole behind it. -/
theorem carved_in_place {t : Tile} {size : ℕ} {pageAlign : Bool}
    (h : leftOffset t.addr pageAlign = 0) :
    carved t size pageAlign = ⟨t.addr, blockLen t.len (size + 20), .used size⟩ ::
      rightPart t.addr t.len (blockLen t.len (size + 20)) := by
  unfold carved
  rw [h]
  rfl

theorem coalesced_carved {pre post : List Tile} {t : Tile} {size : ℕ} {pageAlign : Bool}
    (h : leftOffset t.addr pageAlign = 0) (hpre : Coalesced pre) (hpost : Coalesced post)
    (hr : ∀ y ∈ post.head?, y.kind.isHole = false) :
    Coalesced (pre ++ carved t size pageAlign ++ post) := by
  rw [carved_in_place h, List.append_assoc, List.cons_append]
  have hright : Coalesced (rightPart t.addr t.len (blockLen t.len (size + 20)) ++ post) := by
    unfold rightPart
    split
    · exact hpost
    · refine ⟨fun u hu => ?_, hpost.separated.cons fun y hy => by simp [hr y hy]⟩
      rcases List.mem_cons.mp hu with rfl | hu
      · simp
      · exact hpost.noHusk u hu
  refine ⟨fun u hu => ?_, separated_around rfl hpre.separated hright.separated⟩
  rcases List.mem_append.mp hu with hu | hu
  · exact hpre.noHusk u hu
  · rcases List.mem_cons.mp hu with rfl | hu
    · simp
    · exact hright.noHusk u hu

theorem Coalesced.alloc {a a' : Arena} {ts pre post : List Tile} {t : Tile} {size p : ℕ}
    {pageAlign : Bool} (hc : Coalesced ts)
    (ha : Allocated a a' ts pre t post size pageAlign p)
    (h : leftOffset t.addr pageAlign = 0) : Coalesced (pre ++ carved t size pageAlign ++ post) := by
  rcases ha.source with ⟨rfl, _⟩ | ⟨_, rfl, rfl, _⟩
  · obtain ⟨h1, h2, h3⟩ := hc.separated.parts
    exact coalesced_carved h ⟨fun u hu => hc.noHusk u (by simp [hu]), h1⟩
      ⟨fun u hu => hc.noHusk u (by simp [hu]), h2⟩ (h3 ha.hole).2
  · exact coalesced_carved h hc ⟨by simp, List.isChain_nil⟩ (by simp)

theorem Allocated.in_place {a a' : Arena} {ts pre post : List Tile} {t : Tile} {size p : ℕ}
    {pageAlign : Bool} (ha : Allocated a a' ts pre t post size pageAlign p)
    (hlt : t.addr + 12 < 2 ^ 32) (h : pageAlign = true → ServesInPlace a size) :
    leftOffset t.addr pageAlign = 0 := by
  cases pageAlign with
  | false => rfl
  | true =>
    obtain ⟨i, hi, x, hx, hx12⟩ := h rfl
    rcases ha.source with ⟨_, j, hj, ht⟩ | ⟨hnone, _⟩
    · rw [Option.mem_def, hj] at hi
      cases hi
      rw [Option.mem_def, ht] at hx
      cases hx
      exact pageAlignGetOffset_aligned hlt hx12
    · rw [hnone] at hi
      exact absurd hi (by simp)

/-! ## Freeing -/

section Free
variable {a : Arena} {pre post : List Tile} {t : Tile} {size : ℕ}

/-- What lies in front of the block keeps its tags when the block is marked. -/
theorem HeapInv.marked_left {v : Tile} (h : HeapInv a (pre ++ [v] ++ t :: post)) :
    TileOK (a.marked t.addr).mem v ∧ v.stop = t.addr := by
  have hstop := (tiles_middle.mp h.tiles).1.last_stop
  have hw := onlyIn_marked a (h.good t (by simp)).minLen
  exact ⟨(h.good v (by simp)).congr (hw.sameOn (Or.inl (Nat.le_of_eq hstop))), hstop⟩

theorem HeapInv.mergesLeft {v : Tile} (h : HeapInv a (pre ++ [v] ++ t :: post))
    (hv : v.kind.isHole = true) (hn : v.kind ≠ .husk) (hfoot : FooterWritten a t.addr) :
    MergesLeft t.addr (a.marked t.addr) ∧
      footerHeader (a.marked t.addr).mem (t.addr - 8) = v.addr := by
  obtain ⟨hok, hstop⟩ := h.marked_left
  have hsv := v.stop_eq
  have hlen := hok.minLen
  have htm : t ∈ pre ++ [v] ++ t :: post := by simp
  have hvm : v ∈ pre ++ [v] ++ t :: post := by simp
  have hsize := (h.good v hvm).size
  rw [recorded, if_neg hn] at hsize
  obtain ⟨hmagic, hname⟩ := hfoot v.addr (h.mem_index hvm hv) (by omega)
  have hw := onlyIn_marked a (h.good t htm).minLen
  have hs : SameOn v.addr v.stop a.mem (a.marked t.addr).mem :=
    hw.sameOn (Or.inl (Nat.le_of_eq hstop))
  have hm : footerMagic (a.marked t.addr).mem (t.addr - 8) = kheapMagic := by
    rw [SameOn.footerMagic hs (by omega) (by omega)]
    exact hmagic
  have hh : footerHeader (a.marked t.addr).mem (t.addr - 8) = v.addr := by
    rw [SameOn.footerHeader hs (by omega) (by omega)]
    exact hname
  have hb := h.bounds hvm
  have ht := h.bounds htm
  have hlt := h.end_lt
  refine ⟨?_, hh⟩
  unfold MergesLeft
  rw [sub32_of_le (show 8 ≤ t.addr by omega) (by omega), hm, hh, hok.isHole, if_pos hv]
  refine ⟨?_, rfl, by decide⟩
  show t.addr - 8 > a.heap.allocatedStart
  omega

/-- With its footer written, what is merged on the left is the hole in front. -/
theorem HeapInv.joinsLeft (h : HeapInv a (pre ++ t :: post))
    (hn : ∀ u ∈ pre ++ t :: post, u.kind ≠ .husk) (hfoot : FooterWritten a t.addr) :
    JoinsLeft t.addr (a.marked t.addr) := by
  intro hml
  have htm : t ∈ pre ++ t :: post := by simp
  have hb := h.bounds htm
  have hlt := h.end_lt
  have hge := h.start_ge
  rcases List.eq_nil_or_concat pre with rfl | ⟨pre, v, rfl⟩
  · have hstart : t.addr = a.heap.allocatedStart := h.tiles.1
    have := hml.1
    rw [sub32_of_le (show 8 ≤ t.addr by omega) (by omega)] at this
    have : t.addr - 8 > a.heap.allocatedStart := this
    omega
  · rw [List.concat_eq_append] at h hn
    obtain ⟨hok, hstop⟩ := h.marked_left
    have hvm : v ∈ pre ++ [v] ++ t :: post := by simp
    have hsv := v.stop_eq
    by_cases hv : v.kind.isHole = true
    · have hnv := hn v hvm
      obtain ⟨_, hname⟩ := h.mergesLeft hv hnv hfoot
      have hsize := hok.size
      rw [recorded, if_neg hnv] at hsize
      rw [hname, hsize]
      exact ⟨h.mem_index hvm hv, by omega⟩
    · have hnr : v.kind ≠ .raw := by
        intro hr
        rw [hr] at hv
        exact hv rfl
      have hname := (hok.footer hnr).2
      rw [hstop] at hname
      have hhole := hok.isHole
      rw [if_neg hv] at hhole
      have := hml.2.2
      rw [sub32_of_le (show 8 ≤ t.addr by omega) (by omega), hname] at this
      exact absurd hhole this

theorem HeapInv.joinsHoles (h : HeapInv a (pre ++ t :: post))
    (hn : ∀ u ∈ pre ++ t :: post, u.kind ≠ .husk) (hk : t.kind = .used size)
    (hfoot : FooterWritten a t.addr) : JoinsHoles a (t.addr + 12) := by
  unfold JoinsHoles
  rw [Nat.add_sub_cancel]
  refine ⟨h.joinsLeft hn hfoot, fun hmr => ?_⟩
  have hmark := h.mark hk
  obtain ⟨r, post', rfl, hr⟩ := (hmark.mergesRight_iff (by simp)).mp hmr
  have hts := (hmark.good ⟨t.addr, t.len, .free⟩ (by simp)).size
  have hrm : r ∈ pre ++ (⟨t.addr, t.len, .free⟩ : Tile) :: r :: post' := by simp
  have hok := hmark.good r hrm
  have hadj : r.addr = t.addr + t.len := (tiles_middle.mp h.tiles).2.1
  have hsize : headerSize (a.marked t.addr).mem t.addr = t.len := hts
  rw [hsize, ← hadj, hok.size, recorded, if_neg (hn r (by simp))]
  have := hok.minLen
  omega

theorem Freed.coalesced {a' : Arena} {l r : Option Tile} (hf : Freed a a' pre l t r post)
    (h : HeapInv a (pre ++ l.toList ++ t :: (r.toList ++ post)))
    (hc : Coalesced (pre ++ l.toList ++ t :: (r.toList ++ post))) (hfoot : FooterWritten a t.addr) :
    Coalesced (pre ++ joined l t r :: post) := by
  obtain ⟨hleft, hright, _⟩ := hc.separated.parts
  have hpre : Separated pre ∧ ∀ x ∈ pre.getLast?, x.kind.isHole = false := by
    cases l with
    | some y =>
      have hleft : Separated (pre ++ y :: []) := hleft
      obtain ⟨h1, _, h3⟩ := hleft.parts
      exact ⟨h1, (h3 (hf.left y rfl).isHole).1⟩
    | none =>
      simp only [Option.toList_none, List.append_nil] at hleft h hc
      refine ⟨hleft, fun x hx => ?_⟩
      obtain ⟨pre', rfl⟩ := List.getLast?_eq_some_iff.mp hx
      by_contra hhole
      exact hf.leftOut rfl (h.mergesLeft (by simpa using hhole) (hc.noHusk x (by simp)) hfoot).1
  have hpost : Separated post ∧ ∀ y ∈ post.head?, y.kind.isHole = false := by
    cases r with
    | some y =>
      have hright : Separated ([] ++ y :: post) := hright
      obtain ⟨_, h2, h3⟩ := hright.parts
      exact ⟨h2, (h3 (hf.right y rfl).1).2⟩
    | none => exact ⟨by simpa using hright, hf.rightOut rfl⟩
  refine ⟨fun u hu => ?_, separated_around_hole hpre.1 hpost.1 hpre.2 hpost.2⟩
  rcases List.mem_append.mp hu with hu | hu
  · exact hc.noHusk u (by simp [hu])
  · rcases List.mem_cons.mp hu with rfl | hu
    · simp [joined]
    · exact hc.noHusk u (by simp [hu])

end Free

/-! ## Runs -/

/-- What coalescing runs keep of the extent of the heap. -/
structure ExtentGrows (h h' : Heap) : Prop where
  room : h'.index.maxSize = h.index.maxSize
  start : h'.allocatedStart = h.allocatedStart
  grows : h.allocatedEnd ≤ h'.allocatedEnd

theorem Tiled.free_coalesced {s s' : HeapState} {ts : List Tile} (h : Tiled s ts)
    (hc : Coalesced ts) {ptr : ℕ} (hfoot : FooterWritten s.arena (ptr - 12))
    (hs : freeStep ptr s = some s') :
    ∃ pre l t r post n, ts = pre ++ l.toList ++ t :: (r.toList ++ post) ∧ t.kind = .used n ∧
      ptr = t.addr + 12 ∧ Freed s.arena s'.arena pre l t r post ∧
      Tiled s' (pre ++ joined l t r :: post) ∧ Coalesced (pre ++ joined l t r :: post) := by
  obtain ⟨n, a, hmem, _, _⟩ := freeStep_live hs
  obtain ⟨t, ht, hk, rfl, _⟩ := h.tile hmem
  rw [Nat.add_sub_cancel] at hfoot
  have hj : JoinsHoles s.arena (t.addr + 12) := by
    obtain ⟨pre, post, rfl⟩ := List.append_of_mem ht
    exact h.heap.joinsHoles hc.noHusk hk hfoot
  obtain ⟨pre, l, t', r, post, n', rfl, hk', he, hf, _, hnew⟩ := freeStep_some h hj hs
  obtain he' : t.addr = t'.addr := by omega
  rw [he'] at hfoot
  exact ⟨pre, l, t', r, post, n', rfl, hk', he, hf, hnew, hf.coalesced h.heap hc hfoot⟩

theorem Tiled.step_coalesced {s s' : HeapState} {ts : List Tile} (h : Tiled s ts)
    (hc : Coalesced ts) {op : HeapOp} (hok : CoalescingStep op s)
    (hs : heapStep op s = some s') :
    (∃ ts', Tiled s' ts' ∧ Coalesced ts') ∧ ExtentGrows s.arena.heap s'.arena.heap := by
  obtain ⟨hw, htags⟩ := hok
  cases op with
  | alloc size pageAlign =>
    obtain ⟨pre, t, post, p, ha, _, hnew⟩ :=
      allocStep_some h ⟨hw.1, fun hp => (htags hp).1⟩ hw.2 hs
    have ht : t.addr + leftOffset t.addr pageAlign + 12 < 2 ^ 32 := by
      have hm : (⟨t.addr + leftOffset t.addr pageAlign, blockLen t.len (size + 20), .used size⟩ :
          Tile) ∈ pre ++ carved t size pageAlign ++ post := by simp [carved]
      have hb := hnew.heap.bounds hm
      have := (hnew.heap.good _ hm).minLen
      have := hnew.heap.end_lt
      dsimp only at *
      omega
    exact ⟨⟨_, hnew, hc.alloc ha (ha.in_place (by omega) fun hp => (htags hp).2)⟩,
      ha.room, ha.start, ha.grows⟩
  | free ptr =>
    obtain ⟨pre, l, t, r, post, n, rfl, _, rfl, hf, hnew, hcnew⟩ := h.free_coalesced hc htags hs
    exact ⟨⟨_, hnew, hcnew⟩, hf.extent.room, hf.extent.start, Nat.le_of_eq hf.extent.stop.symm⟩
  | write x v =>
    obtain ⟨hnew, hheap, _⟩ := writeStep_some h hs
    exact ⟨⟨ts, hnew, hc⟩, by rw [hheap], by rw [hheap], by rw [hheap]⟩

/-- No hole of the index ends where another begins. -/
def NoAdjacentHoles (a : Arena) : Prop :=
  ∀ x ∈ a.heap.index.array, ∀ y ∈ a.heap.index.array, x + headerSize a.mem x ≠ y

theorem Tiled.noAdjacent {s : HeapState} {ts : List Tile} (h : Tiled s ts) (hc : Coalesced ts) :
    NoAdjacentHoles s.arena := by
  intro x hx y hy he
  obtain ⟨u, hu, huk, rfl⟩ := h.heap.tile_of_mem hx
  obtain ⟨v, hv, hvk, rfl⟩ := h.heap.tile_of_mem hy
  rw [(h.heap.good u hu).size, recorded, if_neg (hc.noHusk u hu)] at he
  obtain ⟨pre, post, rfl⟩ := List.append_of_mem hu
  obtain ⟨_, hpost⟩ := tiles_middle.mp h.heap.tiles
  have hvl := h.heap.bounds hv
  have hvp := h.heap.len_pos v hv
  cases post with
  | nil =>
    have : u.addr + u.len = s.arena.heap.allocatedEnd := hpost
    omega
  | cons w post =>
    have hw : w ∈ pre ++ u :: w :: post := by simp
    have hvw : v = w :=
      h.heap.tiles.eq_of_addr h.heap.len_pos hv hw (he.symm.trans hpost.1.symm)
    obtain ⟨_, _, h3⟩ := hc.separated.parts
    have := (h3 huk).2 w rfl
    rw [← hvw, hvk] at this
    cases this

theorem Tiled.one_hole {s : HeapState} {ts : List Tile} (h : Tiled s ts) (hc : Coalesced ts)
    (hlt : s.arena.heap.allocatedStart < s.arena.heap.allocatedEnd) (hlive : s.live = []) :
    ∃ t, ts = [t] ∧ t.kind.isHole = true ∧ t.kind ≠ .husk ∧
      t.addr = s.arena.heap.allocatedStart ∧ t.stop = s.arena.heap.allocatedEnd := by
  have hholes : ∀ t ∈ ts, t.kind.isHole = true := by
    intro t ht
    cases hk : t.kind with
    | used n =>
      have := h.live.symm.subset (mem_payloads.mpr ⟨t, ht, hk, rfl⟩)
      rw [hlive] at this
      exact absurd this List.not_mem_nil
    | free => rfl
    | husk => rfl
    | raw => rfl
  have htiles := h.heap.tiles
  match ts, hholes, htiles with
  | [], _, he =>
    have : s.arena.heap.allocatedStart = s.arena.heap.allocatedEnd := he
    omega
  | [t], hh, ⟨h1, h2⟩ =>
    exact ⟨t, rfl, hh t (by simp), hc.noHusk t (by simp), h1, h2⟩
  | t :: u :: ts, hh, _ =>
    have := (List.isChain_cons.mp hc.separated).1 u rfl
    exact absurd ⟨hh t (by simp), hh u (by simp)⟩ this

/-- A heap that is one hole serves every request that fits from its first byte. -/
theorem HeapInv.first_address {a : Arena} {t : Tile} (h : HeapInv a [t]) (hk : t.kind.isHole = true)
    (hn : t.kind ≠ .husk) (hroom : 0 < a.heap.index.maxSize) {size : ℕ} (hfit : size + 20 ≤ t.len) :
    ∃ a', heapAlloc Arena.host size false a = .ok (t.addr + 12) a' := by
  have hindex : a.heap.index.array = [t.addr] := by
    have := h.index
    rw [holes_cons_hole _ hk] at this
    exact List.perm_singleton.mp this
  have hb := h.bounds (List.mem_singleton.mpr rfl)
  have hlt := h.end_lt
  have hsize := (h.good t (by simp)).size
  rw [recorded, if_neg hn] at hsize
  have hf : Evos.findHole a (size + 20) false = some 0 := by
    unfold Evos.findHole
    rw [hindex]
    simp [holeFits, hsize, hfit]
  have h' : HeapInv a ([] ++ t :: []) := h
  obtain ⟨a', hc⟩ := h'.carve_in_place (i := 0) hn (by rw [hindex]; rfl) hfit
    (by rw [hindex]; exact hroom)
  rw [← u32_of_lt (show size + 20 < 2 ^ 32 by omega)] at hf hc
  exact ⟨a', heapAlloc_of_choose (H := Arena.host) (chooseHole_of_found hf) hc⟩

/-- What full coalescing promises of a state. -/
structure FullyCoalesced (firstAddress : ℕ) (s : HeapState) : Prop where
  noAdjacent : NoAdjacentHoles s.arena
  oneHole : s.live = [] → s.arena.heap.index.array = [s.arena.heap.allocatedStart] ∧
    headerSize s.arena.mem s.arena.heap.allocatedStart =
      s.arena.heap.allocatedEnd - s.arena.heap.allocatedStart
  firstAgain : s.live = [] → ∀ size,
    size + 20 ≤ s.arena.heap.allocatedEnd - s.arena.heap.allocatedStart →
      ∃ a', heapAlloc Arena.host size false s.arena = .ok firstAddress a'

/-- The freed block lies in a hole of the index. -/
def InSomeHole (s s' : HeapState) (header : ℕ) : Prop :=
  ∃ x ∈ s'.arena.heap.index.array, x ≤ header ∧
    header + headerSize s.arena.mem header ≤ x + headerSize s'.arena.mem x

theorem Tiled.fullyCoalesced {s : HeapState} {ts : List Tile} (h : Tiled s ts) (hc : Coalesced ts)
    (hlt : s.arena.heap.allocatedStart < s.arena.heap.allocatedEnd)
    (hroom : 0 < s.arena.heap.index.maxSize) :
    FullyCoalesced (s.arena.heap.allocatedStart + 12) s := by
  refine ⟨h.noAdjacent hc, fun hlive => ?_, fun hlive size hfit => ?_⟩
  · obtain ⟨t, rfl, hk, hn, hstart, hstop⟩ := h.one_hole hc hlt hlive
    have hsize := (h.heap.good t (by simp)).size
    rw [recorded, if_neg hn] at hsize
    have hindex := h.heap.index
    rw [holes_cons_hole _ hk] at hindex
    have hst := t.stop_eq
    rw [← hstart, ← hstop, hsize]
    exact ⟨List.perm_singleton.mp hindex, by omega⟩
  · obtain ⟨t, rfl, hk, hn, hstart, hstop⟩ := h.one_hole hc hlt hlive
    have hst := t.stop_eq
    rw [← hstart]
    exact h.heap.first_address hk hn hroom (by omega)

theorem Tiled.freed_in_hole {s s' : HeapState} {ts : List Tile} (h : Tiled s ts)
    (hc : Coalesced ts) {ptr : ℕ} (hfoot : FooterWritten s.arena (ptr - 12))
    (hs : freeStep ptr s = some s') : InSomeHole s s' (ptr - 12) := by
  obtain ⟨pre, l, t, r, post, n, rfl, hk, rfl, hf, hnew, _⟩ := h.free_coalesced hc hfoot hs
  rw [Nat.add_sub_cancel]
  have hsize := (h.heap.good t (by simp)).size
  rw [recorded, if_neg (by simp [hk])] at hsize
  have hjm : joined l t r ∈ pre ++ joined l t r :: post := by simp
  have hjs : headerSize s'.arena.mem (joined l t r).addr = (joined l t r).len :=
    (hnew.heap.good _ hjm).size
  refine ⟨_, hnew.heap.mem_index hjm rfl, ?_⟩
  rw [hjs, hsize]
  cases l with
  | none => exact ⟨Nat.le_refl _, by simp [joined]⟩
  | some y =>
    have hadj := (tiles_middle.mp h.heap.tiles).1.last_stop
    have hsy := y.stop_eq
    simp only [joined, Option.elim_some]
    omega

/-- In every run whose steps meet the condition the heap is fully coalesced in every state reached,
and a free leaves the block inside a hole. -/
theorem fullyCoalesced_of_run {mem : Mem} {start stop maxAddr : ℕ} {a : Arena}
    (h0 : Created mem start stop maxAddr a) {s : HeapState}
    (r : Run heapStep CoalescingStep ⟨a, []⟩ s) :
    FullyCoalesced (a.heap.allocatedStart + 12) s ∧
      ∀ ptr s', CoalescingStep (.free ptr) s → heapStep (.free ptr) s = some s' →
        InSomeHole s s' (ptr - 12) := by
  obtain ⟨hroom, hstart, hend, _, hindex, _⟩ := h0.eq
  obtain ⟨⟨ts, h, hc⟩, hx⟩ := r.invariant
    (I := fun s => (∃ ts, Tiled s ts ∧ Coalesced ts) ∧ ExtentGrows a.heap s.arena.heap)
    ⟨⟨_, h0.tiled, ⟨by simp, List.isChain_singleton _⟩⟩, rfl, rfl, Nat.le_refl _⟩
    fun op x y hx hok hs => by
      obtain ⟨⟨ts, h, hc⟩, h1, h2, h3⟩ := hx
      obtain ⟨hnew, g1, g2, g3⟩ := h.step_coalesced hc hok hs
      exact ⟨hnew, g1.trans h1, g2.trans h2, Nat.le_trans h3 g3⟩
  have hgrows := hx.grows
  have hfull := h.fullyCoalesced hc (by rw [hx.start]; omega)
    (by rw [hx.room, hindex]; exact (by decide : 0 < kheapIndexSize))
  rw [hx.start] at hfull
  exact ⟨hfull, fun ptr s' hok hs => h.freed_in_hole hc hok.2 hs⟩

instance (a : Arena) (size : ℕ) : Decidable (ServesInPlace a size) :=
  decidable_of_iff (((findHole a (size + 20) true).any fun i =>
    (a.heap.index.array[i]?).any fun x => decide ((x + 12) % 4096 = 0)) = true) (by
      simp [ServesInPlace, Option.any_eq_true, Option.mem_def])

instance (a : Arena) (header : ℕ) : Decidable (FooterWritten a header) :=
  inferInstanceAs (Decidable (∀ x ∈ _, _ → _))

instance (op : HeapOp) (s : HeapState) : Decidable (CoalescingStep op s) :=
  match op with
  | .alloc _ _ => inferInstanceAs (Decidable (_ ∧ (_ → _)))
  | .free _ => inferInstanceAs (Decidable (_ ∧ FooterWritten _ _))
  | .write _ _ => inferInstanceAs (Decidable (_ ∧ True))

set_option maxRecDepth 100000 in
theorem fullyCoalesced_of_run_initialHeap :
    ∃ s, trace heapStep CoalescingStep [.alloc 4064 false, .alloc 100 true, .alloc 10 false,
      .free 0x0f003000, .free 0x0f00200c, .free 0x0f003078] ⟨initialHeap, []⟩ = some s ∧
      FullyCoalesced 0x0f00200c s := by
  obtain ⟨s, hs⟩ := Option.isSome_iff_exists.mp (show (trace heapStep CoalescingStep
    [.alloc 4064 false, .alloc 100 true, .alloc 10 false, .free 0x0f003000, .free 0x0f00200c,
      .free 0x0f003078] ⟨initialHeap, []⟩).isSome = true by decide +kernel)
  exact ⟨s, hs, (fullyCoalesced_of_run initialHeap_created (Run.of_trace hs)).1⟩

set_option maxRecDepth 100000 in
/-- A request larger than the untouched initial hole grows the heap; freed, it leaves two holes side
by side, because the initial hole has no footer. -/
theorem not_fullyCoalesced_after_growth :
    ¬∀ s, Run heapStep WellFormed ⟨initialHeap, []⟩ s → s.live = [] →
      s.arena.heap.index.array = [s.arena.heap.allocatedStart] := by
  intro hall
  obtain ⟨s, hs, hbad⟩ := (Option.any_eq_true _ _).mp (show (trace heapStep WellFormed
    [.alloc 60000 false, .free 0x0f01000c] ⟨initialHeap, []⟩).any
      (fun s => decide (s.live = []) && decide (s.arena.heap.index.array.length = 2)) = true by
        decide +kernel)
  simp only [Bool.and_eq_true, decide_eq_true_eq] at hbad
  have := hbad.2
  rw [hall s (Run.of_trace hs) hbad.1] at this
  exact nomatch this

end Evos
