import Evos.Kheap.WellFormed

/-! # `heap_alloc` on a well-formed heap

A request that is not page-aligned is always served, from a hole that is there or from the space the
heap grows by, and leaves a well-formed heap. Growing makes one hole of the new space, and the page
added to the request covers the worst offset at a page boundary. -/

namespace Evos
open ByteMemory Segments BubblePass Outcome
set_option autoImplicit false

/-! ## Growth does not fail -/

section Growth
variable {a g : Arena} {ts : List Tile} {size i : ℕ} {pageAlign : Bool}

theorem HeapInv.expand_host (h : HeapInv a ts) (hm : grownEnd a size ≤ a.heap.maxAddr) :
    expand Arena.host (u32 (sub32 a.heap.allocatedEnd a.heap.allocatedStart + (size + 20) + 4096)) a =
      .ok () (a.extended (grownEnd a size)) := by
  have hle := h.tiles.le
  have hlt := h.max_lt
  have hend := h.end_lt
  have hround := le_roundUp (a.heap.allocatedEnd - a.heap.allocatedStart + (size + 20) + 4096)
  have hold : sub32 a.heap.allocatedEnd a.heap.allocatedStart =
      a.heap.allocatedEnd - a.heap.allocatedStart := sub32_of_le hle hend
  unfold grownEnd at *
  have hnew : pageRoundUp (u32 (sub32 a.heap.allocatedEnd a.heap.allocatedStart + (size + 20) +
      4096)) = roundUp (a.heap.allocatedEnd - a.heap.allocatedStart + (size + 20) + 4096) := by
    rw [hold, u32_of_lt (by omega), pageRoundUp_eq (by omega)]
  have hword : u32 (a.heap.allocatedStart + roundUp (a.heap.allocatedEnd -
      a.heap.allocatedStart + (size + 20) + 4096)) = a.heap.allocatedStart +
      roundUp (a.heap.allocatedEnd - a.heap.allocatedStart + (size + 20) + 4096) :=
    u32_of_lt (by omega)
  have key := @expand_of_checks Arena Arena.host a (u32 (sub32 a.heap.allocatedEnd
    a.heap.allocatedStart + (size + 20) + 4096)) a
  rw [hnew] at key
  have hgt : sub32 a.heap.allocatedEnd a.heap.allocatedStart < roundUp (a.heap.allocatedEnd -
      a.heap.allocatedStart + (size + 20) + 4096) := by
    rw [hold]
    omega
  have hmax : u32 (a.heap.allocatedStart + roundUp (a.heap.allocatedEnd - a.heap.allocatedStart +
      (size + 20) + 4096)) ≤ a.heap.maxAddr := by
    rw [hword]
    exact hm
  rw [← hword]
  exact key hgt hmax (mapPages_host _ _ _ _)

theorem addHole_total {newEnd : ℕ} (hroom : a.heap.index.size < a.heap.index.maxSize) :
    ∃ g, Evos.addHole a.heap.allocatedEnd (sub32 a.heap.allocatedEnd a.heap.allocatedStart)
      (a.extended newEnd) = .ok ((), g) := by
  unfold Evos.addHole
  have hroom' : (a.extended newEnd).heap.index.array.length <
    (a.extended newEnd).heap.index.maxSize := hroom
  dsimp only
  rw [orderedArrayInsert_of_room _ _ _ hroom']
  exact ⟨_, rfl⟩

/-- Growing serves the request when the new space is large enough for it. -/
theorem HeapInv.growHeap_total (h : HeapInv a ts) (hm : grownEnd a size ≤ a.heap.maxAddr)
    (hroom : a.heap.index.size < a.heap.index.maxSize)
    (hfit : ∀ m, headerSize m a.heap.allocatedEnd = grownEnd a size - a.heap.allocatedEnd →
      holeFits m (size + 20) pageAlign a.heap.allocatedEnd = true) :
    ∃ i g, growHeap Arena.host (size + 20) pageAlign a = .ok i g := by
  have hle := h.tiles.le
  have hgrown : _ ≤ grownEnd a size := le_grownEnd h
  obtain ⟨g, hadd⟩ := @addHole_total a (grownEnd a size) hroom
  have hold : sub32 a.heap.allocatedEnd a.heap.allocatedStart =
      a.heap.allocatedEnd - a.heap.allocatedStart := sub32_of_le hle h.end_lt
  have hg : Grown a g ts (grownEnd a size) := by
    rw [hold] at hadd
    exact h.addHole (by omega) (Nat.lt_of_le_of_lt hm h.max_lt) hadd
  have hnew : (⟨a.heap.allocatedEnd, grownEnd a size - a.heap.allocatedEnd, .free⟩ : Tile) ∈
      ts ++ [⟨a.heap.allocatedEnd, grownEnd a size - a.heap.allocatedEnd, .free⟩] := by simp
  have hsome : (Evos.findHole g (size + 20) pageAlign).isSome = true := by
    rw [Evos.findHole, List.findIdx?_isSome, List.any_eq_true]
    exact ⟨_, hg.inv.mem_index hnew rfl, hfit _ (hg.inv.good _ hnew).size⟩
  obtain ⟨i, hi⟩ := Option.isSome_iff_exists.mp hsome
  exact ⟨i, g, growHeap_of_stages (H := Arena.host) (h.expand_host hm) rfl hadd hi⟩

/-! ## The new space fits -/

theorem HeapInv.newSpace_fits (h : HeapInv a ts) {m : Mem}
    (hsize : headerSize m a.heap.allocatedEnd = grownEnd a size - a.heap.allocatedEnd) :
    holeFits m (size + 20) false a.heap.allocatedEnd = true := by
  have hgrown : _ ≤ grownEnd a size := le_grownEnd h
  unfold holeFits
  rw [hsize, if_neg (by simp), decide_eq_true_eq]
  omega

/-- At a page boundary the offset is a page less a header, which the extra page covers. -/
theorem HeapInv.newSpace_fits_aligned (h : HeapInv a ts) {m : Mem}
    (hsize : headerSize m a.heap.allocatedEnd = grownEnd a size - a.heap.allocatedEnd)
    (hend : a.heap.allocatedEnd % 4096 = 0) (hw : grownEnd a size < 2 ^ 32)
    (hlen : grownEnd a size < a.heap.allocatedStart + 2 ^ 31) :
    holeFits m (size + 20) true a.heap.allocatedEnd = true := by
  have hle := h.tiles.le
  have hgrown : _ ≤ grownEnd a size := le_grownEnd h
  have hoffset : pageAlignGetOffset a.heap.allocatedEnd = 4084 := by
    unfold pageAlignGetOffset
    rw [u32_of_lt (by omega)]
    dsimp only
    rw [if_pos (by omega), if_neg (by omega)]
    omega
  unfold holeFits
  rw [hsize, hoffset, if_pos rfl, decide_eq_true_eq, s32_of_lt (by omega), s32_of_lt (by omega),
    s32_of_lt (by omega)]
  omega

theorem WellFormedHeap.grown {newEnd : ℕ} (h : WellFormedHeap a ts)
    (hgrown : Grown a g ts newEnd) :
    WellFormedHeap g (ts ++ [⟨a.heap.allocatedEnd, newEnd - a.heap.allocatedEnd, .free⟩]) := by
  refine ⟨hgrown.inv, fun u hu => ?_⟩
  rcases List.mem_append.mp hu with hu | hu
  · exact h.plain u hu
  · rw [List.mem_singleton.mp hu]
    simp

theorem Grown.stop {newEnd : ℕ} (hgrown : Grown a g ts newEnd) : g.heap.allocatedEnd = newEnd :=
  hgrown.extent.stop

theorem Grown.index_length {newEnd : ℕ} (hgrown : Grown a g ts newEnd)
    (h : HeapInv a ts) : g.heap.index.array.length = a.heap.index.array.length + 1 := by
  have h1 := hgrown.inv.index.length_eq
  rw [holes_append, List.length_append, ← h.index.length_eq] at h1
  exact h1

/-- A heap that grows makes one hole of the new space, and that hole is the one found. -/
theorem chooseHole_newSpace (h : WellFormedHeap a ts) (hend : a.heap.allocatedEnd % 4096 = 0)
    (hnone : findHole a (size + 20) pageAlign = none)
    (hlen : roundUp (a.heap.allocatedEnd - a.heap.allocatedStart + (size + 20) + 4096) < 2 ^ 31)
    (hmax : grownEnd a size ≤ a.heap.maxAddr) (hroom : a.heap.index.size < a.heap.index.maxSize) :
    ∃ i g, chooseHole Arena.host (size + 20) pageAlign a = .ok i g ∧
      g.heap.allocatedEnd = grownEnd a size ∧
      WellFormedHeap g
        (ts ++ [⟨a.heap.allocatedEnd, grownEnd a size - a.heap.allocatedEnd, .free⟩]) ∧
      findHole g (size + 20) pageAlign = some i ∧
      g.heap.index.array[i]? = some a.heap.allocatedEnd := by
  have hw : grownEnd a size < 2 ^ 32 := Nat.lt_of_le_of_lt hmax h.max_lt
  have hfits : ∀ m, headerSize m a.heap.allocatedEnd = grownEnd a size - a.heap.allocatedEnd →
      holeFits m (size + 20) pageAlign a.heap.allocatedEnd = true := by
    intro m hsize
    cases pageAlign with
    | false => exact h.newSpace_fits hsize
    | true => exact h.newSpace_fits_aligned hsize hend hw (by unfold grownEnd; omega)
  obtain ⟨i, g, hg⟩ := h.toHeapInv.growHeap_total hmax hroom hfits
  obtain ⟨hgrown, hf⟩ := h.toHeapInv.grow hw hg
  exact ⟨i, g, (chooseHole_of_none (H := Arena.host) hnone).trans hg, hgrown.stop,
    h.grown hgrown, hf, hgrown.findHole h.toHeapInv hnone hf⟩

end Growth

set_option maxRecDepth 100000 in
/-- A page-aligned request of 64 KiB makes the heap grow by 72 KiB. -/
theorem chooseHole_newSpace_splitHeap :
    ∃ i g, chooseHole Arena.host (0x10000 + 20) true (splitHeap 120) = .ok i g ∧
      g.heap.allocatedEnd = 0x0f022000 ∧
      WellFormedHeap g [⟨0x0f002000, 120, .used 100⟩, ⟨0x0f002078, 0xdf88, .free⟩,
        ⟨0x0f010000, 0x12000, .free⟩] ∧
      findHole g (0x10000 + 20) true = some i ∧ g.heap.index.array[i]? = some 0x0f010000 :=
  chooseHole_newSpace (splitHeap_wellFormed (by decide) (by decide)) (by decide) (by decide +kernel) (by decide)
    (by decide +kernel) (by decide)

/-! ## Requests that are not page-aligned -/

/-- The hole `t` that serves a request was there, between `pre` and `post`, or is the space the heap
grew by. -/
def ServedFrom (a a' : Arena) (size : ℕ) (pageAlign : Bool) (ts pre : List Tile) (t : Tile)
    (post : List Tile) : Prop :=
  (ts = pre ++ t :: post ∧ a'.heap.allocatedEnd = a.heap.allocatedEnd ∧
    ∃ i, findHole a (size + 20) pageAlign = some i ∧ a.heap.index.array[i]? = some t.addr) ∨
  (findHole a (size + 20) pageAlign = none ∧ ts = pre ∧ post = [] ∧
    t.addr = a.heap.allocatedEnd ∧ t.stop = a'.heap.allocatedEnd)

section Alloc
variable {a b : Arena} {ts pre post : List Tile} {t : Tile} {size i : ℕ}

/-- A block in place of a hole, and the rest of the hole, leave a heap well-formed. -/
theorem WellFormedHeap.carved_plain {a' : Arena} {pageAlign : Bool}
    (h : WellFormedHeap b (pre ++ t :: post)) (hoff : leftOffset t.addr pageAlign = 0)
    (hinv : HeapInv a' (pre ++ carved t size pageAlign ++ post)) :
    WellFormedHeap a' (pre ++ (⟨t.addr, blockLen t.len (size + 20), .used size⟩ ::
      rightPart t.addr t.len (blockLen t.len (size + 20))) ++ post) := by
  rw [carved_in_place hoff] at hinv
  refine ⟨hinv, fun u hu => ?_⟩
  rcases List.mem_append.mp hu with hu | hu
  · rcases List.mem_append.mp hu with hu | hu
    · exact h.plain u (by simp [hu])
    · rcases List.mem_cons.mp hu with rfl | hu
      · simp
      · unfold rightPart at hu
        split at hu
        · exact absurd hu List.not_mem_nil
        · rw [List.mem_singleton.mp hu]
          simp
  · exact h.plain u (by simp [hu])

theorem WellFormedHeap.carve (h : WellFormedHeap b (pre ++ t :: post))
    (hk : t.kind.isHole = true) (hi : b.heap.index.array[i]? = some t.addr)
    (hfit : size + 20 ≤ t.len) (hroom : b.heap.index.array.length ≤ b.heap.index.maxSize) :
    ∃ a', Evos.carve i (size + 20) false b = .ok (t.addr + 12, a') ∧
      WellFormedHeap a' (pre ++ (⟨t.addr, blockLen t.len (size + 20), .used size⟩ ::
        rightPart t.addr t.len (blockLen t.len (size + 20))) ++ post) ∧
      SameExtent b.heap a'.heap ∧ OnlyIn t.addr t.stop b.mem a'.mem := by
  have hn := (h.plain t (by simp)).2
  obtain ⟨a', hc⟩ := h.toHeapInv.carve_in_place hn hi hfit hroom
  have hoff : leftOffset t.addr false + (size + 20) ≤ t.len := by simpa [leftOffset] using hfit
  have hserved := h.toHeapInv.carve hk hn hi hoff hc
  exact ⟨a', hc, h.carved_plain rfl hserved.inv, hserved.extent, hserved.writes⟩

theorem blockLen_bounds {n s : ℕ} (h : s ≤ n) : s ≤ blockLen n s ∧ blockLen n s ≤ s + 20 ∧
    blockLen n s ≤ n := by
  refine ⟨blockLen_ge h, ?_, blockLen_le h⟩
  unfold blockLen
  split <;> omega

/-- What a request that is not page-aligned does: one hole, or the space the heap grew by, becomes a
block of at least `size + 20` and at most `size + 40` bytes and a hole of the rest, if any. -/
structure Serves (a a' : Arena) (ts : List Tile) (size p : ℕ) (pre : List Tile) (t : Tile)
    (post : List Tile) (len : ℕ) : Prop where
  source : ServedFrom a a' size false ts pre t post
  result : p = t.addr + 12
  atLeast : size + 20 ≤ len
  atMost : len ≤ size + 40
  within : len ≤ t.len
  heap : WellFormedHeap a' (pre ++ (⟨t.addr, len, .used size⟩ ::
    if t.len = len then [] else [⟨t.addr + len, t.len - len, .free⟩]) ++ post)
  others : ∀ u ∈ pre ++ post, SameOn u.addr u.stop a.mem a'.mem

theorem WellFormedHeap.serves_found (h : WellFormedHeap a ts) (hs : size + 20 < 2 ^ 32)
    (hroom : a.heap.index.size < a.heap.index.maxSize) (hf : findHole a (size + 20) false = some i) :
    ∃ p a' pre t post len, heapAlloc Arena.host size false a = .ok p a' ∧
      Serves a a' ts size p pre t post len := by
  obtain ⟨t, ht, hk, _, hi, _, hfit⟩ := h.toHeapInv.findHole ⟨hs, by simp⟩ hf
  have hfit : size + 20 ≤ t.len := by simpa [leftOffset] using hfit
  obtain ⟨pre, post, rfl⟩ := List.append_of_mem ht
  obtain ⟨a', hc, hwf, hext, hw⟩ := h.carve hk hi hfit (Nat.le_of_lt hroom)
  obtain ⟨h1, h2, h3⟩ := blockLen_bounds hfit
  obtain ⟨hpre, hpost⟩ := tiles_middle.mp h.tiles
  have hserves : Serves a a' (pre ++ t :: post) size (t.addr + 12) pre t post
      (blockLen t.len (size + 20)) := by
    refine ⟨Or.inl ⟨rfl, hext.stop, i, hf, hi⟩, rfl, h1, h2, h3, hwf, fun u hu => ?_⟩
    rcases List.mem_append.mp hu with hu | hu
    · exact hw.sameOn (Or.inl (hpre.bounds hu).2)
    · exact hw.sameOn (Or.inr (hpost.bounds hu).1)
  rw [← u32_of_lt hs] at hf hc
  exact ⟨_, a', pre, t, post, _, heapAlloc_of_choose (H := Arena.host) (chooseHole_of_found hf) hc,
    hserves⟩

theorem WellFormedHeap.serves_grown {g : Arena} {newEnd : ℕ} (h : WellFormedHeap a ts)
    (hs : size + 20 < 2 ^ 32) (hroom : a.heap.index.size < a.heap.index.maxSize)
    (hf : findHole a (size + 20) false = none)
    (hg : growHeap Arena.host (size + 20) false a = .ok i g) (hgrown : Grown a g ts newEnd)
    (hfound : findHole g (size + 20) false = some i)
    (hfit : a.heap.allocatedEnd + (size + 20) ≤ newEnd) :
    ∃ p a' pre t post len, heapAlloc Arena.host size false a = .ok p a' ∧
      Serves a a' ts size p pre t post len := by
  have hi := hgrown.findHole h.toHeapInv hf hfound
  have hlen : g.heap.index.array.length ≤ g.heap.index.maxSize := by
    have hmaxSize : g.heap.index.maxSize = a.heap.index.maxSize := hgrown.extent.room
    rw [hgrown.index_length h.toHeapInv, hmaxSize]
    exact hroom
  have hfit' : size + 20 ≤ newEnd - a.heap.allocatedEnd := by omega
  obtain ⟨a', hc, hwf, hext, hw⟩ := (h.grown hgrown).carve rfl hi hfit' hlen
  obtain ⟨h1, h2, h3⟩ := blockLen_bounds hfit'
  have hstop : a'.heap.allocatedEnd = newEnd := hext.stop.trans hgrown.stop
  have hserves : Serves a a' ts size (a.heap.allocatedEnd + 12) ts
      ⟨a.heap.allocatedEnd, newEnd - a.heap.allocatedEnd, .free⟩ []
      (blockLen (newEnd - a.heap.allocatedEnd) (size + 20)) := by
    refine ⟨Or.inr ⟨hf, rfl, rfl, rfl, ?_⟩, rfl, h1, h2, h3, hwf, fun u hu => ?_⟩
    · rw [hstop, Seg.stop_eq]
      dsimp only
      omega
    · rw [List.append_nil] at hu
      have hb := (h.bounds hu).2
      exact SameOn.trans (hgrown.writes.sameOn (Or.inl hb)) (hw.sameOn (Or.inl hb))
  rw [← u32_of_lt hs] at hf hg hc
  exact ⟨_, a', ts, _, [], _, heapAlloc_of_choose (H := Arena.host)
    ((chooseHole_of_none (H := Arena.host) hf).trans hg) hc, hserves⟩

/-- A request that is not page-aligned is served, from a hole that is there or by growing. -/
theorem heapAlloc_serves (h : WellFormedHeap a ts) (hs : size + 20 < 2 ^ 32)
    (hmax : StaysUnderMax a size false) (hroom : a.heap.index.size < a.heap.index.maxSize) :
    ∃ p a' pre t post len, heapAlloc Arena.host size false a = .ok p a' ∧
      Serves a a' ts size p pre t post len := by
  cases hf : findHole a (size + 20) false with
  | some i => exact h.serves_found hs hroom hf
  | none =>
    have hend : _ ≤ grownEnd a size := le_grownEnd h.toHeapInv
    obtain ⟨i, g, hg⟩ := h.toHeapInv.growHeap_total (hmax hf) hroom fun m => h.newSpace_fits
    obtain ⟨hgrown, hfound⟩ := h.toHeapInv.grow (Nat.lt_of_le_of_lt (hmax hf) h.max_lt) hg
    exact h.serves_grown hs hroom hf hg hgrown hfound (by omega)

end Alloc

set_option maxRecDepth 100000 in
theorem heapAlloc_serves_splitHeap :
    ∃ p a' pre t post len, heapAlloc Arena.host 100 false (splitHeap 120) = .ok p a' ∧
      Serves (splitHeap 120) a' [⟨0x0f002000, 120, .used 100⟩, ⟨0x0f002078, 0xdf88, .free⟩] 100 p pre t
        post len :=
  heapAlloc_serves (splitHeap_wellFormed (by decide) (by decide)) (by decide) (by decide +kernel) (by decide)

end Evos
