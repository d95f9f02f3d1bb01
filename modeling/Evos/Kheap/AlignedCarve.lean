import Evos.Kheap.WellFormedAlloc

/-! # When carving a hole succeeds, and when it is exact

`heap_alloc` decides whether a hole can be split before it subtracts the offset of a page-aligned
block, so the rest behind a moved block can be too small for a hole; and the left part of a moved
block ends up with size 0. The signed test of `find_hole` also lets a hole through that is too short
for a request of 2 GiB and more. -/

namespace Evos
open ByteMemory Segments BubblePass Outcome
set_option autoImplicit false

/-! ## The length of the block -/

/-- The length `heap_alloc` gives a block of `s` bytes in a hole of `n`: a rest of at most 20 bytes
is added. -/
def takenLen (n s : ℕ) : ℕ := if s ≤ n ∧ n ≤ s + 20 then n else s

theorem takenLen_eq {n s : ℕ} (h20 : 20 ≤ n) (hn : n < 2 ^ 32) (hs : s < 2 ^ 32) :
    (if sub32 n s ≤ 12 + 8 then n else s) = takenLen n s := by
  unfold takenLen sub32
  split <;> split <;> omega

theorem le_takenLen (n s : ℕ) : s ≤ takenLen n s := by
  unfold takenLen
  split <;> omega

/-! ## Success of the stages -/

section Stages
variable {a : Arena} {i x n s : ℕ} {pageAlign : Bool}

/-- Where the first stage leaves off: what it leaves to place the block in, with the extent and the
number of entries of the index it leaves. -/
structure Claims (a a₁ : Arena) : Prop where
  extent : SameExtent a.heap a₁.heap
  room : a₁.heap.index.array.length < a₁.heap.index.maxSize

theorem claimHole_total (hx : x + 12 < 2 ^ 32) (hwrap : x + leftOffset x pageAlign < 2 ^ 32)
    (hn : n < 2 ^ 32) (hin : i < a.heap.index.array.length)
    (hroom : a.heap.index.array.length < a.heap.index.maxSize) :
    ∃ a₁, claimHole i x n pageAlign a =
        .ok ((x + leftOffset x pageAlign, sub32 n (leftOffset x pageAlign)), a₁) ∧ Claims a a₁ := by
  have herase : (a.heap.index.array.eraseIdx i).length < a.heap.index.maxSize := by
    rw [List.length_eraseIdx_of_lt hin]
    omega
  unfold claimHole
  by_cases hmis : pageAlign = true ∧ u32 (x + 12) % 4096 ≠ 0
  · rw [if_pos hmis]
    obtain ⟨rfl, hm⟩ := hmis
    rw [u32_of_lt hx] at hm
    have h20 := (pageAlignGetOffset_misaligned hx hm).1
    have hoff : leftOffset x true = pageAlignGetOffset x := rfl
    rw [hoff] at hwrap ⊢
    unfold splitLeft
    generalize pageAlignGetOffset x = o at *
    simp only [u32_of_lt hwrap]
    rw [assert_of (show o > 12 + 8 from h20), except_bind_of_ok rfl,
      orderedArrayRemove_of_lt _ _ hin, except_bind_of_ok rfl,
      orderedArrayInsert_of_room _ _ _ herase]
    refine ⟨_, rfl, ⟨rfl, rfl, rfl, rfl⟩, ?_⟩
    dsimp only
    rw [bubblePass_length, List.length_append, List.length_eraseIdx_of_lt hin,
      List.length_singleton]
    omega
  · rw [if_neg hmis, leftOffset_of_aligned hx hmis, takeHole_of_lt hin,
      sub32_of_le (Nat.zero_le n) hn]
    exact ⟨_, rfl, ⟨rfl, rfl, rfl, rfl⟩, herase⟩

theorem claimHole_result {a₁ : Arena} {r : ℕ × ℕ} (hx : x + 12 < 2 ^ 32)
    (hwrap : x + leftOffset x pageAlign < 2 ^ 32) (hn : n < 2 ^ 32)
    (h : claimHole i x n pageAlign a = .ok (r, a₁)) :
    r = (x + leftOffset x pageAlign, sub32 n (leftOffset x pageAlign)) ∧
      a₁.heap.allocatedEnd = a.heap.allocatedEnd := by
  unfold claimHole at h
  by_cases hmis : pageAlign = true ∧ u32 (x + 12) % 4096 ≠ 0
  · rw [if_pos hmis] at h
    obtain ⟨rfl, _⟩ := hmis
    have hoff : leftOffset x true = pageAlignGetOffset x := rfl
    rw [hoff] at hwrap ⊢
    unfold splitLeft at h
    obtain ⟨_, _, h⟩ := except_bind_ok h
    obtain ⟨_, _, h⟩ := except_bind_ok h
    obtain ⟨_, _, h⟩ := except_bind_ok h
    cases h
    rw [u32_of_lt hwrap]
    exact ⟨rfl, rfl⟩
  · rw [if_neg hmis] at h
    unfold takeHole at h
    obtain ⟨_, _, h⟩ := except_bind_ok h
    cases h
    rw [leftOffset_of_aligned hx hmis, sub32_of_le (Nat.zero_le n) hn]
    exact ⟨rfl, rfl⟩

/-- The second stage fails on a footer past the end of the heap and on a rest too small for a
hole. -/
theorem placeBlock_total_iff {addr len : ℕ} (hlen : 20 ≤ len) (hwrap : addr + len < 2 ^ 32)
    (hroom : a.heap.index.array.length < a.heap.index.maxSize)
    (hright : sub32 n len > 20 → sub32 (u32 (addr + n)) 8 < a.heap.allocatedEnd) :
    (∃ r, placeBlock addr n len a = .ok r) ↔
      addr + len < a.heap.allocatedEnd + 8 ∧ (sub32 n len = 0 ∨ 20 < sub32 n len) := by
  unfold placeBlock
  simp only [u32_of_lt hwrap, sub32_of_le (show 8 ≤ addr + len by omega) hwrap]
  by_cases hfoot : addr + len - 8 < a.heap.allocatedEnd
  · rw [assert_of hfoot, except_bind_of_ok rfl]
    by_cases hrest : sub32 n len > 0
    · rw [if_pos hrest]
      by_cases h20 : sub32 n len > 12 + 8
      · rw [assert_of h20, except_bind_of_ok rfl, assert_of (hright h20), except_bind_of_ok rfl,
          orderedArrayInsert_of_room _ _ _ hroom]
        exact ⟨fun _ => ⟨by omega, Or.inr h20⟩, fun _ => ⟨_, rfl⟩⟩
      · rw [assert_of_not h20]
        constructor
        · rintro ⟨r, hr⟩
          cases hr
        · rintro ⟨_, h | h⟩ <;> omega
    · rw [if_neg hrest]
      exact ⟨fun _ => ⟨by omega, Or.inl (by omega)⟩, fun _ => ⟨_, rfl⟩⟩
  · rw [assert_of_not hfoot]
    constructor
    · rintro ⟨r, hr⟩
      cases hr
    · rintro ⟨h, _⟩
      omega

theorem placeBlock_result {a' : Arena} {addr len p : ℕ} (h : placeBlock addr n len a = .ok (p, a')) :
    p = u32 (addr + 12) ∧ a'.heap.allocatedEnd = a.heap.allocatedEnd := by
  unfold placeBlock at h
  obtain ⟨_, _, h⟩ := except_bind_ok h
  split at h
  · obtain ⟨_, _, h⟩ := except_bind_ok h
    obtain ⟨_, _, h⟩ := except_bind_ok h
    obtain ⟨_, _, h⟩ := except_bind_ok h
    cases h
    exact ⟨rfl, rfl⟩
  · cases h
    exact ⟨rfl, rfl⟩

/-- The header of a placed block records its length, as long as the footer of the rest lies behind
the header. -/
theorem placeBlock_header {a' : Arena} {addr len p : ℕ} (hlen : 20 ≤ len)
    (hwrap : addr + len < 2 ^ 32)
    (hright : addr + 12 ≤ sub32 (u32 (addr + n)) 8)
    (h : placeBlock addr n len a = .ok (p, a')) : headerSize a'.mem addr = len := by
  have hblock : headerSize (blockMem a.mem addr len) addr = len := by
    have hsame : SameOn addr (addr + 12) _ _ :=
      (onlyIn_writeFooter (writeHeader a.mem addr len false) (addr + len - 8) addr).sameOn
        (by omega)
    unfold blockMem
    rw [SameOn.headerSize hsame (Nat.le_refl _) (Nat.le_refl _),
      headerSize_writeHeader _ _ _ (by omega)]
  unfold placeBlock at h
  simp only [u32_of_lt hwrap, u32_of_lt (show addr + 12 < 2 ^ 32 by omega),
    sub32_of_le (show 8 ≤ addr + len by omega) hwrap] at h
  obtain ⟨_, _, h⟩ := except_bind_ok h
  split at h
  · obtain ⟨_, _, h⟩ := except_bind_ok h
    obtain ⟨_, _, h⟩ := except_bind_ok h
    obtain ⟨_, _, h⟩ := except_bind_ok h
    cases h
    have h1 : SameOn addr (addr + 12) _ _ :=
      (onlyIn_writeHeader (blockMem a.mem addr len) (addr + len) (sub32 n len) true).sameOn
        (by omega)
    have h2 : SameOn addr (addr + 12) _ _ :=
      (onlyIn_writeFooter (writeHeader (blockMem a.mem addr len) (addr + len) (sub32 n len) true)
        (sub32 (u32 (addr + n)) 8) (addr + len)).sameOn (Or.inl hright)
    exact (SameOn.headerSize (h1.trans h2) (Nat.le_refl _) (Nat.le_refl _)).trans hblock
  · cases h
    exact hblock

end Stages

/-! ## Success of the carving -/

/-- The rest of `heap_alloc` succeeds on the hole at `x`: when the hole is long enough, the block is
not moved, or what is left behind it is nothing or more than a header and a footer; when it is too
short, the footer of the block is still below the end of the heap. -/
def CarveFits (a : Arena) (x size : ℕ) (pageAlign : Bool) : Prop :=
  if leftOffset x pageAlign + (size + 20) ≤ headerSize a.mem x then
    leftOffset x pageAlign = 0 ∨ headerSize a.mem x = leftOffset x pageAlign + (size + 20) ∨
      leftOffset x pageAlign + (size + 20) + 20 < headerSize a.mem x
  else
    x + leftOffset x pageAlign + takenLen (headerSize a.mem x) (size + 20) <
      a.heap.allocatedEnd + 8

/-- None of the sums and sizes `heap_alloc` computes for a request passes 2^32: the request with its
tags, the end of a heap that grows, the end of the block in the hole chosen. -/
structure NoWrap (a : Arena) (size : ℕ) (pageAlign : Bool) : Prop where
  request : size + 20 < 2 ^ 32
  growth : findHole a (size + 20) pageAlign = none → grownEnd a size < 2 ^ 32
  block : ∀ i g x, chooseHole Arena.host (size + 20) pageAlign a = .ok i g →
    g.heap.index.array[i]? = some x →
      x + leftOffset x pageAlign + takenLen (headerSize g.mem x) (size + 20) < 2 ^ 32

theorem leftOffset_cases {x : ℕ} {pageAlign : Bool} (hx : x + 12 < 2 ^ 32) :
    leftOffset x pageAlign = 0 ∨ 20 < leftOffset x pageAlign ∧ leftOffset x pageAlign ≤ 4116 := by
  by_cases hmis : pageAlign = true ∧ u32 (x + 12) % 4096 ≠ 0
  · obtain ⟨rfl, hm⟩ := hmis
    rw [u32_of_lt hx] at hm
    obtain ⟨h1, h2, _⟩ := pageAlignGetOffset_misaligned hx hm
    exact Or.inr ⟨h1, h2⟩
  · exact Or.inl (leftOffset_of_aligned hx hmis)

section Carve
variable {a : Arena} {ts : List Tile} {t : Tile} {i size : ℕ} {pageAlign : Bool}

theorem WellFormedHeap.carve_eq (h : WellFormedHeap a ts) (ht : t ∈ ts) (hs : size + 20 < 2 ^ 32)
    (hi : a.heap.index.array[i]? = some t.addr) :
    Evos.carve i (size + 20) pageAlign a = (do
      let ((addr, n), a) ← claimHole i t.addr t.len pageAlign a
      placeBlock addr n (takenLen t.len (size + 20)) a) := by
  have hb := h.bounds ht
  have hlt := h.end_lt
  have hmin := (h.good t ht).minLen
  unfold Evos.carve
  rw [except_bind_of_ok (orderedArrayIndex_of_getElem? hi)]
  dsimp only
  rw [h.size_eq ht, takenLen_eq hmin (by omega) hs]

theorem WellFormedHeap.carve_succeeds_iff (h : WellFormedHeap a ts) (ht : t ∈ ts)
    (hroom : a.heap.index.size < a.heap.index.maxSize) (hs : size + 20 < 2 ^ 32)
    (hi : a.heap.index.array[i]? = some t.addr)
    (hw : t.addr + leftOffset t.addr pageAlign + takenLen t.len (size + 20) < 2 ^ 32) :
    (∃ r, Evos.carve i (size + 20) pageAlign a = .ok r) ↔ CarveFits a t.addr size pageAlign := by
  have hb := h.bounds ht
  have hge := h.start_ge
  have hlt := h.end_lt
  have hmin := (h.good t ht).minLen
  have htaken := le_takenLen t.len (size + 20)
  obtain ⟨hin, _⟩ := List.getElem?_eq_some_iff.mp hi
  obtain ⟨a₁, hclaim, hc⟩ := @claimHole_total a i t.addr t.len pageAlign (by omega) (by omega)
    (by omega) hin hroom
  rw [h.carve_eq ht hs hi, except_bind_of_ok hclaim]
  have hoff := @leftOffset_cases t.addr pageAlign (by omega)
  unfold CarveFits
  rw [h.size_eq ht]
  generalize leftOffset t.addr pageAlign = o at *
  have hstop := hc.extent.stop
  dsimp only
  rw [placeBlock_total_iff (by omega) hw hc.room (fun _ => by
    rw [hstop]
    unfold sub32 u32
    omega), hstop]
  unfold takenLen sub32 at *
  split <;> split <;> omega

/-- Once a hole is found the allocation succeeds exactly when the carving fits. -/
theorem heapAlloc_succeeds_iff {x : ℕ} (h : WellFormedHeap a ts)
    (hroom : a.heap.index.size < a.heap.index.maxSize) (hw : NoWrap a size pageAlign)
    (hf : findHole a (size + 20) pageAlign = some i) (hi : a.heap.index.array[i]? = some x) :
    (∃ p a', heapAlloc Arena.host size pageAlign a = .ok p a') ↔ CarveFits a x size pageAlign := by
  obtain ⟨t, ht, _, rfl⟩ := h.tile_of_mem (List.mem_of_getElem? hi)
  have hchoose := chooseHole_of_found (H := Arena.host) hf
  have hblock := hw.block i a t.addr hchoose hi
  rw [h.size_eq ht] at hblock
  rw [← h.carve_succeeds_iff ht hroom hw.request hi hblock]
  have hu := u32_of_lt hw.request
  rw [← hu] at hchoose
  constructor
  · rintro ⟨p, a', hp⟩
    obtain ⟨j, g, b, hc, hcarve, _⟩ := heapAlloc_ok hp
    rw [hchoose] at hc
    cases hc
    rw [hu] at hcarve
    exact ⟨_, hcarve⟩
  · rintro ⟨⟨p, b⟩, hcarve⟩
    rw [← hu] at hcarve
    exact ⟨p, b, heapAlloc_of_choose hchoose hcarve⟩

end Carve

/-! ## Exactness of the carving -/

/-- The hole `t` between `pre` and `post` is replaced by at most three consecutive segments with both
tags and their true sizes: a hole when the block does not begin the hole, the block at `p - 12`, and
a hole when bytes remain. The index lists exactly the holes, and every other segment is unchanged. -/
structure CarvesExactly (a a' : Arena) (pre : List Tile) (t : Tile) (post : List Tile) (p : ℕ) :
    Prop where
  aligned : p % 4096 = 0
  pieces : ∃ left block right, (∀ y ∈ left, y.kind = .free) ∧ (∃ n, block.kind = .used n) ∧
    (∀ y ∈ right, y.kind = .free) ∧ p = block.addr + 12 ∧
    Tiles t.addr (Option.toList left ++ block :: Option.toList right) t.stop ∧
    WellFormedHeap a' (pre ++ (Option.toList left ++ block :: Option.toList right) ++ post)
  others : ∀ u ∈ pre ++ post, SameOn u.addr u.stop a.mem a'.mem

section Exact
variable {a a' g : Arena} {ts pre post : List Tile} {t : Tile} {i p size : ℕ}

/-- The pointer returned, and the header of the block, also when the hole is too short for it. -/
theorem WellFormedHeap.carve_header {pageAlign : Bool} (h : WellFormedHeap a ts) (ht : t ∈ ts)
    (hs : size + 20 < 2 ^ 32) (hi : a.heap.index.array[i]? = some t.addr)
    (hw : t.addr + leftOffset t.addr pageAlign + takenLen t.len (size + 20) < 2 ^ 32)
    (hc : Evos.carve i (size + 20) pageAlign a = .ok (p, a')) :
    p = t.addr + leftOffset t.addr pageAlign + 12 ∧
      a'.heap.allocatedEnd = a.heap.allocatedEnd ∧ (leftOffset t.addr pageAlign + 20 ≤ t.len →
        headerSize a'.mem (t.addr + leftOffset t.addr pageAlign) =
          takenLen t.len (size + 20)) := by
  have hb := h.bounds ht
  have hlt := h.end_lt
  have htaken := le_takenLen t.len (size + 20)
  rw [h.carve_eq ht hs hi] at hc
  obtain ⟨⟨r, a₁⟩, hclaim, hc⟩ := except_bind_ok hc
  obtain ⟨rfl, hend₁⟩ := claimHole_result (by omega) (by omega) (by omega) hclaim
  obtain ⟨hp, hend⟩ := placeBlock_result hc
  refine ⟨hp.trans (u32_of_lt (by omega)), hend.trans hend₁, fun hoff => ?_⟩
  have hword : sub32 (u32 (t.addr + leftOffset t.addr pageAlign +
      sub32 t.len (leftOffset t.addr pageAlign))) 8 = t.addr + t.len - 8 := by
    unfold sub32 u32
    omega
  exact placeBlock_header (by omega) hw (by rw [hword]; omega) hc

theorem WellFormedHeap.fits_of_exact (h : WellFormedHeap a (pre ++ t :: post))
    (hk : t.kind.isHole = true) (hs : size + 20 < 2 ^ 32)
    (hi : a.heap.index.array[i]? = some t.addr)
    (hw : t.addr + leftOffset t.addr true + takenLen t.len (size + 20) < 2 ^ 32)
    (hc : Evos.carve i (size + 20) true a = .ok (p, a'))
    (hexact : CarvesExactly a a' pre t post p) :
    (t.addr + 12) % 4096 = 0 ∧ size + 20 ≤ t.len := by
  have htm : t ∈ pre ++ t :: post := by simp
  have hb := h.bounds htm
  have hlt := h.end_lt
  have hst := t.stop_eq
  have htaken := le_takenLen t.len (size + 20)
  obtain ⟨left, block, right, hleft, ⟨n, hblock⟩, _, hp, htiles, hwf⟩ := hexact.pieces
  have hbm : block ∈ Option.toList left ++ block :: Option.toList right := by simp
  have hbin : block ∈ pre ++ (Option.toList left ++ block :: Option.toList right) ++ post := by simp
  have hbb := htiles.bounds hbm
  have hbmin := (hwf.good block hbin).minLen
  have hbsize := hwf.size_eq hbin
  have hbst := block.stop_eq
  obtain ⟨hp', _, hheader⟩ := h.carve_header htm hs hi hw hc
  have haddr : block.addr = t.addr + leftOffset t.addr true := by omega
  -- the header of the block records more than the hole has left, unless the block fits
  have hfit : leftOffset t.addr true + (size + 20) ≤ t.len := by
    by_contra hshort
    have hlen := hheader (by omega)
    rw [← haddr, hbsize] at hlen
    have hoff := @leftOffset_cases t.addr true (by omega)
    unfold takenLen at hlen
    split at hlen <;> omega
  have hserved := h.toHeapInv.carve hk (h.plain t htm).2 hi hfit hc
  have hzero : leftOffset t.addr true = 0 := by
    by_contra hne
    have hhusk : (⟨t.addr, leftOffset t.addr true, .husk⟩ : Tile) ∈
        pre ++ carved t size true ++ post := by
      simp [carved, leftPart, hne]
    have hsize : headerSize a'.mem t.addr = 0 := (hserved.inv.good _ hhusk).size
    cases left with
    | none =>
      have : block.addr = t.addr := htiles.1
      omega
    | some y =>
      have hy : y ∈ pre ++ (Option.toList (some y) ++ block :: Option.toList right) ++ post := by simp
      have hya : y.addr = t.addr := htiles.1
      have hmin := (hwf.good y hy).minLen
      rw [← hya, hwf.size_eq hy] at hsize
      omega
  refine ⟨?_, by omega⟩
  by_contra hmis
  have := (pageAlignGetOffset_misaligned (a := t.addr) (by omega) hmis).1
  have hoff : leftOffset t.addr true = pageAlignGetOffset t.addr := rfl
  omega

/-- A hole that begins a page, and is long enough, is carved exactly. -/
theorem WellFormedHeap.exact_of_fits (h : WellFormedHeap a (pre ++ t :: post))
    (hk : t.kind.isHole = true) (hi : a.heap.index.array[i]? = some t.addr)
    (hpage : (t.addr + 12) % 4096 = 0) (hfit : size + 20 ≤ t.len)
    (hc : Evos.carve i (size + 20) true a = .ok (p, a')) : CarvesExactly a a' pre t post p := by
  have htm : t ∈ pre ++ t :: post := by simp
  have hb := h.bounds htm
  have hlt := h.end_lt
  have hzero : leftOffset t.addr true = 0 := pageAlignGetOffset_aligned (by omega) hpage
  have hserved := h.toHeapInv.carve hk (h.plain t htm).2 hi (by omega) hc
  have hp := hserved.result
  rw [hzero, Nat.add_zero] at hp
  obtain ⟨hpre, hpost⟩ := tiles_middle.mp h.tiles
  have hlen := blockLen_le hfit
  have htiles := @tiles_carved t size true (by omega) (by omega)
  rw [carved_in_place hzero] at htiles
  have hwf := h.carved_plain hzero hserved.inv
  refine ⟨by omega, ?_, fun u hu => ?_⟩
  · unfold rightPart at htiles hwf
    by_cases hrest : t.len = blockLen t.len (size + 20)
    · rw [if_pos hrest] at htiles hwf
      exact ⟨none, ⟨t.addr, blockLen t.len (size + 20), .used size⟩, none, by simp, ⟨size, rfl⟩,
        by simp, hp, htiles, hwf⟩
    · rw [if_neg hrest] at htiles hwf
      exact ⟨none, ⟨t.addr, blockLen t.len (size + 20), .used size⟩,
        some ⟨t.addr + blockLen t.len (size + 20), t.len - blockLen t.len (size + 20), .free⟩,
        by simp, ⟨size, rfl⟩, by simp, hp, htiles, hwf⟩
  · rcases List.mem_append.mp hu with hu | hu
    · exact hserved.writes.sameOn (Or.inl (hpre.bounds hu).2)
    · exact hserved.writes.sameOn (Or.inr (hpost.bounds hu).1)

/-- On the heap the block is carved from, exactness is decided by the place and the length of the
hole. -/
theorem WellFormedHeap.exact_iff (h : WellFormedHeap a (pre ++ t :: post))
    (hk : t.kind.isHole = true) (hs : size + 20 < 2 ^ 32)
    (hi : a.heap.index.array[i]? = some t.addr)
    (hw : t.addr + leftOffset t.addr true + takenLen t.len (size + 20) < 2 ^ 32)
    (hc : Evos.carve i (size + 20) true a = .ok (p, a')) :
    CarvesExactly a a' pre t post p ↔ (t.addr + 12) % 4096 = 0 ∧ size + 20 ≤ t.len :=
  ⟨h.fits_of_exact hk hs hi hw hc, fun ⟨hpage, hfit⟩ => h.exact_of_fits hk hi hpage hfit hc⟩

theorem carvesExactly_congr (hsame : ∀ u ∈ pre ++ post, SameOn u.addr u.stop a.mem g.mem) :
    CarvesExactly g a' pre t post p ↔ CarvesExactly a a' pre t post p := by
  constructor
  · exact fun h => ⟨h.aligned, h.pieces, fun u hu => (hsame u hu).trans (h.others u hu)⟩
  · refine fun h => ⟨h.aligned, h.pieces, fun u hu x h1 h2 => ?_⟩
    rw [h.others u hu x h1 h2, hsame u hu x h1 h2]

theorem WellFormedHeap.exact_found (h : WellFormedHeap a ts) (hw : NoWrap a size true)
    (hf : findHole a (size + 20) true = some i)
    (hc : Evos.carve i (size + 20) true a = .ok (p, a')) :
    ∃ pre t post, ServedFrom a a' size true ts pre t post ∧
      (CarvesExactly a a' pre t post p ↔ (t.addr + 12) % 4096 = 0 ∧ size + 20 ≤ t.len) := by
  obtain ⟨hin, _, _⟩ := List.findIdx?_eq_some_iff_getElem.mp hf
  obtain ⟨t, ht, hk, he⟩ := h.tile_of_mem (List.getElem_mem hin)
  have hi : a.heap.index.array[i]? = some t.addr := by
    rw [List.getElem?_eq_getElem hin, he]
  have hblock := hw.block i a t.addr (chooseHole_of_found (H := Arena.host) hf) hi
  rw [h.size_eq ht] at hblock
  obtain ⟨_, hend, _⟩ := h.carve_header ht hw.request hi hblock hc
  obtain ⟨pre, post, rfl⟩ := List.append_of_mem ht
  exact ⟨pre, t, post, Or.inl ⟨rfl, hend, i, hf, hi⟩, h.exact_iff hk hw.request hi hblock hc⟩

theorem WellFormedHeap.exact_grown {newEnd : ℕ} (h : WellFormedHeap a ts) (hs : size + 20 < 2 ^ 32)
    (hnone : findHole a (size + 20) true = none) (hgrown : Grown a g ts newEnd)
    (hfound : findHole g (size + 20) true = some i) (hle : a.heap.allocatedEnd ≤ newEnd)
    (hblock : ∀ x, g.heap.index.array[i]? = some x →
      x + leftOffset x true + takenLen (headerSize g.mem x) (size + 20) < 2 ^ 32)
    (hc : Evos.carve i (size + 20) true g = .ok (p, a')) :
    ∃ pre t post, ServedFrom a a' size true ts pre t post ∧
      (CarvesExactly a a' pre t post p ↔ (t.addr + 12) % 4096 = 0 ∧ size + 20 ≤ t.len) := by
  have hwf := h.grown hgrown
  have hi := hgrown.findHole h.toHeapInv hnone hfound
  have hm : (⟨a.heap.allocatedEnd, newEnd - a.heap.allocatedEnd, .free⟩ : Tile) ∈
      ts ++ [⟨a.heap.allocatedEnd, newEnd - a.heap.allocatedEnd, .free⟩] := by simp
  have hb := hblock _ hi
  have hsize : headerSize g.mem a.heap.allocatedEnd = newEnd - a.heap.allocatedEnd :=
    hwf.size_eq hm
  rw [hsize] at hb
  obtain ⟨_, hend, _⟩ := hwf.carve_header hm hs hi hb hc
  have hsame : ∀ u ∈ ts ++ [], SameOn u.addr u.stop a.mem g.mem := by
    intro u hu
    rw [List.append_nil] at hu
    exact hgrown.writes.sameOn (Or.inl (h.bounds hu).2)
  refine ⟨ts, _, [], Or.inr ⟨hnone, rfl, rfl, rfl, ?_⟩,
    (carvesExactly_congr hsame).symm.trans (hwf.exact_iff rfl hs hi hb hc)⟩
  rw [hend, hgrown.stop, Seg.stop_eq]
  dsimp only
  omega

/-- A page-aligned request that is served is carved exactly when the hole begins a page and is long
enough. -/
theorem heapAlloc_exact_iff (h : WellFormedHeap a ts) (hw : NoWrap a size true)
    (hok : heapAlloc Arena.host size true a = .ok p a') :
    ∃ pre t post, ServedFrom a a' size true ts pre t post ∧
      (CarvesExactly a a' pre t post p ↔ (t.addr + 12) % 4096 = 0 ∧ size + 20 ≤ t.len) := by
  obtain ⟨i, g, b, hchoose, hcarve, rfl⟩ := heapAlloc_ok hok
  rw [u32_of_lt hw.request] at hchoose hcarve
  rcases chooseHole_ok hchoose with ⟨hf, rfl⟩ | ⟨hnone, hg⟩
  · exact h.exact_found hw hf hcarve
  · obtain ⟨hgrown, hfound⟩ := h.toHeapInv.grow (hw.growth hnone) hg
    have hle : _ ≤ grownEnd a size := le_grownEnd h.toHeapInv
    exact h.exact_grown hw.request hnone hgrown hfound (by omega) (fun x => hw.block i g x hchoose)
      hcarve

end Exact

instance (a : Arena) (x size : ℕ) (pageAlign : Bool) : Decidable (CarveFits a x size pageAlign) :=
  inferInstanceAs (Decidable (if leftOffset x pageAlign + (size + 20) ≤ headerSize a.mem x then
    leftOffset x pageAlign = 0 ∨ headerSize a.mem x = leftOffset x pageAlign + (size + 20) ∨
      leftOffset x pageAlign + (size + 20) + 20 < headerSize a.mem x
    else _ < a.heap.allocatedEnd + 8))

/-! ## On a heap of one block and one hole -/

section SplitHeap
variable {len size p : ℕ} {pageAlign : Bool}

theorem splitHeap_noWrap (hlen : 20 ≤ len) (hle : len + 20 ≤ 0xe000) (hs : size < 0xc000)
    (hf : findHole (splitHeap len) (size + 20) pageAlign = some 0) :
    NoWrap (splitHeap len) size pageAlign := by
  refine ⟨by omega, fun hnone => ?_, fun i g x hc hx => ?_⟩
  · rw [hf] at hnone
    cases hnone
  · have hchoose : chooseHole Arena.host (size + 20) pageAlign (splitHeap len) =
        .ok 0 (splitHeap len) := chooseHole_of_found hf
    rw [hchoose] at hc
    cases hc
    cases hx
    have hoff := @leftOffset_cases (0x0f002000 + len) pageAlign (by omega)
    have hsize : headerSize (splitHeap len).mem (0x0f002000 + len) = 0xe000 - len :=
      (@splitHeap_wellFormed len 0 (by omega) hle).size_eq
        (u := ⟨0x0f002000 + len, 0xe000 - len, .free⟩) (by simp)
    rw [hsize]
    unfold takenLen
    split <;> omega

theorem splitHeap_carve {a' : Arena} (hs : size + 20 < 2 ^ 32)
    (hf : findHole (splitHeap len) (size + 20) pageAlign = some 0) :
    heapAlloc Arena.host size pageAlign (splitHeap len) = .ok p a' ↔
      carve 0 (size + 20) pageAlign (splitHeap len) = .ok (p, a') := by
  have hchoose : chooseHole Arena.host (size + 20) pageAlign (splitHeap len) =
      .ok 0 (splitHeap len) := chooseHole_of_found hf
  have hu := u32_of_lt hs
  rw [← hu] at hchoose
  constructor
  · intro h
    obtain ⟨i, g, b, hc, hcarve, rfl⟩ := heapAlloc_ok h
    rw [hchoose] at hc
    cases hc
    rw [hu] at hcarve
    exact hcarve
  · intro h
    rw [← hu] at h
    exact heapAlloc_of_choose hchoose h

end SplitHeap

set_option maxRecDepth 100000 in
theorem heapAlloc_succeeds_iff_splitHeap :
    ∃ p a', heapAlloc Arena.host 1000 true (splitHeap 120) = .ok p a' := by
  have hf : findHole (splitHeap 120) (1000 + 20) true = some 0 := by decide +kernel
  exact (heapAlloc_succeeds_iff (@splitHeap_wellFormed 120 100 (by decide) (by decide)) (by decide)
    (splitHeap_noWrap (by decide) (by decide) (by decide) hf) hf rfl).mpr (by decide +kernel)

set_option maxRecDepth 100000 in
/-- A hole is found for 53236 page-aligned bytes, but it leaves 4 bytes behind the block. -/
theorem not_heapAlloc_succeeds_with_sliver :
    findHole (splitHeap 120) (53236 + 20) true = some 0 ∧
      ¬∃ p a', heapAlloc Arena.host 53236 true (splitHeap 120) = .ok p a' := by
  have hf : findHole (splitHeap 120) (53236 + 20) true = some 0 := by decide +kernel
  refine ⟨hf, ?_⟩
  rintro ⟨p, a', hp⟩
  have hm : (⟨0x0f002078, 0xdf88, .free⟩ : Tile) ∈
    [⟨0x0f002000, 120, .used 100⟩, ⟨0x0f002078, 0xdf88, .free⟩] := by simp
  have hwf := @splitHeap_wellFormed 120 100 (by decide) (by decide)
  have hfits := (hwf.carve_succeeds_iff hm (by decide) (by decide) rfl (by decide +kernel)).mp
    ⟨_, (splitHeap_carve (by decide) hf).mp hp⟩
  exact absurd hfits (by decide +kernel)

set_option maxRecDepth 100000 in
/-- Behind a block of 4084 bytes the hole begins a page. -/
theorem heapAlloc_exact_iff_splitHeap :
    ∃ p a' pre t post, heapAlloc Arena.host 1000 true (splitHeap 4084) = .ok p a' ∧
      CarvesExactly (splitHeap 4084) a' pre t post p := by
  have hf : findHole (splitHeap 4084) (1000 + 20) true = some 0 := by decide +kernel
  have hwf := @splitHeap_wellFormed 4084 4064 (by decide) (by decide)
  have hm : (⟨0x0f002ff4, 0xd00c, .free⟩ : Tile) ∈
    [⟨0x0f002000, 4084, .used 4064⟩, ⟨0x0f002ff4, 0xd00c, .free⟩] := by simp
  obtain ⟨⟨p, a'⟩, hc⟩ := (@WellFormedHeap.carve_succeeds_iff _ _ _ 0 1000 true hwf hm (by decide)
    (by decide) rfl (by decide +kernel)).mpr (by decide +kernel)
  have hok := (splitHeap_carve (by decide) hf).mpr hc
  obtain ⟨pre, t, post, hsource, hiff⟩ := heapAlloc_exact_iff hwf
    (splitHeap_noWrap (by decide) (by decide) (by decide) hf) hok
  refine ⟨p, a', pre, t, post, hok, hiff.mpr ?_⟩
  rcases hsource with ⟨hts, _, i, hi, hx⟩ | ⟨hnone, _⟩
  · rw [hf] at hi
    cases hi
    have ht : t = ⟨0x0f002ff4, 0xd00c, .free⟩ :=
      hwf.tiles.eq_of_addr hwf.len_pos (by rw [hts]; simp) hm (Option.some.inj hx).symm
    rw [ht]
    decide
  · rw [hf] at hnone
    cases hnone

set_option maxRecDepth 100000 in
/-- Behind a block of 120 bytes the hole in front of the page-aligned block records size 0. -/
theorem not_heapAlloc_exact_behind_short_block :
    ∃ p a', heapAlloc Arena.host 1000 true (splitHeap 120) = .ok p a' ∧
      ¬∃ pre t post, ServedFrom (splitHeap 120) a' 1000 true
        [⟨0x0f002000, 120, .used 100⟩, ⟨0x0f002078, 0xdf88, .free⟩] pre t post ∧
          CarvesExactly (splitHeap 120) a' pre t post p := by
  have hf : findHole (splitHeap 120) (1000 + 20) true = some 0 := by decide +kernel
  have hwf := @splitHeap_wellFormed 120 100 (by decide) (by decide)
  have hm : (⟨0x0f002078, 0xdf88, .free⟩ : Tile) ∈
    [⟨0x0f002000, 120, .used 100⟩, ⟨0x0f002078, 0xdf88, .free⟩] := by simp
  obtain ⟨⟨p, a'⟩, hc⟩ := (@WellFormedHeap.carve_succeeds_iff _ _ _ 0 1000 true hwf hm (by decide)
    (by decide) rfl (by decide +kernel)).mpr (by decide +kernel)
  refine ⟨p, a', (splitHeap_carve (by decide) hf).mpr hc, ?_⟩
  rintro ⟨pre, t, post, hsource, hexact⟩
  rcases hsource with ⟨hts, _, i, hi, hx⟩ | ⟨hnone, _⟩
  · rw [hf] at hi
    cases hi
    have ht : t = ⟨0x0f002078, 0xdf88, .free⟩ :=
      hwf.tiles.eq_of_addr hwf.len_pos (by rw [hts]; simp) hm (Option.some.inj hx).symm
    subst ht
    have hwf' : WellFormedHeap (splitHeap 120) (pre ++ ⟨0x0f002078, 0xdf88, .free⟩ :: post) := by
      rw [← hts]
      exact hwf
    have hpage := (hwf'.fits_of_exact rfl (by decide) hx (by decide +kernel) hc hexact).1
    exact absurd hpage (by decide)
  · rw [hf] at hnone
    cases hnone

end Evos
