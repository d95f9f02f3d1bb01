import Evos.Kheap.Carve
import Evos.Kheap.HoleIndex

/-! # `heap_alloc` keeps the invariant

A hole that passes the test of `find_hole` is long enough for the block behind its offset; a husk
never passes. Carving it replaces the hole by `carved`, and growing the heap appends one hole. -/

namespace Evos
open ByteMemory Segments BubblePass Outcome
set_option autoImplicit false

/-! ## A hole that fits -/

/-- Requests whose total size neither wraps nor, in the signed comparison, reads as negative. -/
structure Request (size : ℕ) (pageAlign : Bool) : Prop where
  noWrap : size + 20 < 2 ^ 32
  signed : pageAlign = true → size + 20 < 2 ^ 31

theorem TileOK.fits {m : Mem} {t : Tile} (hok : TileOK m t) (hend : t.addr + t.len < 2 ^ 32)
    {size : ℕ} {pageAlign : Bool} (hr : Request size pageAlign)
    (h : holeFits m (size + 20) pageAlign t.addr = true) :
    t.kind ≠ .husk ∧ leftOffset t.addr pageAlign + (size + 20) ≤ t.len := by
  have hmin := hok.minLen
  have hsize := hok.size
  unfold holeFits at h
  rw [hsize] at h
  unfold recorded at h
  cases pageAlign with
  | false =>
    have h' : (if t.kind = .husk then 0 else t.len) ≥ size + 20 := by simpa using h
    split at h'
    · omega
    · rename_i hk
      exact ⟨hk, by unfold leftOffset; simpa using h'⟩
  | true =>
    have hoff := pageAlignGetOffset_le (a := t.addr) (by omega)
    have hs := hr.signed rfl
    have h' : s32 (if t.kind = .husk then 0 else t.len) - s32 (pageAlignGetOffset t.addr) ≥
        s32 (size + 20) := by simpa using h
    rw [s32_of_lt (show pageAlignGetOffset t.addr < 2 ^ 31 by omega), s32_of_lt hs] at h'
    split at h'
    · rw [s32_of_lt (by omega)] at h'
      omega
    · rename_i hk
      unfold s32 at h'
      unfold leftOffset
      rw [if_pos rfl]
      refine ⟨hk, ?_⟩
      split at h' <;> omega

theorem HeapInv.findHole {a : Arena} {ts : List Tile} (h : HeapInv a ts) {size : ℕ}
    {pageAlign : Bool} (hr : Request size pageAlign) {i : ℕ}
    (hf : findHole a (size + 20) pageAlign = some i) :
    ∃ t ∈ ts, t.kind.isHole = true ∧ t.kind ≠ .husk ∧ a.heap.index.array[i]? = some t.addr ∧
      holeFits a.mem (size + 20) pageAlign t.addr = true ∧
      leftOffset t.addr pageAlign + (size + 20) ≤ t.len := by
  obtain ⟨hlt, hfit, _⟩ := List.findIdx?_eq_some_iff_getElem.mp hf
  obtain ⟨t, ht, hk, he⟩ := h.tile_of_mem (List.getElem_mem hlt)
  rw [← he] at hfit
  obtain ⟨hn, hl⟩ := (h.good t ht).fits (by have := h.bounds ht; have := h.end_lt; omega)
    hr hfit
  exact ⟨t, ht, hk, hn, by rw [he]; exact List.getElem?_eq_getElem hlt, hfit, hl⟩

/-! ## The carved tiling -/

theorem holes_leftPart (a o : ℕ) : holes (leftPart a o) = if o = 0 then [] else [a] := by
  unfold leftPart
  split <;> rfl

theorem holes_rightPart (a n s : ℕ) :
    holes (rightPart a n s) = if n = s then [] else [a + s] := by
  unfold rightPart
  split <;> rfl

theorem holes_carved (t : Tile) (size : ℕ) (pageAlign : Bool) :
    holes (carved t size pageAlign) =
      (if leftOffset t.addr pageAlign = 0 then [] else [t.addr]) ++
        (if t.len - leftOffset t.addr pageAlign = blockLen t.len (size + 20) then []
          else [t.addr + leftOffset t.addr pageAlign + blockLen t.len (size + 20)]) := by
  unfold carved
  rw [holes_append, holes_cons_used _ rfl, holes_leftPart, holes_rightPart]

theorem tiles_carved {t : Tile} {size : ℕ} {pageAlign : Bool}
    (h : blockLen t.len (size + 20) ≤ t.len - leftOffset t.addr pageAlign)
    (ho : leftOffset t.addr pageAlign ≤ t.len) :
    Tiles t.addr (carved t size pageAlign) t.stop := by
  refine tiles_append.mpr ⟨_, tiles_leftPart _ _, rfl, ?_⟩
  have := tiles_rightPart (a := t.addr + leftOffset t.addr pageAlign) h
  rw [show t.addr + leftOffset t.addr pageAlign + (t.len - leftOffset t.addr pageAlign) = t.stop by
    unfold Seg.stop; omega] at this
  exact this

/-! ## Serving a request from a hole -/

/-- What a successful carving of the hole `t` between `pre` and `post` does. -/
structure Served (a a' : Arena) (pre : List Tile) (t : Tile) (post : List Tile) (size : ℕ)
    (pageAlign : Bool) (p : ℕ) : Prop where
  result : p = t.addr + leftOffset t.addr pageAlign + 12
  inv : HeapInv a' (pre ++ carved t size pageAlign ++ post)
  extent : SameExtent a.heap a'.heap
  writes : OnlyIn t.addr t.stop a.mem a'.mem
  sorted : IndexSorted a → IndexSorted a'

theorem Claimed.perm {A A' : Arena} {i a o : ℕ} (h : Claimed A A' i a o) :
    A'.heap.index.array.Perm ((if o = 0 then [] else [a]) ++ A.heap.index.array.eraseIdx i) := by
  rw [h.index]
  split
  · exact List.Perm.refl _
  · exact (bubblePass_perm _ _).trans List.perm_append_comm

theorem Placed.perm {A A' : Arena} {a n s size : ℕ} (h : Placed A A' a n s size) :
    A'.heap.index.array.Perm ((if n = s then [] else [a + s]) ++ A.heap.index.array) := by
  rw [h.index]
  split
  · exact List.Perm.refl _
  · exact (bubblePass_perm _ _).trans List.perm_append_comm

theorem Claimed.sorted {A A' : Arena} {i a o : ℕ} (h : Claimed A A' i a o) (hs : IndexSorted A)
    (hsame : ∀ x ∈ A.heap.index.array.eraseIdx i, headerSize A'.mem x = headerSize A.mem x) :
    IndexSorted A' := by
  have hrest := sorted_congr (sorted_eraseIdx hs i) hsame
  unfold IndexSorted
  rw [h.index]
  split
  · exact hrest
  · exact sorted_insert hrest a

theorem Placed.sorted {A A' : Arena} {a n s size : ℕ} (h : Placed A A' a n s size)
    (hs : IndexSorted A)
    (hsame : ∀ x ∈ A.heap.index.array, headerSize A'.mem x = headerSize A.mem x) :
    IndexSorted A' := by
  have hrest := sorted_congr hs hsame
  unfold IndexSorted
  rw [h.index]
  split
  · exact hrest
  · exact sorted_insert hrest _

/-- The husk in front of the block keeps its header while the block is placed. -/
theorem Claimed.husk_size {A A₁ A' : Arena} {i a o n s size : ℕ} (hc : Claimed A A₁ i a o)
    (hp : Placed A₁ A' (a + o) n s size) (ho : o ≠ 0) :
    headerSize A'.mem a = headerSize A₁.mem a := by
  have hok := hc.tags ⟨a, o, .husk⟩ (by simp [leftPart, ho])
  have := (tileOK_mk.mp hok).1
  exact SameOn.headerSize (hp.writes.sameOn (Or.inl (Nat.le_refl _))) (Nat.le_refl _) (by omega)

theorem HeapInv.carve {a a' : Arena} {pre post : List Tile} {t : Tile}
    (h : HeapInv a (pre ++ t :: post)) {i size p : ℕ} {pageAlign : Bool}
    (hk : t.kind.isHole = true) (hn : t.kind ≠ .husk) (hi : a.heap.index.array[i]? = some t.addr)
    (hfit : leftOffset t.addr pageAlign + (size + 20) ≤ t.len)
    (hc : carve i (size + 20) pageAlign a = .ok (p, a')) :
    Served a a' pre t post size pageAlign p := by
  have ht : t ∈ pre ++ t :: post := by simp
  obtain ⟨hlo, hhi⟩ := h.bounds ht
  have hlt : a.heap.allocatedEnd < 2 ^ 32 := h.end_lt
  have hrec : headerSize a.mem t.addr = t.len := by
    rw [(h.good t ht).size]
    exact if_neg hn
  obtain ⟨hres, A₁, hclaim, hplace⟩ := carve_ok hi hrec hfit hhi hlt hc
  have hext := hclaim.extent.trans hplace.extent
  have hend : t.stop = t.addr + t.len := rfl
  have hbl : blockLen t.len (size + 20) ≤ t.len - leftOffset t.addr pageAlign := by
    rcases hplace.rest with e | e <;> omega
  have hwrites : OnlyIn t.addr t.stop a.mem a'.mem :=
    (hclaim.writes.mono (Nat.le_refl _) (by omega)).trans (hplace.writes.mono (by omega) (by omega))
  obtain ⟨hpre, hpost⟩ := tiles_middle.mp h.tiles
  have htags : ∀ u ∈ carved t size pageAlign, TileOK a'.mem u := by
    intro u hu
    rcases List.mem_append.mp hu with hu | hu
    · have hb := (tiles_leftPart t.addr (leftOffset t.addr pageAlign)).bounds hu
      exact (hclaim.tags u hu).congr (hplace.writes.sameOn (Or.inl hb.2))
    · rcases List.mem_cons.mp hu with rfl | hu
      · exact hplace.block
      · exact hplace.tags u hu
  have hbody : HeapBody a'.heap a'.mem (pre ++ carved t size pageAlign ++ post) := by
    have h0 := h.toHeapBody
    rw [show pre ++ t :: post = pre ++ [t] ++ post by simp] at h0
    exact h0.replace _ _ hpre ⟨rfl, rfl⟩ (tiles_carved hbl (by omega)) hext hwrites htags
  refine ⟨hres, ⟨hbody, ?_⟩, hext, hwrites, ?_⟩
  · rw [holes_append, holes_append, holes_carved]
    refine hplace.perm.trans ((List.Perm.append_left _ hclaim.perm).trans ?_)
    refine (List.Perm.append_left _ (List.Perm.append_left _ (h.erase_perm hk hi))).trans ?_
    grind
  · intro hs
    -- the other entries lie outside the hole, so both stages leave their sizes
    have hout : ∀ x ∈ a.heap.index.array.eraseIdx i,
        headerSize A₁.mem x = headerSize a.mem x ∧ headerSize a'.mem x = headerSize a.mem x := by
      intro x hx
      obtain ⟨u, hu, _, rfl, hd⟩ := h.other_entry ht hi hx
      exact ⟨h.size_of_outside (hclaim.writes.mono (Nat.le_refl _) (by omega)) hu hd,
        h.size_of_outside hwrites hu hd⟩
    refine hplace.sorted (hclaim.sorted hs fun x hx => (hout x hx).1) fun x hx => ?_
    rcases List.mem_append.mp (hclaim.perm.subset hx) with hx | hx
    · split at hx
      · exact absurd hx List.not_mem_nil
      · rename_i ho
        rw [List.mem_singleton.mp hx]
        exact hclaim.husk_size hplace ho
    · rw [(hout x hx).1, (hout x hx).2]

/-- Carving a hole from its first byte does not panic while the index is not over-full. -/
theorem HeapInv.carve_in_place {a : Arena} {pre post : List Tile} {t : Tile}
    (h : HeapInv a (pre ++ t :: post)) {i size : ℕ} (hn : t.kind ≠ .husk)
    (hi : a.heap.index.array[i]? = some t.addr) (hfit : size + 20 ≤ t.len)
    (hroom : a.heap.index.array.length ≤ a.heap.index.maxSize) :
    ∃ a', Evos.carve i (size + 20) false a = .ok (t.addr + 12, a') := by
  have ht : t ∈ pre ++ t :: post := by simp
  have hb := h.bounds ht
  have hlt := h.end_lt
  have hmin := (h.good t ht).minLen
  have hrec := (h.good t ht).size
  rw [recorded, if_neg hn] at hrec
  obtain ⟨hin, _⟩ := List.getElem?_eq_some_iff.mp hi
  unfold Evos.carve
  rw [except_bind_of_ok (orderedArrayIndex_of_getElem? hi)]
  dsimp only
  rw [hrec, sub32_of_le (by omega) (by omega)]
  have hlen : (if t.len - (size + 20) ≤ 12 + 8 then t.len else size + 20) =
      blockLen t.len (size + 20) := rfl
  unfold claimHole
  rw [hlen, if_neg (by simp), except_bind_of_ok (takeHole_of_lt hin)]
  dsimp only
  have herase : (a.heap.index.array.eraseIdx i).length < a.heap.index.maxSize := by
    rw [List.length_eraseIdx_of_lt hin]
    omega
  have hge := blockLen_ge hfit
  have hrest : t.len = blockLen t.len (size + 20) ∨ blockLen t.len (size + 20) + 20 < t.len := by
    unfold blockLen
    split <;> omega
  exact placeBlock_total (by omega) hrest hb.2 (hlt) herase

end Evos
