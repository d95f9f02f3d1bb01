import Evos.Kheap.Invariant

/-! # The index of holes

The index is kept in order by sizes that live in memory. A list of headers stays sorted when the
sizes it is sorted by stay, when an entry leaves, and when one pass carries a new entry in. -/

namespace Evos
open ByteMemory Segments BubblePass
set_option autoImplicit false

/-- The index lists its headers in non-decreasing order of size. -/
def IndexSorted (a : Arena) : Prop := Sorted (headerLess a.mem) a.heap.index.array

theorem headerLess_false {m : Mem} {a b : ℕ} :
    headerLess m b a = false ↔ headerSize m a ≤ headerSize m b := by
  unfold headerLess
  rw [decide_eq_false_iff_not, Nat.not_lt]

theorem sorted_iff {m : Mem} {xs : List ℕ} :
    Sorted (headerLess m) xs ↔ xs.Pairwise fun a b => headerSize m a ≤ headerSize m b := by
  unfold Sorted
  simp only [headerLess_false]

theorem sorted_congr {m m' : Mem} {xs : List ℕ} (h : Sorted (headerLess m) xs)
    (hs : ∀ x ∈ xs, headerSize m' x = headerSize m x) : Sorted (headerLess m') xs := by
  rw [sorted_iff] at *
  refine h.imp_of_mem fun {a b} ha hb hab => ?_
  rw [hs a ha, hs b hb]
  exact hab

theorem sorted_eraseIdx {m : Mem} {xs : List ℕ} (h : Sorted (headerLess m) xs) (i : ℕ) :
    Sorted (headerLess m) (xs.eraseIdx i) :=
  h.sublist (List.eraseIdx_sublist xs i)

theorem sorted_insert {m : Mem} {xs : List ℕ} (h : Sorted (headerLess m) xs) (v : ℕ) :
    Sorted (headerLess m) (bubblePass (headerLess m) (xs ++ [v])) := by
  refine bubblePass_append_sorted _ ?_ ?_ h v
  · intro a b c hab hbc
    rw [headerLess_false] at *
    omega
  · intro a b hab
    rw [headerLess_false]
    unfold headerLess at hab
    have := of_decide_eq_true hab
    omega

/-! ## Entries and segments -/

theorem holes_nodup {lo hi : ℕ} {ts : List Tile} (h : Tiles lo ts hi) (hpos : ∀ t ∈ ts, 0 < t.len) :
    (holes ts).Nodup := by
  have hp : ts.Pairwise fun s t => s.addr ≠ t.addr :=
    h.pairwise.imp_of_mem fun {s t} hs _ hst => by
      have := hpos s hs
      unfold Seg.stop at hst
      omega
  unfold holes
  exact List.pairwise_map.mpr (hp.sublist List.filter_sublist)

theorem HeapInv.index_nodup {a : Arena} {ts : List Tile} (h : HeapInv a ts) :
    a.heap.index.array.Nodup :=
  h.index.nodup_iff.mpr (holes_nodup h.tiles h.len_pos)

/-- An entry at another position is another hole, which lies elsewhere. -/
theorem HeapInv.other_entry {a : Arena} {ts : List Tile} (h : HeapInv a ts) {t : Tile} {i x : ℕ}
    (ht : t ∈ ts) (hi : a.heap.index.array[i]? = some t.addr)
    (hx : x ∈ a.heap.index.array.eraseIdx i) :
    ∃ u ∈ ts, u.kind.isHole = true ∧ u.addr = x ∧ (u.stop ≤ t.addr ∨ t.stop ≤ u.addr) := by
  obtain ⟨u, hu, hk, rfl⟩ := h.tile_of_mem (List.mem_of_mem_eraseIdx hx)
  refine ⟨u, hu, hk, rfl, ?_⟩
  rcases h.tiles.eq_or_disjoint hu ht with rfl | hd
  · obtain ⟨hlt, hget⟩ := List.getElem?_eq_some_iff.mp hi
    have hnd := (List.getElem_cons_eraseIdx_perm hlt).nodup_iff.mpr h.index_nodup
    rw [hget] at hnd
    exact absurd hx (List.nodup_cons.mp hnd).1
  · exact hd

theorem HeapInv.size_of_outside {a : Arena} {ts : List Tile} (h : HeapInv a ts) {m' : Mem}
    {lo hi : ℕ} (hw : OnlyIn lo hi a.mem m') {u : Tile} (hu : u ∈ ts)
    (hd : u.stop ≤ lo ∨ hi ≤ u.addr) : headerSize m' u.addr = headerSize a.mem u.addr := by
  have hl := (h.good u hu).minLen
  have e := u.stop_eq
  exact SameOn.headerSize (hw.sameOn hd) (Nat.le_refl _) (by omega)

theorem HeapInv.erase_perm {a : Arena} {pre post : List Tile} {t : Tile}
    (h : HeapInv a (pre ++ t :: post)) (hk : t.kind.isHole = true) {i : ℕ}
    (hi : a.heap.index.array[i]? = some t.addr) :
    (a.heap.index.array.eraseIdx i).Perm (holes pre ++ holes post) := by
  obtain ⟨hlt, hget⟩ := List.getElem?_eq_some_iff.mp hi
  have h1 := (List.getElem_cons_eraseIdx_perm hlt).trans h.index
  rw [hget, holes_append, holes_cons_hole _ hk] at h1
  exact (h1.trans List.perm_middle).cons_inv

end Evos
