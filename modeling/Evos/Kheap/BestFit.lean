import Evos.Kheap.Safety

/-! # The index stays sorted, and allocation is best-fit

Allocation and growth carry each new hole to its place. A free that merges into the hole on its left
makes that hole grow in place, and passes over the index once: the hole overtakes one neighbour at
most, and what the right merge adds is not passed over at all. -/

namespace Evos
open ByteMemory Segments BubblePass Outcome Runs
set_option autoImplicit false

/-! ## When one pass is enough -/

/-- The size of the left hole after the left merge. -/
def grownSize (header : ℕ) (a : Arena) : ℕ :=
  headerSize a.mem (footerHeader a.mem (header - 8)) + headerSize a.mem header

/-- The size of the left hole after both merges. -/
def mergedSize (header : ℕ) (a : Arena) : ℕ :=
  grownSize header a + if MergesRight header a then
    headerSize a.mem (header + headerSize a.mem header) else 0

/-- The holes behind the left hole that it does not overtake when it grows. -/
def notOvertaken (header : ℕ) (a : Arena) : List ℕ :=
  match a.heap.index.array.drop
    (a.heap.index.array.idxOf (footerHeader a.mem (header - 8)) + 1) with
  | [] => []
  | y :: ys => if headerSize a.mem y < grownSize header a then ys else y :: ys

/-- Every hole left behind, other than the one merged on the right, is as large as the merged hole. -/
def SettlesInOnePass (header : ℕ) (a : Arena) : Prop :=
  MergesLeft header a → ∀ y ∈ notOvertaken header a,
    y ≠ header + headerSize a.mem header → mergedSize header a ≤ headerSize a.mem y

instance (header : ℕ) (a : Arena) : Decidable (SettlesInOnePass header a) :=
  inferInstanceAs (Decidable (_ → ∀ y ∈ _, y ≠ _ → _))

/-- The condition on a step: a free settles the merged hole in one pass. -/
def PassSuffices : HeapOp → HeapState → Prop
  | .free ptr, s => SettlesInOnePass (ptr - 12) (s.arena.marked (ptr - 12))
  | _, _ => True

instance (op : HeapOp) (s : HeapState) : Decidable (PassSuffices op s) :=
  match op with
  | .alloc _ _ => isTrue trivial
  | .free _ => inferInstanceAs (Decidable (SettlesInOnePass _ _))
  | .write _ _ => isTrue trivial

/-! ## An entry that grows in place -/

/-- A list stays in order when one entry grows, as long as what is kept behind it is as large. -/
theorem pairwise_regrown {α : Type} {f f' : α → ℕ} {xs p q zs : List α} {l : α}
    (hold : (xs ++ (p ++ q)).Pairwise fun a b => f a ≤ f b)
    (hz : zs.Sublist (xs ++ p ++ l :: q))
    (hsame : ∀ x ∈ xs ++ (p ++ q), x ∈ zs → f' x = f x)
    (hlo : ∀ x ∈ xs ++ p, f x ≤ f' l) (hhi : ∀ y ∈ q, y ∈ zs → f' l ≤ f y) :
    zs.Pairwise fun a b => f' a ≤ f' b := by
  rw [← List.append_assoc] at hold hsame
  obtain ⟨h1, h2, h3⟩ := List.pairwise_append.mp hold
  have hall : (xs ++ p ++ l :: q).Pairwise fun a b => a ∈ zs → b ∈ zs → f' a ≤ f' b := by
    refine List.pairwise_append.mpr ⟨?_, List.pairwise_cons.mpr ⟨?_, ?_⟩, ?_⟩
    · refine h1.imp_of_mem fun {a b} ha hb hab hza hzb => ?_
      rw [hsame a (List.mem_append_left _ ha) hza, hsame b (List.mem_append_left _ hb) hzb]
      exact hab
    · intro y hy _ hzy
      rw [hsame y (List.mem_append_right _ hy) hzy]
      exact hhi y hy hzy
    · refine h2.imp_of_mem fun {a b} ha hb hab hza hzb => ?_
      rw [hsame a (List.mem_append_right _ ha) hza, hsame b (List.mem_append_right _ hb) hzb]
      exact hab
    · intro a ha b hb hza hzb
      rw [hsame a (List.mem_append_left _ ha) hza]
      rcases List.mem_cons.mp hb with rfl | hb
      · exact hlo a ha
      · rw [hsame b (List.mem_append_right _ hb) hzb]
        exact h3 a ha b hb
  exact (hall.sublist hz).imp_of_mem fun {a b} ha hb hab => hab ha hb

theorem Dropped.sublist {r : Option Tile} {xs ys : List ℕ} (h : Dropped r xs ys) :
    ys.Sublist xs := by
  cases r with
  | none =>
    obtain rfl := h
    exact List.Sublist.refl _
  | some y =>
    obtain ⟨i, _, rfl⟩ := h
    exact List.eraseIdx_sublist xs i

theorem Dropped.ne {r : Option Tile} {xs ys : List ℕ} (h : Dropped r xs ys) (hnd : xs.Nodup) :
    ∀ x ∈ ys, ∀ y ∈ r, x ≠ y.addr := by
  rintro x hx y rfl rfl
  obtain ⟨i, hi, rfl⟩ := h
  obtain ⟨hlt, hget⟩ := List.getElem?_eq_some_iff.mp hi
  have hnd' := (List.getElem_cons_eraseIdx_perm hlt).nodup_iff.mpr hnd
  rw [hget] at hnd'
  exact (List.nodup_cons.mp hnd').1 hx

/-! ## Sizes after a free -/

section Free
variable {a a' : Arena} {pre post : List Tile} {l r : Option Tile} {t : Tile} {size : ℕ}

theorem Freed.size_other (hf : Freed a a' pre l t r post)
    (h : HeapInv a (pre ++ l.toList ++ t :: (r.toList ++ post))) (hk : t.kind = .used size) {x : ℕ}
    (hx : x ∈ a.heap.index.array) (hl : ∀ y ∈ l, x ≠ y.addr) (hr : ∀ y ∈ r, x ≠ y.addr) :
    headerSize a'.mem x = headerSize a.mem x := by
  obtain ⟨u, hu, huk, rfl⟩ := h.tile_of_mem hx
  refine h.size_of_outside hf.writes hu ?_
  obtain ⟨hpre, hpost⟩ := tiles_middle.mp hf.inv.tiles
  simp only [List.mem_append, List.mem_cons, Option.mem_toList] at hu
  rcases hu with (hu | hu) | rfl | hu | hu
  · exact Or.inl (hpre.bounds hu).2
  · exact absurd rfl (hl u hu)
  · rw [hk] at huk
    exact nomatch huk
  · exact absurd rfl (hr u hu)
  · exact Or.inr (hpost.bounds hu).1

theorem Freed.sorted_alone (hf : Freed a a' pre none t r post)
    (h : HeapInv a (pre ++ t :: (r.toList ++ post))) (hk : t.kind = .used size)
    (hs : IndexSorted a) : IndexSorted a' := by
  obtain ⟨xs, hdrop, hi⟩ := hf.index
  unfold IndexSorted
  rw [hi]
  have h' : HeapInv a (pre ++ (none : Option Tile).toList ++ t :: (r.toList ++ post)) := by
    simpa using h
  refine sorted_insert (sorted_congr (hs.sublist hdrop.sublist) fun x hx => ?_) _
  exact hf.size_other h' hk (hdrop.sublist.subset hx) (by simp)
    (hdrop.ne h.index_nodup x hx)

theorem HeapInv.size_marked (h : HeapInv a (pre ++ t :: post)) {x : ℕ}
    (hx : x ∈ a.heap.index.array ∨ x = t.addr) (hk : t.kind = .used size) :
    headerSize (a.marked t.addr).mem x = headerSize a.mem x := by
  have htm : t ∈ pre ++ t :: post := by simp
  rcases hx with hx | rfl
  · obtain ⟨u, hu, huk, rfl⟩ := h.tile_of_mem hx
    refine h.size_of_outside (onlyIn_marked a (h.good t htm).minLen) hu ?_
    rcases h.tiles.eq_or_disjoint hu htm with rfl | hd
    · rw [hk] at huk
      exact nomatch huk
    · exact hd
  · exact load32_store32_of_disjoint _ _ _ _ (by omega)

theorem Freed.right_size (hf : Freed a a' pre l t r post)
    (h : HeapInv a (pre ++ l.toList ++ t :: (r.toList ++ post))) (hk : t.kind = .used size) :
    (if MergesRight t.addr (a.marked t.addr) then
      headerSize (a.marked t.addr).mem (t.addr + headerSize (a.marked t.addr).mem t.addr) else 0) =
      r.elim 0 Seg.len := by
  have hmark := h.mark hk
  have hts := (h.good t (by simp)).size
  rw [recorded, if_neg (by simp [hk])] at hts
  cases r with
  | none =>
    rw [if_neg]
    · rfl
    · intro hm
      obtain ⟨y, post', he, hy⟩ := (hmark.mergesRight_iff (by simp)).mp hm
      simp only [Option.toList_none, List.nil_append] at he
      have := hf.rightOut rfl y (by rw [he]; rfl)
      rw [this] at hy
      cases hy
  | some y =>
    obtain ⟨hy, hyh⟩ := hf.right y rfl
    rw [if_pos ((hmark.mergesRight_iff (by simp)).mpr ⟨y, post, rfl, hy⟩),
      h.size_marked (Or.inr rfl) hk, hts]
    have hadj : y.addr = t.addr + t.len := (tiles_middle.mp h.tiles).2.1
    rw [← hadj, h.size_marked (Or.inl (h.mem_index (by simp) hy)) hk, (h.good y (by simp)).size,
      recorded, if_neg hyh]
    rfl

/-- Of the entries only the hole merged on the right starts where the block ends. -/
theorem Freed.entry_ne_stop (hf : Freed a a' pre l t r post)
    (h : HeapInv a (pre ++ l.toList ++ t :: (r.toList ++ post))) {x : ℕ}
    (hx : x ∈ a.heap.index.array) (hr : ∀ y ∈ r, x ≠ y.addr) : x ≠ t.addr + t.len := by
  rintro rfl
  have hpost := (tiles_middle.mp h.tiles).2
  obtain ⟨u, hu, huk, hua⟩ := h.tile_of_mem hx
  cases r with
  | some y => exact hr y rfl hpost.1.symm
  | none =>
    cases post with
    | nil =>
      have hend : t.addr + t.len = a.heap.allocatedEnd := hpost
      have := h.bounds hu
      have := h.len_pos u hu
      omega
    | cons v post =>
      have hv : v ∈ pre ++ l.toList ++ t :: ((none : Option Tile).toList ++ v :: post) := by simp
      have huv : u = v := h.tiles.eq_of_addr h.len_pos hu hv (hua.trans hpost.1.symm)
      have := hf.rightOut rfl v rfl
      rw [← huv, huk] at this
      exact nomatch this

theorem drop_idxOf {xs ys : List ℕ} {x : ℕ} (h : x ∉ xs) :
    (xs ++ x :: ys).drop ((xs ++ x :: ys).idxOf x + 1) = ys := by
  rw [List.idxOf_append_of_notMem h, List.idxOf_cons_self]
  simp

theorem notOvertaken_eq {m : Mem} {header : ℕ} {xs ys : List ℕ} {x : ℕ}
    (hA : a.heap.index.array = xs ++ x :: ys) (hx : x ∉ xs)
    (hfoot : footerHeader a.mem (header - 8) = x) (hg : headerSize m x = grownSize header a)
    (hsame : ∀ z ∈ ys, headerSize m z = headerSize a.mem z) :
    notOvertaken header a = (overtaken (headerLess m) x ys).2 := by
  unfold notOvertaken
  rw [hfoot, hA, drop_idxOf hx]
  cases ys with
  | nil => rfl
  | cons z zs =>
    rw [overtaken]
    unfold headerLess
    rw [hg, hsame z List.mem_cons_self]
    by_cases hlt : headerSize a.mem z < grownSize header a <;> simp [hlt]

/-- A free that merges into the left hole keeps the index sorted when one pass settles it. -/
theorem Freed.sorted_merged {y : Tile} (hf : Freed a a' pre (some y) t r post)
    (h : HeapInv a (pre ++ [y] ++ t :: (r.toList ++ post))) (hk : t.kind = .used size)
    (hs : IndexSorted a) (hset : SettlesInOnePass t.addr (a.marked t.addr)) : IndexSorted a' := by
  obtain ⟨hyk, hyh, hml, hfoot⟩ := hf.left y rfl
  obtain ⟨m, hg, hother, hdrop⟩ := hf.index
  have hym : y ∈ pre ++ [y] ++ t :: (r.toList ++ post) := by simp
  have hmem := h.mem_index hym hyk
  have hys := (h.good y hym).size
  rw [recorded, if_neg hyh] at hys
  have hts := (h.good t (by simp)).size
  rw [recorded, if_neg (by simp [hk])] at hts
  have hgrown : grownSize t.addr (a.marked t.addr) = y.len + t.len := by
    unfold grownSize
    rw [hfoot, h.size_marked (Or.inl hmem) hk, h.size_marked (Or.inr rfl) hk, hys, hts]
  have hmerged : mergedSize t.addr (a.marked t.addr) = (joined (some y) t r).len := by
    unfold mergedSize
    rw [hgrown, hf.right_size h hk]
    rfl
  have hnew : headerSize a'.mem y.addr = (joined (some y) t r).len :=
    (hf.inv.good (joined (some y) t r) (by simp)).size
  have hnd := h.index_nodup
  obtain ⟨xs, ys, hA⟩ := List.append_of_mem hmem
  rw [hA] at hnd hother hdrop
  obtain ⟨hnx, hny⟩ : y.addr ∉ xs ∧ y.addr ∉ ys := by
    have := (List.perm_middle.nodup_iff.mp hnd)
    have := (List.nodup_cons.mp this).1
    exact ⟨fun hc => this (List.mem_append_left _ hc), fun hc => this (List.mem_append_right _ hc)⟩
  have hin : ∀ x ∈ xs ++ ys, x ∈ a.heap.index.array ∧ x ≠ y.addr := by
    intro x hx
    rw [hA]
    rcases List.mem_append.mp hx with hx | hx
    · exact ⟨by simp [hx], by rintro rfl; exact hnx hx⟩
    · exact ⟨by simp [hx], by rintro rfl; exact hny hx⟩
  have hsame : ∀ x ∈ xs ++ ys, headerSize m x = headerSize a.mem x := fun x hx =>
    hother x (hA ▸ (hin x hx).1) (hin x hx).2
  have hold : (xs ++ y.addr :: ys).Pairwise fun b c => headerSize a.mem b ≤ headerSize a.mem c := by
    rw [← hA]
    exact sorted_iff.mp hs
  obtain ⟨hpx, hpy, hxy⟩ := List.pairwise_append.mp hold
  have hpass : bubblePass (headerLess m) (xs ++ y.addr :: ys) =
      xs ++ (overtaken (headerLess m) y.addr ys).1 ++
        y.addr :: (overtaken (headerLess m) y.addr ys).2 := by
    refine bubblePass_grown _ (sorted_congr (sorted_iff.mpr hpx) fun x hx => ?_)
      (sorted_congr (sorted_iff.mpr (List.pairwise_cons.mp hpy).2) fun x hx => ?_) ?_
    · exact hsame x (List.mem_append_left _ hx)
    · exact hsame x (List.mem_append_right _ hx)
    · intro p hp z hz
      rw [headerLess_false, hsame p (List.mem_append_left _ hp)]
      have hle := hxy p hp z hz
      rcases List.mem_cons.mp hz with rfl | hz
      · rw [hg]
        rw [hys] at hle
        omega
      · rw [hsame z (List.mem_append_right _ hz)]
        exact hle
  have hsplit := overtaken_append (headerLess m) y.addr ys
  have hbehind : notOvertaken t.addr (a.marked t.addr) = (overtaken (headerLess m) y.addr ys).2 := by
    refine notOvertaken_eq hA hnx hfoot (by rw [hg, hgrown]) fun z hz => ?_
    have hz' : z ∈ xs ++ ys := List.mem_append_right _ hz
    rw [hsame z hz', h.size_marked (Or.inl (hin z hz').1) hk]
  rw [hpass] at hdrop
  have hne := hdrop.ne (by rw [← hpass]; exact (bubblePass_perm _ _).nodup_iff.mpr hnd)
  refine sorted_iff.mpr (pairwise_regrown (f := headerSize a.mem) (l := y.addr)
    (p := (overtaken (headerLess m) y.addr ys).1) (q := (overtaken (headerLess m) y.addr ys).2)
    ?_ hdrop.sublist ?_ ?_ ?_)
  · rw [hsplit]
    refine List.pairwise_append.mpr ⟨hpx, (List.pairwise_cons.mp hpy).2, fun b hb c hc => ?_⟩
    exact hxy b hb c (List.mem_cons_of_mem _ hc)
  · rw [hsplit]
    intro x hx hxz
    refine hf.size_other h hk (hin x hx).1 ?_ (hne x hxz)
    rintro z hz
    cases hz
    exact (hin x hx).2
  · intro x hx
    rw [hnew]
    have hge : y.len + t.len ≤ (joined (some y) t r).len := by
      unfold joined
      simp
    rcases List.mem_append.mp hx with hx | hx
    · have := hxy x hx y.addr List.mem_cons_self
      omega
    · have hxy' : x ∈ ys := by
        rw [← hsplit]
        exact List.mem_append_left _ hx
      have hlt := lt_of_mem_overtaken _ hx
      unfold headerLess at hlt
      have := of_decide_eq_true hlt
      rw [hg, hsame x (List.mem_append_right _ hxy')] at this
      omega
  · intro z hz hzz
    have hzy : z ∈ xs ++ ys := by
      rw [← hsplit]
      exact List.mem_append_right _ (List.mem_append_right _ hz)
    have := hset hml z (by rw [hbehind]; exact hz) (by
      rw [h.size_marked (Or.inr rfl) hk, hts]
      exact hf.entry_ne_stop h (hin z hzy).1 (hne z hzz))
    rw [hmerged, h.size_marked (Or.inl (hin z hzy).1) hk] at this
    rw [hnew]
    exact this

end Free

/-- A free keeps the index sorted when one pass settles the merged hole. -/
theorem Freed.sorted {a a' : Arena} {pre post : List Tile} {l r : Option Tile} {t : Tile} {size : ℕ}
    (hf : Freed a a' pre l t r post) (h : HeapInv a (pre ++ l.toList ++ t :: (r.toList ++ post)))
    (hk : t.kind = .used size) (hs : IndexSorted a)
    (hset : SettlesInOnePass t.addr (a.marked t.addr)) : IndexSorted a' := by
  cases l with
  | none => exact hf.sorted_alone (by simpa using h) hk hs
  | some y => exact hf.sorted_merged h hk hs hset

/-! ## Best fit over runs -/

/-- In a sorted index `find_hole` finds a smallest hole among those that are large enough. -/
theorem IndexSorted.bestFit {a : Arena} (hs : IndexSorted a) {n i x : ℕ}
    (hf : findHole a n false = some i) (hi : a.heap.index.array[i]? = some x) :
    n ≤ headerSize a.mem x ∧
      ∀ y ∈ a.heap.index.array, n ≤ headerSize a.mem y → headerSize a.mem x ≤ headerSize a.mem y := by
  obtain ⟨hlt, hfit, hfirst⟩ := List.findIdx?_eq_some_iff_getElem.mp hf
  obtain ⟨_, rfl⟩ := List.getElem?_eq_some_iff.mp hi
  have fits : ∀ y, holeFits a.mem n false y = true ↔ n ≤ headerSize a.mem y := fun y => by
    simp [holeFits]
  refine ⟨(fits _).mp hfit, fun y hy hn => ?_⟩
  obtain ⟨j, hj, rfl⟩ := List.getElem_of_mem hy
  rcases Nat.lt_trichotomy j i with hji | rfl | hij
  · exact absurd ((fits _).mpr hn) (hfirst j hji)
  · exact Nat.le_refl _
  · exact List.pairwise_iff_getElem.mp (sorted_iff.mp hs) i j hlt hj hij

/-- The condition on a step for the index to stay sorted. -/
def SortedStep (op : HeapOp) (s : HeapState) : Prop := SafeStep op s ∧ PassSuffices op s

instance (op : HeapOp) (s : HeapState) : Decidable (SortedStep op s) :=
  inferInstanceAs (Decidable (_ ∧ _))

theorem Tiled.step_sorted {s s' : HeapState} {ts : List Tile} (h : Tiled s ts)
    (hs : IndexSorted s.arena) {op : HeapOp} (hok : SortedStep op s)
    (hstep : heapStep op s = some s') : (∃ ts', Tiled s' ts') ∧ IndexSorted s'.arena := by
  obtain ⟨⟨hw, htags⟩, hpass⟩ := hok
  cases op with
  | alloc size pageAlign =>
    obtain ⟨pre, t, post, p, ha, _, hnew⟩ := allocStep_some h ⟨hw.1, htags⟩ hw.2 hstep
    exact ⟨⟨_, hnew⟩, ha.sorted hs⟩
  | free ptr =>
    obtain ⟨pre, l, t, r, post, n, rfl, hk, rfl, hf, _, hnew⟩ := freeStep_some h htags hstep
    change SettlesInOnePass (t.addr + 12 - 12) (s.arena.marked (t.addr + 12 - 12)) at hpass
    rw [Nat.add_sub_cancel] at hpass
    exact ⟨⟨_, hnew⟩, hf.sorted h.heap hk hs hpass⟩
  | write x v =>
    obtain ⟨hnew, hheap, _⟩ := writeStep_some h hstep
    refine ⟨⟨ts, hnew⟩, ?_⟩
    unfold IndexSorted
    rw [hheap]
    refine sorted_congr hs fun y hy => ?_
    obtain ⟨u, hu, _, rfl⟩ := h.heap.tile_of_mem hy
    rw [(hnew.heap.good u hu).size, (h.heap.good u hu).size]

theorem findHole_of_fits {a : Arena} {n y : ℕ} (hy : y ∈ a.heap.index.array)
    (hn : n ≤ headerSize a.mem y) : ∃ i, findHole a n false = some i := by
  have hfits : holeFits a.mem n false y = true := by simp [holeFits, hn]
  have hany : a.heap.index.array.any (holeFits a.mem n false) = true :=
    List.any_eq_true.mpr ⟨y, hy, hfits⟩
  exact Option.isSome_iff_exists.mp (List.findIdx?_isSome.trans hany)

/-- In every run whose steps meet the condition the index is sorted in every state reached, so that
`find_hole` returns a smallest hole that is large enough, if there is one. -/
theorem bestFit_of_run {mem : Mem} {start stop maxAddr : ℕ} {a : Arena}
    (h0 : Created mem start stop maxAddr a) {s : HeapState}
    (r : Run heapStep SortedStep ⟨a, []⟩ s) :
    IndexSorted s.arena ∧ ∀ n,
      ((∃ y ∈ s.arena.heap.index.array, n ≤ headerSize s.arena.mem y) →
        ∃ i, findHole s.arena n false = some i) ∧
      ∀ i x, findHole s.arena n false = some i →
        s.arena.heap.index.array[i]? = some x → n ≤ headerSize s.arena.mem x ∧
          ∀ y ∈ s.arena.heap.index.array, n ≤ headerSize s.arena.mem y →
            headerSize s.arena.mem x ≤ headerSize s.arena.mem y := by
  have hsorted : IndexSorted a := by
    unfold IndexSorted
    rw [h0.eq.2.2.2.2.1]
    exact List.pairwise_singleton _ _
  obtain ⟨_, hs⟩ := r.invariant (I := fun s => (∃ ts, Tiled s ts) ∧ IndexSorted s.arena)
    ⟨⟨_, h0.tiled⟩, hsorted⟩ fun op x y hx hok hstep => by
      obtain ⟨⟨ts, ht⟩, hs⟩ := hx
      exact ht.step_sorted hs hok hstep
  refine ⟨hs, fun n => ⟨?_, fun i x hf hi => hs.bestFit hf hi⟩⟩
  rintro ⟨y, hy, hn⟩
  exact findHole_of_fits hy hn

set_option maxRecDepth 100000 in
theorem bestFit_of_run_initialHeap :
    ∃ s, trace heapStep SortedStep [.alloc 10 false, .alloc 80 false, .alloc 10 false,
      .free 0x0f00200c, .free 0x0f00202a] ⟨initialHeap, []⟩ = some s ∧ IndexSorted s.arena := by
  obtain ⟨s, hs⟩ := Option.isSome_iff_exists.mp (show (trace heapStep SortedStep [.alloc 10 false,
    .alloc 80 false, .alloc 10 false, .free 0x0f00200c, .free 0x0f00202a]
      ⟨initialHeap, []⟩).isSome = true by decide +kernel)
  exact ⟨s, hs, (bestFit_of_run initialHeap_created (Run.of_trace hs)).1⟩

/-- The sizes in the order of the index. -/
def indexSizes (a : Arena) : List ℕ := a.heap.index.array.map (headerSize a.mem)

theorem not_sorted_of_sizes {a : Arena} (h : ¬(indexSizes a).Pairwise (· ≤ ·)) :
    ¬IndexSorted a := by
  intro hs
  unfold indexSizes at h
  rw [List.pairwise_map] at h
  exact h (sorted_iff.mp hs)

set_option maxRecDepth 100000 in
/-- With holes of 30, 40 and 50 bytes, a block of 100 bytes merged into the first leaves the index in
the order 40, 130, 50. -/
theorem not_sorted_after_left_merge :
    ¬∀ s, Run heapStep WellFormed ⟨initialHeap, []⟩ s → IndexSorted s.arena := by
  intro hall
  obtain ⟨s, hs, hbad⟩ := (Option.any_eq_true _ _).mp (show (trace heapStep WellFormed
    [.alloc 10 false, .alloc 80 false, .alloc 10 false, .alloc 20 false, .alloc 10 false,
      .alloc 30 false, .alloc 10 false, .free 0x0f00200c, .free 0x0f0020ac, .free 0x0f0020f2,
      .free 0x0f00202a] ⟨initialHeap, []⟩).any
        (fun s => !decide ((indexSizes s.arena).Pairwise (· ≤ ·))) = true by decide +kernel)
  exact not_sorted_of_sizes (by simpa using hbad) (hall s (Run.of_trace hs))

end Evos
