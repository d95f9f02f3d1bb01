import Evos.Kheap.Join

/-! # `heap_free` keeps the invariant

A successful `heap_free` of a block whose neighbours carry the right tags replaces the block, the
hole merged on its left and the hole merged on its right by one hole. -/

namespace Evos
open ByteMemory Segments BubblePass Outcome
set_option autoImplicit false

/-- The hole that stands for the freed block and the holes merged with it. -/
def joined (l : Option Tile) (t : Tile) (r : Option Tile) : Tile where
  addr := l.elim t.addr Seg.addr
  len := l.elim 0 Seg.len + t.len + r.elim 0 Seg.len
  kind := .free

/-- The list without the entry of the hole merged on the right. -/
def Dropped (r : Option Tile) (xs ys : List ℕ) : Prop :=
  match r with
  | none => ys = xs
  | some y => ∃ i, xs[i]? = some y.addr ∧ ys = xs.eraseIdx i

/-- The index after the free: an unmerged block is carried in from the right end; a block merged
into a left hole makes that hole grow in place, and the array is passed over once, before the right
merge. -/
def Reindexed (a a' : Arena) (l : Option Tile) (t : Tile) (r : Option Tile) : Prop :=
  match l with
  | none => ∃ xs, Dropped r a.heap.index.array xs ∧
      a'.heap.index.array = bubblePass (headerLess a'.mem) (xs ++ [t.addr])
  | some y => ∃ m, headerSize m y.addr = y.len + t.len ∧
      (∀ x ∈ a.heap.index.array, x ≠ y.addr → headerSize m x = headerSize a.mem x) ∧
      Dropped r (bubblePass (headerLess m) a.heap.index.array) a'.heap.index.array

/-- What a successful free of the block `t` does. -/
structure Freed (a a' : Arena) (pre : List Tile) (l : Option Tile) (t : Tile) (r : Option Tile)
    (post : List Tile) : Prop where
  left : ∀ y ∈ l, Recognised (a.marked t.addr) y t
  right : ∀ y ∈ r, y.kind.isHole = true ∧ y.kind ≠ .husk
  leftOut : l = none → ¬MergesLeft t.addr (a.marked t.addr)
  rightOut : r = none → ∀ y ∈ post.head?, y.kind.isHole = false
  inv : HeapInv a' (pre ++ joined l t r :: post)
  extent : SameExtent a.heap a'.heap
  writes : OnlyIn (joined l t r).addr (joined l t r).stop a.mem a'.mem
  index : Reindexed a a' l t r

/-! ## The last step -/

theorem heapFree_ok {a a' : Arena} {t : Tile} (hlt : t.stop < 2 ^ 32)
    (h12 : 12 ≤ t.len) (hsize : headerSize a.mem t.addr = t.len)
    (h : heapFree (t.addr + 12) a = .ok a') :
    ∃ header doAdd a₁ a₂, mergeLeft t.addr (t.stop - 8) (a.marked t.addr) =
        .ok ((header, doAdd), a₁) ∧ mergeRight header a₁ = .ok a₂ ∧
      ((doAdd = false ∧ a' = a₂) ∨
        (doAdd = true ∧ a'.mem = a₂.mem ∧ SameExtent a₂.heap a'.heap ∧
          a'.heap.index.array = bubblePass (headerLess a₂.mem) (a₂.heap.index.array ++ [header]))) := by
  have hst := t.stop_eq
  unfold heapFree at h
  rw [if_neg (by omega), sub32_of_le (show 12 ≤ t.addr + 12 by omega) (by omega)] at h
  simp only [Nat.add_sub_cancel, hsize, u32_of_lt (show t.addr + t.len < 2 ^ 32 by omega),
    sub32_of_le (show 8 ≤ t.addr + t.len by omega) (by omega)] at h
  obtain ⟨_, _, h⟩ := except_bind_ok h
  obtain ⟨_, _, h⟩ := except_bind_ok h
  obtain ⟨⟨⟨header, doAdd⟩, a₁⟩, hl, h⟩ := except_bind_ok h
  obtain ⟨a₂, hr, h⟩ := except_bind_ok h
  refine ⟨header, doAdd, a₁, a₂, hl, hr, ?_⟩
  cases doAdd with
  | false =>
    cases h
    exact Or.inl ⟨rfl, rfl⟩
  | true =>
    obtain ⟨index, hi, h⟩ := except_bind_ok h
    obtain ⟨_, rfl⟩ := orderedArrayInsert_ok hi
    cases h
    exact Or.inr ⟨rfl, rfl, ⟨rfl, rfl, rfl, rfl⟩, rfl⟩

theorem HeapBody.congr {h h' : Heap} {m m' : Mem} {ts : List Tile} (hb : HeapBody h m ts)
    (hext : SameExtent h h') (hm : m' = m) : HeapBody h' m' ts := by
  subst hm
  exact ⟨by rw [hext.start, hext.stop]; exact hb.tiles, by rw [hext.start]; exact hb.start_ge,
    by rw [hext.stop]; exact hb.end_lt, by rw [hext.max]; exact hb.max_lt, hb.good⟩

theorem Pending.insert {a a' : Arena} {ts : List Tile} {x : ℕ} (h : Pending a ts [x])
    (hm : a'.mem = a.mem) (hext : SameExtent a.heap a'.heap)
    (hi : a'.heap.index.array = bubblePass (headerLess a.mem) (a.heap.index.array ++ [x])) :
    HeapInv a' ts := by
  refine ⟨h.congr hext hm, ?_⟩
  rw [hi]
  exact (bubblePass_perm _ _).trans (List.perm_append_comm.trans h.index)

/-! ## Joining -/

theorem Pending.right_not_husk {a : Arena} {pre post : List Tile} {t : Tile} {missing : List ℕ}
    (h : Pending a (pre ++ t :: post) missing) (hk : t.kind = .free) (hj : JoinsRight t.addr a) :
    ∀ r post', post = r :: post' → r.kind.isHole = true → r.kind ≠ .husk := by
  rintro r post' rfl hrk hhusk
  have hm := (h.mergesRight_iff (by simp [hk])).mpr ⟨r, post', rfl, hrk⟩
  have hne := hj hm
  have ht := (h.good t (by simp)).size
  have hr := (h.good r (by simp)).size
  have hadj := (tiles_middle.mp h.tiles).2.1
  rw [recorded, if_neg (by simp [hk])] at ht
  rw [recorded, if_pos hhusk] at hr
  rw [ht, ← t.stop_eq, ← hadj] at hne
  exact hne hr

section Cases
variable {a a₁ a₂ a' : Arena} {pre post : List Tile} {t : Tile} {size : ℕ}

theorem HeapInv.free_alone (h : HeapInv a (pre ++ t :: post)) (hk : t.kind = .used size)
    (hj : JoinsRight t.addr (a.marked t.addr)) (hout : ¬MergesLeft t.addr (a.marked t.addr))
    (hr : mergeRight t.addr (a.marked t.addr) = .ok a₂) (hm : a'.mem = a₂.mem)
    (hext : SameExtent a₂.heap a'.heap)
    (hi : a'.heap.index.array = bubblePass (headerLess a₂.mem) (a₂.heap.index.array ++ [t.addr])) :
    ∃ r post', post = r.toList ++ post' ∧ Freed a a' pre none t r post' := by
  have hmark := h.mark hk
  have hw := onlyIn_marked a (h.good t (by simp)).minLen
  have hst := t.stop_eq
  have hnh := hmark.right_not_husk rfl hj
  rcases hmark.mergeRight rfl hnh hr with ⟨rfl, hno⟩ | ⟨r, post', rfl, hrk, hjoin⟩
  · refine ⟨none, post, rfl, ⟨by simp, by simp, fun _ => hout, fun _ => ?_, ?_, hext, ?_, ?_⟩⟩
    · cases post with
      | nil => simp
      | cons y post => simpa using hno y post rfl
    · simpa [joined] using hmark.insert hm hext hi
    · rw [hm]
      exact hw.mono (Nat.le_refl _) (by simp [joined, Seg.stop])
    · exact ⟨_, rfl, by rw [hm]; exact hi⟩
  · have hpost := (tiles_middle.mp h.tiles).2
    have hadj : r.addr = t.stop := hpost.1
    have hsr := r.stop_eq
    refine ⟨some r, post', rfl, ⟨by simp, by simpa using ⟨hrk, hnh r post' rfl hrk⟩,
      fun _ => hout, by simp, ?_,
      hjoin.extent.trans hext, ?_, ?_⟩⟩
    · simpa [joined] using hjoin.inv.insert hm hext hi
    · rw [hm]
      have := hjoin.writes
      exact (hw.mono (Nat.le_refl _) (by simp [joined, Seg.stop])).trans
        (this.mono (Nat.le_refl _) (by simp [joined, Seg.stop] at *; omega))
    · obtain ⟨i, hget, he⟩ := hjoin.index
      exact ⟨_, ⟨i, hget, he⟩, by rw [hm]; exact hi⟩

theorem HeapInv.free_merged {l : Tile} (h : HeapInv a (pre ++ l :: t :: post))
    (hk : t.kind = .used size) (hl : Recognised (a.marked t.addr) l t)
    (hnh : ∀ r post', post = r :: post' → r.kind.isHole = true → r.kind ≠ .husk)
    (hleft : JoinedLeft (a.marked t.addr) a₁ pre l ⟨t.addr, t.len, .free⟩ post)
    (hr : mergeRight l.addr a₁ = .ok a') :
    ∃ r post', post = r.toList ++ post' ∧ Freed a a' pre (some l) t r post' := by
  have hlm : l ∈ pre ++ l :: t :: post := by simp
  have htm : t ∈ pre ++ l :: t :: post := by simp
  have hst := t.stop_eq
  have hsl := l.stop_eq
  have hadj : t.addr = l.stop := (tiles_middle.mp h.tiles).2.1
  have hw : OnlyIn l.addr t.stop a.mem a₁.mem :=
    ((onlyIn_marked a (h.good t htm).minLen).mono (by omega) (Nat.le_refl _)).trans hleft.writes
  have hre : headerSize a₁.mem l.addr = l.len + t.len ∧
      ∀ x ∈ a.heap.index.array, x ≠ l.addr → headerSize a₁.mem x = headerSize a.mem x := by
    refine ⟨(hleft.inv.good ⟨l.addr, l.len + t.len, .free⟩ (by simp)).size, fun x hx hne => ?_⟩
    obtain ⟨u, hu, huk, rfl⟩ := h.tile_of_mem hx
    refine h.size_of_outside hw hu ?_
    rcases h.tiles.eq_or_disjoint hu hlm with rfl | hd | hd
    · exact absurd rfl hne
    · exact Or.inl hd
    · rcases h.tiles.eq_or_disjoint hu htm with rfl | hd' | hd'
      · rw [hk] at huk
        exact nomatch huk
      · have := h.len_pos u hu
        have := u.stop_eq
        omega
      · exact Or.inr hd'
  have hpend : Pending a₁ (pre ++ ⟨l.addr, l.len + t.len, .free⟩ :: post) [] :=
    ⟨hleft.inv.toHeapBody, hleft.inv.index⟩
  have hix : a₁.heap.index.array = bubblePass (headerLess a₁.mem) a.heap.index.array := hleft.index
  rcases hpend.mergeRight rfl hnh hr with ⟨rfl, hno⟩ | ⟨r, post', rfl, hrk, hjoin⟩
  · refine ⟨none, post, rfl, ⟨by simpa using hl, by simp, by simp, fun _ => ?_, ?_,
      hleft.extent, ?_, ?_⟩⟩
    · cases post with
      | nil => simp
      | cons y post => simpa using hno y post rfl
    · simpa [joined] using hleft.inv
    · exact hw.mono (Nat.le_refl _) (by simp [joined, Seg.stop] at *; omega)
    · exact ⟨_, hre.1, hre.2, hix⟩
  · have hadj' : r.addr = t.stop := (tiles_middle.mp h.tiles).2.2.1
    have hsr := r.stop_eq
    refine ⟨some r, post', rfl, ⟨by simpa using hl, by simpa using ⟨hrk, hnh r post' rfl hrk⟩,
      by simp, by simp, ?_, hleft.extent.trans hjoin.extent, ?_, ?_⟩⟩
    · simpa [joined] using hjoin.inv.heapInv
    · have := hjoin.writes
      exact (hw.mono (Nat.le_refl _) (by simp [joined, Seg.stop] at *; omega)).trans
        (this.mono (Nat.le_refl _) (by simp [joined, Seg.stop] at *; omega))
    · obtain ⟨i, hget, he⟩ := hjoin.index
      rw [hix] at hget he
      exact ⟨_, hre.1, hre.2, i, hget, he⟩

end Cases

/-- A successful free of a block joins it to the holes around it and keeps the invariant. -/
theorem HeapInv.free {a a' : Arena} {pre₀ post₀ : List Tile} {t : Tile} {size : ℕ}
    (h : HeapInv a (pre₀ ++ t :: post₀)) (hk : t.kind = .used size)
    (hj : JoinsHoles a (t.addr + 12)) (hf : heapFree (t.addr + 12) a = .ok a') :
    ∃ pre l r post, pre₀ = pre ++ l.toList ∧ post₀ = r.toList ++ post ∧
      Freed a a' pre l t r post := by
  have htm : t ∈ pre₀ ++ t :: post₀ := by simp
  have hok := h.good t htm
  have hb := h.bounds htm
  have hlt := h.end_lt
  have hge := h.start_ge
  have hlen := hok.minLen
  have hst := t.stop_eq
  have hsize := hok.size
  rw [recorded, if_neg (by simp [hk])] at hsize
  obtain ⟨header, doAdd, a₁, a₂, hl, hr, hlast⟩ :=
    heapFree_ok (by omega) (by omega) hsize hf
  obtain ⟨hjl, hjr⟩ := hj
  rw [Nat.add_sub_cancel] at hjl hjr
  have hmark := h.mark hk
  have hnh := hmark.right_not_husk rfl hjr
  rcases hmark.mergeLeft rfl hjl hl with ⟨hout, he, rfl⟩ | ⟨pre, l, rfl, hrec, he, hleft⟩
  · cases he
    obtain ⟨_, hm, hext, hi⟩ := hlast.resolve_left (by simp)
    obtain ⟨r, post, rfl, hfreed⟩ := h.free_alone hk hjr hout hr hm hext hi
    exact ⟨pre₀, none, r, post, by simp, rfl, hfreed⟩
  · cases he
    obtain ⟨_, rfl⟩ := hlast.resolve_right (by simp)
    rw [List.append_assoc] at h
    obtain ⟨r, post, rfl, hfreed⟩ := h.free_merged hk ⟨hrec.isHole, hrec.notHusk, hrec.merges, hrec.named⟩ hnh hleft hr
    exact ⟨pre, some l, r, post, rfl, rfl, hfreed⟩

end Evos
