import Evos.Kheap.Coalesce

/-! # `heap_free` on a well-formed heap

In a well-formed heap every segment is a block or a hole that carries both of its tags, and the index
lists the holes in any order. There `heap_free` never panics, merges exactly the neighbours that are
holes, and leaves a well-formed heap. -/

namespace Evos
open ByteMemory Segments BubblePass Outcome
set_option autoImplicit false

/-- The body is tiled by blocks and holes, each with its header and its footer, and the index lists
the headers of the holes, each once. The body begins far enough up for the footer in front of it to
have an address: `heap_create` puts the index there. -/
structure WellFormedHeap (a : Arena) (ts : List Tile) : Prop extends HeapInv a ts where
  plain : ∀ t ∈ ts, t.kind ≠ .raw ∧ t.kind ≠ .husk

/-- The last segment of a list, if it is a hole. -/
def leftHole (pre : List Tile) : Option Tile := pre.getLast?.filter fun t => t.kind.isHole

/-- The first segment of a list, if it is a hole. -/
def rightHole (post : List Tile) : Option Tile := post.head?.filter fun t => t.kind.isHole

theorem leftHole_concat {pre : List Tile} {y : Tile} (h : y.kind.isHole = true) :
    leftHole (pre ++ [y]) = some y := by
  unfold leftHole
  rw [List.getLast?_concat]
  simp [Option.filter, h]

theorem leftHole_none {pre : List Tile} (h : ∀ y ∈ pre.getLast?, y.kind.isHole = false) :
    leftHole pre = none := by
  unfold leftHole
  cases hl : pre.getLast? with
  | none => rfl
  | some y => simp [Option.filter, h y (by rw [hl]; rfl)]

theorem rightHole_cons {post : List Tile} {y : Tile} (h : y.kind.isHole = true) :
    rightHole (y :: post) = some y := by
  simp [rightHole, Option.filter, h]

theorem rightHole_none {post : List Tile} (h : ∀ y ∈ post.head?, y.kind.isHole = false) :
    rightHole post = none := by
  unfold rightHole
  cases hl : post.head? with
  | none => rfl
  | some y => simp [Option.filter, h y (by rw [hl]; rfl)]

/-! ## The tags in front of a block -/

section Free
variable {a : Arena} {pre post : List Tile} {t : Tile} {size : ℕ}

theorem WellFormedHeap.size_eq {ts : List Tile} (h : WellFormedHeap a ts) {u : Tile} (hu : u ∈ ts) :
    headerSize a.mem u.addr = u.len := by
  rw [(h.good u hu).size]
  exact if_neg (h.plain u hu).2

theorem WellFormedHeap.footerWritten {ts : List Tile} (h : WellFormedHeap a ts) (header : ℕ) :
    FooterWritten a header := by
  intro x hx hend
  obtain ⟨u, hu, _, rfl⟩ := h.tile_of_mem hx
  rw [h.size_eq hu, ← u.stop_eq] at hend
  rw [← hend]
  exact (h.good u hu).footer (h.plain u hu).1

theorem WellFormedHeap.joinsHoles (h : WellFormedHeap a (pre ++ t :: post))
    (hk : t.kind = .used size) : JoinsHoles a (t.addr + 12) :=
  h.toHeapInv.joinsHoles (fun u hu => (h.plain u hu).2) hk (h.footerWritten t.addr)

/-! ## Totality -/

theorem heapFree_eq (hok : TileOK a.mem t) (hk : t.kind = .used size) (hlt : t.stop < 2 ^ 32) :
    heapFree (t.addr + 12) a = (do
      let ((header, doAdd), a₁) ← mergeLeft t.addr (t.stop - 8) (a.marked t.addr)
      let a₂ ← mergeRight header a₁
      if doAdd then
        let index ← orderedArrayInsert (headerLess a₂.mem) a₂.heap.index header
        return { a₂ with heap := { a₂.heap with index := index } }
      else return a₂) := by
  have hst := t.stop_eq
  have hmin := hok.minLen
  have hsize : headerSize a.mem t.addr = t.len := by
    rw [hok.size, recorded, if_neg (by simp [hk])]
  have hfoot := (hok.footer (by simp [hk])).1
  rw [hst] at hfoot
  unfold heapFree
  rw [if_neg (by omega), sub32_of_le (show 12 ≤ t.addr + 12 by omega) (by omega)]
  simp only [Nat.add_sub_cancel, hsize, u32_of_lt (show t.addr + t.len < 2 ^ 32 by omega),
    sub32_of_le (show 8 ≤ t.addr + t.len by omega) (by omega)]
  rw [assert_of hok.magic, assert_of hfoot, except_bind_of_ok rfl, except_bind_of_ok rfl, hst]
  rfl

/-- With room in the index, freeing a block of a well-formed heap triggers no assertion. -/
theorem WellFormedHeap.heapFree_total (h : WellFormedHeap a (pre ++ t :: post))
    (hk : t.kind = .used size) (hroom : a.heap.index.size < a.heap.index.maxSize) :
    ∃ a', heapFree (t.addr + 12) a = .ok a' := by
  have htm : t ∈ pre ++ t :: post := by simp
  have hb := h.bounds htm
  have hlt := h.end_lt
  have hmark := h.mark hk
  obtain ⟨hjl, hjr⟩ := h.joinsHoles hk
  rw [Nat.add_sub_cancel] at hjl hjr
  have hright : ∀ r post', post = r :: post' → r.kind.isHole = true →
      r.kind ≠ .husk ∧ r.kind ≠ .raw := by
    rintro r post' rfl _
    exact (h.plain r (by simp)).symm
  rw [heapFree_eq (h.good t htm) hk (by have := t.stop_eq; omega)]
  obtain ⟨r, a₁, hl⟩ := hmark.mergeLeft_total rfl hjl
  have hl' : mergeLeft t.addr (t.stop - 8) (a.marked t.addr) = .ok (r, a₁) := hl
  rw [except_bind_of_ok hl']
  rcases hmark.mergeLeft rfl hjl hl with ⟨_, rfl, rfl⟩ | ⟨pre', l, rfl, _, rfl, hleft⟩
  · obtain ⟨a₂, hr, hle⟩ := hmark.mergeRight_total rfl (by simp) hright
    have hmax : a₂.heap.index.maxSize = a.heap.index.maxSize := by
      rcases hmark.mergeRight rfl (fun r post' e hr => (hright r post' e hr).1) hr with
        ⟨rfl, _⟩ | ⟨_, _, _, _, hjoin⟩
      · rfl
      · exact hjoin.extent.room
    have hroom₂ : a₂.heap.index.array.length < a₂.heap.index.maxSize := by
      rw [hmax]
      exact Nat.lt_of_le_of_lt hle hroom
    dsimp only
    rw [except_bind_of_ok hr, if_pos rfl, orderedArrayInsert_of_room _ _ _ hroom₂]
    exact ⟨_, rfl⟩
  · have hpend : Pending a₁ (pre' ++ ⟨l.addr, l.len + t.len, .free⟩ :: post) [] :=
      ⟨hleft.inv.toHeapBody, hleft.inv.index⟩
    obtain ⟨a₂, hr, _⟩ := hpend.mergeRight_total rfl (by simp) hright
    dsimp only at hr ⊢
    rw [except_bind_of_ok hr]
    exact ⟨_, rfl⟩

/-! ## What is merged -/

/-- What is merged on the left is the segment in front, when it is a hole. -/
theorem Freed.left_eq {a' : Arena} {l r : Option Tile} (hf : Freed a a' pre l t r post)
    (h : WellFormedHeap a (pre ++ l.toList ++ t :: (r.toList ++ post))) :
    l = leftHole (pre ++ l.toList) := by
  cases l with
  | some y => exact (leftHole_concat (hf.left y rfl).isHole).symm
  | none =>
    refine (leftHole_none fun y hy => ?_).symm
    simp only [Option.toList_none, List.append_nil] at h hy
    obtain ⟨pre', rfl⟩ := List.getLast?_eq_some_iff.mp hy
    by_contra hhole
    exact hf.leftOut rfl (h.mergesLeft (by simpa using hhole) (h.plain y (by simp)).2
      (h.footerWritten t.addr)).1

/-- What is merged on the right is the segment behind, when it is a hole. -/
theorem Freed.right_eq {a' : Arena} {l r : Option Tile} (hf : Freed a a' pre l t r post) :
    r = rightHole (r.toList ++ post) := by
  cases r with
  | some y => exact (rightHole_cons (hf.right y rfl).1).symm
  | none => exact (rightHole_none (hf.rightOut rfl)).symm

/-- Freeing a block of a well-formed heap triggers no assertion; the block, joined with its left
neighbour and its right neighbour where they are holes, is one hole of a well-formed heap, and every
other segment keeps its bytes. -/
theorem heapFree_wellFormed (h : WellFormedHeap a (pre ++ t :: post)) (hk : t.kind = .used size)
    (hroom : a.heap.index.size < a.heap.index.maxSize) :
    ∃ a' pre' post', heapFree (t.addr + 12) a = .ok a' ∧
      pre = pre' ++ (leftHole pre).toList ∧ post = (rightHole post).toList ++ post' ∧
      WellFormedHeap a' (pre' ++ joined (leftHole pre) t (rightHole post) :: post') ∧
      SameExtent a.heap a'.heap ∧
      ∀ u ∈ pre' ++ post', SameOn u.addr u.stop a.mem a'.mem := by
  obtain ⟨a', ha⟩ := h.heapFree_total hk hroom
  obtain ⟨pre', l, r, post', rfl, rfl, hf⟩ := h.toHeapInv.free hk (h.joinsHoles hk) ha
  rw [← hf.left_eq h, ← hf.right_eq]
  refine ⟨a', pre', post', ha, rfl, rfl, ⟨hf.inv, fun u hu => ?_⟩, hf.extent, fun u hu => ?_⟩
  · rcases List.mem_append.mp hu with hu | hu
    · exact h.plain u (by simp [hu])
    · rcases List.mem_cons.mp hu with rfl | hu
      · simp [joined]
      · exact h.plain u (by simp [hu])
  · obtain ⟨hpre, hpost⟩ := tiles_middle.mp hf.inv.tiles
    rcases List.mem_append.mp hu with hu | hu
    · exact hf.writes.sameOn (Or.inl (hpre.bounds hu).2)
    · exact hf.writes.sameOn (Or.inr (hpost.bounds hu).1)

end Free

/-! ## A heap of one block and one hole -/

/-- The kernel's heap, with a block of `len` bytes at its start and a hole behind it. -/
def splitHeap (len : ℕ) : Arena where
  heap := { initialHeap.heap with index := ⟨[0x0f002000 + len], kheapIndexSize⟩ }
  mem := splitMem (fun _ => 0) 0x0f002000 0xe000 len

theorem splitHeap_wellFormed {len size : ℕ} (hs : size + 20 ≤ len) (hlen : len + 20 ≤ 0xe000) :
    WellFormedHeap (splitHeap len)
      [⟨0x0f002000, len, .used size⟩, ⟨0x0f002000 + len, 0xe000 - len, .free⟩] := by
  obtain ⟨hblock, hrest⟩ := tileOK_splitMem (fun _ => 0) hs hlen
    (show 0x0f002000 + 0xe000 < 2 ^ 32 by decide)
  refine ⟨⟨⟨⟨rfl, rfl, ?_⟩, (by decide : 8 ≤ 0x0f002000), (by decide : 0x0f010000 < 2 ^ 32),
    (by decide : 0x0ffff000 < 2 ^ 32), ?_⟩, List.Perm.refl _⟩, by simp⟩
  · show 0x0f002000 + len + (0xe000 - len) = 0x0f010000
    omega
  · intro t ht
    rcases List.mem_cons.mp ht with rfl | ht
    · exact hblock
    · rw [List.mem_singleton.mp ht]
      exact hrest

theorem heapFree_wellFormed_splitHeap :
    ∃ a', heapFree 0x0f00200c (splitHeap 120) = .ok a' ∧
      WellFormedHeap a' [⟨0x0f002000, 0xe000, .free⟩] := by
  obtain ⟨a', pre', post', ha, hpre, hpost, hwf, _⟩ := @heapFree_wellFormed (splitHeap 120) []
    [⟨0x0f002078, 0xdf88, .free⟩] ⟨0x0f002000, 120, .used 100⟩ 100
    (splitHeap_wellFormed (by decide) (by decide)) rfl (by decide)
  have h1 : pre' = [] := (List.append_eq_nil_iff.mp hpre.symm).1
  have h2 : post' = [] := (List.cons.inj hpost).2.symm
  subst h1 h2
  exact ⟨a', ha, hwf⟩

end Evos
