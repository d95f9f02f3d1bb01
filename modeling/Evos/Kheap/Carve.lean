import Evos.Kheap.Invariant

/-! # Carving a block out of a hole

`heap_alloc` from the chosen hole on. Each piece has an equation that resolves its 32-bit
arithmetic and its assertions; together they replace the hole `[a, a + n)` by `carved`: a husk when
the block had to be moved up to a page, the block, and a hole when bytes remain. -/

namespace Evos
open ByteMemory Segments BubblePass Outcome
set_option autoImplicit false

/-! ## The block and the hole on its right -/

/-- The memory after the tags of a block. -/
def blockMem (m : Mem) (a s : ℕ) : Mem :=
  writeFooter (writeHeader m a s false) (a + s - 8) a

/-- The memory after the tags of a block of `s` bytes at `a` and of the hole up to `a + n`. -/
def splitMem (m : Mem) (a n s : ℕ) : Mem :=
  writeFooter (writeHeader (blockMem m a s) (a + s) (n - s) true) (a + n - 8) (a + s)

section Place
variable {a n s : ℕ} {A : Arena}

/-- No rest: the block takes the whole hole. -/
theorem placeBlock_exact (hs : 20 ≤ n) (hn : a + n ≤ A.heap.allocatedEnd)
    (he : A.heap.allocatedEnd < 2 ^ 32) :
    placeBlock a n n A = .ok (a + 12, { A with mem := blockMem A.mem a n }) := by
  unfold placeBlock blockMem
  simp only [u32_of_lt (show a + n < 2 ^ 32 by omega), u32_of_lt (show a + 12 < 2 ^ 32 by omega),
    sub32_of_le (show 8 ≤ a + n by omega) (by omega), sub32_of_le (Nat.le_refl n) (by omega),
    Nat.sub_self]
  rw [assert_of (by omega)]
  rfl

/-- A rest that holds a header and a footer becomes a hole of the index. -/
theorem placeBlock_split (hs : 20 ≤ s) (hsn : s + 20 < n) (hn : a + n ≤ A.heap.allocatedEnd)
    (he : A.heap.allocatedEnd < 2 ^ 32) :
    placeBlock a n s A = (do
      let index ← orderedArrayInsert (headerLess (splitMem A.mem a n s)) A.heap.index (a + s)
      return (a + 12, ⟨{ A.heap with index := index }, splitMem A.mem a n s⟩)) := by
  unfold placeBlock splitMem blockMem
  simp only [u32_of_lt (show a + s < 2 ^ 32 by omega), u32_of_lt (show a + n < 2 ^ 32 by omega),
    u32_of_lt (show a + 12 < 2 ^ 32 by omega), sub32_of_le (show 8 ≤ a + s by omega) (by omega),
    sub32_of_le (show 8 ≤ a + n by omega) (by omega),
    sub32_of_le (show s ≤ n by omega) (by omega)]
  rw [assert_of (by omega), assert_of (by omega), assert_of (by omega), if_pos (by omega)]
  rfl

theorem placeBlock_sliver (hs : 20 ≤ s) (hlt : s < n) (hsn : n ≤ s + 20)
    (hn : a + n ≤ A.heap.allocatedEnd) (he : A.heap.allocatedEnd < 2 ^ 32) :
    placeBlock a n s A = .error
      (.assertion "We have free space in the hole, but not enough to make a new one") := by
  unfold placeBlock
  simp only [u32_of_lt (show a + s < 2 ^ 32 by omega), sub32_of_le (show 8 ≤ a + s by omega)
    (by omega), sub32_of_le (show s ≤ n by omega) (by omega)]
  rw [assert_of (by omega), assert_of_not (by omega), if_pos (by omega)]
  rfl

/-- With room in the index, and no rest or one that holds a header and a footer, placing the block
does not panic. -/
theorem placeBlock_total (hs : 20 ≤ s) (hrest : n = s ∨ s + 20 < n)
    (hn : a + n ≤ A.heap.allocatedEnd) (he : A.heap.allocatedEnd < 2 ^ 32)
    (hroom : A.heap.index.array.length < A.heap.index.maxSize) :
    ∃ A', placeBlock a n s A = .ok (a + 12, A') := by
  rcases hrest with rfl | hgap
  · exact ⟨_, placeBlock_exact hs hn he⟩
  · rw [placeBlock_split hs hgap hn he, orderedArrayInsert_of_room _ _ _ hroom]
    exact ⟨_, rfl⟩

end Place

theorem onlyIn_blockMem (m : Mem) {a s : ℕ} (hs : 20 ≤ s) : OnlyIn a (a + s) m (blockMem m a s) :=
  onlyIn_writeTags m false hs

theorem onlyIn_splitMem (m : Mem) {a n s : ℕ} (hs : 20 ≤ s) (hsn : s + 20 ≤ n) :
    OnlyIn a (a + n) m (splitMem m a n s) := by
  have h := onlyIn_writeTags (blockMem m a s) (a := a + s) (n := n - s) true (by omega)
  rw [show a + s + (n - s) = a + n by omega] at h
  exact ((onlyIn_blockMem m hs).mono (by omega) (by omega)).trans (h.mono (by omega) (by omega))

theorem tileOK_blockMem (m : Mem) {a s size : ℕ} (hs : size + 20 ≤ s) (hlt : a + s < 2 ^ 32) :
    TileOK (blockMem m a s) ⟨a, s, .used size⟩ :=
  tileOK_write m (k := .used size) (by omega) hlt (by simp) (by rintro k ⟨⟩; exact hs)

theorem tileOK_splitMem (m : Mem) {a n s size : ℕ} (hs : size + 20 ≤ s) (hsn : s + 20 ≤ n)
    (hlt : a + n < 2 ^ 32) :
    TileOK (splitMem m a n s) ⟨a, s, .used size⟩ ∧
      TileOK (splitMem m a n s) ⟨a + s, n - s, .free⟩ := by
  have e : a + s + (n - s) = a + n := by omega
  have hw := onlyIn_writeTags (blockMem m a s) (a := a + s) (n := n - s) true (by omega)
  have hr := tileOK_write (blockMem m a s) (a := a + s) (n := n - s) (k := .free) (by omega)
    (by omega) (by simp) (by rintro k ⟨⟩)
  rw [e] at hw hr
  exact ⟨(tileOK_blockMem m hs (by omega)).congr (hw.sameOn (Or.inl (Nat.le_refl _))), hr⟩

/-! ## The husk on the left -/

/-- The memory after the tags of the left hole, whose size ends up 0. -/
def huskMem (m : Mem) (a offset : ℕ) : Mem :=
  store32 (writeFooter (writeHeader m a offset true) (a + offset - 8) a) (a + 8) 0

theorem headerSize_left (m : Mem) {a o : ℕ} (ho : 20 ≤ o) (hlt : o < 2 ^ 32) :
    headerSize (writeFooter (writeHeader m a o true) (a + o - 8) a) a = o := by
  have hs : SameOn a (a + 12) _ _ :=
    (onlyIn_writeFooter (writeHeader m a o true) (a + o - 8) a).sameOn (by omega)
  rw [SameOn.headerSize hs (by omega) (by omega), headerSize_writeHeader _ _ _ hlt]

/-- The left hole keeps its magic and its footer, and its size is decremented to 0. -/
theorem splitLeft_eq {i a n : ℕ} {A : Arena} (hmis : (a + 12) % 4096 ≠ 0)
    (hon : pageAlignGetOffset a ≤ n) (hn : a + n < 2 ^ 32) (hn12 : 12 ≤ n) :
    splitLeft i a n A = (do
      let index ← orderedArrayRemove A.heap.index i
      let index ← orderedArrayInsert (headerLess (huskMem A.mem a (pageAlignGetOffset a))) index a
      return ((a + pageAlignGetOffset a, n - pageAlignGetOffset a),
        ⟨{ A.heap with index := index }, huskMem A.mem a (pageAlignGetOffset a)⟩)) := by
  obtain ⟨h20, hle, _⟩ := pageAlignGetOffset_misaligned (a := a) (by omega) hmis
  unfold splitLeft huskMem
  generalize pageAlignGetOffset a = o at *
  simp only [u32_of_lt (show a + o < 2 ^ 32 by omega),
    sub32_of_le (show 8 ≤ a + o by omega) (by omega), sub32_of_le hon (by omega),
    headerSize_left A.mem (show 20 ≤ o by omega) (show o < 2 ^ 32 by omega),
    sub32_of_le (Nat.le_refl o) (by omega), Nat.sub_self]
  rw [assert_of (by omega)]
  rfl

theorem onlyIn_huskMem (m : Mem) {a o : ℕ} (ho : 20 ≤ o) : OnlyIn a (a + o) m (huskMem m a o) :=
  (onlyIn_writeTags m true ho).store32 (by omega) (by omega)

theorem tileOK_huskMem (m : Mem) {a o : ℕ} (ho : 20 ≤ o) (hlt : a + o < 2 ^ 32) :
    TileOK (huskMem m a o) ⟨a, o, .husk⟩ := by
  obtain ⟨_, hmagic, hhole, _, hfoot, _⟩ := tileOK_mk.mp
    (tileOK_write m (k := .free) ho hlt (by simp) (by rintro k ⟨⟩))
  obtain ⟨hfm, hfh⟩ := hfoot (by simp)
  refine tileOK_mk.mpr ⟨ho, ?_, ?_, ?_, ?_, by rintro k ⟨⟩⟩
  · unfold headerMagic huskMem
    rw [load32_store32_of_disjoint _ _ _ _ (by omega)]
    exact hmagic
  · unfold headerIsHole huskMem
    rw [load32_store32_of_disjoint _ _ _ _ (by omega)]
    exact hhole
  · unfold headerSize huskMem
    exact load32_store32_self _ _ _ (by decide)
  · intro _
    unfold footerMagic footerHeader huskMem at *
    rw [load32_store32_of_disjoint _ _ _ _ (by omega),
      load32_store32_of_disjoint _ _ _ _ (by omega)]
    exact ⟨hfm, hfh⟩

/-! ## The segments left behind -/

/-- How far the block is moved up inside its hole. -/
def leftOffset (a : ℕ) (pageAlign : Bool) : ℕ := if pageAlign then pageAlignGetOffset a else 0

/-- The length of the block in a hole of `n` bytes: a small rest goes to the block. -/
def blockLen (n s : ℕ) : ℕ := if n - s ≤ 20 then n else s

/-- The husk in front of a moved block. -/
def leftPart (a o : ℕ) : List Tile := if o = 0 then [] else [⟨a, o, .husk⟩]

/-- The hole behind a block of `s` bytes at `a` that was given `n` bytes. -/
def rightPart (a n s : ℕ) : List Tile := if n = s then [] else [⟨a + s, n - s, .free⟩]

/-- What becomes of the hole `t` when it serves a request of `size` bytes. -/
def carved (t : Tile) (size : ℕ) (pageAlign : Bool) : List Tile :=
  let o := leftOffset t.addr pageAlign
  let s := blockLen t.len (size + 20)
  leftPart t.addr o ++ ⟨t.addr + o, s, .used size⟩ :: rightPart (t.addr + o) (t.len - o) s

theorem tiles_leftPart (a o : ℕ) : Tiles a (leftPart a o) (a + o) := by
  unfold leftPart
  split
  · subst_vars
    rfl
  · exact ⟨rfl, rfl⟩

theorem tiles_rightPart {a n s : ℕ} (h : s ≤ n) : Tiles (a + s) (rightPart a n s) (a + n) := by
  unfold rightPart
  split
  · subst_vars
    rfl
  · refine ⟨rfl, ?_⟩
    show a + s + (n - s) = a + n
    omega

theorem blockLen_ge {n s : ℕ} (h : s ≤ n) : s ≤ blockLen n s := by
  unfold blockLen
  split <;> omega

theorem blockLen_le {n s : ℕ} (h : s ≤ n) : blockLen n s ≤ n := by
  unfold blockLen
  split <;> omega

/-! ## The two stages -/

/-- What the first stage, which takes the hole `[a, ..)` with index `i` out of the index, does to
the arena when it leaves a husk of `o` bytes. -/
structure Claimed (A A' : Arena) (i a o : ℕ) : Prop where
  extent : SameExtent A.heap A'.heap
  writes : OnlyIn a (a + o) A.mem A'.mem
  tags : ∀ t ∈ leftPart a o, TileOK A'.mem t
  inRange : i < A.heap.index.array.length
  index : A'.heap.index.array =
    if o = 0 then A.heap.index.array.eraseIdx i
    else bubblePass (headerLess A'.mem) (A.heap.index.array.eraseIdx i ++ [a])

theorem takeHole_of_lt {i a n : ℕ} {A : Arena} (h : i < A.heap.index.array.length) :
    takeHole i a n A = .ok ((a, n), { A with heap := { A.heap with
      index := { A.heap.index with array := A.heap.index.array.eraseIdx i } } }) := by
  unfold takeHole
  rw [orderedArrayRemove_of_lt _ _ h]
  rfl

theorem takeHole_ok {i a n : ℕ} {A A' : Arena} {r : ℕ × ℕ} (h : takeHole i a n A = .ok (r, A')) :
    r = (a, n) ∧ Claimed A A' i a 0 := by
  obtain ⟨index, hr, he⟩ := except_bind_ok h
  obtain ⟨hlt, rfl⟩ := orderedArrayRemove_ok hr
  cases he
  exact ⟨rfl, ⟨rfl, rfl, rfl, rfl⟩, OnlyIn.refl _ _ _, by simp [leftPart], hlt, by simp⟩

theorem splitLeft_ok {i a n : ℕ} {A A' : Arena} {r : ℕ × ℕ} (hmis : (a + 12) % 4096 ≠ 0)
    (hon : pageAlignGetOffset a ≤ n) (hn : a + n < 2 ^ 32) (hn12 : 12 ≤ n)
    (h : splitLeft i a n A = .ok (r, A')) :
    r = (a + pageAlignGetOffset a, n - pageAlignGetOffset a) ∧
      Claimed A A' i a (pageAlignGetOffset a) := by
  obtain ⟨h20, hle, _⟩ := pageAlignGetOffset_misaligned (a := a) (by omega) hmis
  rw [splitLeft_eq hmis hon hn hn12] at h
  obtain ⟨index, hr, h⟩ := except_bind_ok h
  obtain ⟨index', hi, h⟩ := except_bind_ok h
  obtain ⟨hlt, rfl⟩ := orderedArrayRemove_ok hr
  obtain ⟨_, rfl⟩ := orderedArrayInsert_ok hi
  cases h
  have ho : pageAlignGetOffset a ≠ 0 := by omega
  refine ⟨rfl, ⟨rfl, rfl, rfl, rfl⟩, onlyIn_huskMem A.mem (by omega), ?_, hlt, by simp [ho]⟩
  intro t ht
  rw [leftPart, if_neg ho, List.mem_singleton] at ht
  subst ht
  exact tileOK_huskMem A.mem (by omega) (by omega)

/-- What the second stage does when it places a block of `s` bytes at `a`, with `n` bytes there. -/
structure Placed (A A' : Arena) (a n s size : ℕ) : Prop where
  extent : SameExtent A.heap A'.heap
  writes : OnlyIn a (a + n) A.mem A'.mem
  block : TileOK A'.mem ⟨a, s, .used size⟩
  tags : ∀ t ∈ rightPart a n s, TileOK A'.mem t
  rest : n = s ∨ s + 20 < n
  index : A'.heap.index.array =
    if n = s then A.heap.index.array
    else bubblePass (headerLess A'.mem) (A.heap.index.array ++ [a + s])

theorem placeBlock_ok {a n s size p : ℕ} {A A' : Arena} (hs : size + 20 ≤ s) (hsn : s ≤ n)
    (hn : a + n ≤ A.heap.allocatedEnd) (he : A.heap.allocatedEnd < 2 ^ 32)
    (h : placeBlock a n s A = .ok (p, A')) : p = a + 12 ∧ Placed A A' a n s size := by
  rcases Nat.lt_or_ge (s + 20) n with hgap | hgap
  · rw [placeBlock_split (by omega) hgap hn he] at h
    obtain ⟨index, hi, h⟩ := except_bind_ok h
    obtain ⟨_, rfl⟩ := orderedArrayInsert_ok hi
    cases h
    obtain ⟨hb, hr⟩ := tileOK_splitMem A.mem hs (n := n) (by omega) (by omega : a + n < 2 ^ 32)
    have hne : n ≠ s := by omega
    refine ⟨rfl, ⟨rfl, rfl, rfl, rfl⟩, onlyIn_splitMem A.mem (by omega) (by omega), hb, ?_,
      Or.inr hgap, by simp [hne]⟩
    intro t ht
    rw [rightPart, if_neg hne, List.mem_singleton] at ht
    subst ht
    exact hr
  · rcases Nat.eq_or_lt_of_le hsn with rfl | hlt
    · rw [placeBlock_exact (by omega) hn he] at h
      cases h
      exact ⟨rfl, ⟨rfl, rfl, rfl, rfl⟩, onlyIn_blockMem A.mem (by omega),
        tileOK_blockMem A.mem hs (by omega), by simp [rightPart], Or.inl rfl, by simp⟩
    · rw [placeBlock_sliver (by omega) hlt hgap hn he] at h
      exact nomatch h

/-! ## The whole carving -/

/-- What `carve` does to the arena when it serves `size` bytes from the hole `t` of index `i`. -/
structure Carved (A A' : Arena) (i : ℕ) (t : Tile) (size : ℕ) (pageAlign : Bool) (p : ℕ) :
    Prop where
  result : p = t.addr + leftOffset t.addr pageAlign + 12
  stages : ∃ A₁, Claimed A A₁ i t.addr (leftOffset t.addr pageAlign) ∧
    Placed A₁ A' (t.addr + leftOffset t.addr pageAlign) (t.len - leftOffset t.addr pageAlign)
      (blockLen t.len (size + 20)) size

theorem leftOffset_of_aligned {a : ℕ} {pageAlign : Bool} (ha : a + 12 < 2 ^ 32)
    (h : ¬(pageAlign = true ∧ u32 (a + 12) % 4096 ≠ 0)) : leftOffset a pageAlign = 0 := by
  rw [u32_of_lt ha] at h
  cases pageAlign with
  | false => rfl
  | true => exact pageAlignGetOffset_aligned ha (by simpa using h)

theorem carve_ok {A A' : Arena} {i p size : ℕ} {t : Tile} {pageAlign : Bool}
    (hi : A.heap.index.array[i]? = some t.addr) (hsz : headerSize A.mem t.addr = t.len)
    (hfit : leftOffset t.addr pageAlign + (size + 20) ≤ t.len)
    (hend : t.addr + t.len ≤ A.heap.allocatedEnd) (he : A.heap.allocatedEnd < 2 ^ 32)
    (h : carve i (size + 20) pageAlign A = .ok (p, A')) : Carved A A' i t size pageAlign p := by
  unfold carve at h
  rw [except_bind_of_ok (orderedArrayIndex_of_getElem? hi)] at h
  dsimp only at h
  rw [hsz, sub32_of_le (by omega) (by omega)] at h
  have hlen : (if t.len - (size + 20) ≤ 12 + 8 then t.len else size + 20) =
      blockLen t.len (size + 20) := rfl
  rw [hlen] at h
  obtain ⟨⟨⟨addr, n⟩, A₁⟩, h1, h2⟩ := except_bind_ok h
  unfold claimHole at h1
  have hstage : (addr, n) = (t.addr + leftOffset t.addr pageAlign,
      t.len - leftOffset t.addr pageAlign) ∧
      Claimed A A₁ i t.addr (leftOffset t.addr pageAlign) := by
    by_cases hmis : pageAlign = true ∧ u32 (t.addr + 12) % 4096 ≠ 0
    · rw [if_pos hmis] at h1
      obtain ⟨rfl, hm⟩ := hmis
      rw [u32_of_lt (by omega)] at hm
      exact splitLeft_ok hm (by unfold leftOffset at hfit; simp at hfit; omega) (by omega)
        (by omega) h1
    · rw [if_neg hmis] at h1
      rw [leftOffset_of_aligned (by omega) hmis]
      exact takeHole_ok h1
  obtain ⟨hpair, hclaim⟩ := hstage
  cases hpair
  dsimp only at h2
  -- a moved block never absorbs the rest: the rest is larger than the offset
  have hs : blockLen t.len (size + 20) ≤ t.len - leftOffset t.addr pageAlign := by
    unfold blockLen
    split
    · have : leftOffset t.addr pageAlign = 0 := by
        by_contra hne
        have hmis : pageAlign = true ∧ u32 (t.addr + 12) % 4096 ≠ 0 := by
          by_contra hc
          exact hne (leftOffset_of_aligned (by omega) hc)
        obtain ⟨rfl, hm⟩ := hmis
        rw [u32_of_lt (by omega)] at hm
        have h20 := (pageAlignGetOffset_misaligned (by omega) hm).1
        unfold leftOffset at hfit
        simp at hfit
        omega
      omega
    · omega
  have hstop := hclaim.extent.stop
  obtain ⟨rfl, hplace⟩ := placeBlock_ok
    (blockLen_ge (by omega) : size + 20 ≤ blockLen t.len (size + 20)) hs
    (by rw [hstop]; omega) (by rw [hstop]; exact he) h2
  exact ⟨rfl, A₁, hclaim, hplace⟩

end Evos
