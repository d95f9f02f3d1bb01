import Evos.Kheap.HoleIndex

/-! # Freeing a block

`heap_free` marks the block as a hole, joins it to a recognised hole on its left, joins the result to
a hole on its right, and adds it to the index unless the left hole stands for it there. `Pending`
is the invariant in between: the index misses the headers listed. -/

namespace Evos
open ByteMemory Segments BubblePass Outcome
set_option autoImplicit false

/-- The invariant with some holes not in the index yet. -/
structure Pending (a : Arena) (ts : List Tile) (missing : List ℕ) : Prop
    extends HeapBody a.heap a.mem ts where
  index : (missing ++ a.heap.index.array).Perm (holes ts)

theorem Pending.heapInv {a : Arena} {ts : List Tile} (h : Pending a ts []) : HeapInv a ts :=
  ⟨h.toHeapBody, h.index⟩

/-! ## What a correct merge needs -/

/-- The footer in front of `header`, where it passes the test, belongs to an indexed hole that ends
at `header`. -/
def JoinsLeft (header : ℕ) (a : Arena) : Prop :=
  MergesLeft header a →
    footerHeader a.mem (header - 8) ∈ a.heap.index.array ∧
      footerHeader a.mem (header - 8) + headerSize a.mem (footerHeader a.mem (header - 8)) = header

/-- The hole behind `header`, where there is one, records its size. -/
def JoinsRight (header : ℕ) (a : Arena) : Prop :=
  MergesRight header a → headerSize a.mem (header + headerSize a.mem header) ≠ 0

/-- The arena after `header->is_hole = TRUE`. -/
def Arena.marked (a : Arena) (header : ℕ) : Arena := { a with mem := store32 a.mem (header + 4) 1 }

/-- Freeing `ptr` joins holes whose tags are right. -/
def JoinsHoles (a : Arena) (ptr : ℕ) : Prop :=
  JoinsLeft (ptr - 12) (a.marked (ptr - 12)) ∧ JoinsRight (ptr - 12) (a.marked (ptr - 12))

/-! ## Marking -/

theorem onlyIn_marked (a : Arena) {t : Tile} (hl : 20 ≤ t.len) :
    OnlyIn t.addr t.stop a.mem (a.marked t.addr).mem :=
  (OnlyIn.refl _ _ _).store32 (by omega) (by unfold Seg.stop; omega)

theorem tileOK_marked {a : Arena} {t : Tile} {size : ℕ} (hok : TileOK a.mem t)
    (hk : t.kind = .used size) : TileOK (a.marked t.addr).mem ⟨t.addr, t.len, .free⟩ := by
  have hl := hok.minLen
  have hs := hok.size
  have hf := hok.footer (by simp [hk])
  rw [recorded, if_neg (by simp [hk])] at hs
  unfold Seg.stop at hf
  refine tileOK_mk.mpr ⟨hl, ?_, ?_, ?_, fun _ => ⟨?_, ?_⟩, by rintro k ⟨⟩⟩
  · exact (load32_store32_of_disjoint _ _ _ _ (by omega)).trans hok.magic
  · exact load32_store32_self _ _ _ (by decide)
  · exact (load32_store32_of_disjoint _ _ _ _ (by omega)).trans hs
  · exact (load32_store32_of_disjoint _ _ _ _ (by omega)).trans hf.1
  · exact (load32_store32_of_disjoint _ _ _ _ (by omega)).trans hf.2

theorem HeapInv.mark {a : Arena} {pre post : List Tile} {t : Tile} {size : ℕ}
    (h : HeapInv a (pre ++ t :: post)) (hk : t.kind = .used size) :
    Pending (a.marked t.addr) (pre ++ ⟨t.addr, t.len, .free⟩ :: post) [t.addr] := by
  have ht : t ∈ pre ++ t :: post := by simp
  obtain ⟨hpre, _⟩ := tiles_middle.mp h.tiles
  have h0 := h.toHeapBody
  rw [show pre ++ t :: post = pre ++ [t] ++ post by simp] at h0
  have hb : HeapBody (a.marked t.addr).heap _ _ := h0.replace [⟨t.addr, t.len, .free⟩] t.stop hpre
    ⟨rfl, rfl⟩ ⟨rfl, rfl⟩ (SameExtent.refl _) (onlyIn_marked a (h.good t ht).minLen)
    (by simpa using tileOK_marked (h.good t ht) hk)
  refine ⟨by simpa using hb, ?_⟩
  have hi := h.index
  rw [holes_append, holes_cons_used _ (by rw [hk]; rfl)] at hi
  rw [holes_append, holes_cons_hole _ rfl]
  exact (hi.cons t.addr).trans List.perm_middle.symm

/-! ## The left merge -/

theorem Pending.left_tile {a : Arena} {pre post : List Tile} {t : Tile} {x : ℕ}
    (h : Pending a (pre ++ t :: post) [t.addr]) (hk : t.kind = .free)
    (hx : x ∈ a.heap.index.array) (hend : x + headerSize a.mem x = t.addr) :
    ∃ pre' l, pre = pre' ++ [l] ∧ l.addr = x ∧ l.kind.isHole = true ∧ l.kind ≠ .husk := by
  have ht : t ∈ pre ++ t :: post := by simp
  obtain ⟨u, hu, hhole, rfl⟩ := mem_holes.mp (h.index.subset (List.mem_append_right _ hx))
  have hsize := (h.good u hu).size
  rw [hsize] at hend
  have hne : u ≠ t := by
    rintro rfl
    have := (h.good u ht).minLen
    rw [recorded, if_neg (by simp [hk])] at hend
    omega
  have hnh : u.kind ≠ .husk := by
    intro he
    rw [recorded, if_pos he] at hend
    exact hne (h.tiles.eq_of_addr h.len_pos hu ht (by omega))
  rw [recorded, if_neg hnh] at hend
  rcases List.mem_append.mp hu with hup | hup
  · obtain ⟨p₁, p₂, rfl⟩ := List.append_of_mem hup
    cases p₂ with
    | nil => exact ⟨p₁, u, rfl, rfl, hhole, hnh⟩
    | cons v p₂ =>
      have htiles := h.tiles
      obtain ⟨hpre, _⟩ := tiles_middle.mp htiles
      obtain ⟨_, hv, hrest⟩ := tiles_middle.mp hpre
      have := hrest.le
      have := h.len_pos v (by simp)
      unfold Seg.stop at *
      omega
  · obtain ⟨_, hpost⟩ := tiles_middle.mp h.tiles
    rcases List.mem_cons.mp hup with rfl | hup
    · exact absurd rfl hne
    · have := (hpost.bounds hup).1
      have := (h.good t ht).minLen
      unfold Seg.stop at *
      omega

/-- The hole `l` is the one the footer in front of `t` names. -/
structure Recognised (a : Arena) (l t : Tile) : Prop where
  isHole : l.kind.isHole = true
  notHusk : l.kind ≠ .husk
  merges : MergesLeft t.addr a
  named : footerHeader a.mem (t.addr - 8) = l.addr

/-- What the left merge of `t` into the hole `l` does. -/
structure JoinedLeft (a a' : Arena) (pre : List Tile) (l t : Tile) (post : List Tile) : Prop where
  inv : HeapInv a' (pre ++ ⟨l.addr, l.len + t.len, .free⟩ :: post)
  extent : SameExtent a.heap a'.heap
  writes : OnlyIn l.addr t.stop a.mem a'.mem
  index : a'.heap.index.array = bubblePass (headerLess a'.mem) a.heap.index.array

/-- The memory after the left merge of `[h, h + b)` into `[x, x + n)`. -/
def leftMem (m : Mem) (x n h b : ℕ) : Mem :=
  store32 (store32 m (h + b - 8 + 4) x) (x + 8) (n + b)

theorem tileOK_leftMem {m : Mem} {l t : Tile} (hl : TileOK m l) (hlk : l.kind.isHole = true)
    (ht : TileOK m t) (htk : t.kind = .free) (hadj : l.stop = t.addr) (hlt : t.stop < 2 ^ 32) :
    TileOK (leftMem m l.addr l.len t.addr t.len) ⟨l.addr, l.len + t.len, .free⟩ := by
  have h1 := hl.minLen
  have h2 := ht.minLen
  have hf := ht.footer (by simp [htk])
  have hh := hl.isHole
  rw [if_pos hlk] at hh
  unfold Seg.stop at *
  have e : l.addr + (l.len + t.len) - 8 = t.addr + t.len - 8 := by omega
  refine tileOK_mk.mpr ⟨by omega, ?_, ?_, ?_, fun _ => ?_, by rintro k ⟨⟩⟩
  · unfold headerMagic leftMem
    rw [load32_store32_of_disjoint _ _ _ _ (by omega),
      load32_store32_of_disjoint _ _ _ _ (by omega)]
    exact hl.magic
  · unfold headerIsHole leftMem
    rw [load32_store32_of_disjoint _ _ _ _ (by omega),
      load32_store32_of_disjoint _ _ _ _ (by omega)]
    exact hh
  · exact load32_store32_self _ _ _ (by omega)
  · rw [e]
    unfold footerMagic footerHeader leftMem at *
    rw [load32_store32_of_disjoint _ _ _ _ (by omega),
      load32_store32_of_disjoint _ _ _ _ (by omega),
      load32_store32_of_disjoint _ _ _ _ (by omega)]
    exact ⟨hf.1, load32_store32_self _ _ _ (by omega)⟩

theorem onlyIn_leftMem (m : Mem) {x n h b : ℕ} (hn : 20 ≤ n) (hb : 20 ≤ b) (hadj : x + n = h) :
    OnlyIn x (h + b) m (leftMem m x n h b) :=
  ((OnlyIn.refl _ _ _).store32 (by omega) (by omega)).store32 (by omega) (by omega)

theorem mergeLeft_eq {a : Arena} {l t : Tile} (hm : MergesLeft t.addr a) (hl : TileOK a.mem l)
    (hlk : l.kind ≠ .husk) (ht : TileOK a.mem t) (htk : t.kind = .free) (hadj : l.stop = t.addr)
    (hlt : t.stop < 2 ^ 32) (hfoot : footerHeader a.mem (t.addr - 8) = l.addr) :
    mergeLeft t.addr (t.stop - 8) a = .ok ((l.addr, false),
      ⟨{ a.heap with index := { a.heap.index with
          array := bubblePass (headerLess (leftMem a.mem l.addr l.len t.addr t.len))
            a.heap.index.array } }, leftMem a.mem l.addr l.len t.addr t.len⟩) := by
  have h1 := hl.minLen
  have h2 := ht.minLen
  have hls := hl.size
  have hts := ht.size
  rw [recorded, if_neg hlk] at hls
  rw [recorded, if_neg (by simp [htk])] at hts
  unfold Seg.stop at *
  have hfoot' : footerHeader (store32 a.mem (t.addr + t.len - 8 + 4) l.addr) (t.addr - 8) =
      l.addr := by
    unfold footerHeader at *
    rw [load32_store32_of_disjoint _ _ _ _ (by omega)]
    exact hfoot
  have hfoot'' : footerHeader (leftMem a.mem l.addr l.len t.addr t.len) (t.addr - 8) = l.addr := by
    unfold footerHeader leftMem at *
    rw [load32_store32_of_disjoint _ _ _ _ (by omega)]
    exact hfoot'
  have hs1 : headerSize (store32 a.mem (t.addr + t.len - 8 + 4) l.addr) l.addr = l.len := by
    unfold headerSize at *
    rw [load32_store32_of_disjoint _ _ _ _ (by omega)]
    exact hls
  have hs2 : headerSize (store32 a.mem (t.addr + t.len - 8 + 4) l.addr) t.addr = t.len := by
    unfold headerSize at *
    rw [load32_store32_of_disjoint _ _ _ _ (by omega)]
    exact hts
  unfold mergeLeft
  rw [if_pos hm, sub32_of_le (show 8 ≤ t.addr by omega) (by omega)]
  simp only [hfoot, hfoot', hs1, hs2, orderedArrayChangedElement_array,
    u32_of_lt (show l.len + t.len < 2 ^ 32 by omega)]
  rw [show store32 (store32 a.mem (t.addr + t.len - 8 + 4) l.addr) (l.addr + 8) (l.len + t.len) =
    leftMem a.mem l.addr l.len t.addr t.len from rfl, hfoot'', assert_of hl.magic]
  rfl

theorem Pending.mergeLeft {a a' : Arena} {pre post : List Tile} {t : Tile} {r : ℕ × Bool}
    (h : Pending a (pre ++ t :: post) [t.addr]) (hk : t.kind = .free) (hj : JoinsLeft t.addr a)
    (hm : Evos.mergeLeft t.addr (t.stop - 8) a = .ok (r, a')) :
    (¬MergesLeft t.addr a ∧ r = (t.addr, true) ∧ a' = a) ∨
    (∃ pre' l, pre = pre' ++ [l] ∧ Recognised a l t ∧ r = (l.addr, false) ∧
      JoinedLeft a a' pre' l t post) := by
  by_cases hml : MergesLeft t.addr a
  · refine Or.inr ?_
    obtain ⟨hx, hend⟩ := hj hml
    obtain ⟨pre', l, rfl, hfoot, hlk, hnh⟩ := h.left_tile hk hx hend
    have htm : t ∈ pre' ++ [l] ++ t :: post := by simp
    have hlm : l ∈ pre' ++ [l] ++ t :: post := by simp
    have ht := h.good t htm
    have hl := h.good l hlm
    obtain ⟨hpre, hpost⟩ := tiles_middle.mp h.tiles
    have hadj := hpre.last_stop
    have hb := h.bounds htm
    have hlt := h.end_lt
    have h1 := hl.minLen
    have h2 := ht.minLen
    have hsl := l.stop_eq
    have hst := t.stop_eq
    rw [mergeLeft_eq hml hl hnh ht hk hadj (by omega) hfoot.symm] at hm
    cases hm
    have hw : OnlyIn l.addr t.stop a.mem (leftMem a.mem l.addr l.len t.addr t.len) :=
      onlyIn_leftMem a.mem h1 h2 (by omega)
    refine ⟨pre', l, rfl, ⟨hlk, hnh, hml, hfoot.symm⟩, rfl,
      ⟨⟨?_, ?_⟩, ⟨rfl, rfl, rfl, rfl⟩, hw, rfl⟩⟩
    · have h0 := h.toHeapBody
      rw [show pre' ++ [l] ++ t :: post = pre' ++ [l, t] ++ post by simp] at h0
      have hp := (tiles_middle.mp hpre).1
      have := h0.replace [⟨l.addr, l.len + t.len, .free⟩] t.stop hp
        ⟨rfl, hadj.symm, rfl⟩ ⟨rfl, by show l.addr + (l.len + t.len) = t.stop; omega⟩
        (SameExtent.refl _) hw (by simpa using tileOK_leftMem hl hlk ht hk hadj (by omega))
      rw [List.append_assoc] at this
      exact ⟨this.tiles, this.start_ge, this.end_lt, this.max_lt, this.good⟩
    · have hi := h.index
      rw [holes_append, holes_append, holes_cons_hole _ hlk, holes_cons_hole _ (by rw [hk]; rfl)] at hi
      rw [holes_append, holes_cons_hole _ rfl]
      refine (bubblePass_perm _ _).trans ?_
      have := hi.trans List.perm_middle
      simpa using this.cons_inv
  · refine Or.inl ⟨hml, ?_⟩
    unfold Evos.mergeLeft at hm
    rw [if_neg hml] at hm
    cases hm
    exact ⟨rfl, rfl⟩

theorem Pending.mergeLeft_total {a : Arena} {pre post : List Tile} {t : Tile}
    (h : Pending a (pre ++ t :: post) [t.addr]) (hk : t.kind = .free) (hj : JoinsLeft t.addr a) :
    ∃ r a', Evos.mergeLeft t.addr (t.stop - 8) a = .ok (r, a') := by
  by_cases hml : MergesLeft t.addr a
  · obtain ⟨hx, hend⟩ := hj hml
    obtain ⟨pre', l, rfl, hfoot, _, hnh⟩ := h.left_tile hk hx hend
    have htm : t ∈ pre' ++ [l] ++ t :: post := by simp
    have hadj := (tiles_middle.mp h.tiles).1.last_stop
    have hb := h.bounds htm
    have hlt := h.end_lt
    have hst := t.stop_eq
    exact ⟨_, _, mergeLeft_eq hml (h.good l (by simp)) hnh (h.good t htm) hk hadj (by omega)
      hfoot.symm⟩
  · refine ⟨(t.addr, true), a, ?_⟩
    unfold Evos.mergeLeft
    rw [if_neg hml]
    rfl

/-! ## The right merge -/

/-- The memory after the right merge of `[y, y + k)` into `[x, x + n)`. -/
def rightMem (m : Mem) (x n k : ℕ) : Mem :=
  store32 (store32 m (x + 8) (n + k)) (x + (n + k) - 8 + 4) x

theorem tileOK_rightMem {m : Mem} {g r : Tile} (hg : TileOK m g) (hgk : g.kind = .free)
    (hr : 20 ≤ r.len) (hfoot : footerMagic m (r.stop - 8) = kheapMagic) (hadj : g.stop = r.addr)
    (hlt : r.stop < 2 ^ 32) :
    TileOK (rightMem m g.addr g.len r.len) ⟨g.addr, g.len + r.len, .free⟩ := by
  have h1 := hg.minLen
  have hh := hg.isHole
  rw [hgk, if_pos (by rfl)] at hh
  unfold Seg.stop at *
  have e : g.addr + (g.len + r.len) - 8 = r.addr + r.len - 8 := by omega
  refine tileOK_mk.mpr ⟨by omega, ?_, ?_, ?_, fun _ => ⟨?_, ?_⟩, by rintro k ⟨⟩⟩
  · unfold headerMagic rightMem
    rw [load32_store32_of_disjoint _ _ _ _ (by omega),
      load32_store32_of_disjoint _ _ _ _ (by omega)]
    exact hg.magic
  · unfold headerIsHole rightMem
    rw [load32_store32_of_disjoint _ _ _ _ (by omega),
      load32_store32_of_disjoint _ _ _ _ (by omega)]
    exact hh
  · unfold headerSize rightMem
    rw [load32_store32_of_disjoint _ _ _ _ (by omega)]
    exact load32_store32_self _ _ _ (by omega)
  · rw [← e] at hfoot
    unfold footerMagic rightMem at *
    rw [load32_store32_of_disjoint _ _ _ _ (by omega),
      load32_store32_of_disjoint _ _ _ _ (by omega)]
    exact hfoot
  · exact load32_store32_self _ _ _ (by omega)

theorem onlyIn_rightMem (m : Mem) {x n k : ℕ} (hn : 20 ≤ n) (hk : 20 ≤ k) :
    OnlyIn x (x + n + k) m (rightMem m x n k) :=
  ((OnlyIn.refl _ _ _).store32 (by omega) (by omega)).store32 (by omega) (by omega)

theorem mergeRight_eq {a : Arena} {g r : Tile} (hm : MergesRight g.addr a) (hg : TileOK a.mem g)
    (hgk : g.kind = .free) (hr : TileOK a.mem r) (hrk : r.kind ≠ .husk) (hadj : g.stop = r.addr)
    (hlt : r.stop < 2 ^ 32) :
    mergeRight g.addr a = (do
      assert (footerMagic (store32 a.mem (g.addr + 8) (g.len + r.len)) (r.stop - 8) = kheapMagic)
        "right footer magic does not match"
      assert (a.heap.index.array.findIdx (· == r.addr) ≠ a.heap.index.size)
        "Cannot find right hole in index"
      let index ← orderedArrayRemove a.heap.index (a.heap.index.array.findIdx (· == r.addr))
      return ⟨{ a.heap with index := index }, rightMem a.mem g.addr g.len r.len⟩) := by
  have h1 := hg.minLen
  have h2 := hr.minLen
  have hgs := hg.size
  have hrs := hr.size
  rw [recorded, if_neg (by simp [hgk])] at hgs
  rw [recorded, if_neg hrk] at hrs
  unfold Seg.stop at *
  have hs : headerSize (store32 a.mem (g.addr + 8) (g.len + r.len)) g.addr = g.len + r.len :=
    load32_store32_self _ _ _ (by omega)
  have e : g.addr + (g.len + r.len) - 8 = r.addr + r.len - 8 := by omega
  unfold mergeRight
  rw [if_pos hm]
  simp only [hgs, hadj, u32_of_lt (show r.addr < 2 ^ 32 by omega), hrs,
    u32_of_lt (show g.len + r.len < 2 ^ 32 by omega), hs,
    u32_of_lt (show g.addr + (g.len + r.len) < 2 ^ 32 by omega),
    sub32_of_le (show 8 ≤ g.addr + (g.len + r.len) by omega) (by omega)]
  unfold rightMem
  rw [e]

/-- What the right merge of the hole `r` into `g` does. -/
structure JoinedRight (a a' : Arena) (pre : List Tile) (g r : Tile) (post : List Tile)
    (missing : List ℕ) : Prop where
  inv : Pending a' (pre ++ ⟨g.addr, g.len + r.len, .free⟩ :: post) missing
  extent : SameExtent a.heap a'.heap
  writes : OnlyIn g.addr r.stop a.mem a'.mem
  index : ∃ i, a.heap.index.array[i]? = some r.addr ∧
    a'.heap.index.array = a.heap.index.array.eraseIdx i

theorem HeapBody.mergesRight_iff {a : Arena} {pre post : List Tile} {g : Tile}
    (h : HeapBody a.heap a.mem (pre ++ g :: post)) (hk : g.kind ≠ .husk) :
    MergesRight g.addr a ↔ ∃ r post', post = r :: post' ∧ r.kind.isHole = true := by
  have hgm : g ∈ pre ++ g :: post := by simp
  obtain ⟨hlo, hhi⟩ := h.bounds hgm
  have hlt := h.end_lt
  have hgs := (h.good g hgm).size
  rw [recorded, if_neg hk] at hgs
  have hpost := (tiles_middle.mp h.tiles).2
  have hsg := g.stop_eq
  unfold MergesRight
  rw [hgs, u32_of_lt (by omega)]
  cases post with
  | nil =>
    have hstop : g.stop = a.heap.allocatedEnd := hpost
    constructor
    · rintro ⟨hc, _⟩
      omega
    · rintro ⟨r, post', hc, _⟩
      exact nomatch hc
  | cons r post =>
    obtain ⟨hr, _⟩ := hpost
    have hrm : r ∈ pre ++ g :: r :: post := by simp
    have hrok := h.good r hrm
    have hrb := h.bounds hrm
    have hrl := hrok.minLen
    have hri := hrok.isHole
    rw [show g.addr + g.len = r.addr from hsg.symm.trans hr.symm]
    constructor
    · rintro ⟨_, _, hc⟩
      refine ⟨r, post, rfl, ?_⟩
      by_contra hn
      rw [if_neg hn] at hri
      exact hc hri
    · rintro ⟨r', post', he, hrk⟩
      cases he
      rw [if_pos hrk] at hri
      exact ⟨by omega, hrok.magic, by omega⟩

theorem Pending.mergeRight {a a' : Arena} {pre post : List Tile} {g : Tile} {missing : List ℕ}
    (h : Pending a (pre ++ g :: post) missing) (hk : g.kind = .free)
    (hj : ∀ r post', post = r :: post' → r.kind.isHole = true → r.kind ≠ .husk)
    (hm : Evos.mergeRight g.addr a = .ok a') :
    (a' = a ∧ ∀ r post', post = r :: post' → r.kind.isHole = false) ∨
    (∃ r post', post = r :: post' ∧ r.kind.isHole = true ∧ JoinedRight a a' pre g r post' missing) := by
  by_cases hmr : MergesRight g.addr a
  · obtain ⟨r, post', rfl, hrk⟩ := (h.mergesRight_iff (by simp [hk])).mp hmr
    refine Or.inr ⟨r, post', rfl, hrk, ?_⟩
    have hgm : g ∈ pre ++ g :: r :: post' := by simp
    have hrm : r ∈ pre ++ g :: r :: post' := by simp
    have hg := h.good g hgm
    have hr := h.good r hrm
    have hnh := hj r post' rfl hrk
    obtain ⟨hpre, hadj, hpost⟩ := tiles_middle.mp h.tiles
    have hb := h.bounds hrm
    have hlt := h.end_lt
    have h1 := hg.minLen
    have h2 := hr.minLen
    have hsg := g.stop_eq
    have hsr := r.stop_eq
    rw [mergeRight_eq hmr hg hk hr hnh hadj.symm (by omega)] at hm
    obtain ⟨_, hfoot, hm⟩ := except_bind_ok hm
    obtain ⟨_, _, hm⟩ := except_bind_ok hm
    obtain ⟨index, hrem, hm⟩ := except_bind_ok hm
    obtain ⟨hin, rfl⟩ := orderedArrayRemove_ok hrem
    cases hm
    have hfoot' : footerMagic a.mem (r.stop - 8) = kheapMagic := by
      have := assert_ok hfoot
      unfold footerMagic at *
      rw [load32_store32_of_disjoint _ _ _ _ (by omega)] at this
      exact this
    have hget : a.heap.index.array[a.heap.index.array.findIdx (· == r.addr)]? = some r.addr := by
      have := List.findIdx_getElem (w := hin)
      rw [List.getElem?_eq_getElem hin]
      simpa using this
    have hw : OnlyIn g.addr r.stop a.mem (rightMem a.mem g.addr g.len r.len) := by
      have := onlyIn_rightMem a.mem (x := g.addr) h1 h2
      rw [show g.addr + g.len + r.len = r.stop by omega] at this
      exact this
    refine ⟨⟨?_, ?_⟩, ⟨rfl, rfl, rfl, rfl⟩, hw, _, hget, rfl⟩
    · have h0 := h.toHeapBody
      rw [show pre ++ g :: r :: post' = pre ++ [g, r] ++ post' by simp] at h0
      have := h0.replace [⟨g.addr, g.len + r.len, .free⟩] r.stop hpre
        ⟨rfl, hadj, rfl⟩ ⟨rfl, by show g.addr + (g.len + r.len) = r.stop; omega⟩
        (SameExtent.refl _) hw
        (by simpa using tileOK_rightMem hg hk h2 hfoot' hadj.symm (by omega))
      rw [List.append_assoc] at this
      exact ⟨this.tiles, this.start_ge, this.end_lt, this.max_lt, this.good⟩
    · have hi := h.index
      rw [holes_append, holes_cons_hole _ (by rw [hk]; rfl), holes_cons_hole _ hrk] at hi
      rw [holes_append, holes_cons_hole _ rfl]
      have h3 := List.getElem_cons_eraseIdx_perm hin
      rw [(List.getElem?_eq_some_iff.mp hget).2] at h3
      have h4 := (h3.append_left missing).trans hi
      have h5 : (r.addr :: (missing ++ a.heap.index.array.eraseIdx
          (a.heap.index.array.findIdx (· == r.addr)))).Perm
          (r.addr :: (holes pre ++ g.addr :: holes post')) := by
        refine List.perm_middle.symm.trans (h4.trans ?_)
        rw [show holes pre ++ g.addr :: r.addr :: holes post' =
          (holes pre ++ [g.addr]) ++ r.addr :: holes post' by simp]
        exact List.perm_middle.trans (by simp)
      exact h5.cons_inv
  · refine Or.inl ⟨?_, ?_⟩
    · unfold Evos.mergeRight at hm
      rw [if_neg hmr] at hm
      cases hm
      rfl
    · rintro r post' rfl
      by_contra hc
      exact hmr ((h.mergesRight_iff (by simp [hk])).mpr ⟨r, post', rfl, by simpa using hc⟩)

/-- A right merge of a hole with both tags does not panic, and adds nothing to the index. -/
theorem Pending.mergeRight_total {a : Arena} {pre post : List Tile} {g : Tile} {missing : List ℕ}
    (h : Pending a (pre ++ g :: post) missing) (hk : g.kind = .free)
    (hmiss : ∀ x ∈ missing, x = g.addr)
    (hj : ∀ r post', post = r :: post' → r.kind.isHole = true → r.kind ≠ .husk ∧ r.kind ≠ .raw) :
    ∃ a', Evos.mergeRight g.addr a = .ok a' ∧
      a'.heap.index.array.length ≤ a.heap.index.array.length := by
  by_cases hmr : MergesRight g.addr a
  · obtain ⟨r, post', rfl, hrk⟩ := (h.mergesRight_iff (by simp [hk])).mp hmr
    obtain ⟨hnh, hnr⟩ := hj r post' rfl hrk
    have hgm : g ∈ pre ++ g :: r :: post' := by simp
    have hrm : r ∈ pre ++ g :: r :: post' := by simp
    have hg := h.good g hgm
    have hr := h.good r hrm
    have hadj := (tiles_middle.mp h.tiles).2.1
    have hb := h.bounds hrm
    have hlt := h.end_lt
    have h1 := hg.minLen
    have h2 := hr.minLen
    have hsg := g.stop_eq
    have hsr := r.stop_eq
    have hfoot : footerMagic (store32 a.mem (g.addr + 8) (g.len + r.len)) (r.stop - 8) =
        kheapMagic := by
      have := (hr.footer hnr).1
      unfold footerMagic at *
      rw [load32_store32_of_disjoint _ _ _ _ (by omega)]
      exact this
    have hmem : r.addr ∈ a.heap.index.array := by
      have hin := h.index.symm.subset (mem_holes.mpr ⟨r, hrm, hrk, rfl⟩)
      rcases List.mem_append.mp hin with hin | hin
      · have := hmiss _ hin
        omega
      · exact hin
    have hfind : a.heap.index.array.findIdx (· == r.addr) < a.heap.index.array.length :=
      List.findIdx_lt_length.mpr ⟨r.addr, hmem, by simp⟩
    have hne : a.heap.index.array.findIdx (· == r.addr) ≠ a.heap.index.size := Nat.ne_of_lt hfind
    rw [mergeRight_eq hmr hg hk hr hnh hadj.symm (by omega), assert_of hfoot, assert_of hne,
      orderedArrayRemove_of_lt _ _ hfind]
    exact ⟨_, rfl, List.length_eraseIdx_le _ _⟩
  · refine ⟨a, ?_, Nat.le_refl _⟩
    unfold Evos.mergeRight
    rw [if_neg hmr]
    rfl

end Evos
