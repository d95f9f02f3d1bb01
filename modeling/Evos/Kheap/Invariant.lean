import Evos.Kheap.Tags
import Evos.Foundations.Segments

/-! # The boundary-tag invariant

The heap body is tiled by segments of four kinds. A well-formed heap has blocks and holes only; two
more kinds describe what the code really leaves behind:

* `raw`: the hole `heap_create` makes, whose footer is never written;
* `husk`: the left part of a page-aligned block, whose recorded size is 0.

`HeapInv` ties a tiling to the headers and footers in memory and to the index. -/

namespace Evos
open ByteMemory Segments
set_option autoImplicit false

/-- What a segment of the heap body is. -/
inductive Kind where
  /-- An allocated block; the argument is the size that was asked for. -/
  | used (size : ℕ)
  | free
  | husk
  | raw
  deriving DecidableEq

abbrev Tile := Seg Kind

def Kind.isHole : Kind → Bool
  | .used _ => false
  | _ => true

/-- The size its header records. -/
def recorded (t : Tile) : ℕ := if t.kind = .husk then 0 else t.len

/-- The headers of the holes, in address order. -/
def holes (ts : List Tile) : List ℕ := (ts.filter fun t => t.kind.isHole).map Seg.addr

/-- A segment with its header and footer in memory. -/
structure TileOK (m : Mem) (t : Tile) : Prop where
  minLen : 20 ≤ t.len
  magic : headerMagic m t.addr = kheapMagic
  isHole : headerIsHole m t.addr = if t.kind.isHole then 1 else 0
  size : headerSize m t.addr = recorded t
  footer : t.kind ≠ .raw →
    footerMagic m (t.stop - 8) = kheapMagic ∧ footerHeader m (t.stop - 8) = t.addr
  payload : ∀ n, t.kind = .used n → n + 20 ≤ t.len

/-- The tiling of the heap body, with every tag in memory. -/
structure HeapBody (h : Heap) (m : Mem) (ts : List Tile) : Prop where
  tiles : Tiles h.allocatedStart ts h.allocatedEnd
  start_ge : 8 ≤ h.allocatedStart
  end_lt : h.allocatedEnd < 2 ^ 32
  max_lt : h.maxAddr < 2 ^ 32
  good : ∀ t ∈ ts, TileOK m t

/-- The heap is tiled by tagged segments and the index lists the holes, each once. -/
structure HeapInv (a : Arena) (ts : List Tile) : Prop extends HeapBody a.heap a.mem ts where
  index : a.heap.index.array.Perm (holes ts)

/-! ## One segment -/

theorem tileOK_mk {m : Mem} {a n : ℕ} {k : Kind} :
    TileOK m ⟨a, n, k⟩ ↔ 20 ≤ n ∧ headerMagic m a = kheapMagic ∧
      headerIsHole m a = (if k.isHole then 1 else 0) ∧
      headerSize m a = (if k = .husk then 0 else n) ∧
      (k ≠ .raw → footerMagic m (a + n - 8) = kheapMagic ∧ footerHeader m (a + n - 8) = a) ∧
      ∀ size, k = .used size → size + 20 ≤ n :=
  ⟨fun h => ⟨h.minLen, h.magic, h.isHole, h.size, h.footer, h.payload⟩,
    fun ⟨h1, h2, h3, h4, h5, h6⟩ => ⟨h1, h2, h3, h4, h5, h6⟩⟩

theorem TileOK.congr {m m' : Mem} {t : Tile} (h : TileOK m t) (hs : SameOn t.addr t.stop m m') :
    TileOK m' t := by
  have hl := h.minLen
  have e := t.stop_eq
  refine ⟨hl, ?_, ?_, ?_, ?_, h.payload⟩
  · rw [SameOn.headerMagic hs (by omega) (by omega)]
    exact h.magic
  · rw [SameOn.headerIsHole hs (by omega) (by omega)]
    exact h.isHole
  · rw [SameOn.headerSize hs (by omega) (by omega)]
    exact h.size
  · intro hk
    rw [SameOn.footerMagic hs (by omega) (by omega), SameOn.footerHeader hs (by omega) (by omega)]
    exact h.footer hk

theorem tileOK_write (m : Mem) {a n : ℕ} {k : Kind} (hn : 20 ≤ n) (hlt : a + n < 2 ^ 32)
    (hk : k ≠ .husk) (hp : ∀ size, k = .used size → size + 20 ≤ n) :
    TileOK (writeFooter (writeHeader m a n k.isHole) (a + n - 8) a) ⟨a, n, k⟩ := by
  have hs : SameOn a (a + 12) _ _ :=
    (onlyIn_writeFooter (writeHeader m a n k.isHole) (a + n - 8) a).sameOn (by omega)
  refine tileOK_mk.mpr ⟨hn, ?_, ?_, ?_, ?_, hp⟩
  · rw [SameOn.headerMagic hs (by omega) (by omega), headerMagic_writeHeader]
  · rw [SameOn.headerIsHole hs (by omega) (by omega), headerIsHole_writeHeader]
  · rw [SameOn.headerSize hs (by omega) (by omega), headerSize_writeHeader _ _ _ (by omega),
      if_neg hk]
  · intro _
    exact ⟨footerMagic_writeFooter _ _ _, footerHeader_writeFooter _ _ (by omega)⟩

theorem onlyIn_writeTags (m : Mem) {a n : ℕ} (b : Bool) (hn : 20 ≤ n) :
    OnlyIn a (a + n) m (writeFooter (writeHeader m a n b) (a + n - 8) a) :=
  ((onlyIn_writeHeader m a n b).mono (by omega) (by omega)).trans
    ((onlyIn_writeFooter _ _ _).mono (by omega) (by omega))

/-! ## The holes of a tiling -/

@[simp] theorem holes_append (xs ys : List Tile) : holes (xs ++ ys) = holes xs ++ holes ys := by
  simp [holes]

@[simp] theorem holes_nil : holes [] = [] := rfl

theorem holes_cons_hole {t : Tile} (ts : List Tile) (h : t.kind.isHole = true) :
    holes (t :: ts) = t.addr :: holes ts := by
  simp [holes, h]

theorem holes_cons_used {t : Tile} (ts : List Tile) (h : t.kind.isHole = false) :
    holes (t :: ts) = holes ts := by
  simp [holes, h]

theorem mem_holes {ts : List Tile} {a : ℕ} :
    a ∈ holes ts ↔ ∃ t ∈ ts, t.kind.isHole = true ∧ t.addr = a := by
  simp [holes, and_assoc]

/-! ## Reading the invariant -/

theorem HeapBody.len_pos {h : Heap} {m : Mem} {ts : List Tile} (hb : HeapBody h m ts) :
    ∀ t ∈ ts, 0 < t.len := fun t ht => by
  have := (hb.good t ht).minLen
  omega

theorem HeapBody.bounds {h : Heap} {m : Mem} {ts : List Tile} (hb : HeapBody h m ts) {t : Tile}
    (ht : t ∈ ts) : h.allocatedStart ≤ t.addr ∧ t.addr + t.len ≤ h.allocatedEnd :=
  hb.tiles.bounds ht

theorem HeapInv.tile_of_mem {a : Arena} {ts : List Tile} (h : HeapInv a ts) {x : ℕ}
    (hx : x ∈ a.heap.index.array) : ∃ t ∈ ts, t.kind.isHole = true ∧ t.addr = x :=
  mem_holes.mp (h.index.subset hx)

theorem HeapInv.mem_index {a : Arena} {ts : List Tile} (h : HeapInv a ts) {t : Tile} (ht : t ∈ ts)
    (hk : t.kind.isHole = true) : t.addr ∈ a.heap.index.array :=
  h.index.symm.subset (mem_holes.mpr ⟨t, ht, hk, rfl⟩)

/-! ## Replacing a part of the tiling -/

/-- Two heaps with the same extent and the same room in the index. -/
structure SameExtent (h h' : Heap) : Prop where
  start : h'.allocatedStart = h.allocatedStart
  stop : h'.allocatedEnd = h.allocatedEnd
  max : h'.maxAddr = h.maxAddr
  room : h'.index.maxSize = h.index.maxSize

theorem SameExtent.refl (h : Heap) : SameExtent h h := ⟨rfl, rfl, rfl, rfl⟩

theorem SameExtent.trans {h h' h'' : Heap} (x : SameExtent h h') (y : SameExtent h' h'') :
    SameExtent h h'' :=
  ⟨y.start.trans x.start, y.stop.trans x.stop, y.max.trans x.max, y.room.trans x.room⟩

theorem HeapBody.replace {h h' : Heap} {m m' : Mem} {pre mid post : List Tile} {lo : ℕ}
    (hb : HeapBody h m (pre ++ mid ++ post)) (mid' : List Tile) (hi : ℕ)
    (hpre : Tiles h.allocatedStart pre lo) (hmid : Tiles lo mid hi) (hmid' : Tiles lo mid' hi)
    (hext : SameExtent h h') (hw : OnlyIn lo hi m m') (hgood : ∀ t ∈ mid', TileOK m' t) :
    HeapBody h' m' (pre ++ mid' ++ post) := by
  have hpost : Tiles hi post h.allocatedEnd := by
    obtain ⟨c, h1, h2⟩ := tiles_append.mp hb.tiles
    obtain ⟨d, h3, h4⟩ := tiles_append.mp h1
    rw [Tiles.stop_unique h3 hpre] at h4
    rw [Tiles.stop_unique h4 hmid] at h2
    exact h2
  refine ⟨?_, by rw [hext.start]; exact hb.start_ge, by rw [hext.stop]; exact hb.end_lt,
    by rw [hext.max]; exact hb.max_lt, ?_⟩
  · rw [hext.start, hext.stop]
    exact tiles_append.mpr ⟨hi, tiles_append.mpr ⟨lo, hpre, hmid'⟩, hpost⟩
  · intro t ht
    rcases List.mem_append.mp ht with ht | ht
    · rcases List.mem_append.mp ht with ht | ht
      · have hok := hb.good t (by simp [ht])
        exact hok.congr (hw.sameOn (Or.inl (hpre.bounds ht).2))
      · exact hgood t ht
    · have hok := hb.good t (by simp [ht])
      exact hok.congr (hw.sameOn (Or.inr (hpost.bounds ht).1))

end Evos
