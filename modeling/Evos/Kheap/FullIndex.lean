import Evos.Kheap.FreeRoom
import Evos.Kheap.WellFormedAlloc

/-! # A run that fills the index

With the heap grown, its free space is cut into small blocks, and every second one is freed: each
leaves a hole between two blocks, until the index has no entry left for the next one. -/

namespace Evos
open ByteMemory Segments Outcome Runs
set_option autoImplicit false

/-- Calls of `heap_alloc` without alignment and of `heap_free`, and nothing else. -/
def PlainCall (op : HeapOp) (_ : HeapState) : Prop := Unaligned op ∧ op.isWrite = false

/-- A state of the kernel's heap described by a tiling of blocks and holes that carry their tags. -/
structure Shape (s : HeapState) (ts : List Tile) : Prop extends Tiled s ts where
  plain : ∀ t ∈ ts, t.kind ≠ .raw ∧ t.kind ≠ .husk
  room : s.arena.heap.index.maxSize = kheapIndexSize
  max : s.arena.heap.maxAddr = kheapMaxAddress

/-- Calls lead from the heap `heap_create` builds to a heap of this shape. -/
def Reaches (ts : List Tile) : Prop :=
  ∃ s, Run heapStep PlainCall ⟨initialHeap, []⟩ s ∧ Shape s ts

variable {s : HeapState} {ts pre post : List Tile} {t : Tile}

theorem Shape.wellFormed (h : Shape s ts) : WellFormedHeap s.arena ts := ⟨h.heap, h.plain⟩

theorem Shape.index_length (h : Shape s ts) :
    s.arena.heap.index.array.length = (holes ts).length := h.heap.index.length_eq

/-! ## Steps -/

theorem allocStep_of_ok {size p : ℕ} {a : Arena}
    (h : heapAlloc Arena.host size false s.arena = .ok p a) :
    heapStep (.alloc size false) s = some ⟨a, (p, size) :: s.live⟩ := by
  show allocStep size false s = _
  unfold allocStep
  have hrun : (heapAlloc Arena.host size false).run s.arena = .ok p a := h
  rw [hrun]

theorem Shape.freeStep {n : ℕ} {a : Arena} (h : Shape s (pre ++ t :: post)) (hk : t.kind = .used n)
    (hfree : heapFree (t.addr + 12) s.arena = .ok a) :
    heapStep (.free (t.addr + 12)) s = some ⟨a, s.live.erase (t.addr + 12, n)⟩ := by
  have htm : t ∈ pre ++ t :: post := by simp
  have hlive : (t.addr + 12, n) ∈ s.live := h.live.symm.subset (mem_payloads.mpr ⟨t, htm, hk, rfl⟩)
  show Evos.freeStep (t.addr + 12) s = _
  unfold Evos.freeStep
  cases hf : s.live.find? fun block => block.1 == t.addr + 12 with
  | none =>
    exact absurd (beq_self_eq_true _) (List.find?_eq_none.mp hf _ hlive)
  | some block =>
    obtain ⟨p, k⟩ := block
    have hp : p = t.addr + 12 := by simpa using List.find?_some hf
    subst hp
    obtain ⟨u, hum, huk, hu, _⟩ := h.tile (List.mem_of_find?_eq_some hf)
    obtain rfl : u = t := h.heap.tiles.eq_of_addr h.heap.len_pos hum htm (by omega)
    have hkn : k = n := by
      rw [hk] at huk
      exact (Kind.used.inj huk).symm
    subst hkn
    simp only [hfree]

/-- A block freed between two blocks, or in front of a hole, is a hole in its place. -/
theorem Reaches.free {n : ℕ} (h : Reaches (pre ++ t :: post)) (hk : t.kind = .used n)
    (hleft : leftHole pre = none)
    (hroom : (holes (pre ++ t :: post)).length < kheapIndexSize) :
    ∃ post', post = (rightHole post).toList ++ post' ∧
      Reaches (pre ++ joined none t (rightHole post) :: post') := by
  obtain ⟨s, r, hs⟩ := h
  have hlt : s.arena.heap.index.size < s.arena.heap.index.maxSize := by
    rw [hs.room]
    exact hs.index_length.trans_lt hroom
  obtain ⟨a, pre', post', hfree, hpre, hpost, hwf, hext, _⟩ := heapFree_wellFormed hs.wellFormed hk hlt
  rw [hleft] at hpre hwf
  rw [Option.toList_none, List.append_nil] at hpre
  subst hpre
  have hcall : PlainCall (.free (t.addr + 12)) s := ⟨trivial, rfl⟩
  refine ⟨post', hpost, _, r.tail hcall (hs.freeStep hk hfree), ⟨⟨hwf.toHeapInv, ?_⟩, hwf.plain,
    hext.room.trans hs.room, hext.max.trans hs.max⟩⟩
  have hright : payloads (rightHole post).toList = [] := by
    cases hr : rightHole post with
    | none => rfl
    | some y =>
      have hy : y.kind.isHole = true := by
        unfold rightHole at hr
        exact (Option.filter_eq_some_iff.mp hr).2
      exact payloads_cons_hole [] hy
  have hlive := hs.live
  rw [hpost, payloads_append, payloads_cons_used _ hk, payloads_append, hright,
    List.nil_append] at hlive
  rw [payloads_append, payloads_cons_hole _ rfl]
  have hperm := (hlive.trans List.perm_middle).erase (t.addr + 12, n)
  rw [List.erase_cons_head] at hperm
  exact hperm

theorem Reaches.freeBetween {a n size : ℕ} {y : Tile}
    (h : Reaches (pre ++ ⟨a, n, .used size⟩ :: y :: post)) (hleft : leftHole pre = none)
    (hy : y.kind.isHole = false)
    (hroom : (holes (pre ++ ⟨a, n, .used size⟩ :: y :: post)).length < kheapIndexSize) :
    Reaches (pre ++ ⟨a, n, .free⟩ :: y :: post) := by
  obtain ⟨post', hpost, hfreed⟩ := h.free rfl hleft hroom
  have hright : rightHole (y :: post) = none := rightHole_none (by simpa using hy)
  rw [hright] at hpost hfreed
  obtain rfl : post' = y :: post := hpost.symm
  have hjoin : joined none ⟨a, n, .used size⟩ none = ⟨a, n, .free⟩ := by
    unfold joined
    rw [Seg.mk.injEq]
    exact ⟨rfl, Nat.zero_add n, rfl⟩
  rw [hjoin] at hfreed
  exact hfreed

theorem Shape.carved {b : Arena} {size i : ℕ} (h : Shape s ts)
    (hwf : WellFormedHeap b (pre ++ [t])) (hpay : payloads pre = payloads ts)
    (hroom : b.heap.index.maxSize = kheapIndexSize) (hmax : b.heap.maxAddr = kheapMaxAddress)
    (hone : holes (pre ++ [t]) = [t.addr]) (hk : t.kind.isHole = true) (hlen : size + 40 < t.len)
    (hi : b.heap.index.array[i]? = some t.addr)
    (hchoose : chooseHole Arena.host (size + 20) false s.arena = .ok i b)
    (hsize : size + 20 < 2 ^ 32) :
    ∃ a, heapAlloc Arena.host size false s.arena = .ok (t.addr + 12) a ∧
      Shape ⟨a, (t.addr + 12, size) :: s.live⟩ (pre ++ [⟨t.addr, size + 20, .used size⟩,
        ⟨t.addr + (size + 20), t.len - (size + 20), .free⟩]) := by
  have hindex : b.heap.index.array.length ≤ b.heap.index.maxSize := by
    rw [hroom, hwf.index.length_eq, hone, List.length_singleton]
    decide
  obtain ⟨a, hc, hnew, hext, _⟩ := hwf.carve hk hi (show size + 20 ≤ t.len by omega) hindex
  have hblock : blockLen t.len (size + 20) = size + 20 := if_neg (by omega)
  have hrest : rightPart t.addr t.len (size + 20) =
      [⟨t.addr + (size + 20), t.len - (size + 20), .free⟩] := if_neg (by omega)
  rw [hblock, hrest, List.append_nil] at hnew
  rw [← u32_of_lt hsize] at hc hchoose
  refine ⟨a, heapAlloc_of_choose (H := Arena.host) hchoose hc, ⟨⟨hnew.toHeapInv, ?_⟩, hnew.plain,
    hext.room.trans hroom, hext.max.trans hmax⟩⟩
  rw [payloads_append, payloads_cons_used _ rfl, payloads_cons_hole _ rfl, hpay]
  exact (h.live.cons _).trans (List.perm_append_singleton _ _).symm

theorem Reaches.alloc {size : ℕ} (h : Reaches (pre ++ [t])) (hk : t.kind = .free)
    (hpre : holes pre = []) (hlen : size + 40 < t.len) (hsize : size + 20 < 2 ^ 32) :
    Reaches (pre ++ [⟨t.addr, size + 20, .used size⟩,
      ⟨t.addr + (size + 20), t.len - (size + 20), .free⟩]) := by
  obtain ⟨s, r, hs⟩ := h
  have hhole : t.kind.isHole = true := by rw [hk]; rfl
  have hone : holes (pre ++ [t]) = [t.addr] := by
    rw [holes_append, hpre, holes_cons_hole _ hhole]
    rfl
  have hindex : s.arena.heap.index.array = [t.addr] := by
    have := hs.heap.index
    rw [hone] at this
    exact List.perm_singleton.mp this
  have hfits : holeFits s.arena.mem (size + 20) false t.addr = true := by
    unfold holeFits
    rw [hs.wellFormed.size_eq (by simp), if_neg (by decide)]
    exact decide_eq_true (by omega)
  have hfind : findHole s.arena (size + 20) false = some 0 := by
    unfold findHole
    rw [hindex, List.findIdx?_cons, hfits]
    rfl
  have hpay : payloads pre = payloads (pre ++ [t]) := by
    rw [payloads_append, payloads_cons_hole _ hhole]
    exact (List.append_nil _).symm
  obtain ⟨a, ha, hnew⟩ := hs.carved hs.wellFormed hpay hs.room hs.max hone hhole hlen
    (by rw [hindex]; rfl) (chooseHole_of_found (H := Arena.host) hfind) hsize
  have hcall : PlainCall (.alloc size false) s := ⟨rfl, rfl⟩
  exact ⟨_, r.tail hcall (allocStep_of_ok ha), hnew⟩

/-! ## Growing -/

theorem holes_block {X : Tile} {n : ℕ} (hk : X.kind = .used n) : holes [X] = [] :=
  holes_cons_used [] (by rw [hk]; rfl)

/-- A heap that is full grows for a block and gives it the front of its new space. -/
theorem Shape.grow {X : Tile} {n size e : ℕ} (h : Shape s [X]) (hk : X.kind = .used n)
    (he : grownEnd s.arena size = e) (hmax : e ≤ kheapMaxAddress) (hsize : size + 20 < 2 ^ 32) :
    ∃ a, heapAlloc Arena.host size false s.arena = .ok (X.stop + 12) a ∧
      Shape ⟨a, (X.stop + 12, size) :: s.live⟩ ([X] ++ [⟨X.stop, size + 20, .used size⟩,
        ⟨X.stop + (size + 20), e - X.stop - (size + 20), .free⟩]) := by
  have hstop : X.stop = s.arena.heap.allocatedEnd := h.heap.tiles.2
  have hnohole := holes_block hk
  have hindex : s.arena.heap.index.array = [] := by
    have := h.heap.index
    rw [hnohole] at this
    exact List.perm_nil.mp this
  have hnone : findHole s.arena (size + 20) false = none := by
    unfold findHole
    rw [hindex]
    rfl
  have hroom : s.arena.heap.index.size < s.arena.heap.index.maxSize := by
    unfold OrderedArray.size
    rw [hindex, h.room]
    decide
  have hle : s.arena.heap.allocatedEnd + (size + 20) + 4096 ≤ grownEnd s.arena size :=
    le_grownEnd h.heap
  have hbelow : grownEnd s.arena size ≤ s.arena.heap.maxAddr := by
    rw [h.max, he]
    exact hmax
  obtain ⟨i, g, hg⟩ := h.heap.growHeap_total hbelow hroom fun m => h.heap.newSpace_fits
  obtain ⟨hgrown, hf⟩ := h.heap.grow (Nat.lt_of_le_of_lt hbelow h.heap.max_lt) hg
  have hi := hgrown.findHole h.heap hnone hf
  have hwf := h.wellFormed.grown hgrown
  rw [he, ← hstop] at hwf hle
  rw [← hstop] at hi
  have hchoose : chooseHole Arena.host (size + 20) false s.arena = .ok i g :=
    (chooseHole_of_none (H := Arena.host) hnone).trans hg
  have hmaxSize : g.heap.index.maxSize = kheapIndexSize := hgrown.room.trans h.room
  have hmaxAddr : g.heap.maxAddr = kheapMaxAddress := hgrown.max.trans h.max
  have hone : holes ([X] ++ [⟨X.stop, e - X.stop, .free⟩]) = [X.stop] := by
    rw [holes_append, hnohole]
    rfl
  have hlen : size + 40 < e - X.stop := by omega
  exact h.carved hwf rfl hmaxSize hmaxAddr hone rfl hlen hi hchoose hsize

/-- A heap that is full grows for a large block; freed, the block leaves a hole at the end. -/
theorem Reaches.grow {X : Tile} {n size e : ℕ} (h : Reaches [X]) (hk : X.kind = .used n)
    (he : X.addr + roundUp (X.len + (size + 20) + 4096) = e) (hmax : e ≤ kheapMaxAddress)
    (hsize : X.stop + (size + 20) ≤ e) (hword : size + 20 < 2 ^ 32) :
    Reaches [X, ⟨X.stop, e - X.stop, .free⟩] := by
  obtain ⟨s, r, hs⟩ := h
  have hstart : X.addr = s.arena.heap.allocatedStart := hs.heap.tiles.1
  have hstop : X.stop = s.arena.heap.allocatedEnd := hs.heap.tiles.2
  have hend : grownEnd s.arena size = e := by
    have hlen : s.arena.heap.allocatedEnd - s.arena.heap.allocatedStart = X.len := by
      rw [← hstart, ← hstop, X.stop_eq]
      omega
    unfold grownEnd
    rw [hlen, ← hstart]
    exact he
  obtain ⟨a, ha, hnew⟩ := hs.grow hk hend hmax hword
  have hcall : PlainCall (.alloc size false) s := ⟨rfl, rfl⟩
  have hreach : Reaches ([X] ++ ⟨X.stop, size + 20, .used size⟩ ::
      [⟨X.stop + (size + 20), e - X.stop - (size + 20), .free⟩]) :=
    ⟨_, r.tail hcall (allocStep_of_ok ha), hnew⟩
  have hleft : leftHole [X] = none := leftHole_none (by simp [hk, Kind.isHole])
  have hroom : (holes ([X] ++ ⟨X.stop, size + 20, .used size⟩ ::
      [⟨X.stop + (size + 20), e - X.stop - (size + 20), .free⟩])).length < kheapIndexSize := by
    rw [holes_append, holes_block hk, holes_cons_used _ rfl]
    show 1 < kheapIndexSize
    decide
  obtain ⟨post', hpost, hfreed⟩ := hreach.free rfl hleft hroom
  rw [rightHole_cons rfl] at hpost hfreed
  obtain rfl : post' = [] := (List.cons.inj hpost).2.symm
  have hlen : 0 + (size + 20) + (e - X.stop - (size + 20)) = e - X.stop := by omega
  have hjoin : joined none ⟨X.stop, size + 20, .used size⟩
      (some ⟨X.stop + (size + 20), e - X.stop - (size + 20), .free⟩) =
        ⟨X.stop, e - X.stop, .free⟩ := by
    unfold joined
    rw [Seg.mk.injEq]
    exact ⟨rfl, hlen, rfl⟩
  rw [hjoin] at hfreed
  exact hfreed

/-! ## Pairs of small blocks -/

/-- `m` pairs of the smallest segments from `a`: one of the given kind and a block behind it. -/
def pairs (k : Kind) (a : ℕ) : ℕ → List Tile
  | 0 => []
  | m + 1 => ⟨a, 20, k⟩ :: ⟨a + 20, 20, .used 0⟩ :: pairs k (a + 40) m

theorem holes_pairs_used (a m : ℕ) : holes (pairs (.used 0) a m) = [] := by
  induction m generalizing a with
  | zero => rfl
  | succ m ih => exact (holes_cons_used _ rfl).trans ((holes_cons_used _ rfl).trans (ih _))

theorem holes_pairs_free (a m : ℕ) : (holes (pairs .free a m)).length = m := by
  induction m generalizing a with
  | zero => rfl
  | succ m ih =>
    show (holes (⟨a, 20, .free⟩ :: ⟨a + 20, 20, .used 0⟩ :: pairs .free (a + 40) m)).length = m + 1
    rw [holes_cons_hole _ rfl, holes_cons_used _ rfl, List.length_cons, ih]

theorem leftHole_pairs (hpre : leftHole pre = none) (k : Kind) (a m : ℕ) :
    leftHole (pre ++ pairs k a m) = none := by
  induction m generalizing pre a with
  | zero => rwa [pairs, List.append_nil]
  | succ m ih =>
    have hpre' : leftHole (pre ++ [⟨a, 20, k⟩, ⟨a + 20, 20, .used 0⟩]) = none :=
      leftHole_none (by simp [Kind.isHole])
    have hstep := ih hpre' (a + 40)
    rw [List.append_assoc] at hstep
    exact hstep

theorem Reaches.allocPairs {a n m : ℕ} (h : Reaches (pre ++ [⟨a, n, .free⟩]))
    (hpre : holes pre = []) (hlen : 40 * m + 20 < n) :
    Reaches (pre ++ pairs (.used 0) a m ++ [⟨a + 40 * m, n - 40 * m, .free⟩]) := by
  induction m generalizing pre a n with
  | zero => rwa [pairs, List.append_nil]
  | succ m ih =>
    have hfirst := h.alloc rfl hpre (show 0 + 40 < n by omega) (by omega)
    rw [List.append_cons, Nat.zero_add] at hfirst
    have hpre₁ : holes (pre ++ [⟨a, 20, .used 0⟩]) = [] := by
      rw [holes_append, hpre, holes_cons_used _ rfl]
      rfl
    have hsecond := hfirst.alloc rfl hpre₁ (show 0 + 40 < n - 20 by omega) (by omega)
    rw [List.append_cons, Nat.zero_add] at hsecond
    have hpre₂ : holes (pre ++ [⟨a, 20, .used 0⟩] ++ [⟨a + 20, 20, .used 0⟩]) = [] := by
      rw [holes_append, hpre₁, holes_cons_used _ rfl]
      rfl
    have hrest := ih hsecond hpre₂ (show 40 * m + 20 < n - 20 - 20 by omega)
    have haddr : a + 20 + 20 + 40 * m = a + 40 * (m + 1) := by omega
    have hn : n - 20 - 20 - 40 * m = n - 40 * (m + 1) := by omega
    dsimp only at hrest
    rw [haddr, hn, List.append_assoc pre, List.append_assoc pre] at hrest
    exact hrest

theorem Reaches.freePairs {a m : ℕ} (h : Reaches (pre ++ pairs (.used 0) a m ++ post))
    (hpre : leftHole pre = none)
    (hroom : (holes (pre ++ pairs (.used 0) a m ++ post)).length + m ≤ kheapIndexSize) :
    Reaches (pre ++ pairs .free a m ++ post) := by
  induction m generalizing pre a with
  | zero => exact h
  | succ m ih =>
    rw [List.append_assoc] at h hroom
    have hpair : Reaches (pre ++ ⟨a, 20, .used 0⟩ :: ⟨a + 20, 20, .used 0⟩ ::
        (pairs (.used 0) (a + 40) m ++ post)) := h
    have hstep := hpair.freeBetween hpre rfl
      (Nat.lt_of_lt_of_le (Nat.lt_add_of_pos_right (Nat.succ_pos m)) hroom)
    have hsplit : pre ++ ⟨a, 20, .free⟩ :: ⟨a + 20, 20, .used 0⟩ ::
        (pairs (.used 0) (a + 40) m ++ post) =
          pre ++ [⟨a, 20, .free⟩, ⟨a + 20, 20, .used 0⟩] ++ pairs (.used 0) (a + 40) m ++ post := by
      simp
    have hleft : leftHole (pre ++ [⟨a, 20, .free⟩, ⟨a + 20, 20, .used 0⟩]) = none :=
      leftHole_none (by simp [Kind.isHole])
    have hcount : (holes (pre ++ [⟨a, 20, .free⟩, ⟨a + 20, 20, .used 0⟩] ++
        pairs (.used 0) (a + 40) m ++ post)).length + m ≤ kheapIndexSize := by
      have hone : holes [⟨a, 20, .free⟩, ⟨a + 20, 20, .used 0⟩] = [a] := rfl
      rw [holes_append, holes_append, holes_pairs_used, List.nil_append, List.length_append] at hroom
      rw [holes_append, holes_append, holes_append, hone, holes_pairs_used, List.append_nil,
        List.length_append, List.length_append, List.length_singleton]
      omega
    rw [hsplit] at hstep
    have hrest := ih hstep hleft hcount
    rw [List.append_assoc, List.append_assoc] at hrest
    rw [List.append_assoc]
    exact hrest

/-! ## The run -/

/-- A block with a block in front of it and one behind it cannot be freed when the index is full. -/
theorem Shape.not_heapFree {a n size : ℕ} {y : Tile}
    (h : Shape s (pre ++ ⟨a, n, .used size⟩ :: y :: post)) (hleft : leftHole pre = none)
    (hy : y.kind.isHole = false)
    (hfull : kheapIndexSize ≤ (holes (pre ++ ⟨a, n, .used size⟩ :: y :: post)).length) :
    ¬∃ a', heapFree (a + 12) s.arena = .ok a' := by
  have hplain : PlainTiling s.arena (pre ++ ⟨a, n, .used size⟩ :: y :: post) :=
    ⟨fun t ht => (h.plain t ht).2, fun t ht hraw => absurd hraw (h.plain t ht).1⟩
  have hused : Kind.used size = .used size := rfl
  have hjoin := h.wellFormed.joinsHoles hused
  have hmark := h.heap.mark hused
  rw [JoinsHoles, Nat.add_sub_cancel] at hjoin
  rw [h.heap.heapFree_iff rfl hplain hjoin.1]
  rintro (hmerge | hroom)
  · obtain ⟨hmem, hend⟩ := hjoin.1 hmerge
    obtain ⟨pre', l, rfl, _, hl, _⟩ := hmark.left_tile rfl hmem hend
    rw [leftHole_concat hl] at hleft
    exact nomatch hleft
  · have hnot : ¬MergesRight a (s.arena.marked a) := by
      intro hmerge
      obtain ⟨r, post', hpost, hr⟩ := (hmark.mergesRight_iff (by simp)).mp hmerge
      rw [← (List.cons.inj hpost).1, hy] at hr
      exact nomatch hr
    rw [if_neg hnot, h.room, OrderedArray.size, h.index_length] at hroom
    exact absurd hroom (Nat.not_lt.mpr hfull)

theorem Tiled.takeAll {a : Arena} {size : ℕ} (h : Tiled ⟨a, []⟩ [t]) (hk : t.kind = .raw)
    (hlen : t.len = size + 20) (hf : findHole a (size + 20) false = some 0)
    (hsize : size + 20 < 2 ^ 32) (hroom : a.heap.index.maxSize = kheapIndexSize)
    (hmax : a.heap.maxAddr = kheapMaxAddress) :
    ∃ a', heapAlloc Arena.host size false a = .ok (t.addr + 12) a' ∧
      Shape ⟨a', [(t.addr + 12, size)]⟩ [⟨t.addr, size + 20, .used size⟩] := by
  have hhole : t.kind.isHole = true := by rw [hk]; rfl
  have hindex : a.heap.index.array = [t.addr] := by
    have := h.heap.index
    rw [holes_cons_hole _ hhole] at this
    exact List.perm_singleton.mp this
  have hi : a.heap.index.array[0]? = some t.addr := by rw [hindex]; rfl
  have hfit : leftOffset t.addr false + (size + 20) ≤ t.len := by
    rw [leftOffset, if_neg Bool.false_ne_true, hlen]
    omega
  have hcount : a.heap.index.array.length ≤ a.heap.index.maxSize := by
    rw [hindex, hroom]
    show 1 ≤ kheapIndexSize
    decide
  have hheap : HeapInv a ([] ++ t :: []) := h.heap
  have hnohusk : t.kind ≠ .husk := by rw [hk]; simp
  obtain ⟨a', hc⟩ := hheap.carve_in_place hnohusk hi hlen.ge hcount
  have hserved := hheap.carve hhole hnohusk hi hfit hc
  have hinv := hserved.inv
  have hblock : blockLen t.len (size + 20) = size + 20 := by
    rw [hlen]
    exact if_pos (by omega)
  have hrest : rightPart t.addr t.len (size + 20) = [] := if_pos hlen
  rw [carved_in_place rfl, hblock, hrest, List.append_nil, List.nil_append] at hinv
  rw [← u32_of_lt hsize] at hc hf
  refine ⟨a', heapAlloc_of_choose (H := Arena.host) (chooseHole_of_found (H := Arena.host) hf) hc,
    ⟨⟨hinv, List.Perm.refl _⟩, ?_, hserved.extent.room.trans hroom, hserved.extent.max.trans hmax⟩⟩
  intro u hu
  rw [List.mem_singleton.mp hu]
  simp

set_option maxRecDepth 100000 in
theorem reaches_block : Reaches [⟨0x0f002000, 57344, .used 57324⟩] := by
  have hfind : findHole initialHeap (57324 + 20) false = some 0 := by decide +kernel
  obtain ⟨a, ha, hs⟩ := initialHeap_created.tiled.takeAll rfl rfl hfind (by decide) rfl rfl
  have hcall : PlainCall (.alloc 57324 false) ⟨initialHeap, []⟩ := ⟨rfl, rfl⟩
  exact ⟨_, (Run.refl _).tail hcall (allocStep_of_ok ha), hs⟩

theorem reaches_hole : Reaches [⟨0x0f002000, 57344, .used 57324⟩, ⟨0x0f010000, 0x22000, .free⟩] :=
  reaches_block.grow (e := 0x0f032000) rfl (by decide) (by decide) (by decide)
    (show 0x20000 + 20 < 2 ^ 32 by decide)

/-- With one hole behind a block, the index can be filled until a block cannot be freed. -/
theorem Reaches.fill {X : Tile} {n a len : ℕ} (h : Reaches [X, ⟨a, len, .free⟩])
    (hk : X.kind = .used n) (hlen : 40 * kheapIndexSize + 20 < len) :
    ∃ s, Run heapStep PlainCall ⟨initialHeap, []⟩ s ∧
      ∃ p n, (p, n) ∈ s.live ∧ ¬∃ a', heapFree p s.arena = .ok a' := by
  obtain ⟨m, hm⟩ : ∃ m, kheapIndexSize = m + 1 := ⟨2047, rfl⟩
  rw [hm] at hlen
  have hX := holes_block hk
  have hleft : leftHole [X] = none := leftHole_none (by simp [hk, Kind.isHole])
  have hwhole : Reaches ([X] ++ [⟨a, len, .free⟩]) := h
  have hfirst := hwhole.allocPairs (m := m) hX (by omega)
  have hcut : holes ([X] ++ pairs (.used 0) a m) = [] := by
    rw [holes_append, hX, holes_pairs_used]
    rfl
  have hlast := hfirst.allocPairs (m := 1) hcut (by omega)
  rw [List.append_assoc] at hlast
  have hcount : (holes ([X] ++ pairs (.used 0) a m ++ (pairs (.used 0) (a + 40 * m) 1 ++
      [⟨a + 40 * m + 40 * 1, len - 40 * m - 40 * 1, .free⟩]))).length + m ≤ kheapIndexSize := by
    rw [holes_append, hcut, hm]
    show 1 + m ≤ m + 1
    omega
  obtain ⟨s, r, hs⟩ := hlast.freePairs hleft hcount
  have htile : (⟨a + 40 * m, 20, .used 0⟩ : Tile) ∈ [X] ++ pairs .free a m ++
      (pairs (.used 0) (a + 40 * m) 1 ++ [⟨a + 40 * m + 40 * 1, len - 40 * m - 40 * 1, .free⟩]) :=
    List.mem_append_right _ List.mem_cons_self
  have hlive : (a + 40 * m + 12, 0) ∈ s.live :=
    hs.live.symm.subset (mem_payloads.mpr ⟨_, htile, rfl, rfl⟩)
  have hfull : kheapIndexSize ≤ (holes ([X] ++ pairs .free a m ++
      (pairs (.used 0) (a + 40 * m) 1 ++
        [⟨a + 40 * m + 40 * 1, len - 40 * m - 40 * 1, .free⟩]))).length := by
    rw [holes_append, holes_append, hX, hm, List.length_append, List.nil_append, holes_pairs_free]
    exact Nat.le_refl _
  exact ⟨s, r, _, 0, hlive, hs.not_heapFree (leftHole_pairs hleft .free a m) rfl hfull⟩

/-- A run of requests without alignment and of frees reaches a heap with a live block whose free
finds the index full. -/
theorem not_heapFree_of_run : ¬∀ s, Run heapStep PlainCall ⟨initialHeap, []⟩ s →
    ∀ p n, (p, n) ∈ s.live → ∃ a', heapFree p s.arena = .ok a' := by
  intro hall
  obtain ⟨s, r, p, n, hlive, hnot⟩ := reaches_hole.fill rfl (by decide)
  exact hnot (hall s r p n hlive)

end Evos
