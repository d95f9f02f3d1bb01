import Evos.Kheap.Run

/-! # Heap safety over runs

Live blocks never overlap each other or a hole of the index, and no operation of the heap touches
their bytes, as long as `heap_free` merges holes that carry the right tags. The left part of a
page-aligned block is a hole that records size 0, and freeing next to it breaks the heap. -/

namespace Evos
open ByteMemory Segments BubblePass Outcome Runs
set_option autoImplicit false

/-! ## The heap `heap_create` builds -/

/-- A heap as `heap_create` builds it over `[start, stop)`, with room behind the index. -/
structure Created (mem : Mem) (start stop maxAddr : ℕ) (a : Arena) : Prop where
  room : start + 4 * kheapIndexSize < stop
  below : stop ≤ maxAddr
  word : maxAddr < 2 ^ 32
  create : ∃ pagesUserMode pagesWriteable,
    heapCreate mem start stop maxAddr pagesUserMode pagesWriteable = .ok a

theorem heapCreate_total (mem : Mem) {start stop : ℕ} (maxAddr : ℕ) (pagesUserMode pagesWriteable : Bool)
    (hstart : start % 4096 = 0) (hstop : stop % 4096 = 0) :
    ∃ a, heapCreate mem start stop maxAddr pagesUserMode pagesWriteable = .ok a := by
  unfold heapCreate
  rw [assert_of hstart, except_bind_of_ok rfl, assert_of hstop, except_bind_of_ok rfl]
  dsimp only
  rw [orderedArrayInsert_of_room _ _ _ (by decide), except_bind_of_ok rfl]
  exact ⟨_, rfl⟩

theorem Created.eq {mem : Mem} {start stop maxAddr : ℕ} {a : Arena}
    (h : Created mem start stop maxAddr a) :
    start + 8192 + 4096 ≤ stop ∧ a.heap.allocatedStart = start + 8192 ∧
      a.heap.allocatedEnd = stop ∧ a.heap.maxAddr = maxAddr ∧
      a.heap.index = ⟨[start + 8192], kheapIndexSize⟩ ∧
      a.mem = writeHeader (fill mem start 0 8192) (start + 8192) (stop - (start + 8192)) true := by
  obtain ⟨hroom, hbelow, hword, userMode, writeable, hc⟩ := h
  have h8192 : 4 * kheapIndexSize = 8192 := by decide
  rw [h8192] at hroom
  unfold heapCreate at hc
  rw [h8192] at hc
  obtain ⟨_, h1, hc⟩ := except_bind_ok hc
  obtain ⟨_, h2, hc⟩ := except_bind_ok hc
  have h1 := assert_ok h1
  have h2 := assert_ok h2
  have hstart : pageRoundUp (u32 (start + 8192)) = start + 8192 := by
    rw [u32_of_lt (by omega)]
    unfold pageRoundUp
    rw [if_neg (by omega)]
  rw [hstart] at hc
  dsimp only at hc
  rw [sub32_of_le (show start + 8192 ≤ stop by omega) (by omega)] at hc
  obtain ⟨index, hi, hc⟩ := except_bind_ok hc
  obtain ⟨_, rfl⟩ := orderedArrayInsert_ok hi
  cases hc
  exact ⟨by omega, rfl, rfl, rfl, rfl, rfl⟩

theorem Created.heapInv {mem : Mem} {start stop maxAddr : ℕ} {a : Arena}
    (h : Created mem start stop maxAddr a) :
    HeapInv a [⟨start + 8192, stop - (start + 8192), .raw⟩] := by
  obtain ⟨hroom, hs, he, hm, hi, hmem⟩ := h.eq
  have hword := h.word
  have hbelow := h.below
  refine ⟨⟨?_, by omega, by omega, by omega, ?_⟩, by rw [hi]; rfl⟩
  · rw [hs, he]
    exact ⟨rfl, by show start + 8192 + (stop - (start + 8192)) = stop; omega⟩
  · intro t ht
    rw [List.mem_singleton.mp ht, hmem]
    refine tileOK_mk.mpr ⟨by omega, headerMagic_writeHeader _ _ _ _,
      headerIsHole_writeHeader _ _ _ _, ?_, fun hk => absurd rfl hk, by rintro size ⟨⟩⟩
    rw [if_neg (by decide)]
    exact headerSize_writeHeader _ _ _ (by omega)

theorem Created.tiled {mem : Mem} {start stop maxAddr : ℕ} {a : Arena}
    (h : Created mem start stop maxAddr a) :
    Tiled ⟨a, []⟩ [⟨start + 8192, stop - (start + 8192), .raw⟩] :=
  ⟨h.heapInv, List.Perm.refl _⟩

/-- The kernel's own heap over cleared memory. -/
def initialHeap : Arena where
  heap := ⟨⟨[0x0f002000], kheapIndexSize⟩, 0x0f002000, 0x0f010000, 0x0ffff000, false, true⟩
  mem := writeHeader (fill (fun _ => 0) 0x0f000000 0 8192) 0x0f002000 0xe000 true

theorem initialHeap_created : Created (fun _ => 0) kheapStart (kheapStart + kheapInitialSize)
    kheapMaxAddress initialHeap :=
  ⟨by decide, by decide, by decide, false, true, rfl⟩

/-! ## Safety -/

/-- Live blocks are apart from each other and from the holes of the index, and inside the heap. -/
structure HeapSafe (s : HeapState) : Prop where
  apart : s.live.Pairwise fun x y => x.1 + x.2 ≤ y.1 ∨ y.1 + y.2 ≤ x.1
  inside : ∀ x ∈ s.live,
    s.arena.heap.allocatedStart ≤ x.1 ∧ x.1 + x.2 ≤ s.arena.heap.allocatedEnd
  holes : ∀ x ∈ s.live, ∀ h ∈ s.arena.heap.index.array,
    h + headerSize s.arena.mem h ≤ x.1 ∨ x.1 + x.2 ≤ h

/-- The blocks live before and after keep their bytes. -/
def KeepsPayloads (s s' : HeapState) : Prop :=
  ∀ x ∈ s.live, x ∈ s'.live → SameOn x.1 (x.1 + x.2) s.arena.mem s'.arena.mem

def HeapOp.isWrite : HeapOp → Bool
  | .write _ _ => true
  | _ => false

/-- The condition on a step: an aligned request is positive as a signed word, and a free merges
holes whose tags are right. -/
def TagsHold : HeapOp → HeapState → Prop
  | .alloc size pageAlign, _ => pageAlign = true → size + 20 < 2 ^ 31
  | .free ptr, s => JoinsHoles s.arena ptr
  | .write _ _, _ => True

def SafeStep (op : HeapOp) (s : HeapState) : Prop := WellFormed op s ∧ TagsHold op s

section
variable (header : ℕ) (a : Arena)

instance : Decidable (JoinsLeft header a) := inferInstanceAs (Decidable (_ → _))

instance : Decidable (JoinsRight header a) := inferInstanceAs (Decidable (_ → _))

instance : Decidable (JoinsHoles a header) := inferInstanceAs (Decidable (_ ∧ _))

end

instance (op : HeapOp) (s : HeapState) : Decidable (TagsHold op s) :=
  match op with
  | .alloc _ _ => inferInstanceAs (Decidable (_ → _))
  | .free _ => inferInstanceAs (Decidable (JoinsHoles _ _))
  | .write _ _ => isTrue trivial

instance (op : HeapOp) (s : HeapState) : Decidable (SafeStep op s) :=
  inferInstanceAs (Decidable (_ ∧ _))

theorem payload_apart {t u : Tile} {p n q k : ℕ} (ht : payload t = some (p, n))
    (hu : payload u = some (q, k)) (hn : n + 20 ≤ t.len) (h : t.stop ≤ u.addr) : p + n ≤ q := by
  obtain ⟨_, rfl⟩ := payload_eq_some.mp ht
  obtain ⟨_, rfl⟩ := payload_eq_some.mp hu
  have := t.stop_eq
  omega

theorem Tiled.safe {s : HeapState} {ts : List Tile} (h : Tiled s ts) : HeapSafe s := by
  refine ⟨?_, ?_, ?_⟩
  · have hp : (payloads ts).Pairwise fun x y : ℕ × ℕ => x.1 + x.2 ≤ y.1 ∨ y.1 + y.2 ≤ x.1 := by
      unfold payloads
      refine List.pairwise_filterMap.mpr ?_
      refine h.heap.tiles.pairwise.imp_of_mem fun {t u} ht _ htu => ?_
      rintro ⟨p, n⟩ hx ⟨q, k⟩ hy
      have hn := (h.heap.good t ht).payload n (payload_eq_some.mp hx).1
      exact Or.inl (payload_apart hx hy hn htu)
    exact (h.live.pairwise_iff (fun {x y} hxy => hxy.symm)).mpr hp
  · rintro ⟨p, n⟩ hx
    obtain ⟨t, ht, hk, rfl, hn⟩ := h.tile hx
    have := h.heap.bounds ht
    dsimp only
    omega
  · rintro ⟨p, n⟩ hx y hy
    obtain ⟨t, ht, hk, rfl, hn⟩ := h.tile hx
    obtain ⟨u, hu, huk, rfl⟩ := h.heap.tile_of_mem hy
    have hsize : headerSize s.arena.mem u.addr ≤ u.len := by
      rw [(h.heap.good u hu).size, recorded]
      split <;> omega
    have hst := t.stop_eq
    have hsu := u.stop_eq
    dsimp only
    rcases h.heap.tiles.eq_or_disjoint ht hu with rfl | hd | hd
    · rw [hk] at huk
      cases huk
    · exact Or.inr (by omega)
    · exact Or.inl (by omega)

/-- Every step under the condition keeps a tiling, and keeps the live bytes unless it is a caller
that writes. -/
theorem Tiled.step {s s' : HeapState} {ts : List Tile} (h : Tiled s ts) {op : HeapOp}
    (hok : SafeStep op s) (hs : heapStep op s = some s') :
    (∃ ts', Tiled s' ts') ∧ (op.isWrite = false → KeepsPayloads s s') := by
  obtain ⟨hw, htags⟩ := hok
  cases op with
  | alloc size pageAlign =>
    obtain ⟨pre, t, post, p, ha, _, hnew⟩ := allocStep_some h ⟨hw.1, htags⟩ hw.2 hs
    refine ⟨⟨_, hnew⟩, fun _ => ?_⟩
    rintro ⟨q, n⟩ hx _
    obtain ⟨u, hu, huk, rfl, hn⟩ := h.tile hx
    have hsu := u.stop_eq
    refine ha.writes.sameOn ?_
    dsimp only
    rcases ha.source with ⟨rfl, _⟩ | ⟨_, _, _, he⟩
    · have htm : t ∈ pre ++ t :: post := by simp
      rcases h.heap.tiles.eq_or_disjoint hu htm with rfl | hd
      · have := ha.hole
        rw [huk] at this
        exact nomatch this
      · omega
    · have := h.heap.bounds hu
      omega
  | free ptr =>
    obtain ⟨pre, l, t, r, post, n, rfl, _, rfl, hf, _, hnew⟩ := freeStep_some h htags hs
    refine ⟨⟨_, hnew⟩, fun _ => ?_⟩
    rintro ⟨q, k⟩ _ hx
    obtain ⟨u, hu, huk, rfl, hn⟩ := hnew.tile hx
    have hsu := u.stop_eq
    refine hf.writes.sameOn ?_
    dsimp only
    have htm : joined l t r ∈ pre ++ joined l t r :: post := by simp
    rcases hnew.heap.tiles.eq_or_disjoint hu htm with rfl | hd
    · exact nomatch huk
    · omega
  | write x v => exact ⟨⟨ts, (writeStep_some h hs).1⟩, fun hc => nomatch hc⟩

/-- In every run whose steps meet the condition, the heap is safe in every state reached, and no
operation of the heap changes a byte of a live block. -/
theorem heapSafe_of_run {mem : Mem} {start stop maxAddr : ℕ} {a : Arena}
    (h0 : Created mem start stop maxAddr a) {s : HeapState}
    (r : Run heapStep SafeStep ⟨a, []⟩ s) :
    HeapSafe s ∧ ∀ op s', SafeStep op s → heapStep op s = some s' → op.isWrite = false →
      KeepsPayloads s s' := by
  obtain ⟨ts, h⟩ := r.invariant (I := fun s => ∃ ts, Tiled s ts) ⟨_, h0.tiled⟩
    fun op x y hx hok hs => (hx.choose_spec.step hok hs).1
  exact ⟨h.safe, fun op s' hok hs => (h.step hok hs).2⟩

set_option maxRecDepth 100000 in
theorem heapSafe_of_run_initialHeap :
    ∃ s, trace heapStep SafeStep [.alloc 1000 true, .alloc 600 false, .write 0x0f003000 7,
      .free 0x0f0033fc] ⟨initialHeap, []⟩ = some s ∧ HeapSafe s := by
  obtain ⟨s, hs⟩ := Option.isSome_iff_exists.mp (show (trace heapStep SafeStep [.alloc 1000 true,
    .alloc 600 false, .write 0x0f003000 7, .free 0x0f0033fc] ⟨initialHeap, []⟩).isSome = true by
      decide +kernel)
  exact ⟨s, hs, (heapSafe_of_run initialHeap_created (Run.of_trace hs)).1⟩

/-- A live block that a hole of the index overlaps. -/
def overlapped (s : HeapState) : Bool :=
  s.live.any fun x => s.arena.heap.index.array.any fun h =>
    !decide (h + headerSize s.arena.mem h ≤ x.1 ∨ x.1 + x.2 ≤ h)

theorem not_safe_of_overlapped {s : HeapState} (h : overlapped s = true) : ¬HeapSafe s := by
  intro hs
  obtain ⟨x, hx, hany⟩ := List.any_eq_true.mp h
  obtain ⟨y, hy, hd⟩ := List.any_eq_true.mp hany
  have := hs.holes x hx y hy
  simp only [this, decide_true, Bool.not_true, Bool.false_eq_true] at hd

set_option maxRecDepth 100000 in
/-- Freeing the block behind the left part of a page-aligned one, using that part again and freeing
what is on its right leaves a hole over a live block. -/
theorem not_heapSafe_after_align_split :
    ¬∀ s, Run heapStep WellFormed ⟨initialHeap, []⟩ s → HeapSafe s := by
  intro hall
  obtain ⟨s, hs, hover⟩ := (Option.any_eq_true _ _).mp (show (trace heapStep WellFormed
    [.alloc 1000 true, .alloc 600 false, .free 0x0f003000, .alloc 100 false, .alloc 200 false,
      .free 0x0f00200c, .free 0x0f0033fc] ⟨initialHeap, []⟩).any overlapped = true by
        decide +kernel)
  exact not_safe_of_overlapped hover (hall s (Run.of_trace hs))

end Evos
