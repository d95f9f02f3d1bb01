import Evos.Kheap.AllocBounds
import Evos.Kheap.WellFormed

/-! # When `heap_free` needs the index

A block that merges with a hole in front of it takes no entry of the index. Any other block takes
one, after the entry of a hole behind it has gone, and the index never grows with the heap. -/

namespace Evos
open ByteMemory Segments Outcome Runs
set_option autoImplicit false

/-- The freed block is merged into the hole in front of it, or its hole finds a free entry. -/
def RoomToFree (a : Arena) (header : ℕ) : Prop :=
  MergesLeft header (a.marked header) ∨
    (if MergesRight header (a.marked header) then a.heap.index.size - 1 else a.heap.index.size) <
      a.heap.index.maxSize

instance (a : Arena) (header : ℕ) : Decidable (RoomToFree a header) :=
  inferInstanceAs (Decidable (_ ∨ _))

/-- A tiling as unaligned requests leave it: only the first hole may lack its footer. -/
structure PlainTiling (a : Arena) (ts : List Tile) : Prop where
  noHusk : ∀ t ∈ ts, t.kind ≠ .husk
  rawFirst : ∀ t ∈ ts, t.kind = .raw → t.addr = a.heap.allocatedStart

/-! ## One free -/

section Free
variable {a : Arena} {pre post : List Tile} {t : Tile} {size : ℕ}

theorem PlainTiling.behind (hp : PlainTiling a (pre ++ t :: post)) (h : HeapInv a (pre ++ t :: post))
    {r : Tile} {post' : List Tile} (hpost : post = r :: post') : r.kind ≠ .husk ∧ r.kind ≠ .raw := by
  subst hpost
  have hr : r ∈ pre ++ t :: r :: post' := by simp
  have ht : t ∈ pre ++ t :: r :: post' := by simp
  refine ⟨hp.noHusk r hr, fun hraw => ?_⟩
  have hfirst := hp.rawFirst r hr hraw
  have hadj := (tiles_middle.mp h.tiles).2.1
  have hlow := (h.bounds ht).1
  have hlen := (h.good t ht).minLen
  rw [Seg.stop_eq] at hadj
  omega

/-- The index after the right merge of a block that nothing in front takes. -/
theorem Pending.mergeRight_length {g : Tile} {missing : List ℕ} {a' : Arena}
    (h : Pending a (pre ++ g :: post) missing) (hk : g.kind = .free)
    (hj : ∀ r post', post = r :: post' → r.kind.isHole = true → r.kind ≠ .husk)
    (hm : Evos.mergeRight g.addr a = .ok a') :
    a'.heap.index.array.length =
      (if MergesRight g.addr a then a.heap.index.size - 1 else a.heap.index.size) ∧
        a'.heap.index.maxSize = a.heap.index.maxSize := by
  have hiff := h.mergesRight_iff (by simp [hk])
  rcases h.mergeRight hk hj hm with ⟨rfl, hnone⟩ | ⟨r, post', rfl, hr, hjoin⟩
  · refine ⟨(if_neg fun hmr => ?_).symm, rfl⟩
    obtain ⟨r, post', hpost, hr⟩ := hiff.mp hmr
    exact absurd (hnone r post' hpost) (by simp [hr])
  · obtain ⟨i, hi, herase⟩ := hjoin.index
    obtain ⟨hlt, _⟩ := List.getElem?_eq_some_iff.mp hi
    rw [if_pos (hiff.mpr ⟨r, post', rfl, hr⟩), herase, List.length_eraseIdx_of_lt hlt]
    exact ⟨rfl, hjoin.extent.room⟩

/-- In a heap that only unaligned requests have shaped, room in the index is all that `heap_free`
can lack. -/
theorem HeapInv.heapFree_iff (h : HeapInv a (pre ++ t :: post)) (hk : t.kind = .used size)
    (hp : PlainTiling a (pre ++ t :: post)) (hj : JoinsLeft t.addr (a.marked t.addr)) :
    (∃ a', heapFree (t.addr + 12) a = .ok a') ↔ RoomToFree a t.addr := by
  have htm : t ∈ pre ++ t :: post := by simp
  have hb := h.bounds htm
  have hlt := h.end_lt
  have hst := t.stop_eq
  have hmark := h.mark hk
  have hright : ∀ r post', post = r :: post' → r.kind.isHole = true →
      r.kind ≠ .husk ∧ r.kind ≠ .raw := fun r post' hpost _ => hp.behind h hpost
  have hhusk : ∀ r post', post = r :: post' → r.kind.isHole = true → r.kind ≠ .husk :=
    fun r post' hpost hr => (hright r post' hpost hr).1
  rw [heapFree_eq (h.good t htm) hk (by omega)]
  obtain ⟨r, a₁, hl⟩ := hmark.mergeLeft_total rfl hj
  have hl' : mergeLeft t.addr (t.stop - 8) (a.marked t.addr) = .ok (r, a₁) := hl
  rw [except_bind_of_ok hl']
  unfold RoomToFree
  rcases hmark.mergeLeft rfl hj hl with ⟨hnot, rfl, rfl⟩ | ⟨pre', l, rfl, hrec, rfl, hleft⟩
  · obtain ⟨a₂, hr, _⟩ := hmark.mergeRight_total rfl (by simp) hright
    obtain ⟨hlen, hmax⟩ := hmark.mergeRight_length rfl hhusk hr
    dsimp only
    rw [except_bind_of_ok hr, if_pos rfl]
    have hgoal : a₂.heap.index.array.length < a₂.heap.index.maxSize ↔
        (if MergesRight t.addr (a.marked t.addr) then a.heap.index.size - 1
          else a.heap.index.size) < a.heap.index.maxSize := by
      rw [hlen, hmax]
      rfl
    rw [← hgoal]
    constructor
    · rintro ⟨a', ha⟩
      obtain ⟨index, hi, _⟩ := except_bind_ok ha
      exact Or.inr (orderedArrayInsert_ok hi).1
    · intro hroom
      rw [orderedArrayInsert_of_room _ _ _ (hroom.resolve_left hnot)]
      exact ⟨_, rfl⟩
  · have hpend : Pending a₁ (pre' ++ ⟨l.addr, l.len + t.len, .free⟩ :: post) [] :=
      ⟨hleft.inv.toHeapBody, hleft.inv.index⟩
    obtain ⟨a₂, hr, _⟩ := hpend.mergeRight_total rfl (by simp) hright
    dsimp only at hr ⊢
    rw [except_bind_of_ok hr]
    exact ⟨fun _ => Or.inl hrec.merges, fun _ => ⟨_, rfl⟩⟩

end Free

/-! ## Runs -/

/-- The operation asks for no alignment. -/
def Unaligned : HeapOp → Prop
  | .alloc _ pageAlign => pageAlign = false
  | _ => True

instance : DecidablePred Unaligned := fun op =>
  match op with
  | .alloc _ pageAlign => inferInstanceAs (Decidable (pageAlign = false))
  | .free _ => isTrue trivial
  | .write _ _ => isTrue trivial

/-- Unaligned requests that wrap nowhere, and frees that merge holes with the right tags. -/
def PlainStep (op : HeapOp) (s : HeapState) : Prop := Unaligned op ∧ NoOverflowStep op s

instance (op : HeapOp) (s : HeapState) : Decidable (PlainStep op s) :=
  inferInstanceAs (Decidable (_ ∧ _))

theorem PlainTiling.carved {a a' : Arena} {ts pre post : List Tile} {t : Tile} {size p : ℕ}
    (hp : PlainTiling a ts) (ha : Allocated a a' ts pre t post size false p) :
    PlainTiling a' (pre ++ carved t size false ++ post) := by
  have hold : ∀ u ∈ pre ++ post, u ∈ ts := by
    intro u hu
    rcases ha.source with ⟨rfl, _⟩ | ⟨_, rfl, rfl, _⟩
    · rcases List.mem_append.mp hu with hu | hu <;> simp [hu]
    · simpa using hu
  have hnew : ∀ u ∈ pre ++ Evos.carved t size false ++ post,
      u ∈ pre ++ post ∨ u.kind ≠ .husk ∧ u.kind ≠ .raw := by
    intro u hu
    rw [carved_in_place rfl] at hu
    rcases List.mem_append.mp hu with hu | hu
    · rcases List.mem_append.mp hu with hu | hu
      · exact Or.inl (List.mem_append_left _ hu)
      · right
        rcases List.mem_cons.mp hu with rfl | hu
        · simp
        · unfold rightPart at hu
          split at hu
          · exact absurd hu List.not_mem_nil
          · rw [List.mem_singleton.mp hu]
            simp
    · exact Or.inl (List.mem_append_right _ hu)
  refine ⟨fun u hu => ?_, fun u hu hraw => ?_⟩
  · rcases hnew u hu with h | h
    · exact hp.noHusk u (hold u h)
    · exact h.1
  · rcases hnew u hu with h | h
    · rw [ha.start]
      exact hp.rawFirst u (hold u h) hraw
    · exact absurd hraw h.2

theorem PlainTiling.freed {a a' : Arena} {pre post : List Tile} {l r : Option Tile} {t : Tile}
    (hp : PlainTiling a (pre ++ l.toList ++ t :: (r.toList ++ post)))
    (hf : Freed a a' pre l t r post) : PlainTiling a' (pre ++ joined l t r :: post) := by
  have hnew : ∀ u ∈ pre ++ joined l t r :: post,
      u ∈ pre ++ l.toList ++ t :: (r.toList ++ post) ∨ u.kind = .free := by
    intro u hu
    rcases List.mem_append.mp hu with hu | hu
    · left
      simp [hu]
    · rcases List.mem_cons.mp hu with rfl | hu
      · exact Or.inr rfl
      · left
        simp [hu]
  refine ⟨fun u hu hhusk => ?_, fun u hu hraw => ?_⟩
  · rcases hnew u hu with h | h
    · exact hp.noHusk u h hhusk
    · rw [h] at hhusk
      exact nomatch hhusk
  · rcases hnew u hu with h | h
    · rw [hf.extent.start]
      exact hp.rawFirst u h hraw
    · rw [h] at hraw
      exact nomatch hraw

/-- The invariant of runs without aligned requests. -/
def PlainHeld (s : HeapState) : Prop := Held s ∧ ∃ ts, Tiled s ts ∧ PlainTiling s.arena ts

theorem PlainHeld.step {s s' : HeapState} {op : HeapOp} (hs : PlainHeld s) (hok : PlainStep op s)
    (hstep : heapStep op s = some s') : PlainHeld s' := by
  obtain ⟨hheld, ts, ht, hp⟩ := hs
  have hsafe := hok.2.safeStep hheld hstep
  refine ⟨hheld.step hok.2 hstep, ?_⟩
  cases op with
  | alloc size pageAlign =>
    obtain rfl : pageAlign = false := hok.1
    obtain ⟨pre, t, post, p, ha, _, hnew⟩ := allocStep_some ht hok.2.1 hsafe.1.2 hstep
    exact ⟨_, hnew, hp.carved ha⟩
  | free ptr =>
    obtain ⟨pre, l, t, r, post, n, rfl, _, _, hf, _, hnew⟩ := freeStep_some ht hok.2 hstep
    exact ⟨_, hnew, hp.freed hf⟩
  | write x v =>
    obtain ⟨hnew, hheap, _⟩ := writeStep_some ht hstep
    refine ⟨ts, hnew, hp.noHusk, ?_⟩
    rw [hheap]
    exact hp.rawFirst

theorem Created.plainHeld {mem : Mem} {start stop maxAddr : ℕ} {a : Arena}
    (h0 : Created mem start stop maxAddr a) : PlainHeld ⟨a, []⟩ := by
  obtain ⟨_, hstart, _⟩ := h0.eq
  refine ⟨h0.held, _, h0.tiled, fun t ht => ?_, fun t ht _ => ?_⟩
  · rw [List.mem_singleton.mp ht]
    simp
  · rw [List.mem_singleton.mp ht]
    exact hstart.symm

/-- In every run of unaligned requests that wrap nowhere and of frees that merge holes with the right
tags, a live block can be freed exactly if it merges with a hole in front of it or the index, less a
hole that merges behind it, has a free entry. -/
theorem heapFree_iff_of_run {mem : Mem} {start stop maxAddr : ℕ} {a : Arena}
    (h0 : Created mem start stop maxAddr a) {s : HeapState}
    (r : Run heapStep PlainStep ⟨a, []⟩ s) {p n : ℕ} (hlive : (p, n) ∈ s.live)
    (hj : JoinsHoles s.arena p) :
    (∃ a', heapFree p s.arena = .ok a') ↔ RoomToFree s.arena (p - 12) := by
  obtain ⟨_, ts, ht, hp⟩ := r.invariant h0.plainHeld fun _ _ _ hx hok hs => hx.step hok hs
  obtain ⟨t, htm, hk, rfl, _⟩ := ht.tile hlive
  obtain ⟨pre, post, rfl⟩ := List.append_of_mem htm
  obtain ⟨hleft, _⟩ := hj
  rw [Nat.add_sub_cancel] at hleft ⊢
  exact ht.heap.heapFree_iff hk hp hleft

set_option maxRecDepth 100000 in
theorem heapFree_iff_of_run_initialHeap :
    ∃ s, trace heapStep PlainStep [.alloc 100 false, .alloc 200 false, .alloc 300 false,
        .free 0x0f002084] ⟨initialHeap, []⟩ = some s ∧
      ∃ a', heapFree 0x0f00200c s.arena = .ok a' := by
  obtain ⟨s, hs, hn⟩ := (Option.any_eq_true _ _).mp (show (trace heapStep PlainStep
    [.alloc 100 false, .alloc 200 false, .alloc 300 false, .free 0x0f002084]
      ⟨initialHeap, []⟩).any (fun s => decide ((0x0f00200c, 100) ∈ s.live ∧
        JoinsHoles s.arena 0x0f00200c ∧ RoomToFree s.arena 0x0f002000)) = true by
          decide +kernel)
  obtain ⟨hlive, hj, hroom⟩ := of_decide_eq_true hn
  exact ⟨s, hs, (heapFree_iff_of_run initialHeap_created (Run.of_trace hs) hlive hj).mpr hroom⟩

end Evos
