import Evos.Kheap.Safety

/-! # Where `heap_alloc` puts a block

The bounds of a block as numbers without wrap. A request has four chances to wrap: adding header and
footer, the signed comparison of the aligned search, the length of a growing heap and the check of
that length against `max_addr`. -/

namespace Evos
open ByteMemory Segments Outcome Runs
set_option autoImplicit false

/-- The block at `p` lies in the heap with its header and footer, and its header says so. -/
structure WithinHeap (a : Arena) (size p : ℕ) : Prop where
  start : a.heap.allocatedStart + 12 ≤ p
  stop : p + size + 8 ≤ a.heap.allocatedEnd
  below : a.heap.allocatedEnd ≤ a.heap.maxAddr
  header : size + 20 ≤ headerSize a.mem (p - 12)

/-- `heap_alloc` panics, or the block it returns is within the heap. -/
def AllocatesWithin (a : Arena) (size : ℕ) (pageAlign : Bool) : Prop :=
  ∀ p a', heapAlloc Arena.host size pageAlign a = .ok p a' → WithinHeap a' size p

/-- The request wraps nowhere, and neither does the end of a heap that has to grow for it. -/
def NoOverflow (a : Arena) (size : ℕ) (pageAlign : Bool) : Prop :=
  Request size pageAlign ∧ (findHole a (size + 20) pageAlign = none → grownEnd a size < 2 ^ 32)

/-- Requests do not wrap, and a free merges holes whose tags are right. -/
def NoOverflowStep : HeapOp → HeapState → Prop
  | .alloc size pageAlign, s => NoOverflow s.arena size pageAlign
  | .free ptr, s => JoinsHoles s.arena ptr
  | .write _ _, _ => True

instance (size : ℕ) (pageAlign : Bool) : Decidable (Request size pageAlign) :=
  decidable_of_iff (size + 20 < 2 ^ 32 ∧ (pageAlign = true → size + 20 < 2 ^ 31))
    ⟨fun h => ⟨h.1, h.2⟩, fun h => ⟨h.noWrap, h.signed⟩⟩

instance (a : Arena) (size : ℕ) (pageAlign : Bool) : Decidable (NoOverflow a size pageAlign) :=
  inferInstanceAs (Decidable (_ ∧ (_ → _)))

instance (op : HeapOp) (s : HeapState) : Decidable (NoOverflowStep op s) :=
  match op with
  | .alloc _ _ => inferInstanceAs (Decidable (NoOverflow _ _ _))
  | .free _ => inferInstanceAs (Decidable (JoinsHoles _ _))
  | .write _ _ => isTrue trivial

/-! ## One request -/

section Request
variable {a a' : Arena} {ts : List Tile} {size p : ℕ} {pageAlign : Bool}

/-- A heap that could grow has passed the check against `max_addr`, which does not wrap. -/
theorem HeapInv.staysUnderMax (h : HeapInv a ts) (hn : NoOverflow a size pageAlign)
    (ha : heapAlloc Arena.host size pageAlign a = .ok p a') : StaysUnderMax a size pageAlign := by
  intro hnone
  obtain ⟨i, g, _, hc, _, _⟩ := heapAlloc_ok ha
  rw [u32_of_lt hn.1.noWrap] at hc
  rcases chooseHole_ok hc with ⟨hf, _⟩ | ⟨_, hg⟩
  · exact absurd (hf.symm.trans hnone) (Option.some_ne_none i)
  obtain ⟨s₁, _, _, hexp, _⟩ := growHeap_ok hg
  obtain ⟨_, hmax, _⟩ := expand_ok hexp
  have hend := h.end_lt
  have hstart : a.heap.allocatedStart ≤ a.heap.allocatedEnd := h.tiles.le
  change u32 (a.heap.allocatedStart + pageRoundUp (u32 (sub32 a.heap.allocatedEnd
    a.heap.allocatedStart + (size + 20) + 4096))) ≤ a.heap.maxAddr at hmax
  rw [sub32_of_le hstart hend, u32_grownEnd (hn.2 hnone)] at hmax
  exact hmax

/-- Carving the new space of a heap leaves its end where it has grown to. -/
theorem Grown.carve_below {g : Arena} {newEnd i : ℕ} (hgrown : Grown a g ts newEnd)
    (hmax : newEnd ≤ a.heap.maxAddr) (hr : Request size pageAlign)
    (hf : Evos.findHole g (size + 20) pageAlign = some i)
    (hcarve : Evos.carve i (size + 20) pageAlign g = .ok (p, a')) :
    a'.heap.allocatedEnd ≤ a'.heap.maxAddr := by
  obtain ⟨t, ht, hk, hn, hi, _, hfit⟩ := hgrown.inv.findHole hr hf
  obtain ⟨pre, post, hts⟩ := List.append_of_mem ht
  have hinv := hgrown.inv
  rw [hts] at hinv
  have hext := hgrown.extent.trans (hinv.carve hk hn hi hfit hcarve).extent
  have hstop : a'.heap.allocatedEnd = newEnd := hext.stop
  rw [hstop, hext.max]
  exact hmax

theorem HeapInv.alloc_below (h : HeapInv a ts) (hr : Request size pageAlign)
    (hm : StaysUnderMax a size pageAlign) (hbelow : a.heap.allocatedEnd ≤ a.heap.maxAddr)
    (ha : heapAlloc Arena.host size pageAlign a = .ok p a') :
    a'.heap.allocatedEnd ≤ a'.heap.maxAddr := by
  obtain ⟨i, g, _, hc, hcarve, rfl⟩ := heapAlloc_ok ha
  rw [u32_of_lt hr.noWrap] at hc hcarve
  rcases chooseHole_ok hc with ⟨hf, rfl⟩ | ⟨hnone, hg⟩
  · obtain ⟨t, ht, hk, hn, hi, _, hfit⟩ := h.findHole hr hf
    obtain ⟨pre, post, rfl⟩ := List.append_of_mem ht
    have hext := (h.carve hk hn hi hfit hcarve).extent
    exact (hext.stop.trans_le hbelow).trans_eq hext.max.symm
  · have hmax : grownEnd a size ≤ a.heap.maxAddr := hm hnone
    obtain ⟨hgrown, hf⟩ := h.grow (Nat.lt_of_le_of_lt hmax h.max_lt) hg
    exact hgrown.carve_below hmax hr hf hcarve

theorem Allocated.within {pre post : List Tile} {t : Tile}
    (h : Allocated a a' ts pre t post size pageAlign p)
    (hbelow : a'.heap.allocatedEnd ≤ a'.heap.maxAddr) : WithinHeap a' size p := by
  have hmem : (⟨t.addr + leftOffset t.addr pageAlign, blockLen t.len (size + 20), .used size⟩ : Tile) ∈
      pre ++ carved t size pageAlign ++ post := by
    unfold carved
    simp
  have hbounds := h.inv.bounds hmem
  have hok := h.inv.good _ hmem
  have hlen := hok.payload size rfl
  have hsize := hok.size
  have hp := h.result
  dsimp only at hbounds hlen
  refine ⟨by omega, by omega, hbelow, ?_⟩
  rw [hp, Nat.add_sub_cancel, hsize]
  exact hlen

end Request

/-! ## Every run -/

/-- A heap that is tiled and ends where it may. -/
def Held (s : HeapState) : Prop :=
  (∃ ts, Tiled s ts) ∧ s.arena.heap.allocatedEnd ≤ s.arena.heap.maxAddr

theorem NoOverflowStep.safeStep {s s' : HeapState} {op : HeapOp} (h : NoOverflowStep op s) (hs : Held s)
    (hstep : heapStep op s = some s') : SafeStep op s := by
  cases op with
  | alloc size pageAlign =>
    obtain ⟨⟨ts, ht⟩, _⟩ := hs
    obtain ⟨p, a, ha, _⟩ := allocStep_ok hstep
    exact ⟨⟨h.1.noWrap, ht.heap.staysUnderMax h ha⟩, h.1.signed⟩
  | free ptr => exact ⟨trivial, h⟩
  | write x v => exact ⟨trivial, trivial⟩

theorem Held.step {s s' : HeapState} {op : HeapOp} (hs : Held s) (hok : NoOverflowStep op s)
    (hstep : heapStep op s = some s') : Held s' := by
  have hsafe := hok.safeStep hs hstep
  obtain ⟨⟨ts, ht⟩, hbelow⟩ := hs
  refine ⟨(ht.step hsafe hstep).1, ?_⟩
  cases op with
  | alloc size pageAlign =>
    obtain ⟨p, a, ha, rfl⟩ := allocStep_ok hstep
    exact ht.heap.alloc_below hok.1 hsafe.1.2 hbelow ha
  | free ptr =>
    obtain ⟨_, _, _, _, _, _, _, _, _, hf, _⟩ := freeStep_some ht hok hstep
    exact (hf.extent.stop.trans_le hbelow).trans_eq hf.extent.max.symm
  | write x v =>
    rw [(writeStep_some ht hstep).2.1]
    exact hbelow

theorem Created.held {mem : Mem} {start stop maxAddr : ℕ} {a : Arena}
    (h0 : Created mem start stop maxAddr a) : Held ⟨a, []⟩ := by
  obtain ⟨_, _, hstop, hmax, _⟩ := h0.eq
  have hle := h0.below
  refine ⟨⟨_, h0.tiled⟩, ?_⟩
  rw [← hstop, ← hmax] at hle
  exact hle

/-- In every run whose requests wrap nowhere and whose frees merge holes with the right tags,
`heap_alloc` panics or returns a block within the heap, for every request that wraps nowhere. -/
theorem allocatesWithin_of_run {mem : Mem} {start stop maxAddr : ℕ} {a : Arena}
    (h0 : Created mem start stop maxAddr a) {s : HeapState}
    (r : Run heapStep NoOverflowStep ⟨a, []⟩ s) {size : ℕ} {pageAlign : Bool}
    (hn : NoOverflow s.arena size pageAlign) : AllocatesWithin s.arena size pageAlign := by
  obtain ⟨⟨ts, ht⟩, hbelow⟩ := r.invariant h0.held fun _ _ _ hx hok hs => hx.step hok hs
  intro p a' ha
  have hm := ht.heap.staysUnderMax hn ha
  obtain ⟨pre, t, post, halloc⟩ := ht.heap.alloc hn.1 hm ha
  exact halloc.within (ht.heap.alloc_below hn.1 hm hbelow ha)

set_option maxRecDepth 100000 in
theorem allocatesWithin_of_run_initialHeap :
    ∃ s, trace heapStep NoOverflowStep [.alloc 1000 true, .alloc 0x20000 false, .free 0x0f01000c]
      ⟨initialHeap, []⟩ = some s ∧ AllocatesWithin s.arena 5000 true := by
  obtain ⟨s, hs, hn⟩ := (Option.any_eq_true _ _).mp (show (trace heapStep NoOverflowStep
    [.alloc 1000 true, .alloc 0x20000 false, .free 0x0f01000c] ⟨initialHeap, []⟩).any
      (fun s => decide (NoOverflow s.arena 5000 true)) = true by decide +kernel)
  exact ⟨s, hs, allocatesWithin_of_run initialHeap_created (Run.of_trace hs) (of_decide_eq_true hn)⟩

/-- The allocated block ends within its heap. -/
def endsInside (size : ℕ) : EStateM.Result Panic Arena ℕ → Bool
  | .ok p a => decide (p + size + 8 ≤ a.heap.allocatedEnd)
  | .error _ _ => true

set_option maxRecDepth 100000 in
/-- The largest size wraps to 19 bytes with header and footer. -/
theorem not_allocatesWithin_largest : ¬∀ s, Run heapStep (fun _ _ => True) ⟨initialHeap, []⟩ s →
    ∀ size < 2 ^ 32, ∀ pageAlign, AllocatesWithin s.arena size pageAlign := by
  intro hall
  have hout : endsInside 0xFFFFFFFF (heapAlloc Arena.host 0xFFFFFFFF false initialHeap) = false := by
    decide +kernel
  cases ha : heapAlloc Arena.host 0xFFFFFFFF false initialHeap with
  | error e a =>
    rw [ha] at hout
    exact nomatch hout
  | ok p a =>
    have hin := (hall ⟨initialHeap, []⟩ (Run.refl _) 0xFFFFFFFF (by decide) false p a ha).stop
    rw [ha] at hout
    exact absurd hin (of_decide_eq_false hout)

end Evos
