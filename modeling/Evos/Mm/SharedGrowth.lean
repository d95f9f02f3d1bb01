import Evos.Kheap.WellFormedAlloc
import Evos.Mm.KernelGrow

/-! # Growing in the shared tables

As long as the heap stays in the page tables that every directory shares, `kmalloc` does to it what
`heap_alloc` does to a heap on its own. So the blocks that a call of the kernel asks for say, before
the call, whether the heap stays there. -/

namespace Evos
open ByteMemory Segments Outcome
set_option autoImplicit false

/-! ## Requests -/

/-- The heap, serving the requests in order as long as it can, ends where it is said to whenever it
grows. -/
def StaysShared (shared : ℕ → Prop) : List (ℕ × Bool) → Arena → Prop
  | [], _ => True
  | (size, align) :: rs, a =>
    (findHole a (size + 20) align = none → grownEnd a size ≤ kheapMaxAddress →
      shared (grownEnd a size)) ∧
    ∀ p b, heapAlloc Arena.host size align a = .ok p b → StaysShared shared rs b

theorem StaysShared.mono {shared shared' : ℕ → Prop} {rs : List (ℕ × Bool)} {a : Arena}
    (h : StaysShared shared rs a) (hle : ∀ n, n ≤ kheapMaxAddress → shared n → shared' n) :
    StaysShared shared' rs a := by
  induction rs generalizing a with
  | nil => trivial
  | cons r rs ih =>
    obtain ⟨hgrow, hrest⟩ := h
    exact ⟨fun hnone hmax => hle _ hmax (hgrow hnone hmax), fun p b hok => ih (hrest p b hok)⟩

/-- Every recorded point lies in the tables below `top`. -/
def LowMidpoints (top : ℕ) (s : Kernel) : Prop := ∀ v ∈ s.midpoints, v.heapEnd ≤ heapTop top

/-- Nothing has gone past the tables below `top`, and nothing of what is still asked for will. -/
structure Ready (top : ℕ) (rs : List (ℕ × Bool)) (s : Kernel) : Prop where
  stays : StaysShared (· ≤ heapTop top) rs s.arena
  low : LowMidpoints top s

section Ready
variable {s t : Kernel} {top : ℕ} {rs : List (ℕ × Bool)}

theorem LowMidpoints.congr (h : LowMidpoints top s) (hm : t.midpoints = s.midpoints) :
    LowMidpoints top t := by
  unfold LowMidpoints
  rw [hm]
  exact h

theorem LowMidpoints.recorded (h : LowMidpoints top s)
    (hend : s.arena.heap.allocatedEnd ≤ heapTop top) : LowMidpoints top s.recorded := by
  intro v hv
  rcases List.mem_cons.mp hv with rfl | hv
  · exact hend
  · exact h v hv

theorem Ready.congr (h : Ready top rs s) (hheap : t.heap = s.heap) (hm : t.midpoints = s.midpoints) :
    Ready top rs t := by
  refine ⟨?_, h.low.congr hm⟩
  unfold Kernel.arena
  rw [hheap]
  exact h.stays

end Ready

/-! ## One request -/

section Request
variable {s t : Kernel} {top size i : ℕ} {ts : List Tile} {align : Bool}

theorem enterPages_shared {gp : ℕ → ℕ → KM (Option (ℕ × ℕ))} {newEnd : ℕ} (hm : LowMidpoints top t)
    (hheap : t.heap = s.heap) (hend : newEnd ≤ heapTop top)
    (hexp : expand Arena.host (u32 (sub32 s.arena.heap.allocatedEnd s.arena.heap.allocatedStart +
      (size + 20) + 4096)) s.arena = .ok () (s.arena.extended newEnd)) :
    Ends ((kernelHost gp).enterPages s.arena.heap.allocatedEnd newEnd (t.extended newEnd))
      (fun _ u => LowMidpoints top u ∧ ∀ a, addHole s.arena.heap.allocatedEnd
          (sub32 s.arena.heap.allocatedEnd s.arena.heap.allocatedStart) u.arena = .ok ((), a) →
        LowMidpoints top (u.setArena a) ∧ ∀ i, findHole a (size + 20) align = some i →
          growHeap Arena.host (size + 20) align s.arena = .ok i (u.setArena a).arena ∧
            LowMidpoints top (u.setArena a)) (LowMidpoints top) := by
  have hrec : LowMidpoints top (t.extended newEnd).recorded :=
    LowMidpoints.recorded (s := t.extended newEnd) (hm.congr rfl) hend
  have harena : (t.extended newEnd).recorded.arena = s.arena.extended newEnd :=
    congrArg (fun x => Arena.extended (HeapState.arena x) newEnd) hheap
  refine (enterPages_ends _ _ hrec).mono ?_ fun _ hu => hu
  rintro _ _ ⟨rfl, _⟩
  have hset : ∀ a, LowMidpoints top ((t.extended newEnd).recorded.setArena a) := fun _ => hrec.congr rfl
  refine ⟨hrec, fun a hadd => ⟨hset a, fun i hf => ⟨?_, hset a⟩⟩⟩
  rw [harena] at hadd
  exact growHeap_of_stages (H := Arena.host) hexp rfl hadd hf

theorem growHeap_shared {alloc : ℕ → KM (ℕ × ℕ)} (h : KInv s top ts) (hsize : size + 20 < 2 ^ 31)
    (hlow : grownEnd s.arena size ≤ kheapMaxAddress → grownEnd s.arena size ≤ heapTop top)
    (hm : LowMidpoints top s) :
    Ends (growHeap (kernelHost (getPageWith alloc)) (size + 20) align s)
      (fun i t => growHeap Arena.host (size + 20) align s.arena = .ok i t.arena ∧ LowMidpoints top t)
      (LowMidpoints top) := by
  obtain ⟨hold, _, _, hge, _⟩ := h.expand_sizes hsize
  have hstart := h.start
  have hle : s.arena.heap.allocatedStart ≤ s.arena.heap.allocatedEnd := h.tiled.heap.tiles.le
  have hsum : s.arena.heap.allocatedStart +
      (s.arena.heap.allocatedEnd - s.arena.heap.allocatedStart) = s.arena.heap.allocatedEnd := by
    omega
  obtain ⟨v, hv⟩ : ∃ v, s.arena.heap.allocatedEnd = 4096 * v :=
    ⟨_, (Nat.mul_div_cancel' (Nat.dvd_of_mod_eq_zero h.endPage)).symm⟩
  have hpages := h.pages
  rw [hv] at hpages
  refine h.ends_growHeap hm hsize fun hmax count hcount => ?_
  have hgrown : 4096 * (v + count) = grownEnd s.arena size := by
    omega
  have hmapped := @mapPages_low _ alloc _ _ _ _ _ hpages (hsum.trans hv)
    (hstart ▸ Nat.le_add_right _ _) (hgrown ▸ hlow hmax)
  refine hmapped.mono ?_ fun u hu => ?_
  swap
  · exact hm.congr hu
  rintro _ t ⟨hg, hheap, _, hmid⟩
  refine ⟨hg.kept, hm.congr hmid, ?_⟩
  rw [← hold]
  exact enterPages_shared (hm.congr hmid) hheap (hlow hmax)
    (h.tiled.heap.expand_host (hmax.trans h.max.ge))

/-- `kmalloc` in the shared tables is `heap_alloc` on the heap on its own. -/
theorem kmallocAt_shared (depth : ℕ) (hs : s.Sound top) (hsize : size + 20 < 2 ^ 31)
    (hlow : findHole s.arena (size + 20) align = none → grownEnd s.arena size ≤ kheapMaxAddress →
      grownEnd s.arena size ≤ heapTop top)
    (hm : LowMidpoints top s) (wantPhysical : Bool) :
    Ends (kmallocAt depth size align wantPhysical s)
      (fun block t => heapAlloc Arena.host size align s.arena = .ok block.1 t.arena ∧
        LowMidpoints top t) (LowMidpoints top) := by
  obtain ⟨ts, h⟩ := hs.inv
  have hwrap : u32 (size + 20) = size + 20 := u32_of_lt (by omega)
  cases depth with
  | zero => exact ends_throw hm
  | succ depth =>
    refine ends_get_bind ?_
    rw [if_pos h.on]
    refine ends_bind (Q := fun p t => heapAlloc Arena.host size align s.arena = .ok p t.arena ∧
      LowMidpoints top t) (ends_heapAlloc ?_ ?_) fun p t ht => ends_modify_bind ?_
    · rw [hwrap]
      intro i hf
      refine ⟨hm, fun p a hc => ⟨?_, hm⟩⟩
      rw [← hwrap] at hf hc
      exact heapAlloc_of_choose (H := Arena.host) (chooseHole_of_found (H := Arena.host) hf) hc
    · rw [hwrap]
      intro hnone
      refine (growHeap_shared h hsize (hlow hnone) hm).mono ?_ fun _ hu => hu
      rintro i t ⟨hgrow, hlow'⟩
      refine ⟨hlow', fun p a hc => ⟨?_, hlow'⟩⟩
      rw [← hwrap] at hnone hgrow hc
      refine heapAlloc_of_choose (H := Arena.host) ?_ hc
      exact (chooseHole_of_none (H := Arena.host) hnone).trans hgrow
    · cases wantPhysical with
      | false => exact ends_pure ht
      | true =>
        refine ends_bind (physicalOf_kept p (t.tookBlock p size) |>.mono (fun _ _ hu => hu)
          fun u hu => ?_) fun _ u hu => ends_pure ?_
        · rw [hu]
          exact ht.2
        · rw [hu]
          exact ht

theorem kmallocAt_ready (depth : ℕ) {rs : List (ℕ × Bool)} (hs : s.Sound top)
    (hsize : size + 20 < 2 ^ 31) (hr : Ready top ((size, align) :: rs) s) (wantPhysical : Bool) :
    Ends (kmallocAt depth size align wantPhysical s) (fun _ t => Ready top rs t) (LowMidpoints top) := by
  obtain ⟨hgrow, hrest⟩ := hr.stays
  refine (kmallocAt_shared depth hs hsize hgrow hr.low wantPhysical).mono ?_ fun _ hu => hu
  exact fun block t ht => ⟨hrest _ _ ht.1, ht.2⟩

end Request

end Evos
