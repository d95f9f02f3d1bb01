import Evos.Mm.BootInvariant
import Evos.Mm.GrowthFault
import Mathlib.Order.Interval.Finset.Nat

/-! # Growing while growing

`expand` maps its pages in `kernel_directory`. A page whose table is missing makes `get_page` call
`kmalloc_ap` for the table, on the heap that is just growing. The new table is in no other directory,
and the header or the footer of the new hole is written through the loaded one. -/

namespace Evos
open Outcome
set_option autoImplicit false

/-! ## Requests that need page tables -/

/-- The pages that the heap can still take. -/
def Kernel.pagesLeft (s : Kernel) : ℕ := (kheapMaxAddress - s.arena.heap.allocatedEnd) / 4096

/-- A request that the heap grows for, across the boundary of a page table that is missing, with space
and frames for it. -/
structure Kernel.GrowsTables (s : Kernel) (size : ℕ) (align : Bool) : Prop where
  request : size + 20 < 2 ^ 31
  noHole : findHole s.arena (size + 20) align = none
  crosses : ∃ i < 1024, tableIndex s.arena.heap.allocatedEnd ≤ i ∧
    0x400000 * i < grownEnd s.arena size ∧ s.tableAt i = 0
  space : grownEnd s.arena size ≤ kheapMaxAddress
  frames : s.pagesLeft ≤ s.free

/-- What such a request is to leave behind: ends that only moved up, new tables apart from the holes
and from the block, and a well-formed heap. -/
structure GrewWell (s : Kernel) (p size : ℕ) (t : Kernel) : Prop where
  ends : t.midpoints.Pairwise fun v w => w.heapEnd ≤ v.heapEnd
  last : ∀ v ∈ t.midpoints, v.heapEnd ≤ t.arena.heap.allocatedEnd
  holes : ∀ b ∈ t.paging, b ∉ s.paging → ∀ h ∈ t.arena.heap.index.array,
    h + headerSize t.arena.mem h ≤ b ∨ b + pageTableSize ≤ h
  block : ∀ b ∈ t.paging, b ∉ s.paging → p + size ≤ b ∨ b + pageTableSize ≤ p
  wellFormed : ∃ ts, HeapInv t.arena ts

/-- The call returns, and what it leaves behind is as it is to be. -/
def Kernel.Reentrant (s : Kernel) (size : ℕ) (align : Bool) : Prop :=
  ∃ depth wantPhysical block t, kmallocAt depth size align wantPhysical s = .ok block t ∧
    GrewWell s block.1 size t

section Never
variable {s : Kernel} {top size : ℕ} {align : Bool}

theorem Kernel.GrowsTables.past (hg : s.GrowsTables size align) (hs : s.Sound top) :
    heapTop top < grownEnd s.arena size := by
  obtain ⟨ts, h⟩ := hs.inv
  obtain ⟨i, _, hlo, hhi, h0⟩ := hg.crosses
  have hstart := h.start
  have hle : s.arena.heap.allocatedStart ≤ s.arena.heap.allocatedEnd := h.tiled.heap.tiles.le
  have hbase : kheapStart = 0x0f000000 := rfl
  have h60 : 60 ≤ i := by
    unfold tableIndex at hlo
    omega
  have htop : top ≤ i := by
    by_contra hlt
    exact h.pages.tableNe i h60 (Nat.lt_of_not_le hlt) h0
  unfold heapTop
  omega

/-- However well-formed the heap is, no such request returns. -/
theorem not_reentrant (hs : s.Sound top) (hg : s.GrowsTables size align) :
    ¬s.Reentrant size align := by
  rintro ⟨depth, w, block, t, hok, _⟩
  exact (kmallocAt_behind depth hs hg.request hg.noHole (hg.past hs) w).ok hok

end Never

/-! ## A request behind the boot -/

section Boot

theorem Kernel.free_of_clear {s : Kernel} {k : ℕ} (h : ∀ w ∈ s.frames.drop k, w = 0) :
    32 * s.frames.length ≤ s.free + 32 * k := by
  have hsub : Finset.Ico (32 * k) (32 * s.frames.length) ⊆
      (Finset.range (32 * s.frames.length)).filter fun f => isSet Words.list s.frames f = false := by
    intro f hf
    obtain ⟨hlo, hhi⟩ := Finset.mem_Ico.mp hf
    refine Finset.mem_filter.mpr ⟨Finset.mem_range.mpr hhi, ?_⟩
    have hword : Words.list.read s.frames (outerIndex f) = 0 := by
      have hindex : outerIndex f < s.frames.length := outerIndex_lt_iff.mpr hhi
      have hge : k ≤ outerIndex f := by
        unfold outerIndex bitsPerItem
        omega
      have hsum : k + (outerIndex f - k) = outerIndex f := by omega
      have hmem : s.frames[outerIndex f] ∈ s.frames.drop k := by
        refine List.mem_drop_iff_getElem.mpr ⟨outerIndex f - k, by omega, ?_⟩
        simp only [hsum]
      change s.frames.getD (outerIndex f) 0 = 0
      rw [List.getD_eq_getElem _ _ hindex]
      exact h _ hmem
    unfold isSet
    rw [hword, Nat.zero_testBit]
  have hcard := Finset.card_le_card hsub
  rw [Nat.card_Ico] at hcard
  change _ ≤ s.free at hcard
  omega

set_option maxRecDepth 100000 in
/-- A machine with 20 MiB of memory, and a request for 4 MiB right behind its boot. -/
theorem lowKernel_growing : ∃ boot, initPaging 3 (lowKernel 0x1000 160) = .ok () boot ∧
    boot.Settled 61 ∧ boot.GrowsTables 0x400000 false ∧ boot.GrowsPast 61 0x400000 false := by
  have hrun : (booted 3 (lowKernel 0x1000 160)).any (fun s =>
      (findHole s.arena (0x400000 + 20) false).isNone &&
      decide (s.arena.heap.allocatedEnd = 0x0f010000) &&
      decide (s.frames.length = 160) && (s.frames.drop 1).all (· == 0) &&
      ((findHole s.arena (pageTableSize + 20) true).any fun i =>
        (carve i (pageTableSize + 20) true s.arena).isOk)) = true := by decide +kernel
  obtain ⟨boot, hboot, hchecks⟩ := (Option.any_eq_true _ _).mp hrun
  simp only [Bool.and_eq_true, decide_eq_true_eq, Option.isNone_iff_eq_none, List.all_eq_true,
    beq_iff_eq] at hchecks
  obtain ⟨⟨⟨⟨hnone, hend⟩, hlen⟩, hclear⟩, htable⟩ := hchecks
  have hb := booted_some hboot
  have htop : (lowKernel 0x1000 160).bootTop = 61 := by decide
  have hs := ((initPaging_settled 3 (lowKernel_startup (by decide) (by decide))).ok hb).1
  rw [htop] at hs
  obtain ⟨ts, h⟩ := hs.paged.inv
  have hgrown : grownEnd boot.arena 0x400000 = 0x0f412000 := by
    unfold grownEnd
    rw [hend, h.start]
    decide
  have hmissing : boot.tableAt 61 = 0 := hs.paged.low 61 (by decide) (by decide)
  have hfree := Kernel.free_of_clear hclear
  rw [hlen] at hfree
  refine ⟨boot, hb, hs, ⟨by decide, hnone, ⟨61, by decide, ?_, ?_, hmissing⟩, ?_, ?_⟩,
    ⟨by decide, hnone, ?_, ?_, ?_, hmissing, ?_, ?_⟩⟩
  · rw [hend]
    decide
  · rw [hgrown]
    decide
  · rw [hgrown]
    decide
  · unfold Kernel.pagesLeft
    rw [hend]
    have hleft : (kheapMaxAddress - 0x0f010000) / 4096 = 4079 := by decide
    omega
  · rw [hgrown]
    decide
  · rw [hgrown]
    decide
  · rw [hgrown]
    decide
  · obtain ⟨i, hi, hc⟩ := (Option.any_eq_true _ _).mp htable
    obtain ⟨⟨p, a⟩, hc⟩ := except_isOk hc
    exact ⟨i, p, a, hi, hc⟩
  · rw [hgrown, hend]
    have hpages : (0x0f412000 - 0x0f010000) / 4096 = 1026 := by decide
    omega

theorem not_reentrant_lowKernel : ∃ boot, initPaging 3 (lowKernel 0x1000 160) = .ok () boot ∧
    ¬boot.Reentrant 0x400000 false := by
  obtain ⟨boot, hb, hs, hg, _⟩ := lowKernel_growing
  exact ⟨boot, hb, not_reentrant (hs.paged.sound hs.own) hg⟩

/-- Space and frames suffice, and `kmalloc` stops right behind `expand`, however deep it may nest. -/
theorem not_all_reentrant : ∃ boot, initPaging 3 (lowKernel 0x1000 160) = .ok () boot ∧
    boot.GrowsTables 0x400000 false ∧ ¬boot.Reentrant 0x400000 false ∧
    ∀ block t, kmalloc 3 0x400000 boot ≠ .ok block t := by
  obtain ⟨boot, hb, hs, hg, hpast⟩ := lowKernel_growing
  have hnever := fun depth w => kmallocAt_behind depth (hs.paged.sound hs.own) hg.request hg.noHole
    hpast.past w
  refine ⟨boot, hb, hg, ?_, fun block t hok => (hnever 3 false).ok hok⟩
  rintro ⟨depth, w, block, t, hok, _⟩
  exact (hnever depth w).ok hok

end Boot

end Evos
