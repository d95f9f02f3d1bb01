import Evos.Mm.FrameOwners
import Evos.Task.PageWalks

/-! # Which page has a frame, in every run

No two page table entries share a frame, but for the cloning page, and `frame_alloc` never hands out a
frame that is mapped. Directories share memory only by sharing a table. -/

namespace Evos
open ByteMemory Outcome Runs Holding
set_option autoImplicit false

/-! ## The calls -/

section Depth
variable (depth : ℕ)

end Depth

section Calls
variable {s t : Kernel} {depth top : ℕ}

theorem FramesOK.free {ws : List ℕ} (h : FramesOK ws) (f : ℕ) :
    FramesOK (frameFree Words.list ws.length f ws) := by
  have L := Words.list_lawful ws.length
  have hv : (fun ws' : List ℕ => ws'.length = ws.length ∧ ∀ w ∈ ws', w < 2 ^ 32) ws := ⟨rfl, h.word⟩
  unfold frameFree
  by_cases h0 : f = 0
  · rw [if_neg fun hne => hne h0]
    exact h
  · rw [if_pos h0]
    obtain ⟨hlen, hword⟩ := valid_bitsetClear (i := f) L hv
    refine ⟨hlen.le.trans h.length, hword, ?_⟩
    by_cases hf : outerIndex f < ws.length
    · have hzero : outerIndex 0 < ws.length :=
        Nat.lt_of_le_of_lt (Nat.div_le_div_right (Nat.zero_le f)) hf
      rw [isSet_bitsetClear L hv hf hzero, h.zero, decide_eq_false (Ne.symm h0)]
      rfl
    · unfold bitsetClear
      rw [if_pos (Nat.le_of_not_lt hf)]
      exact h.zero

theorem Kernel.Paged.withFrames {ws : List ℕ} (hs : s.Paged top) (hf : FramesOK ws) :
    ({ s with frames := ws } : Kernel).Paged top := by
  obtain ⟨ts, hi⟩ := hs.inv
  refine ⟨⟨ts, { hi with pages := { hi.pages with frames := hf, shares := ?_ } }⟩, hs.low, hs.apart,
    hs.kernel⟩
  intro d hd hk
  obtain ⟨hsh, hrest⟩ := hi.pages.shares d hd hk
  exact ⟨⟨hsh.heap, hsh.none, hsh.cloning⟩, hrest⟩

end Calls

/-! ## Runs -/

section Runs
variable {o boot s t : Kernel} {depth : ℕ}

end Runs

end Evos
