import Evos.Mm.Frame

/-! # `mm/frame.c`: histories of `frame_alloc` and `frame_free`

A ledger keeps the words of the bitmap beside the frames that were handed out and not given back.
With the words in their own zeroed storage the set bits are the frames held, over every history. The
bitmap is rounded up to whole words, and `num_frames` is not looked at again: the scan stops at the
last word and not at the last frame. -/

namespace Evos
open Runs
set_option autoImplicit false

/-! ## The ledger -/

/-- The words of the bitmap, and the frames held. -/
structure FrameLedger (σ : Type) where
  words : σ
  held : List ℕ

section Ledger
variable {σ : Type} (W : Words σ) (size : ℕ)

def ledgerStep : FrameOp → FrameLedger σ → Option (FrameLedger σ)
  | .alloc, l =>
    match frameAlloc W size l.words with
    | .ok (frame, words) => some ⟨words, frame :: l.held⟩
    | .error _ => none
  | .free frame, l => some ⟨frameFree W size frame l.words, l.held.erase frame⟩

/-- Only a frame that is held is freed, and never frame 0. -/
def FreesHeld : FrameOp → FrameLedger σ → Prop
  | .alloc, _ => True
  | .free frame, l => frame ≠ 0 ∧ frame ∈ l.held

/-- The next `frame_alloc` returns the lowest of the frames below `numFrames` that is not held, and
panics exactly when all of them are. -/
def ServesLowest (numFrames : ℕ) (l : FrameLedger σ) : Prop :=
  (∀ frame words, frameAlloc W size l.words = .ok (frame, words) →
    frame < numFrames ∧ frame ∉ l.held ∧ ∀ lower < frame, lower ∈ l.held) ∧
  ((∃ panic, frameAlloc W size l.words = .error panic) ↔ ∀ frame < numFrames, frame ∈ l.held)

/-- The set bits are the frames held, each held once. -/
structure FrameLedger.Exact (Valid : σ → Prop) (l : FrameLedger σ) : Prop where
  valid : Valid l.words
  nodup : l.held.Nodup
  inside : ∀ frame ∈ l.held, outerIndex frame < size
  bits : ∀ i, outerIndex i < size → isSet W l.words i = decide (i ∈ l.held)

end Ledger

/-! ## One call -/

section Steps
variable {σ : Type} {W : Words σ} {size : ℕ} {Valid : σ → Prop} {l l' : FrameLedger σ}

theorem ledgerStep_alloc {frame : ℕ} {words : σ}
    (h : frameAlloc W size l.words = .ok (frame, words)) :
    ledgerStep W size .alloc l = some ⟨words, frame :: l.held⟩ := by
  simp only [ledgerStep, h]

theorem ledgerStep_alloc_some (h : ledgerStep W size .alloc l = some l') :
    ∃ frame words, frameAlloc W size l.words = .ok (frame, words) ∧
      l' = ⟨words, frame :: l.held⟩ := by
  cases hf : frameAlloc W size l.words with
  | error e =>
    simp only [ledgerStep, hf] at h
    cases h
  | ok r =>
    simp only [ledgerStep, hf, Option.some.injEq] at h
    exact ⟨r.1, r.2, rfl, h.symm⟩

theorem FrameLedger.Exact.fresh (e : l.Exact W size Valid) {frame : ℕ} {words : σ}
    (h : frameAlloc W size l.words = .ok (frame, words)) : frame ∉ l.held := by
  obtain ⟨hin, hclear, _, _⟩ := frameAlloc_ok h
  rw [e.bits frame hin] at hclear
  exact of_decide_eq_false hclear

theorem FrameLedger.Exact.alloc (L : W.Lawful size Valid) (e : l.Exact W size Valid) {frame : ℕ}
    {words : σ} (h : frameAlloc W size l.words = .ok (frame, words)) :
    FrameLedger.Exact W size Valid ⟨words, frame :: l.held⟩ where
  valid := frameAlloc_valid L e.valid h
  nodup := List.nodup_cons.mpr ⟨e.fresh h, e.nodup⟩
  inside g hg := by
    rcases List.mem_cons.mp hg with rfl | hg
    · exact (frameAlloc_ok h).1
    · exact e.inside g hg
  bits i hi := by
    rw [isSet_frameAlloc L e.valid h hi, e.bits i hi, ← Bool.decide_or]
    congr 1
    rw [List.mem_cons, or_comm]

theorem FrameLedger.Exact.free (L : W.Lawful size Valid) (e : l.Exact W size Valid) {frame : ℕ}
    (hne : frame ≠ 0) (hheld : frame ∈ l.held) :
    FrameLedger.Exact W size Valid ⟨frameFree W size frame l.words, l.held.erase frame⟩ where
  valid := by
    unfold frameFree
    rw [if_pos hne]
    exact valid_bitsetClear L e.valid
  nodup := e.nodup.erase frame
  inside g hg := e.inside g (List.mem_of_mem_erase hg)
  bits i hi := by
    unfold frameFree
    rw [if_pos hne, isSet_bitsetClear L e.valid (e.inside frame hheld) hi, e.bits i hi]
    rw [← decide_not, ← Bool.decide_and]
    congr 1
    rw [e.nodup.mem_erase_iff, and_comm]

theorem FrameLedger.Exact.step (L : W.Lawful size Valid) {op : FrameOp}
    (e : l.Exact W size Valid) (hop : FreesHeld op l) (h : ledgerStep W size op l = some l') :
    l'.Exact W size Valid := by
  cases op with
  | alloc =>
    obtain ⟨frame, words, hf, rfl⟩ := ledgerStep_alloc_some h
    exact e.alloc L hf
  | free frame =>
    cases h
    exact e.free L hop.1 hop.2

/-! ## Whole histories -/

theorem FrameLedger.exact_clear {s : σ} (hv : Valid s) (h : TakenBelow W size 0 s) :
    FrameLedger.Exact W size Valid ⟨s, []⟩ where
  valid := hv
  nodup := List.nodup_nil
  inside frame hf := absurd hf List.not_mem_nil
  bits i hi := by
    rw [h i hi]
    simp

theorem FrameLedger.Exact.run (L : W.Lawful size Valid) (e : l.Exact W size Valid)
    (r : Run (ledgerStep W size) FreesHeld l l') : l'.Exact W size Valid :=
  r.invariant e fun _ _ _ hx hop hs => hx.step L hop hs

theorem FrameLedger.Exact.servesLowest (e : l.Exact W size Valid) :
    ServesLowest W size (32 * size) l := by
  refine ⟨fun frame words h => ?_, fun ⟨panic, h⟩ frame hlt => ?_, fun hall => ?_⟩
  · obtain ⟨hin, _, hmin, _⟩ := frameAlloc_ok h
    refine ⟨outerIndex_lt_iff.mp hin, e.fresh h, fun lower hlower => ?_⟩
    have hbit := hmin lower hlower
    have hlt := outerIndex_lt_iff.mp hin
    rw [e.bits lower (outerIndex_lt_iff.mpr (by omega))] at hbit
    exact of_decide_eq_true hbit
  · by_contra hfree
    have hin : outerIndex frame < size := outerIndex_lt_iff.mpr hlt
    obtain ⟨f, t, hok⟩ := frameAlloc_total hin ((e.bits frame hin).trans (decide_eq_false hfree))
    rw [hok] at h
    cases h
  · cases hf : frameAlloc W size l.words with
    | error panic => exact ⟨panic, rfl⟩
    | ok r =>
      have hin := (frameAlloc_ok hf).1
      exact absurd (hall r.1 (outerIndex_lt_iff.mp hin)) (e.fresh hf)

theorem FrameLedger.takes_in_order (L : W.Lawful size Valid) {s : σ} (hv : Valid s)
    (h : TakenBelow W size 0 s) {n : ℕ} (hn : n ≤ 32 * size) :
    ∃ l, Run (ledgerStep W size) FreesHeld ⟨s, []⟩ l ∧ Valid l.words ∧
      TakenBelow W size n l.words := by
  induction n with
  | zero => exact ⟨⟨s, []⟩, Run.refl _, hv, h⟩
  | succ n ih =>
    obtain ⟨l, hr, hvl, htl⟩ := ih (by omega)
    obtain ⟨t, hf, hvt, htt⟩ := htl.next L hvl (by omega)
    exact ⟨⟨t, n :: l.held⟩, hr.tail (show FreesHeld .alloc l from trivial) (ledgerStep_alloc hf), hvt, htt⟩

/-- The histories of a clear bitmap keep below `numFrames` exactly when its last word is full. -/
theorem servesLowest_iff (L : W.Lawful size Valid) {s : σ} (hv : Valid s)
    (h : TakenBelow W size 0 s) {numFrames : ℕ} (hle : numFrames ≤ 32 * size) :
    (∀ l, Run (ledgerStep W size) FreesHeld ⟨s, []⟩ l → ServesLowest W size numFrames l) ↔
      numFrames = 32 * size := by
  constructor
  · intro hall
    by_contra hne
    obtain ⟨l, hr, hvl, htl⟩ := FrameLedger.takes_in_order L hv h hle
    obtain ⟨t, hf, _, _⟩ := htl.next L hvl (by omega)
    exact absurd ((hall l hr).1 numFrames t hf).1 (Nat.lt_irrefl numFrames)
  · intro heq l hr
    rw [heq]
    exact ((FrameLedger.exact_clear hv h).run L hr).servesLowest

/-! ## The frames that `frame_alloc` can return -/

/-- Bits set at first stay set, and what was handed out was clear at first. -/
structure HeldWasClear (W : Words σ) (size : ℕ) (Valid : σ → Prop) (s : σ) (l : FrameLedger σ) :
    Prop where
  valid : Valid l.words
  kept : ∀ i, outerIndex i < size → isSet W s i = true → isSet W l.words i = true
  held : ∀ frame ∈ l.held, outerIndex frame < size ∧ isSet W s frame = false

theorem HeldWasClear.alloc (L : W.Lawful size Valid) {s : σ} (h : HeldWasClear W size Valid s l)
    {frame : ℕ} {words : σ} (hf : frameAlloc W size l.words = .ok (frame, words)) :
    HeldWasClear W size Valid s ⟨words, frame :: l.held⟩ where
  valid := frameAlloc_valid L h.valid hf
  kept i hi hsi := by
    rw [isSet_frameAlloc L h.valid hf hi, h.kept i hi hsi, Bool.true_or]
  held g hg := by
    rcases List.mem_cons.mp hg with rfl | hg
    · obtain ⟨hin, hclear, _, _⟩ := frameAlloc_ok hf
      refine ⟨hin, ?_⟩
      by_contra hne
      rw [h.kept g hin (Bool.not_eq_false _ ▸ hne)] at hclear
      cases hclear
    · exact h.held g hg

end Steps

/-! ## The bitmap of `init_frames` -/

/-- The words of a bitmap in their own zeroed storage. -/
def zeroedWords (size : ℕ) : List ℕ := List.replicate size 0

theorem zeroedWords_valid (size : ℕ) :
    (zeroedWords size).length = size ∧ ∀ w ∈ zeroedWords size, w < 2 ^ 32 := by
  refine ⟨List.length_replicate, fun w hw => ?_⟩
  rw [List.eq_of_mem_replicate hw]
  decide

theorem zeroedWords_clear (size : ℕ) : TakenBelow Words.list size 0 (zeroedWords size) := by
  intro i hi
  have hread : Words.list.read (zeroedWords size) (outerIndex i) = 0 := by
    simp [Words.list, zeroedWords, List.getD_eq_getElem?_getD, hi]
  unfold isSet
  rw [hread, Nat.zero_testBit]
  rfl

theorem initFrames_size {totalMemory : ℕ} (h : totalMemory < 2 ^ 32) (s : LowMemory) :
    (initFrames totalMemory s).1.numFrames = totalMemory / 4096 ∧
      (initFrames totalMemory s).1.frames.size = (totalMemory / 4096 + 31) / 32 := by
  refine ⟨rfl, ?_⟩
  show u32 (totalMemory / 4096 + bitsPerItem - 1) / bitsPerItem = _
  have hbits : bitsPerItem = 32 := rfl
  rw [hbits, u32_of_lt (by omega)]
  omega

/-- In every history of `frame_alloc` and `frame_free` the frames handed out are the lowest free ones
below `num_frames`, with a panic exactly when all are held, if and only if `num_frames` fills its last
word. -/
theorem framesServed_iff (totalMemory : ℕ) (s : LowMemory) (h : totalMemory < 2 ^ 32) :
    (∀ l, Run (ledgerStep Words.list (initFrames totalMemory s).1.frames.size) FreesHeld
        ⟨zeroedWords (initFrames totalMemory s).1.frames.size, []⟩ l →
      ServesLowest Words.list (initFrames totalMemory s).1.frames.size
        (initFrames totalMemory s).1.numFrames l) ↔
      totalMemory / 4096 % 32 = 0 := by
  obtain ⟨hnum, hsize⟩ := initFrames_size h s
  rw [servesLowest_iff (Words.list_lawful _) (zeroedWords_valid _) (zeroedWords_clear _)
    (by omega), hnum, hsize]
  omega

/-- 32 MiB are 256 full words. -/
theorem framesServed_iff_at_32MiB :
    0x2000000 / 4096 % 32 = 0 ∧
      ∀ l, Run (ledgerStep Words.list 256) FreesHeld ⟨zeroedWords 256, []⟩ l →
        ServesLowest Words.list 256 8192 l :=
  ⟨by decide, (framesServed_iff 0x2000000 ⟨fun _ => 0, 0x120F00⟩ (by decide)).mpr (by decide)⟩

/-- 0x1FF0000 bytes are 8176 frames in 256 words: after them the next frame is number 8176. -/
theorem not_framesServed_at_8176_frames :
    ¬ ∀ l, Run (ledgerStep Words.list (initFrames 0x1FF0000 ⟨fun _ => 0, 0x120F00⟩).1.frames.size)
        FreesHeld ⟨zeroedWords (initFrames 0x1FF0000 ⟨fun _ => 0, 0x120F00⟩).1.frames.size, []⟩ l →
      ServesLowest Words.list (initFrames 0x1FF0000 ⟨fun _ => 0, 0x120F00⟩).1.frames.size
        (initFrames 0x1FF0000 ⟨fun _ => 0, 0x120F00⟩).1.numFrames l := by
  obtain ⟨hnum, hsize⟩ := @initFrames_size 0x1FF0000 (by decide) ⟨fun _ => 0, 0x120F00⟩
  rw [servesLowest_iff (Words.list_lawful _) (zeroedWords_valid _) (zeroedWords_clear _)
    (by omega), hnum, hsize]
  decide

end Evos
