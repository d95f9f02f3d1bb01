import Evos.Foundations.Overlay
import Evos.Mm.Frame

/-! # The footprint of the frame bitmap

Which bytes the bitmap of `init_frames` reads and writes, against the block `bitset_create` asked
`kmalloc` for: the operations stay inside four bytes for each word, and the block has one. -/

namespace Evos
open ByteMemory Runs
set_option autoImplicit false

/-! ## What the operations touch -/

/-- A bit, in the byte that has it. -/
theorem isSet_atBase {base : ℕ} (m : Mem) {f : ℕ} (hf : base + f / 8 < 2 ^ 32) :
    isSet (Words.atBase base) m f = (m (base + f / 8)).toNat.testBit (f % 8) := by
  have haddress : wordAddress base (f / 32) = base + 4 * (f / 32) := u32_of_lt (by omega)
  have hbit : f % 32 = 8 * (f % 32 / 8) + f % 8 := by omega
  have hbyte : base + 4 * (f / 32) + f % 32 / 8 = base + f / 8 := by omega
  change (load32 m (wordAddress base (f / 32))).testBit (f % 32) = _
  rw [haddress, hbit, testBit_load32 m _ (by omega) (by omega), hbyte]

/-- The four operations of a bitset in memory change, and depend on, bytes of `[lo, hi)` only. -/
structure Footprint (set : Bitset) (lo hi : ℕ) : Prop where
  onSet : ∀ m i, OnlyIn lo hi m (bitsetSet (Words.atBase set.base) set.size m i)
  onClear : ∀ m i, OnlyIn lo hi m (bitsetClear (Words.atBase set.base) set.size m i)
  onCheckSet : ∀ m m' i, SameOn lo hi m m' →
    bitsetCheckSet (Words.atBase set.base) set.size m' i =
      bitsetCheckSet (Words.atBase set.base) set.size m i
  onFindFree : ∀ m m', SameOn lo hi m m' →
    bitsetFindFree (Words.atBase set.base) set.size m' =
      bitsetFindFree (Words.atBase set.base) set.size m

section Words
variable {set : Bitset} {lo hi : ℕ}

theorem footprint_of_words
    (h : ∀ o < set.size, lo ≤ wordAddress set.base o ∧ wordAddress set.base o + 4 ≤ hi) :
    Footprint set lo hi := by
  have hread : ∀ m m', SameOn lo hi m m' → SameWords (Words.atBase set.base) set.size m m' :=
    fun m m' hs o ho => hs.load32 (h o ho).1 (h o ho).2
  refine ⟨fun m i => ?_, fun m i => ?_, fun m m' i hs => bitsetCheckSet_congr (hread m m' hs) i,
    fun m m' hs => bitsetFindFree_congr (hread m m' hs)⟩
  · unfold bitsetSet
    by_cases ho : outerIndex i ≥ set.size
    · rw [if_pos ho]
      exact OnlyIn.refl lo hi m
    · rw [if_neg ho]
      have hw := h (outerIndex i) (by omega)
      exact (OnlyIn.refl lo hi m).store32 hw.1 hw.2
  · unfold bitsetClear
    by_cases ho : outerIndex i ≥ set.size
    · rw [if_pos ho]
      exact OnlyIn.refl lo hi m
    · rw [if_neg ho]
      have hw := h (outerIndex i) (by omega)
      exact (OnlyIn.refl lo hi m).store32 hw.1 hw.2

theorem Footprint.run (h : Footprint set lo hi) {m m' : Mem}
    (r : Run (frameStep (Words.atBase set.base) set.size) (fun _ _ => True) m m') :
    OnlyIn lo hi m m' := by
  refine r.invariant (I := OnlyIn lo hi m) (OnlyIn.refl lo hi m) fun op x y hx _ hs => ?_
  cases op with
  | alloc =>
    obtain ⟨f, hf⟩ := frameStep_alloc.mp hs
    obtain ⟨_, _, _, rfl⟩ := frameAlloc_ok hf
    exact hx.trans (h.onSet x f)
  | free f =>
    cases hs
    unfold frameFree
    by_cases hf : f ≠ 0
    · rw [if_pos hf]
      exact hx.trans (h.onClear x f)
    · rw [if_neg hf]
      exact hx

end Words

/-! ## The bitmap of `init_frames` -/

section Created
variable (totalMemory : ℕ) (s : LowMemory)

/-- The bitmap `init_frames` makes. -/
def frameBitmap : Bitset := (initFrames totalMemory s).1.frames

/-- The memory after `init_frames`. -/
def memAfterInit : Mem := (initFrames totalMemory s).2.mem

/-- The end of the block `bitset_create` took from `kmalloc`. -/
def requestedEnd : ℕ :=
  s.memFirstUnused + sub32 (initFrames totalMemory s).2.memFirstUnused s.memFirstUnused

/-- The bitmap stays inside the block requested for it: its operations touch no other byte, every
frame of the machine is clear at first, and no run of frame calls changes a byte elsewhere. -/
structure BitmapContained : Prop where
  footprint : Footprint (frameBitmap totalMemory s) (frameBitmap totalMemory s).base
    (requestedEnd totalMemory s)
  clear : ∀ i < (initFrames totalMemory s).1.numFrames,
    bitsetCheckSet (Words.atBase (frameBitmap totalMemory s).base) (frameBitmap totalMemory s).size
      (memAfterInit totalMemory s) i = 0
  others : ∀ m, Run (frameStep (Words.atBase (frameBitmap totalMemory s).base)
      (frameBitmap totalMemory s).size) (fun _ _ => True) (memAfterInit totalMemory s) m →
    OnlyIn (frameBitmap totalMemory s).base (requestedEnd totalMemory s)
      (memAfterInit totalMemory s) m

variable {totalMemory s}

theorem frameBitmap_base : (frameBitmap totalMemory s).base = s.memFirstUnused := rfl

theorem frameBitmap_size (ht : totalMemory < 2 ^ 32) :
    (frameBitmap totalMemory s).size = (totalMemory / 4096 + 31) / 32 := by
  change u32 (totalMemory / 4096 + 32 - 1) / 32 = (totalMemory / 4096 + 31) / 32
  rw [u32_of_lt (by omega)]
  congr 1

theorem requestedEnd_eq (ht : totalMemory < 2 ^ 32) (hs : s.memFirstUnused < 2 ^ 32) :
    requestedEnd totalMemory s = s.memFirstUnused + (frameBitmap totalMemory s).size := by
  have hsize := frameBitmap_size (s := s) ht
  change s.memFirstUnused + sub32 (u32 (s.memFirstUnused + (frameBitmap totalMemory s).size))
    s.memFirstUnused = _
  congr 1
  unfold sub32 u32
  omega

/-- The last byte of the last word is never inside the requested block. -/
theorem lastByte_outside {size : ℕ} (base : ℕ) (h0 : 0 < size) (hsize : size < 2 ^ 20)
    (hb : base < 2 ^ 32) :
    wordAddress base (size - 1) + 3 < base ∨ base + size ≤ wordAddress base (size - 1) + 3 := by
  unfold wordAddress u32
  omega

theorem bitsetSet_lastByte {base size : ℕ} (h0 : 0 < size) :
    bitsetSet (Words.atBase base) size (fun _ => 0) (32 * (size - 1) + 31)
      (wordAddress base (size - 1) + 3) = 0x80 := by
  have ho : outerIndex (32 * (size - 1) + 31) = size - 1 := by
    unfold outerIndex bitsPerItem
    omega
  have hi : innerIndex (32 * (size - 1) + 31) = 31 := by
    unfold innerIndex bitsPerItem
    omega
  unfold bitsetSet
  rw [if_neg (by omega), ho, hi]
  have e : wordAddress base (size - 1) + 3 - wordAddress base (size - 1) = 3 := by omega
  change store32 (fun _ => 0) (wordAddress base (size - 1)) (0 ||| 1 <<< 31)
    (wordAddress base (size - 1) + 3) = 0x80
  unfold store32
  rw [if_pos (by omega), e]
  decide

theorem not_footprint (ht : totalMemory < 2 ^ 32) (hs : s.memFirstUnused < 2 ^ 32)
    (hge : 4096 ≤ totalMemory) :
    ¬ Footprint (frameBitmap totalMemory s) (frameBitmap totalMemory s).base
      (requestedEnd totalMemory s) := by
  intro h
  have hsize := frameBitmap_size (s := s) ht
  have h0 : 0 < (frameBitmap totalMemory s).size := by omega
  have hout := lastByte_outside s.memFirstUnused h0 (by omega) hs
  have hkeep := h.onSet (fun _ => 0) (32 * ((frameBitmap totalMemory s).size - 1) + 31)
    (wordAddress s.memFirstUnused ((frameBitmap totalMemory s).size - 1) + 3) (by
      rw [requestedEnd_eq ht hs, frameBitmap_base]
      exact hout)
  rw [frameBitmap_base, bitsetSet_lastByte h0] at hkeep
  cases hkeep

/-- The bitmap stays inside its block exactly when it has no word at all. -/
theorem bitmapContained_iff (ht : totalMemory < 2 ^ 32) (hs : s.memFirstUnused < 2 ^ 32) :
    BitmapContained totalMemory s ↔ totalMemory < 4096 := by
  constructor
  · intro h
    by_contra hge
    exact not_footprint ht hs (by omega) h.footprint
  · intro hlt
    have hsize := frameBitmap_size (s := s) ht
    have hz : (frameBitmap totalMemory s).size = 0 := by omega
    have hf : Footprint (frameBitmap totalMemory s) (frameBitmap totalMemory s).base
        (requestedEnd totalMemory s) := footprint_of_words fun o ho => by omega
    refine ⟨hf, fun i hi => ?_, fun m r => hf.run r⟩
    change i < totalMemory / 4096 at hi
    omega

theorem bitmapContained_iff_at_32MiB :
    BitmapContained 0x2000000 ⟨fun _ => 0, 0x120000⟩ ↔ 0x2000000 < 4096 :=
  bitmapContained_iff (by decide) (by decide)

/-! ## What goes wrong -/

theorem memAfterInit_zero (totalMemory : ℕ) {s : LowMemory} (hz : ∀ x, s.mem x = 0) :
    memAfterInit totalMemory s = fun _ => 0 := by
  funext x
  change fill s.mem s.memFirstUnused 0 (frameBitmap totalMemory s).size x = 0
  unfold fill
  by_cases hx : s.memFirstUnused ≤ x ∧ x < s.memFirstUnused + (frameBitmap totalMemory s).size
  · exact if_pos hx
  · exact (if_neg hx).trans (hz x)

theorem isSet_behind {base size : ℕ} {m : Mem} (h0 : 0 < size) (hb : base + 4 * size ≤ 2 ^ 32)
    (hz : ∀ x, base + size ≤ x → m x = 0) : isSet (Words.atBase base) m (8 * size) = false := by
  rw [isSet_atBase m (by omega), hz _ (by omega)]
  exact Nat.zero_testBit _

/-- Over zero memory, the frame after eight for each byte of the block is taken in the byte behind
the block. -/
theorem not_keepsOthers (ht : totalMemory < 2 ^ 32) (hge : 4096 ≤ totalMemory)
    (hz : ∀ x, s.mem x = 0) (hs : s.memFirstUnused + totalMemory / 4096 < 2 ^ 31) :
    ¬ ∀ m, Run (frameStep (Words.atBase (frameBitmap totalMemory s).base)
        (frameBitmap totalMemory s).size) (fun _ _ => True) (memAfterInit totalMemory s) m →
      OnlyIn (frameBitmap totalMemory s).base (requestedEnd totalMemory s)
        (memAfterInit totalMemory s) m := by
  intro hkeep
  have hsize := frameBitmap_size (s := s) ht
  have hend := requestedEnd_eq ht (s := s) (by omega)
  have hbound : (frameBitmap totalMemory s).base + 4 * (frameBitmap totalMemory s).size ≤ 2 ^ 32 := by
    rw [frameBitmap_base]
    omega
  have hzero := memAfterInit_zero totalMemory hz
  have hclear : TakenBelow (Words.atBase (frameBitmap totalMemory s).base)
      (frameBitmap totalMemory s).size 0 (memAfterInit totalMemory s) := by
    intro i _
    rw [hzero]
    exact Nat.zero_testBit _
  obtain ⟨m, hr, -, hm⟩ := hclear.run (n := 8 * (frameBitmap totalMemory s).size + 1)
    (Words.atBase_lawful hbound) trivial (by omega)
  have hset : isSet (Words.atBase (frameBitmap totalMemory s).base) m
      (8 * (frameBitmap totalMemory s).size) = true := by
    rw [hm _ (outerIndex_lt_iff.mpr (by omega))]
    exact decide_eq_true (by omega)
  have hunset := isSet_behind (m := m) (by omega) hbound (fun x hx => by
    rw [hkeep m hr x (Or.inr (by rw [hend]; exact hx)), hzero])
  rw [hset] at hunset
  cases hunset

end Created

/-- On a machine of 32 MiB, with a bitmap that ends where a page begins, each of the three fails: the
last word is not in the block, frame 2048 reads as taken if memory held ones, and the frame calls
reach the page behind, where the page directory goes. -/
theorem not_bitmapContained_at_32MiB :
    ¬ Footprint (frameBitmap 0x2000000 ⟨fun _ => 0, 0x120F00⟩) 0x120F00 0x121000 ∧
    ¬ (∀ i < 8192, bitsetCheckSet (Words.atBase 0x120F00)
        (frameBitmap 0x2000000 ⟨fun _ => 0xFF, 0x120F00⟩).size
        (memAfterInit 0x2000000 ⟨fun _ => 0xFF, 0x120F00⟩) i = 0) ∧
    ¬ BitmapContained 0x2000000 ⟨fun _ => 0, 0x120F00⟩ := by
  have hend : requestedEnd 0x2000000 ⟨fun _ => 0, 0x120F00⟩ = 0x121000 := by decide
  refine ⟨?_, ?_, ?_⟩
  · rw [← hend]
    exact not_footprint (by decide) (by decide) (by decide)
  · intro h
    exact absurd (h 2048 (by decide)) (by decide)
  · intro h
    exact not_keepsOthers (by decide) (by decide) (fun _ => rfl) (by decide) h.others

end Evos
