import Evos.Kheap.Model

/-! # Headers and footers as memory

What `writeHeader` and `writeFooter` store, where they store it, and the arithmetic of
`page_align_get_offset`. -/

namespace Evos
open ByteMemory
set_option autoImplicit false

/-! ## Where the tags are written -/

theorem onlyIn_writeHeader (m : Mem) (a size : ℕ) (b : Bool) :
    OnlyIn a (a + 12) m (writeHeader m a size b) := by
  unfold writeHeader
  exact (((OnlyIn.refl _ _ m).store32 (by omega) (by omega)).store32 (by omega) (by omega)).store32
    (by omega) (by omega)

theorem onlyIn_writeFooter (m : Mem) (f header : ℕ) :
    OnlyIn f (f + 8) m (writeFooter m f header) := by
  unfold writeFooter
  exact ((OnlyIn.refl _ _ m).store32 (by omega) (by omega)).store32 (by omega) (by omega)

/-! ## What is read back -/

theorem headerMagic_writeHeader (m : Mem) (a size : ℕ) (b : Bool) :
    headerMagic (writeHeader m a size b) a = kheapMagic := by
  unfold headerMagic writeHeader
  rw [load32_store32_of_disjoint _ _ _ _ (by omega), load32_store32_self _ _ _ (by decide)]

theorem headerIsHole_writeHeader (m : Mem) (a size : ℕ) (b : Bool) :
    headerIsHole (writeHeader m a size b) a = if b then 1 else 0 := by
  unfold headerIsHole writeHeader
  rw [load32_store32_self _ _ _ (by cases b <;> decide)]

theorem headerSize_writeHeader (m : Mem) (a : ℕ) {size : ℕ} (b : Bool) (h : size < 2 ^ 32) :
    headerSize (writeHeader m a size b) a = size := by
  unfold headerSize writeHeader
  rw [load32_store32_of_disjoint _ _ _ _ (by omega), load32_store32_of_disjoint _ _ _ _ (by omega),
    load32_store32_self _ _ _ h]

theorem footerMagic_writeFooter (m : Mem) (f header : ℕ) :
    footerMagic (writeFooter m f header) f = kheapMagic := by
  unfold footerMagic writeFooter
  rw [load32_store32_of_disjoint _ _ _ _ (by omega), load32_store32_self _ _ _ (by decide)]

theorem footerHeader_writeFooter (m : Mem) (f : ℕ) {header : ℕ} (h : header < 2 ^ 32) :
    footerHeader (writeFooter m f header) f = header := by
  unfold footerHeader writeFooter
  rw [load32_store32_self _ _ _ h]

/-! ## Frames -/

theorem SameOn.headerMagic {lo hi a : ℕ} {m m' : Mem} (h : SameOn lo hi m m') (hlo : lo ≤ a)
    (hhi : a + 12 ≤ hi) : headerMagic m' a = headerMagic m a := h.load32 hlo (by omega)

theorem SameOn.headerIsHole {lo hi a : ℕ} {m m' : Mem} (h : SameOn lo hi m m') (hlo : lo ≤ a)
    (hhi : a + 12 ≤ hi) : headerIsHole m' a = headerIsHole m a := h.load32 (by omega) (by omega)

theorem SameOn.headerSize {lo hi a : ℕ} {m m' : Mem} (h : SameOn lo hi m m') (hlo : lo ≤ a)
    (hhi : a + 12 ≤ hi) : headerSize m' a = headerSize m a := h.load32 (by omega) (by omega)

theorem SameOn.footerMagic {lo hi f : ℕ} {m m' : Mem} (h : SameOn lo hi m m') (hlo : lo ≤ f)
    (hhi : f + 8 ≤ hi) : footerMagic m' f = footerMagic m f := h.load32 hlo (by omega)

theorem SameOn.footerHeader {lo hi f : ℕ} {m m' : Mem} (h : SameOn lo hi m m') (hlo : lo ≤ f)
    (hhi : f + 8 ≤ hi) : footerHeader m' f = footerHeader m f := h.load32 (by omega) (by omega)

/-! ## Alignment -/

theorem pageAlignGetOffset_aligned {a : ℕ} (ha : a + 12 < 2 ^ 32) (h : (a + 12) % 4096 = 0) :
    pageAlignGetOffset a = 0 := by
  unfold pageAlignGetOffset
  rw [u32_of_lt ha]
  exact if_neg (by omega)

/-- Off a page boundary the offset leaves room for a header and a footer and ends on a page. -/
theorem pageAlignGetOffset_misaligned {a : ℕ} (ha : a + 12 < 2 ^ 32) (h : (a + 12) % 4096 ≠ 0) :
    20 < pageAlignGetOffset a ∧ pageAlignGetOffset a ≤ 4116 ∧
      (a + pageAlignGetOffset a + 12) % 4096 = 0 := by
  unfold pageAlignGetOffset
  rw [u32_of_lt ha]
  dsimp only
  rw [if_pos h]
  split <;> omega

theorem pageAlignGetOffset_le {a : ℕ} (ha : a + 12 < 2 ^ 32) : pageAlignGetOffset a ≤ 4116 := by
  by_cases h : (a + 12) % 4096 = 0
  · rw [pageAlignGetOffset_aligned ha h]
    omega
  · exact (pageAlignGetOffset_misaligned ha h).2.1

end Evos
