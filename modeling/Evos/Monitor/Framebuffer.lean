import Mathlib.Data.BitVec
import Mathlib.Logic.Function.Basic
import Mathlib.Tactic.Common

/-! # `monitor.c`: the text framebuffer

80 columns and 25 rows of 16-bit cells from `0xb8000` on, the cursor `(cur_x, cur_y)` and the two
bytes of its place that the CRT controller holds. `char` is signed, as the compiler has it for this
target. -/

namespace Evos
set_option autoImplicit false

/-- `FB_WORD`. The character is converted from `char`, so its sign goes into the upper byte. -/
def fbWord (ch at' : BitVec 8) : BitVec 16 := at'.zeroExtend 16 <<< 8 ||| ch.signExtend 16

def fbAttr (fg bg : BitVec 8) : BitVec 8 := bg <<< 4 ||| fg

def colLtgrey : BitVec 8 := 7
def colBlack : BitVec 8 := 0

/-- `BLANK`. -/
def blankCell : BitVec 16 := fbWord 0x20 (fbAttr colLtgrey colBlack)

structure Monitor where
  videoBuffer : ℕ → BitVec 16
  curX : BitVec 16
  curY : BitVec 16
  cursorHigh : BitVec 8
  cursorLow : BitVec 8

/-- `move_cursor`: registers 14 and 15 of the CRT controller. -/
def moveCursor (m : Monitor) : Monitor :=
  let position := 80 * m.curY + m.curX
  { m with cursorHigh := (position >>> 8).setWidth 8, cursorLow := position.setWidth 8 }

/-- The first loop of `scroll`, `n` turns of it. -/
def copyRows (n : ℕ) (buf : ℕ → BitVec 16) : ℕ → BitVec 16 :=
  (List.range n).foldl (fun buf i => Function.update buf i (buf (i + 80))) buf

/-- `n` blank cells from cell `i` on. -/
def blankCells (i n : ℕ) (buf : ℕ → BitVec 16) : ℕ → BitVec 16 :=
  (List.range' i n).foldl (fun buf i => Function.update buf i blankCell) buf

def scroll (m : Monitor) : Monitor :=
  if m.curY = 25 then
    { m with
      videoBuffer := blankCells (80 * 24) 80 (copyRows (80 * 24) m.videoBuffer)
      curY := 24 }
  else m

/-- The branches of `__monitor_put` on the character. -/
def putChar (value attributes : BitVec 8) (m : Monitor) : Monitor :=
  if value = 0x08 then
    if m.curX ≠ 0 then { m with curX := m.curX - 1 } else m
  else if value = 0x09 then { m with curX := (m.curX + 8) &&& ~~~7 }
  else if value = 0x0D then { m with curX := 0 }
  else if value = 0x0A then { m with curY := m.curY + 1, curX := 0 }
  else
    { m with
      videoBuffer :=
        Function.update m.videoBuffer (m.curY.toNat * 80 + m.curX.toNat) (fbWord value attributes)
      curX := m.curX + 1 }

/-- The test on `cur_x` that follows them. -/
def wrapLine (m : Monitor) : Monitor :=
  if 80 ≤ m.curX then { m with curX := 0, curY := m.curY + 1 } else m

/-- `__monitor_put`. -/
def monitorPutAttr (value attributes : BitVec 8) (m : Monitor) : Monitor :=
  moveCursor (scroll (wrapLine (putChar value attributes m)))

def monitorPut (value : BitVec 8) (m : Monitor) : Monitor :=
  monitorPutAttr value (fbAttr colLtgrey colBlack) m

def monitorClear (m : Monitor) : Monitor :=
  moveCursor { m with videoBuffer := blankCells 0 (80 * 25) m.videoBuffer }

/-- The string is the bytes from `str` on; it ends at the first NUL. -/
def monitorWrite : List (BitVec 8) → Monitor → Monitor
  | [], m => m
  | value :: str, m => if value = 0 then m else monitorWrite str (monitorPut value m)

/-! ## Cells -/

@[simp] theorem moveCursor_videoBuffer (m : Monitor) :
    (moveCursor m).videoBuffer = m.videoBuffer := rfl

@[simp] theorem moveCursor_curX (m : Monitor) : (moveCursor m).curX = m.curX := rfl

@[simp] theorem moveCursor_curY (m : Monitor) : (moveCursor m).curY = m.curY := rfl

theorem copyRows_apply (n : ℕ) (buf : ℕ → BitVec 16) (j : ℕ) :
    copyRows n buf j = if j < n then buf (j + 80) else buf j := by
  induction n generalizing j with
  | zero => rfl
  | succ n ih =>
    rw [copyRows, List.range_succ, List.foldl_append, ← copyRows, List.foldl_cons, List.foldl_nil]
    by_cases hj : j = n
    · subst hj
      have hfar : ¬j + 80 < j := by omega
      rw [Function.update_self, ih, if_neg hfar, if_pos (Nat.lt_succ_self j)]
    · rw [Function.update_of_ne hj, ih]
      have hiff : j < n + 1 ↔ j < n := by omega
      simp only [hiff]

theorem blankCells_apply (i n : ℕ) (buf : ℕ → BitVec 16) (j : ℕ) :
    blankCells i n buf j = if i ≤ j ∧ j < i + n then blankCell else buf j := by
  induction n generalizing j with
  | zero =>
    have hno : ¬(i ≤ j ∧ j < i + 0) := by omega
    rw [if_neg hno]
    rfl
  | succ n ih =>
    rw [blankCells, List.range'_concat, List.foldl_append, ← blankCells, List.foldl_cons,
      List.foldl_nil, one_mul]
    by_cases hj : j = i + n
    · subst hj
      rw [Function.update_self, if_pos (by omega)]
    · rw [Function.update_of_ne hj, ih]
      have hiff : (i ≤ j ∧ j < i + (n + 1)) ↔ (i ≤ j ∧ j < i + n) := by omega
      simp only [hiff]

theorem scroll_cell (m : Monitor) (hy : m.curY = 25) (r c : ℕ) (hr : r < 25) (hc : c < 80) :
    (scroll m).videoBuffer (r * 80 + c) =
      if r < 24 then m.videoBuffer ((r + 1) * 80 + c) else blankCell := by
  simp only [scroll, if_pos hy, blankCells_apply, copyRows_apply]
  by_cases hlast : r < 24
  · have hout : ¬(80 * 24 ≤ r * 80 + c ∧ r * 80 + c < 80 * 24 + 80) := by omega
    have hin : r * 80 + c < 80 * 24 := by omega
    have hnext : r * 80 + c + 80 = (r + 1) * 80 + c := by omega
    rw [if_neg hout, if_pos hin, if_pos hlast, hnext]
  · have hin : 80 * 24 ≤ r * 80 + c ∧ r * 80 + c < 80 * 24 + 80 := by omega
    rw [if_pos hin, if_neg hlast]

theorem monitorClear_cell (m : Monitor) (r c : ℕ) (hr : r < 25) (hc : c < 80) :
    (monitorClear m).videoBuffer (r * 80 + c) = blankCell := by
  have hin : 0 ≤ r * 80 + c ∧ r * 80 + c < 0 + 80 * 25 := by omega
  simp only [monitorClear, moveCursor_videoBuffer, blankCells_apply, if_pos hin]

end Evos
