import Evos.Foundations.Sheet
import Evos.Monitor.Framebuffer

/-! # `monitor.c` against a terminal with unboundedly many lines

What the framebuffer shows is always the last 25 lines of a `Sheet` whose cells are `FB_WORD`s. The
terminal that is meant prints byte `b` under attribute `a` as the cell `a * 256 + b`; the two agree on
the bytes whose sign bit is clear. -/

namespace Evos
open Terminals
set_option autoImplicit false

/-! ## The terminal -/

/-- The cell of a byte under an attribute. -/
def cellWord (value attributes : BitVec 8) : BitVec 16 :=
  BitVec.ofNat 16 (attributes.toNat * 256 + value.toNat)

/-- The key a byte stands for, with the cell it prints otherwise. -/
def keyOf {α : Type} (cell : BitVec 8 → α) (value : BitVec 8) : Key α :=
  if value = 0x08 then .backspace
  else if value = 0x09 then .tab 8
  else if value = 0x0D then .carriageReturn
  else if value = 0x0A then .newline
  else .print (cell value)

/-- Bytes typed on a sheet of 80 columns and nothing but blanks. -/
def typeOn {α : Type} (cell : BitVec 8 → α) (values : List (BitVec 8)) : Sheet α :=
  Sheet.type 80 (values.map (keyOf cell)) (Sheet.empty (cell 0x20))

/-- Framebuffer and cursor are the sheet's, seen through a window whose first line is `top`. -/
structure ShowsFrom (top : ℕ) (m : Monitor) (s : Sheet (BitVec 16)) : Prop where
  cell : ∀ r < 25, ∀ c < 80, m.videoBuffer (r * 80 + c) = s.cell (top + r) c
  curX : m.curX.toNat = s.column
  curY : top + m.curY.toNat = s.line

/-- Framebuffer and cursor are the sheet's, seen through its last 25 lines. -/
def Shows (m : Monitor) (s : Sheet (BitVec 16)) : Prop := ShowsFrom (s.top 25) m s

variable {m : Monitor} {s : Sheet (BitVec 16)} {top : ℕ}

/-! ## One character -/

theorem tab_toNat (x : BitVec 16) (hx : x.toNat < 80) :
    ((x + 8) &&& ~~~7).toNat = (x.toNat / 8 + 1) * 8 := by
  have hall : ∀ n < 80, ((BitVec.ofNat 16 n + 8) &&& ~~~7).toNat = (n / 8 + 1) * 8 := by decide
  have h := hall x.toNat hx
  rwa [BitVec.ofNat_toNat, BitVec.setWidth_eq] at h

theorem toNat_succ (x : BitVec 16) (hx : x.toNat < 80) : (x + 1).toNat = x.toNat + 1 := by
  bv_omega

theorem toNat_pred (x : BitVec 16) (hx : x ≠ 0) : (x - 1).toNat = x.toNat - 1 := by
  bv_omega

theorem ShowsFrom.store (h : ShowsFrom top m s) (hx : s.column < 80) (word : BitVec 16) :
    ShowsFrom top
      { m with
        videoBuffer := Function.update m.videoBuffer (m.curY.toNat * 80 + m.curX.toNat) word
        curX := m.curX + 1 }
      (Sheet.strike (.print word) s) := by
  have hcol := h.curX
  have hrow := h.curY
  refine ⟨?_, ?_, hrow⟩
  · intro r hr c hc
    simp only [Sheet.strike]
    by_cases hline : top + r = s.line
    · rw [hline, Function.update_self]
      by_cases hsame : c = s.column
      · have hpos : r * 80 + c = m.curY.toNat * 80 + m.curX.toNat := by omega
        rw [hpos, Function.update_self, hsame, Function.update_self]
      · have hpos : r * 80 + c ≠ m.curY.toNat * 80 + m.curX.toNat := by omega
        rw [Function.update_of_ne hpos, Function.update_of_ne hsame, h.cell r hr c hc, hline]
    · have hpos : r * 80 + c ≠ m.curY.toNat * 80 + m.curX.toNat := by omega
      rw [Function.update_of_ne hpos, Function.update_of_ne hline, h.cell r hr c hc]
  · simp only [Sheet.strike]
    rw [toNat_succ m.curX (by omega), hcol]

theorem ShowsFrom.putChar (h : ShowsFrom top m s) (hx : s.column < 80) (hy : m.curY.toNat < 25)
    (value attributes : BitVec 8) :
    ShowsFrom top (putChar value attributes m)
      (Sheet.strike (keyOf (fun value => fbWord value attributes) value) s) := by
  have hcol := h.curX
  have hrow := h.curY
  unfold Evos.putChar keyOf
  by_cases hback : value = 0x08
  · rw [if_pos hback, if_pos hback]
    by_cases hzero : m.curX = 0
    · rw [if_neg (not_not_intro hzero)]
      refine ⟨h.cell, ?_, hrow⟩
      have h0 : m.curX.toNat = 0 := congrArg BitVec.toNat hzero
      simp only [Sheet.strike]
      omega
    · rw [if_pos hzero]
      refine ⟨h.cell, ?_, hrow⟩
      simp only [Sheet.strike]
      rw [toNat_pred m.curX hzero, hcol]
  rw [if_neg hback, if_neg hback]
  by_cases htab : value = 0x09
  · rw [if_pos htab, if_pos htab]
    refine ⟨h.cell, ?_, hrow⟩
    simp only [Sheet.strike]
    rw [tab_toNat m.curX (by omega), hcol]
  rw [if_neg htab, if_neg htab]
  by_cases hret : value = 0x0D
  · rw [if_pos hret, if_pos hret]
    exact ⟨h.cell, rfl, hrow⟩
  rw [if_neg hret, if_neg hret]
  by_cases hline : value = 0x0A
  · rw [if_pos hline, if_pos hline]
    refine ⟨h.cell, rfl, ?_⟩
    simp only [Sheet.strike]
    rw [toNat_succ m.curY (by omega)]
    omega
  rw [if_neg hline, if_neg hline]
  exact h.store hx _

theorem ShowsFrom.wrapLine (h : ShowsFrom top m s) (hy : m.curY.toNat ≤ 25) :
    ShowsFrom top (wrapLine m) (Sheet.wrap 80 s) := by
  have hcol := h.curX
  have hrow := h.curY
  unfold Evos.wrapLine Sheet.wrap
  by_cases hfull : 80 ≤ s.column
  · have hx : (80 : BitVec 16) ≤ m.curX := by
      rw [BitVec.le_def]
      exact hcol ▸ hfull
    rw [if_pos hx, if_pos hfull]
    refine ⟨h.cell, rfl, ?_⟩
    show top + (m.curY + 1).toNat = s.line + 1
    rw [toNat_succ m.curY (by omega)]
    omega
  · have hx : ¬(80 : BitVec 16) ≤ m.curX := by
      rw [BitVec.le_def]
      exact hcol ▸ hfull
    rw [if_neg hx, if_neg hfull]
    exact h

/-- With the cursor in row 25 the window moves down by one line, which is still blank. -/
theorem ShowsFrom.scroll_of_eq (h : ShowsFrom top m s) (hy : m.curY = 25)
    (hblank : ∀ c, s.cell s.line c = blankCell) : ShowsFrom (top + 1) (scroll m) s := by
  have hrow := h.curY
  have hy' : m.curY.toNat = 25 := congrArg BitVec.toNat hy
  refine ⟨?_, ?_, ?_⟩
  · intro r hr c hc
    rw [scroll_cell m hy r c hr hc]
    by_cases hlast : r < 24
    · have hnext : top + (r + 1) = top + 1 + r := by omega
      rw [if_pos hlast, h.cell (r + 1) (by omega) c hc, hnext]
    · have hend : top + 1 + r = s.line := by omega
      rw [if_neg hlast, hend, hblank c]
  · rw [scroll, if_pos hy]
    exact h.curX
  · rw [scroll, if_pos hy]
    show top + 1 + 24 = s.line
    omega

theorem scroll_of_ne (hy : m.curY ≠ 25) : scroll m = m := if_neg hy

/-- One character: the framebuffer stays the sheet's last 25 lines. -/
theorem Shows.monitorPutAttr (h : Shows m s) (t : s.Tidy 80 blankCell)
    (value attributes : BitVec 8) :
    Shows (monitorPutAttr value attributes m)
      (Sheet.press 80 (keyOf (fun value => fbWord value attributes) value) s) := by
  have hrow := h.curY
  have htop : s.top 25 = s.line + 1 - 25 := rfl
  have hstruck := ShowsFrom.putChar h t.column_lt (by omega) value attributes
  have hstruckRow := hstruck.curY
  have hstrike := Sheet.strike_line_le (keyOf (fun value => fbWord value attributes) value) s
  have hwrapped := hstruck.wrapLine (by omega)
  have hnewRow := hwrapped.curY
  have hline := Sheet.press_line (w := 80) (by decide)
    (keyOf (fun value => fbWord value attributes) value) s
  have hfresh := t.fresh (k := keyOf (fun value => fbWord value attributes) value)
  rw [← Sheet.press] at hwrapped hnewRow
  generalize Sheet.press 80 (keyOf (fun value => fbWord value attributes) value) s = s' at *
  have htop' : s'.top 25 = s'.line + 1 - 25 := rfl
  have hscrolled : ShowsFrom (s'.top 25)
      (scroll (Evos.wrapLine (Evos.putChar value attributes m))) s' := by
    by_cases hy : (Evos.wrapLine (Evos.putChar value attributes m)).curY = 25
    · have hy' := congrArg BitVec.toNat hy
      have h25 : (25 : BitVec 16).toNat = 25 := rfl
      have hmoved : s'.top 25 = s.top 25 + 1 := by omega
      rw [hmoved]
      exact hwrapped.scroll_of_eq hy (hfresh (by omega))
    · have hy' : (Evos.wrapLine (Evos.putChar value attributes m)).curY.toNat ≠ 25 :=
        fun h25 => hy (BitVec.eq_of_toNat_eq h25)
      have hkept : s'.top 25 = s.top 25 := by omega
      rw [hkept, scroll_of_ne hy]
      exact hwrapped
  exact ⟨hscrolled.cell, hscrolled.curX, hscrolled.curY⟩

/-! ## Calls -/

inductive MonitorCall where
  | put (value : BitVec 8)
  | write (str : List (BitVec 8))

def monitorCall : MonitorCall → Monitor → Monitor
  | .put value, m => monitorPut value m
  | .write str, m => monitorWrite str m

/-- Calls one after the other. -/
def monitorCalls (calls : List MonitorCall) (m : Monitor) : Monitor :=
  calls.foldl (fun m call => monitorCall call m) m

/-- The bytes a call puts: a string up to its NUL. -/
def MonitorCall.bytes : MonitorCall → List (BitVec 8)
  | .put value => [value]
  | .write str => str.takeWhile (· ≠ 0)

/-- The bytes of all calls, in order. -/
def typed (calls : List MonitorCall) : List (BitVec 8) := calls.flatMap MonitorCall.bytes

/-- `monitor_clear` at the start, when `cur_x` and `cur_y` are zero. -/
def clearedScreen (m : Monitor) : Monitor := monitorClear { m with curX := 0, curY := 0 }

/-- The cell `monitor_put` means a byte to have, and the one it stores. -/
def meantCell (value : BitVec 8) : BitVec 16 := cellWord value (fbAttr colLtgrey colBlack)
def storedCell (value : BitVec 8) : BitVec 16 := fbWord value (fbAttr colLtgrey colBlack)

/-- The console shows what the terminal shows after the same calls. -/
def Refines (m : Monitor) (calls : List MonitorCall) : Prop :=
  Shows (monitorCalls calls (clearedScreen m)) (typeOn meantCell (typed calls))

theorem monitorWrite_eq (str : List (BitVec 8)) (m : Monitor) :
    monitorWrite str m = (str.takeWhile (· ≠ 0)).foldl (fun m value => monitorPut value m) m := by
  induction str generalizing m with
  | nil => rfl
  | cons value str ih =>
    by_cases hnul : value = 0
    · subst hnul
      rfl
    · rw [monitorWrite, if_neg hnul, ih, List.takeWhile_cons_of_pos (by simpa using hnul),
        List.foldl_cons]

theorem monitorCall_eq (call : MonitorCall) (m : Monitor) :
    monitorCall call m = call.bytes.foldl (fun m value => monitorPut value m) m := by
  cases call with
  | put value => rfl
  | write str => exact monitorWrite_eq str m

theorem monitorCalls_eq (calls : List MonitorCall) (m : Monitor) :
    monitorCalls calls m = (typed calls).foldl (fun m value => monitorPut value m) m := by
  induction calls generalizing m with
  | nil => rfl
  | cons call calls ih =>
    rw [monitorCalls, List.foldl_cons, ← monitorCalls, ih, monitorCall_eq, typed, typed,
      List.flatMap_cons, List.foldl_append]

/-! ## Runs -/

theorem shows_clearedScreen (m : Monitor) : Shows (clearedScreen m) (Sheet.empty blankCell) := by
  refine ⟨?_, rfl, rfl⟩
  intro r hr c hc
  rw [clearedScreen, monitorClear_cell _ r c hr hc]
  rfl

/-- Every run of the console shows the last 25 lines of the sheet of the cells it stores. -/
theorem shows_monitorCalls (m : Monitor) (calls : List MonitorCall) :
    Shows (monitorCalls calls (clearedScreen m)) (typeOn storedCell (typed calls)) := by
  have hstart := shows_clearedScreen m
  have htidy : (Sheet.empty blankCell).Tidy 80 blankCell := Sheet.tidy_empty (by decide)
  rw [monitorCalls_eq, typeOn, show storedCell 0x20 = blankCell from rfl]
  generalize clearedScreen m = screen at *
  generalize Sheet.empty blankCell = sheet at *
  generalize typed calls = values at *
  induction values generalizing screen sheet with
  | nil => exact hstart
  | cons value values ih =>
    exact ih _ _ (htidy.press _) (hstart.monitorPutAttr htidy value _)

/-! ## The two encodings -/

theorem keyOf_map {α β : Type} (f : α → β) (cell : BitVec 8 → α) (value : BitVec 8) :
    (keyOf cell value).map f = keyOf (fun value => f (cell value)) value := by
  simp only [keyOf, apply_ite (Key.map f)]
  rfl

/-- Encoding the cells of a sheet of characters gives the sheet typed in that encoding. -/
theorem typeOn_eq_map (cell : BitVec 8 → BitVec 16) (values : List (BitVec 8)) :
    typeOn cell values = (typeOn id values).map cell := by
  have hkeys : values.map (keyOf cell) = (values.map (keyOf id)).map (Key.map cell) := by
    rw [List.map_map]
    exact List.map_congr_left fun value _ => (keyOf_map cell id value).symm
  rw [typeOn, typeOn, hkeys, ← Sheet.type_map]
  rfl

/-- `FB_WORD` is the cell that is meant for the characters whose sign bit is clear. -/
theorem storedCell_eq_meantCell_iff (value : BitVec 8) :
    storedCell value = meantCell value ↔ value.toNat < 0x80 := by
  revert value
  decide

/-- The console shows the terminal's screen if no character in view has its sign bit set. -/
theorem refines_iff_view (m : Monitor) (calls : List MonitorCall) :
    Refines m calls ↔
      ∀ r < 25, ∀ c < 80, ((typeOn id (typed calls)).view 25 r c).toNat < 0x80 := by
  have hshows := shows_monitorCalls m calls
  rw [typeOn_eq_map] at hshows
  rw [Refines, typeOn_eq_map]
  generalize typeOn id (typed calls) = s at *
  generalize monitorCalls calls (clearedScreen m) = screen at *
  constructor
  · intro href r hr c hc
    rw [← storedCell_eq_meantCell_iff]
    exact (hshows.cell r hr c hc).symm.trans (href.cell r hr c hc)
  · intro hview
    have hx : screen.curX.toNat = s.column := hshows.curX
    have hy : s.top 25 + screen.curY.toNat = s.line := hshows.curY
    refine ⟨?_, hx, hy⟩
    intro r hr c hc
    have hsame := (storedCell_eq_meantCell_iff (s.view 25 r c)).mpr (hview r hr c hc)
    exact (hshows.cell r hr c hc).trans hsame

theorem keyOf_of_le {α : Type} (cell : BitVec 8 → α) {value : BitVec 8}
    (h : 0x80 ≤ value.toNat) : keyOf cell value = .print (cell value) := by
  have hne : ∀ control : BitVec 8, control.toNat < 0x80 → value ≠ control := by
    intro control hc heq
    subst heq
    omega
  rw [keyOf, if_neg (hne _ (by decide)), if_neg (hne _ (by decide)), if_neg (hne _ (by decide)),
    if_neg (hne _ (by decide))]

theorem typed_puts (values : List (BitVec 8)) : typed (values.map .put) = values := by
  induction values with
  | nil => rfl
  | cons value values ih =>
    rw [List.map_cons, typed, List.flatMap_cons, ← typed, ih]
    rfl

theorem typeOn_congr {α : Type} {cell cell' : BitVec 8 → α} {values : List (BitVec 8)}
    (hblank : cell 0x20 = cell' 0x20) (h : ∀ value ∈ values, cell value = cell' value) :
    typeOn cell values = typeOn cell' values := by
  have hkeys : values.map (keyOf cell) = values.map (keyOf cell') := by
    refine List.map_congr_left ?_
    intro value hv
    rw [keyOf, keyOf, h value hv]
  rw [typeOn, typeOn, hkeys, hblank]

theorem refines_of_lt (m : Monitor) (calls : List MonitorCall)
    (h : ∀ value ∈ typed calls, value.toNat < 0x80) : Refines m calls := by
  have hcells : ∀ value ∈ typed calls, storedCell value = meantCell value :=
    fun value hv => (storedCell_eq_meantCell_iff value).mpr (h value hv)
  rw [Refines, ← typeOn_congr (storedCell_eq_meantCell_iff 0x20 |>.mpr (by decide)) hcells]
  exact shows_monitorCalls m calls

theorem not_refines_of_le (m : Monitor) (values : List (BitVec 8)) {value : BitVec 8}
    (h : 0x80 ≤ value.toNat) : ¬Refines m ((values ++ [value]).map .put) := by
  intro href
  have htidy : (typeOn id values).Tidy 80 0x20 := (Sheet.tidy_empty (Nat.zero_lt_succ 79)).type _
  rw [refines_iff_view, typed_puts, typeOn, List.map_append, List.map_singleton,
    Sheet.type_concat, keyOf_of_le id h] at href
  obtain ⟨r, hr, hview⟩ := Sheet.press_print_view (h := 25) (w := 80) (by decide) (by decide)
    (id value) (typeOn id values)
  have hlt := href r hr (typeOn id values).column htidy.column_lt
  rw [← typeOn, hview] at hlt
  exact absurd hlt (Nat.not_lt.mpr h)

/-- The console is the terminal up to the characters with their sign bit set: after the calls it shows
the terminal's screen exactly if none of them is in view, and at every point on the way exactly if
none is put. -/
theorem monitor_refines_iff (m : Monitor) (calls : List MonitorCall) :
    (Refines m calls ↔
      ∀ r < 25, ∀ c < 80, ((typeOn id (typed calls)).view 25 r c).toNat < 0x80) ∧
    ((∀ calls', typed calls' <+: typed calls → Refines m calls') ↔
      ∀ value ∈ typed calls, value.toNat < 0x80) := by
  refine ⟨refines_iff_view m calls, ?_, ?_⟩
  · intro href value hv
    by_contra hge
    obtain ⟨before, behind, hsplit⟩ := List.append_of_mem hv
    refine not_refines_of_le m before (Nat.not_lt.mp hge) (href _ ?_)
    rw [typed_puts]
    refine ⟨behind, ?_⟩
    rw [hsplit, List.append_assoc, List.singleton_append]
  · intro hsmall calls' hstart
    exact refines_of_lt m calls' fun value hv => hsmall value (hstart.subset hv)

/-- `monitor_put((char)0x80)` stores `0xFF80` where `0x0780` is meant. -/
theorem not_refines_at_0x80 : ¬∀ m calls, Refines m calls := by
  intro href
  have hview := (refines_iff_view ⟨fun _ => 0, 0, 0, 0, 0⟩ [.put 0x80]).mp (href _ _) 0 (by decide) 0
    (by decide)
  exact absurd hview (by decide)

end Evos
