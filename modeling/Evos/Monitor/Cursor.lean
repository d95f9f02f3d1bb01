import Evos.Foundations.Runs
import Evos.Monitor.Numbers
import Evos.Monitor.Terminal

/-! # The cursor of the console

All operations of `monitor.c`, once more with a record of the framebuffer cells they read and write.
Between two operations the cursor is on the screen, and every cell recorded is one of its. -/

namespace Evos
open Runs
set_option autoImplicit false

/-! ## The status text -/

def colGreen : BitVec 8 := 2
def colRed : BitVec 8 := 4

def strlen (str : List (BitVec 8)) : ℕ := (str.takeWhile (· ≠ 0)).length

/-- The loop of `monitor_write_status`. -/
def writeAttr (attr : BitVec 8) : List (BitVec 8) → Monitor → Monitor
  | [], m => m
  | value :: str, m => if value = 0 then m else writeAttr attr str (monitorPutAttr value attr m)

/-- The cursor is put where the text ends in the last column; `cur_x` keeps 16 bits of that. -/
def monitorWriteStatus (str : List (BitVec 8)) (success : Bool) (m : Monitor) : Monitor :=
  let attr := if success then fbAttr colGreen colBlack else fbAttr colRed colBlack
  let len : ℤ := strlen str + 2
  let m := { m with curX := BitVec.ofInt 16 (80 - len) }
  monitorPut (ch ']') (writeAttr attr str (monitorPut (ch '[') m))

/-! ## Calls -/

inductive ConsoleCall where
  | put (value : BitVec 8)
  | write (str : List (BitVec 8))
  | clear
  | writeHex (value : BitVec 32)
  | writeDec (value : BitVec 32)
  | writeStatus (str : List (BitVec 8)) (success : Bool)

def consoleCall : ConsoleCall → Monitor → Monitor
  | .put value => monitorPut value
  | .write str => monitorWrite str
  | .clear => monitorClear
  | .writeHex value => monitorWriteHex value
  | .writeDec value => monitorWriteDec value
  | .writeStatus str success => monitorWriteStatus str success

/-- A status text leaves room for its brackets. -/
def ConsoleCall.Fits : ConsoleCall → Prop
  | .writeStatus str _ => strlen str ≤ 78
  | _ => True

/-! ## The cells read and written -/

/-- The console with the framebuffer indices read and written so far, the last first. -/
structure Console where
  monitor : Monitor
  indices : List ℕ

namespace Console

/-- A read of `video_buffer[i]`. -/
def load (i : ℕ) (t : Console) : BitVec 16 × Console :=
  (t.monitor.videoBuffer i, { t with indices := i :: t.indices })

/-- `video_buffer[i] = word`. -/
def store (i : ℕ) (word : BitVec 16) (t : Console) : Console :=
  ⟨{ t.monitor with videoBuffer := Function.update t.monitor.videoBuffer i word }, i :: t.indices⟩

/-- A step that leaves the framebuffer alone. -/
def move (f : Monitor → Monitor) (t : Console) : Console := { t with monitor := f t.monitor }

/-- `video_buffer[i] = video_buffer[i+80]`. -/
def copyCell (t : Console) (i : ℕ) : Console :=
  let (word, t) := t.load (i + 80)
  t.store i word

/-- `video_buffer[i] = BLANK`. -/
def blankAt (t : Console) (i : ℕ) : Console := t.store i blankCell

def scroll (t : Console) : Console :=
  if t.monitor.curY = 25 then
    let t := (List.range (80 * 24)).foldl copyCell t
    let t := (List.range' (80 * 24) 80).foldl blankAt t
    t.move fun m => { m with curY := 24 }
  else t

/-- The branches on the character: control characters move the cursor only. -/
def putChar (value attributes : BitVec 8) (t : Console) : Console :=
  if value = 0x08 ∨ value = 0x09 ∨ value = 0x0D ∨ value = 0x0A then
    t.move (Evos.putChar value attributes)
  else
    let t := t.store (t.monitor.curY.toNat * 80 + t.monitor.curX.toNat) (fbWord value attributes)
    t.move fun m => { m with curX := m.curX + 1 }

/-- `__monitor_put`. -/
def putAttr (value attributes : BitVec 8) (t : Console) : Console :=
  (((t.putChar value attributes).move wrapLine).scroll).move moveCursor

def put (value : BitVec 8) (t : Console) : Console :=
  t.putAttr value (fbAttr colLtgrey colBlack)

def putAll (values : List (BitVec 8)) (t : Console) : Console :=
  values.foldl (fun t value => t.put value) t

def clear (t : Console) : Console :=
  ((List.range' 0 (80 * 25)).foldl blankAt t).move moveCursor

/-- The loops of `monitor_write` and `monitor_write_status`. -/
def writeAttr (attr : BitVec 8) : List (BitVec 8) → Console → Console
  | [], t => t
  | value :: str, t => if value = 0 then t else writeAttr attr str (t.putAttr value attr)

def writeStatus (str : List (BitVec 8)) (success : Bool) (t : Console) : Console :=
  let attr := if success then fbAttr colGreen colBlack else fbAttr colRed colBlack
  let len : ℤ := strlen str + 2
  let t := t.move fun m => { m with curX := BitVec.ofInt 16 (80 - len) }
  (writeAttr attr str (t.put (ch '['))).put (ch ']')

def call : ConsoleCall → Console → Console
  | .put value => put value
  | .write str => writeAttr (fbAttr colLtgrey colBlack) str
  | .clear => clear
  | .writeHex value => putAll (hexChars value)
  | .writeDec value => putAll (decChars value)
  | .writeStatus str success => writeStatus str success

@[simp] theorem move_monitor (f : Monitor → Monitor) (t : Console) :
    (t.move f).monitor = f t.monitor := rfl

@[simp] theorem move_indices (f : Monitor → Monitor) (t : Console) :
    (t.move f).indices = t.indices := rfl

/-! ## The record leaves the console as it is -/

theorem foldl_copyCell (is : List ℕ) (t : Console) :
    (is.foldl copyCell t).monitor = { t.monitor with
      videoBuffer := is.foldl (fun buf i => Function.update buf i (buf (i + 80)))
        t.monitor.videoBuffer } := by
  induction is generalizing t with
  | nil => rfl
  | cons i is ih =>
    rw [List.foldl_cons, ih]
    rfl

theorem foldl_blankAt (is : List ℕ) (t : Console) :
    (is.foldl blankAt t).monitor = { t.monitor with
      videoBuffer := is.foldl (fun buf i => Function.update buf i blankCell)
        t.monitor.videoBuffer } := by
  induction is generalizing t with
  | nil => rfl
  | cons i is ih =>
    rw [List.foldl_cons, ih]
    rfl

theorem scroll_monitor (t : Console) : t.scroll.monitor = Evos.scroll t.monitor := by
  unfold scroll Evos.scroll blankCells copyRows
  by_cases hy : t.monitor.curY = 25
  · rw [if_pos hy, if_pos hy]
    dsimp only
    rw [move_monitor, foldl_blankAt, foldl_copyCell]
  · rw [if_neg hy, if_neg hy]

theorem putChar_monitor (value attributes : BitVec 8) (t : Console) :
    (t.putChar value attributes).monitor = Evos.putChar value attributes t.monitor := by
  unfold putChar
  by_cases hcontrol : value = 0x08 ∨ value = 0x09 ∨ value = 0x0D ∨ value = 0x0A
  · rw [if_pos hcontrol, move_monitor]
  · rw [if_neg hcontrol]
    obtain ⟨h8, h9, hD, hA⟩ : value ≠ 0x08 ∧ value ≠ 0x09 ∧ value ≠ 0x0D ∧ value ≠ 0x0A := by
      simpa only [not_or] using hcontrol
    unfold Evos.putChar
    rw [if_neg h8, if_neg h9, if_neg hD, if_neg hA]
    rfl

theorem putAttr_monitor (value attributes : BitVec 8) (t : Console) :
    (t.putAttr value attributes).monitor = monitorPutAttr value attributes t.monitor := by
  unfold putAttr monitorPutAttr
  rw [move_monitor, scroll_monitor, move_monitor, putChar_monitor]

theorem put_monitor (value : BitVec 8) (t : Console) :
    (t.put value).monitor = monitorPut value t.monitor :=
  putAttr_monitor value _ t

theorem putAll_monitor (values : List (BitVec 8)) (t : Console) :
    (t.putAll values).monitor = Evos.putAll values t.monitor := by
  unfold putAll Evos.putAll
  induction values generalizing t with
  | nil => rfl
  | cons value values ih => rw [List.foldl_cons, List.foldl_cons, ih, put_monitor]

theorem writeAttr_monitor (attr : BitVec 8) (str : List (BitVec 8)) (t : Console) :
    (t.writeAttr attr str).monitor = Evos.writeAttr attr str t.monitor := by
  induction str generalizing t with
  | nil => rfl
  | cons value str ih =>
    unfold writeAttr Evos.writeAttr
    by_cases hnul : value = 0
    · rw [if_pos hnul, if_pos hnul]
    · rw [if_neg hnul, if_neg hnul, ih, putAttr_monitor]

end Console

theorem writeAttr_eq_monitorWrite (str : List (BitVec 8)) (m : Monitor) :
    writeAttr (fbAttr colLtgrey colBlack) str m = monitorWrite str m := by
  induction str generalizing m with
  | nil => rfl
  | cons value str ih =>
    unfold writeAttr monitorWrite
    by_cases hnul : value = 0
    · rw [if_pos hnul, if_pos hnul]
    · rw [if_neg hnul, if_neg hnul, ih]
      rfl

theorem Console.call_monitor (op : ConsoleCall) (t : Console) :
    (t.call op).monitor = consoleCall op t.monitor := by
  cases op with
  | put value => exact t.put_monitor value
  | write str => exact (t.writeAttr_monitor _ str).trans (writeAttr_eq_monitorWrite str _)
  | clear =>
    unfold Console.call Console.clear consoleCall monitorClear blankCells
    dsimp only
    rw [move_monitor, foldl_blankAt]
  | writeHex value => exact t.putAll_monitor _
  | writeDec value => exact t.putAll_monitor _
  | writeStatus str success =>
    unfold Console.call Console.writeStatus consoleCall monitorWriteStatus
    dsimp only
    rw [put_monitor, writeAttr_monitor, put_monitor, move_monitor]

/-! ## One character -/

/-- The cursor is on the screen. -/
structure OnScreen (m : Monitor) : Prop where
  column : m.curX.toNat < 80
  row : m.curY.toNat < 25

variable {m : Monitor} {t : Console}

/-- Behind the character, the cursor may have left its line, or the last line, but not both. -/
theorem OnScreen.putChar (h : OnScreen m) (value attributes : BitVec 8) :
    let m' := putChar value attributes m
    m'.curX.toNat ≤ 80 ∧ m'.curY.toNat < 25 ∨ m'.curX.toNat = 0 ∧ m'.curY.toNat ≤ 25 := by
  obtain ⟨hx, hy⟩ := h
  intro m'
  show (Evos.putChar value attributes m).curX.toNat ≤ 80 ∧ _ ∨ _
  unfold m' Evos.putChar
  split_ifs with hback hzero htab hret hline
  · refine Or.inl ⟨?_, hy⟩
    rw [toNat_pred m.curX hzero]
    omega
  · exact Or.inl ⟨hx.le, hy⟩
  · refine Or.inl ⟨?_, hy⟩
    rw [tab_toNat m.curX hx]
    omega
  · exact Or.inl ⟨Nat.zero_le _, hy⟩
  · refine Or.inr ⟨rfl, ?_⟩
    rw [toNat_succ m.curY (by omega)]
    omega
  · refine Or.inl ⟨?_, hy⟩
    rw [toNat_succ m.curX hx]
    omega

theorem wrapLine_cursor (h : m.curX.toNat ≤ 80 ∧ m.curY.toNat < 25 ∨
    m.curX.toNat = 0 ∧ m.curY.toNat ≤ 25) :
    (wrapLine m).curX.toNat < 80 ∧ (wrapLine m).curY.toNat ≤ 25 := by
  have hle : (80 : BitVec 16) ≤ m.curX ↔ 80 ≤ m.curX.toNat := BitVec.le_def
  unfold wrapLine
  split_ifs with hfull
  · have hfull' := hle.mp hfull
    refine ⟨Nat.zero_lt_succ 79, ?_⟩
    rw [toNat_succ m.curY (by omega)]
    omega
  · have hfull' := mt hle.mpr hfull
    omega

theorem scroll_onScreen (hx : m.curX.toNat < 80) (hy : m.curY.toNat ≤ 25) :
    OnScreen (scroll m) := by
  unfold scroll
  split_ifs with hend
  · exact ⟨hx, Nat.lt_succ_self 24⟩
  · have hne : m.curY.toNat ≠ 25 := fun h => hend (BitVec.eq_of_toNat_eq h)
    exact ⟨hx, by omega⟩

theorem OnScreen.moveCursor (h : OnScreen m) : OnScreen (moveCursor m) := by
  constructor
  · rw [moveCursor_curX]
    exact h.column
  · rw [moveCursor_curY]
    exact h.row

theorem OnScreen.monitorPutAttr (h : OnScreen m) (value attributes : BitVec 8) :
    OnScreen (monitorPutAttr value attributes m) := by
  obtain ⟨hx, hy⟩ := wrapLine_cursor (h.putChar value attributes)
  exact (scroll_onScreen hx hy).moveCursor

theorem onScreen_status (h : OnScreen m) {str : List (BitVec 8)} (hstr : strlen str ≤ 78) :
    OnScreen { m with curX := BitVec.ofInt 16 (80 - ((strlen str : ℤ) + 2)) } := by
  have hstart : (80 : ℤ) - ((strlen str : ℤ) + 2) = (78 - strlen str : ℕ) := by omega
  refine ⟨?_, h.row⟩
  show (BitVec.ofInt 16 _).toNat < 80
  rw [hstart, BitVec.ofInt_natCast, BitVec.toNat_ofNat]
  omega

/-! ## The indices -/

namespace Console

/-- The cursor is on the screen, and so are the cells recorded. -/
structure InBounds (t : Console) : Prop where
  cursor : OnScreen t.monitor
  indices : ∀ i ∈ t.indices, i < 80 * 25

theorem foldl_copyCell_indices {is : List ℕ} (his : ∀ i ∈ is, i < 80 * 24)
    (h : ∀ i ∈ t.indices, i < 80 * 25) :
    ∀ i ∈ (is.foldl copyCell t).indices, i < 80 * 25 := by
  induction is generalizing t with
  | nil => exact h
  | cons i is ih =>
    have hi := his i List.mem_cons_self
    refine ih (fun j hj => his j (List.mem_cons_of_mem i hj)) ?_
    intro j hj
    have hj' : j = i ∨ j = i + 80 ∨ j ∈ t.indices := by
      simpa [copyCell, load, store] using hj
    rcases hj' with rfl | rfl | hj'
    · omega
    · omega
    · exact h j hj'

theorem foldl_blankAt_indices {is : List ℕ} (his : ∀ i ∈ is, i < 80 * 25)
    (h : ∀ i ∈ t.indices, i < 80 * 25) :
    ∀ i ∈ (is.foldl blankAt t).indices, i < 80 * 25 := by
  induction is generalizing t with
  | nil => exact h
  | cons i is ih =>
    refine ih (fun j hj => his j (List.mem_cons_of_mem i hj)) ?_
    intro j hj
    rcases List.mem_cons.mp hj with rfl | hj
    · exact his j List.mem_cons_self
    · exact h j hj

theorem scroll_indices (h : ∀ i ∈ t.indices, i < 80 * 25) :
    ∀ i ∈ t.scroll.indices, i < 80 * 25 := by
  have hcopied := foldl_copyCell_indices
    (fun i (hi : i ∈ List.range (80 * 24)) => List.mem_range.mp hi) h
  have hlast : ∀ i ∈ List.range' (80 * 24) 80, i < 80 * 25 := by
    intro i hi
    have hrange := List.mem_range'_1.mp hi
    omega
  have hblanked := foldl_blankAt_indices hlast hcopied
  unfold scroll
  split_ifs with hend
  · rw [move_indices]
    exact hblanked
  · exact h

theorem putChar_indices (h : t.InBounds) (value attributes : BitVec 8) :
    ∀ i ∈ (t.putChar value attributes).indices, i < 80 * 25 := by
  obtain ⟨⟨hx, hy⟩, hindices⟩ := h
  unfold putChar
  split_ifs with hcontrol
  · exact hindices
  · intro i hi
    rw [move_indices] at hi
    rcases List.mem_cons.mp hi with rfl | hi
    · omega
    · exact hindices i hi

theorem InBounds.putAttr (h : t.InBounds) (value attributes : BitVec 8) :
    (t.putAttr value attributes).InBounds := by
  have hchar := putChar_indices h value attributes
  rw [← move_indices wrapLine] at hchar
  constructor
  · rw [putAttr_monitor]
    exact h.cursor.monitorPutAttr value attributes
  · unfold Console.putAttr
    rw [move_indices]
    exact scroll_indices hchar

theorem InBounds.putAll (h : t.InBounds) (values : List (BitVec 8)) :
    (t.putAll values).InBounds := by
  unfold Console.putAll
  induction values generalizing t with
  | nil => exact h
  | cons value values ih => exact ih (h.putAttr value _)

theorem InBounds.writeAttr (h : t.InBounds) (attr : BitVec 8) (str : List (BitVec 8)) :
    (t.writeAttr attr str).InBounds := by
  induction str generalizing t with
  | nil => exact h
  | cons value str ih =>
    unfold Console.writeAttr
    split_ifs with hnul
    · exact h
    · exact ih (h.putAttr value attr)

theorem InBounds.clear (h : t.InBounds) : t.clear.InBounds := by
  have hall : ∀ i ∈ List.range' 0 (80 * 25), i < 80 * 25 := by
    intro i hi
    have hrange := List.mem_range'_1.mp hi
    omega
  have hblanked := foldl_blankAt_indices hall h.indices
  have hcursor : OnScreen (t.clear).monitor := by
    unfold Console.clear
    rw [move_monitor, foldl_blankAt]
    exact OnScreen.moveCursor ⟨h.cursor.column, h.cursor.row⟩
  refine ⟨hcursor, ?_⟩
  unfold Console.clear
  rw [move_indices]
  exact hblanked

/-- One call keeps the cursor on the screen and touches cells of the screen only. -/
theorem InBounds.call (h : t.InBounds) {op : ConsoleCall} (hfits : op.Fits) :
    (t.call op).InBounds := by
  cases op with
  | put value => exact h.putAttr value _
  | write str => exact h.writeAttr _ str
  | clear => exact h.clear
  | writeHex value => exact h.putAll (hexChars value)
  | writeDec value => exact h.putAll (decChars value)
  | writeStatus str success =>
    have hstart : (t.move fun m => { m with
        curX := BitVec.ofInt 16 (80 - ((strlen str : ℤ) + 2)) }).InBounds :=
      ⟨onScreen_status h.cursor hfits, h.indices⟩
    exact ((hstart.putAttr _ _).writeAttr _ str).putAttr _ _

/-- A call as a step of the console. -/
def step (op : ConsoleCall) (t : Console) : Option Console := some (t.call op)

/-- Whatever is called in whatever order, the cursor stays on the screen, and no index outside of the
framebuffer is read or written. -/
theorem inBounds_of_run {m : Monitor} (hx : m.curX = 0) (hy : m.curY = 0) {t : Console}
    (h : Run step (fun op _ => op.Fits) ⟨m, []⟩ t) :
    t.monitor.curX.toNat < 80 ∧ t.monitor.curY.toNat < 25 ∧ ∀ i ∈ t.indices, i < 80 * 25 := by
  have hstart : InBounds ⟨m, []⟩ := by
    refine ⟨⟨?_, ?_⟩, fun i hi => absurd hi List.not_mem_nil⟩
    · rw [hx]
      decide
    · rw [hy]
      decide
  have hbounds : t.InBounds := h.invariant hstart fun op x y hinv hfits hstep => by
    cases hstep
    exact hinv.call hfits
  exact ⟨hbounds.cursor.column, hbounds.cursor.row, hbounds.indices⟩

/-- A status line and a number. -/
theorem inBounds_of_status :
    let t := Console.call (.writeDec 42)
      (Console.call (.writeStatus (['o', 'k'].map ch) true) ⟨⟨fun _ => 0, 0, 0, 0, 0⟩, []⟩)
    t.monitor.curX.toNat < 80 ∧ t.monitor.curY.toNat < 25 ∧ ∀ i ∈ t.indices, i < 80 * 25 :=
  have hstatus : ConsoleCall.Fits (.writeStatus (['o', 'k'].map ch) true) := by
    show strlen (['o', 'k'].map ch) ≤ 78
    decide
  have hnumber : ConsoleCall.Fits (.writeDec 42) := trivial
  inBounds_of_run rfl rfl (Run.head hstatus rfl (Run.head hnumber rfl (Run.refl _)))

end Console

end Evos
