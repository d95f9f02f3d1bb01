import Mathlib.Logic.Function.Basic
import Mathlib.Tactic.Common
import Mathlib.Algebra.Group.Nat.Defs

/-! # Terminals with unboundedly many lines

A `Sheet` has lines of `w` columns, no last line, and a cursor. Keys print a cell at the cursor or move
it; past the last column the cursor goes to a new line. A screen of `h` rows shows the last `h` lines,
the cursor's among them. -/

namespace Terminals
set_option autoImplicit false

/-- The cells by line and column, and the place of the cursor. -/
structure Sheet (α : Type) where
  cell : ℕ → ℕ → α
  line : ℕ
  column : ℕ

inductive Key (α : Type) where
  | print (c : α)
  | backspace
  | tab (stop : ℕ)
  | carriageReturn
  | newline

/-- The same key with its cell in another encoding. -/
def Key.map {α β : Type} (f : α → β) : Key α → Key β
  | .print c => .print (f c)
  | .backspace => .backspace
  | .tab stop => .tab stop
  | .carriageReturn => .carriageReturn
  | .newline => .newline

namespace Sheet
variable {α β : Type}

/-- Nothing printed yet. -/
def empty (blank : α) : Sheet α := ⟨fun _ _ => blank, 0, 0⟩

/-- What a key does before the cursor is brought back into the line. -/
def strike : Key α → Sheet α → Sheet α
  | .print c, s =>
    { s with
      cell := Function.update s.cell s.line (Function.update (s.cell s.line) s.column c)
      column := s.column + 1 }
  | .backspace, s => { s with column := s.column - 1 }
  | .tab stop, s => { s with column := (s.column / stop + 1) * stop }
  | .carriageReturn, s => { s with column := 0 }
  | .newline, s => { s with line := s.line + 1, column := 0 }

/-- Past the last of `w` columns a new line begins. -/
def wrap (w : ℕ) (s : Sheet α) : Sheet α :=
  if w ≤ s.column then { s with line := s.line + 1, column := 0 } else s

def press (w : ℕ) (k : Key α) (s : Sheet α) : Sheet α := wrap w (strike k s)

/-- A whole text. -/
def type (w : ℕ) (ks : List (Key α)) (s : Sheet α) : Sheet α := ks.foldl (fun s k => press w k s) s

/-- The first line in view of a screen of `h` rows. -/
def top (h : ℕ) (s : Sheet α) : ℕ := s.line + 1 - h

/-- The cell in row `r` and column `c` of the screen. -/
def view (h : ℕ) (s : Sheet α) (r c : ℕ) : α := s.cell (s.top h + r) c

/-- The cursor is inside its line, and the lines below it are blank. -/
structure Tidy (w : ℕ) (blank : α) (s : Sheet α) : Prop where
  column_lt : s.column < w
  below : ∀ l, s.line < l → ∀ c, s.cell l c = blank

variable {w h : ℕ} {blank : α} {s : Sheet α} {k : Key α}

theorem tidy_empty (hw : 0 < w) : (empty blank).Tidy w blank := ⟨hw, fun _ _ _ => rfl⟩

/-! ## One key -/

theorem strike_cell_of_ne (k : Key α) (s : Sheet α) {l : ℕ} (hl : l ≠ s.line) :
    (strike k s).cell l = s.cell l := by
  cases k with
  | print c => exact Function.update_of_ne hl _ _
  | backspace => rfl
  | tab stop => rfl
  | carriageReturn => rfl
  | newline => rfl

theorem strike_line_le (k : Key α) (s : Sheet α) : (strike k s).line ≤ s.line + 1 := by
  cases k with
  | print c => exact Nat.le_succ _
  | backspace => exact Nat.le_succ _
  | tab stop => exact Nat.le_succ _
  | carriageReturn => exact Nat.le_succ _
  | newline => exact Nat.le_refl _

@[simp] theorem wrap_cell (w : ℕ) (s : Sheet α) : (wrap w s).cell = s.cell := by
  unfold wrap
  split <;> rfl

theorem press_cell_of_ne (w : ℕ) (k : Key α) (s : Sheet α) {l : ℕ} (hl : l ≠ s.line) :
    (press w k s).cell l = s.cell l := by
  rw [press, wrap_cell, strike_cell_of_ne k s hl]

theorem wrap_column_lt (hw : 0 < w) (s : Sheet α) : (wrap w s).column < w := by
  unfold wrap
  split
  · exact hw
  · omega

/-- A new line begins in column 0, so it begins once. -/
theorem press_line (hw : 0 < w) (k : Key α) (s : Sheet α) :
    (press w k s).line = s.line ∨ (press w k s).line = s.line + 1 := by
  have hwrap : ∀ s' : Sheet α, s'.line = s.line →
      (wrap w s').line = s.line ∨ (wrap w s').line = s.line + 1 := by
    intro s' hs'
    unfold wrap
    split
    · right
      rw [← hs']
    · left
      exact hs'
  cases k with
  | print c => exact hwrap _ rfl
  | backspace => exact hwrap _ rfl
  | tab stop => exact hwrap _ rfl
  | carriageReturn => exact hwrap _ rfl
  | newline =>
    right
    have h0 : ¬w ≤ 0 := by omega
    show (if w ≤ 0 then _ else _ : Sheet α).line = s.line + 1
    rw [if_neg h0]
    rfl

theorem Tidy.fresh (t : s.Tidy w blank) (hnew : s.line < (press w k s).line) (c : ℕ) :
    (press w k s).cell (press w k s).line c = blank := by
  rw [press_cell_of_ne w k s (Nat.ne_of_gt hnew)]
  exact t.below _ hnew c

theorem Tidy.press (t : s.Tidy w blank) (k : Key α) : (press w k s).Tidy w blank := by
  have hw : 0 < w := Nat.zero_lt_of_lt t.column_lt
  refine ⟨wrap_column_lt hw _, ?_⟩
  intro l hl c
  have hline := press_line hw k s
  have hlt : s.line < l := by omega
  rw [press_cell_of_ne w k s (Nat.ne_of_gt hlt)]
  exact t.below l hlt c

/-! ## The printed cell on the screen -/

theorem press_print_cell (w : ℕ) (c : α) (s : Sheet α) :
    (press w (.print c) s).cell s.line s.column = c := by
  rw [press, wrap_cell]
  simp only [strike, Function.update_self]

/-- On a screen of two rows or more a cell is in view right after it is printed. -/
theorem press_print_view (hh : 2 ≤ h) (hw : 0 < w) (c : α) (s : Sheet α) :
    ∃ r, r < h ∧ (press w (.print c) s).view h r s.column = c := by
  have hline := press_line hw (.print c) s
  refine ⟨s.line - (press w (.print c) s).top h, ?_, ?_⟩
  · unfold top
    omega
  · have hrow : (press w (.print c) s).top h + (s.line - (press w (.print c) s).top h) = s.line := by
      unfold top
      omega
    rw [view, hrow]
    exact press_print_cell w c s

/-! ## Whole texts -/

@[simp] theorem type_nil (w : ℕ) (s : Sheet α) : type w [] s = s := rfl

theorem type_append (w : ℕ) (ks ks' : List (Key α)) (s : Sheet α) :
    type w (ks ++ ks') s = type w ks' (type w ks s) := List.foldl_append

theorem type_concat (w : ℕ) (ks : List (Key α)) (k : Key α) (s : Sheet α) :
    type w (ks ++ [k]) s = press w k (type w ks s) := by
  rw [type_append]
  rfl

theorem Tidy.type (t : s.Tidy w blank) (ks : List (Key α)) : (type w ks s).Tidy w blank := by
  induction ks generalizing s with
  | nil => exact t
  | cons k ks ih => exact ih (t.press k)

/-! ## Another encoding of the cells -/

/-- The same sheet with every cell in another encoding. -/
def map (f : α → β) (s : Sheet α) : Sheet β := ⟨fun l c => f (s.cell l c), s.line, s.column⟩

theorem strike_map (f : α → β) (k : Key α) (s : Sheet α) :
    strike (k.map f) (s.map f) = (strike k s).map f := by
  cases k with
  | print c =>
    simp only [Key.map, strike, map, mk.injEq, and_true]
    funext l j
    by_cases hl : l = s.line
    · subst hl
      rw [Function.update_self, Function.update_self]
      by_cases hj : j = s.column
      · subst hj
        rw [Function.update_self, Function.update_self]
      · rw [Function.update_of_ne hj, Function.update_of_ne hj]
    · rw [Function.update_of_ne hl, Function.update_of_ne hl]
  | backspace => rfl
  | tab stop => rfl
  | carriageReturn => rfl
  | newline => rfl

theorem wrap_map (f : α → β) (w : ℕ) (s : Sheet α) : wrap w (s.map f) = (wrap w s).map f := by
  unfold wrap
  by_cases hfull : w ≤ s.column
  · rw [if_pos hfull, if_pos (show w ≤ (s.map f).column from hfull)]
    rfl
  · rw [if_neg hfull, if_neg (show ¬w ≤ (s.map f).column from hfull)]

theorem press_map (f : α → β) (w : ℕ) (k : Key α) (s : Sheet α) :
    press w (k.map f) (s.map f) = (press w k s).map f := by
  rw [press, strike_map, wrap_map, press]

theorem type_map (f : α → β) (w : ℕ) (ks : List (Key α)) (s : Sheet α) :
    type w (ks.map (Key.map f)) (s.map f) = (type w ks s).map f := by
  induction ks generalizing s with
  | nil => rfl
  | cons k ks ih =>
    have hstep := ih (press w k s)
    rw [← press_map] at hstep
    exact hstep

end Sheet

end Terminals
