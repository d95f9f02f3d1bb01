import Evos.Monitor.Cursor
import Evos.String.Pieces

/-! # `printk.c`

`printk` prints to a buffer of 4096 bytes and writes that to the console. -/

namespace Evos
open Outcome
set_option autoImplicit false

/-- Why a call of `printk` leaves what its C text defines. -/
inductive PrintStop where
  | format (f : Fault)
  /-- A store behind the end of `buf`. -/
  | bufOverrun
  deriving DecidableEq

/-- `sizeof(buf)`. -/
def sizeofBuf : ℕ := 4096

def printk (strings : BitVec 32 → List (BitVec 8)) (fmt : List (BitVec 8)) (args : ℕ → BitVec 32)
    (m : Monitor) : Except PrintStop Monitor :=
  match vsprintf strings fmt args with
  | .error f => .error (.format f)
  | .ok text => if text.length ≤ sizeofBuf then .ok (monitorWrite text m) else .error .bufOverrun

/-- The bytes of a string literal. -/
def literal (s : String) : List (BitVec 8) := s.toList.map ch

/-- What is passed behind the format. -/
inductive PrintArg where
  | word (w : BitVec 32)
  | str (s : List (BitVec 8))

/-- The words of the arguments; a string is passed as a pointer that is told from the others by the
place of its argument. -/
def argWords (as : List PrintArg) (i : ℕ) : BitVec 32 :=
  match as[i]? with
  | some (.word w) => w
  | some (.str _) => BitVec.ofNat 32 i
  | none => 0

/-- The string at such a pointer. -/
def argStrings (as : List PrintArg) (p : BitVec 32) : List (BitVec 8) :=
  match as[p.toNat]? with
  | some (.str s) => s
  | _ => []

/-- A call of `printk` with its arguments. -/
def printkArgs (fmt : String) (as : List PrintArg) (m : Monitor) : Except PrintStop Monitor :=
  printk (argStrings as) (literal fmt) (argWords as) m

def reportSuccess (m : Monitor) : Monitor := monitorWriteStatus (literal "DONE") true m

/-! ## What is on the console -/

theorem putAll_append (first second : List (BitVec 8)) (m : Monitor) :
    putAll (first ++ second) m = putAll second (putAll first m) := List.foldl_append

theorem takeWhile_terminated {text : List (BitVec 8)} (h : 0 ∉ text) :
    (text ++ [0]).takeWhile (· ≠ 0) = text := by
  have hall : ∀ c ∈ text, (decide (c ≠ 0)) = true := fun c hc =>
    decide_eq_true fun he => h (he ▸ hc)
  rw [List.takeWhile_append_of_pos hall]
  exact List.append_nil text

variable {strings : BitVec 32 → List (BitVec 8)} {args : ℕ → BitVec 32}

theorem printk_pieces (ps : List Piece) (hps : ∀ p ∈ ps, p.Ok)
    (hstrings : ∀ x, (strings x).length < 2 ^ 31)
    (hfits : (printedText strings ps args).length < sizeofBuf) (m : Monitor) :
    printk strings (formatOf ps) args m =
      .ok (putAll ((printedText strings ps args ++ [0]).takeWhile (· ≠ 0)) m) := by
  unfold printk
  rw [vsprintf_pieces strings ps hps hstrings args]
  dsimp only
  rw [if_pos (by
    rw [List.length_append, List.length_singleton]
    exact hfits), monitorWrite_eq]
  rfl

theorem printk_text {cs : List (BitVec 8)} (hcs : ∀ c ∈ cs, c ≠ 0 ∧ c ≠ ch '%')
    (hfits : cs.length < sizeofBuf) (m : Monitor) :
    printk strings cs args m = .ok (putAll cs m) := by
  have hprint : vsprintf strings cs args = .ok (cs ++ [0]) := by
    unfold vsprintf
    rw [except_bind_of_ok (vsprintfLoop_plain hcs (vsprintfLoop_nul strings args)),
      List.append_nil]
    rfl
  unfold printk
  rw [hprint]
  dsimp only
  rw [if_pos (by
    rw [List.length_append, List.length_singleton]
    exact hfits), monitorWrite_eq, takeWhile_terminated fun h => (hcs 0 h).1 rfl]
  rfl

/-- `printk("%c", c)` puts the character, unless it is the one that ends strings. -/
theorem printk_char (m : Monitor) :
    printk strings (literal "%c") args m =
      .ok (if (args 0).setWidth 8 = (0 : BitVec 8) then m else monitorPut ((args 0).setWidth 8) m) := by
  have hprint : vsprintf strings (literal "%c") args = .ok ([(args 0).setWidth 8] ++ [0]) := by
    have hloop : vsprintfLoop strings (directiveText [] 0 (ch 'c') ++ [0]) args =
        .ok ([(args 0).setWidth 8] ++ []) :=
      vsprintfLoop_convert (List.forall_mem_nil _) (by decide) (by decide) (by decide) rfl
        (vsprintfLoop_nul strings _)
    exact except_bind_of_ok hloop _
  unfold printk
  rw [hprint]
  dsimp only
  have hfits : ([(args 0).setWidth 8] ++ [0] : List (BitVec 8)).length ≤ sizeofBuf :=
    show 2 ≤ sizeofBuf by decide
  rw [if_pos hfits]
  by_cases hc : (args 0).setWidth 8 = (0 : BitVec 8)
  · rw [if_pos hc, hc]
    rfl
  · rw [if_neg hc]
    show Except.ok (if (args 0).setWidth 8 = (0 : BitVec 8) then m else _) = _
    rw [if_neg hc]
    rfl

end Evos
