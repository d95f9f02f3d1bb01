import Mathlib.Data.BitVec
import Mathlib.Data.List.Find
import Mathlib.Logic.Function.Basic
import Mathlib.Tactic.Common

/-! # A pair of cascaded interrupt controllers

The 8259A: requests are latched per line, the lowest pending line that is not masked is reported if
nothing of its priority or above is in service, and an acknowledged line stays in service until it is
told so. The second controller of a pair reports on line 2 of the first.

Rotation of priorities, polling and the special mask mode are not described, and a line that is
raised stays up until it is acknowledged. -/

namespace InterruptController
set_option autoImplicit false

/-- Where the sequence of initialization words is. -/
inductive Init where
  | ready
  | word2 (single needs4 : Bool)
  | word3 (needs4 : Bool)
  | word4
  deriving DecidableEq

@[ext] structure Controller where
  /-- The requests latched. -/
  irr : ℕ → Bool
  /-- The lines in service. -/
  isr : ℕ → Bool
  /-- The lines masked. -/
  imr : ℕ → Bool
  /-- The vector of line 0. -/
  base : ℕ
  /-- The third initialization word. -/
  cascade : BitVec 8
  autoEoi : Bool
  init : Init

/-- The lowest line in a register. -/
def first (register : ℕ → Bool) : Option ℕ := (List.range 8).find? register

namespace Controller
variable (p : Controller)

/-- The end of the interrupt of highest priority. -/
def eoi : Controller :=
  match first p.isr with
  | none => p
  | some i => { p with isr := Function.update p.isr i false }

/-- A write to the command port. -/
def command (value : BitVec 8) : Controller :=
  if value.getLsbD 4 then
    { p with
      irr := fun _ => false, isr := fun _ => false, imr := fun _ => false, autoEoi := false
      init := .word2 (value.getLsbD 1) (value.getLsbD 0) }
  else if value.getLsbD 3 then p
  else if value >>> 5 = 1 then p.eoi
  else if value >>> 5 = 3 then { p with isr := Function.update p.isr (value &&& 7).toNat false }
  else p

/-- A write to the data port. -/
def data (value : BitVec 8) : Controller :=
  match p.init with
  | .ready => { p with imr := fun i => value.getLsbD i }
  | .word2 single needs4 =>
    { p with
      base := (value &&& 0xF8).toNat
      init := if single then (if needs4 then .word4 else .ready) else .word3 needs4 }
  | .word3 needs4 => { p with cascade := value, init := if needs4 then .word4 else .ready }
  | .word4 => { p with autoEoi := value.getLsbD 1, init := .ready }

/-- The line that is reported. -/
def request : Option ℕ :=
  match first fun i => p.irr i && !p.imr i with
  | none => none
  | some i => if (List.range (i + 1)).any p.isr then none else some i

/-- A line is acknowledged. -/
def acknowledge (i : ℕ) : Controller :=
  { p with
    irr := Function.update p.irr i false
    isr := if p.autoEoi then p.isr else Function.update p.isr i true }

/-- Initialized, with nothing masked and nothing in service. -/
structure Quiet (p : Controller) (base : ℕ) (cascade : BitVec 8) : Prop where
  isr : p.isr = fun _ => false
  imr : p.imr = fun _ => false
  base : p.base = base
  cascade : p.cascade = cascade
  autoEoi : p.autoEoi = false
  init : p.init = .ready

end Controller

/-- The controller at the processor and the one behind it. -/
@[ext] structure Pair where
  master : Controller
  slave : Controller

namespace Pair
variable (p : Pair)

/-- The first controller, with what the second one reports on line 2. -/
def wired : Controller :=
  { p.master with irr := Function.update p.master.irr 2 p.slave.request.isSome }

/-- The processor acknowledges: the vector, and what is in service now. -/
def acknowledge : Option (ℕ × Pair) :=
  match p.wired.request with
  | none => none
  | some i =>
    if i = 2 ∧ p.master.cascade.getLsbD 2 ∧ p.slave.cascade = 2 then
      match p.slave.request with
      | none => none
      | some j => some (p.slave.base + j, ⟨p.master.acknowledge 2, p.slave.acknowledge j⟩)
    else some (p.master.base + i, ⟨p.master.acknowledge i, p.slave⟩)

/-- The request of a line, one of sixteen, is latched or withdrawn. -/
def latch (k : ℕ) (request : Bool) : Pair :=
  if k < 8 then { p with master := { p.master with irr := Function.update p.master.irr k request } }
  else { p with slave := { p.slave with irr := Function.update p.slave.irr (k - 8) request } }

/-- A device raises its line. -/
def raise (k : ℕ) : Pair := p.latch k true

/-- The request of a line is withdrawn. -/
def clear (k : ℕ) : Pair := p.latch k false

/-- The line has a request. -/
def pending (k : ℕ) : Bool := if k < 8 then p.master.irr k else p.slave.irr (k - 8)

/-- The lines of devices, in the order they are served in. -/
def serviceOrder : List ℕ := [0, 1, 8, 9, 10, 11, 12, 13, 14, 15, 3, 4, 5, 6, 7]

/-- The two controllers between interrupts. -/
structure Quiet (base base' : ℕ) (p : Pair) : Prop where
  master : p.master.Quiet base 4
  slave : p.slave.Quiet base' 2
  /-- Nothing but the second controller drives line 2. -/
  wire : p.master.irr 2 = false

/-- The end of an interrupt, told to both controllers if the second one was in service. -/
def eoi (slaveToo : Bool) : Pair :=
  ⟨p.master.eoi, if slaveToo then p.slave.eoi else p.slave⟩

end Pair

/-! ## One controller -/

section Controller
variable {p : Controller} {base : ℕ} {cascade : BitVec 8}

theorem Controller.Quiet.request (h : p.Quiet base cascade) : p.request = first p.irr := by
  have hopen : (fun i => p.irr i && !p.imr i) = p.irr := by
    rw [h.imr]
    funext i
    exact Bool.and_true _
  unfold Controller.request
  rw [hopen]
  cases first p.irr with
  | none => rfl
  | some i =>
    have hnone : (List.range (i + 1)).any p.isr = false := by
      rw [h.isr]
      exact List.any_eq_false.mpr fun _ _ => Bool.false_ne_true
    dsimp only
    rw [hnone, if_neg Bool.false_ne_true]

theorem first_lt {register : ℕ → Bool} {i : ℕ} (h : first register = some i) : i < 8 :=
  List.mem_range.mp (List.mem_of_find?_eq_some h)

theorem first_update (isr : ℕ → Bool) (h : isr = fun _ => false) {i : ℕ} (hi : i < 8) :
    first (Function.update isr i true) = some i := by
  rw [h]
  have hall : ∀ i < 8, (List.range 8).find? (Function.update (fun _ => false) i true) = some i := by
    decide
  exact hall i hi

theorem first_none : first (fun _ => false) = none := rfl

theorem Controller.Quiet.eoi_acknowledge (h : p.Quiet base cascade) {i : ℕ} (hi : i < 8) :
    (p.acknowledge i).eoi = { p with irr := Function.update p.irr i false } := by
  have hisr : (p.acknowledge i).isr = Function.update p.isr i true := by
    unfold Controller.acknowledge
    rw [h.autoEoi]
    rfl
  have hback : Function.update (p.acknowledge i).isr i false = p.isr := by
    rw [hisr, Function.update_idem, h.isr]
    exact Function.update_eq_self i _
  unfold Controller.eoi
  rw [hisr, first_update p.isr h.isr hi]
  dsimp only
  rw [← hisr, hback]
  rfl

theorem Controller.Quiet.eoi (h : p.Quiet base cascade) : p.eoi = p := by
  unfold Controller.eoi
  rw [h.isr, first_none]

theorem Controller.Quiet.withIrr (h : p.Quiet base cascade) (irr : ℕ → Bool) :
    Controller.Quiet { p with irr := irr } base cascade :=
  ⟨h.isr, h.imr, h.base, h.cascade, h.autoEoi, h.init⟩

end Controller

/-! ## Both controllers -/

section Pair
variable {p : Pair} {base base' : ℕ}

theorem Pair.Quiet.latch (h : p.Quiet base base') {k : ℕ} (hk : k ≠ 2) (request : Bool) :
    (p.latch k request).Quiet base base' := by
  unfold Pair.latch
  split
  · exact ⟨h.master.withIrr _, h.slave, (Function.update_of_ne (Ne.symm hk) _ _).trans h.wire⟩
  · exact ⟨h.master, h.slave.withIrr _, h.wire⟩

theorem Pair.pending_latch (p : Pair) (k : ℕ) (request : Bool) :
    (p.latch k request).pending = Function.update p.pending k request := by
  funext j
  unfold Pair.pending Pair.latch
  by_cases hjk : j = k
  · subst hjk
    rw [Function.update_self]
    by_cases hj : j < 8
    · rw [if_pos hj, if_pos hj]
      show Function.update p.master.irr j request j = request
      rw [Function.update_self]
    · rw [if_neg hj, if_neg hj]
      show Function.update p.slave.irr (j - 8) request (j - 8) = request
      rw [Function.update_self]
  · rw [Function.update_of_ne hjk]
    by_cases hk : k < 8
    · rw [if_pos hk]
      by_cases hj : j < 8
      · rw [if_pos hj, if_pos hj]
        show Function.update p.master.irr k request j = p.master.irr j
        rw [Function.update_of_ne hjk]
      · rw [if_neg hj, if_neg hj]
    · rw [if_neg hk]
      by_cases hj : j < 8
      · rw [if_pos hj, if_pos hj]
      · rw [if_neg hj, if_neg hj]
        show Function.update p.slave.irr (k - 8) request (j - 8) = p.slave.irr (j - 8)
        rw [Function.update_of_ne (by omega)]

theorem first_wired (irr : ℕ → Bool) (b : Bool) :
    first (Function.update irr 2 b) =
      (([0, 1].find? irr).or (if b then some 2 else none)).or ([3, 4, 5, 6, 7].find? irr) := by
  unfold first
  have hsplit : List.range 8 = [0, 1] ++ ([2] ++ [3, 4, 5, 6, 7]) := rfl
  have hlow : [0, 1].find? (Function.update irr 2 b) = [0, 1].find? irr := by
    exact List.find?_congr fun i hi => Function.update_of_ne (by
      have hall : ∀ i ∈ [0, 1], i ≠ 2 := by decide
      exact hall i hi) _ _
  have hhigh : [3, 4, 5, 6, 7].find? (Function.update irr 2 b) = [3, 4, 5, 6, 7].find? irr := by
    exact List.find?_congr fun i hi => Function.update_of_ne (by
      have hall : ∀ i ∈ [3, 4, 5, 6, 7], i ≠ 2 := by decide
      exact hall i hi) _ _
  have hmiddle : [2].find? (Function.update irr 2 b) = if b then some 2 else none := by
    rw [List.find?_cons, Function.update_self]
    cases b <;> rfl
  rw [hsplit, List.find?_append, List.find?_append, hlow, hhigh, hmiddle, Option.or_assoc]

theorem find_pending (p : Pair) :
    Pair.serviceOrder.find? p.pending =
      (([0, 1].find? p.master.irr).or ((first p.slave.irr).map (8 + ·))).or
        ([3, 4, 5, 6, 7].find? p.master.irr) := by
  have hsplit : Pair.serviceOrder = [0, 1] ++ ((List.range 8).map (8 + ·) ++ [3, 4, 5, 6, 7]) := rfl
  have hlow : [0, 1].find? p.pending = [0, 1].find? p.master.irr := rfl
  have hhigh : [3, 4, 5, 6, 7].find? p.pending = [3, 4, 5, 6, 7].find? p.master.irr := rfl
  have hmiddle : ((List.range 8).map (8 + ·)).find? p.pending =
      (first p.slave.irr).map (8 + ·) := by
    have hpending : p.pending ∘ (8 + ·) = p.slave.irr := by
      funext i
      show (if 8 + i < 8 then _ else p.slave.irr (8 + i - 8)) = _
      rw [if_neg (by omega), Nat.add_sub_cancel_left]
    rw [List.find?_map, hpending]
    rfl
  rw [hsplit, List.find?_append, List.find?_append, hlow, hhigh, hmiddle, Option.or_assoc]

theorem Pair.Quiet.wired (h : p.Quiet base base') : p.wired.Quiet base 4 := h.master.withIrr _

theorem Pair.Quiet.acknowledge_low (h : p.Quiet base base') {k : ℕ}
    (hrequest : p.wired.request = some k) (hk : k ≠ 2) :
    ∃ p', p.acknowledge = some (base + k, p') ∧ p'.eoi false = p.clear k := by
  have hlt : k < 8 := by
    rw [h.wired.request] at hrequest
    exact first_lt hrequest
  refine ⟨⟨p.master.acknowledge k, p.slave⟩, ?_, ?_⟩
  · unfold Pair.acknowledge
    rw [hrequest]
    dsimp only
    rw [if_neg fun hc => hk hc.1, h.master.base]
  · unfold Pair.eoi Pair.clear Pair.latch
    rw [if_neg Bool.false_ne_true, if_pos hlt]
    dsimp only
    rw [h.master.eoi_acknowledge hlt]

theorem Pair.Quiet.acknowledge_high (h : p.Quiet base base') {j : ℕ}
    (hrequest : p.wired.request = some 2) (hslave : p.slave.request = some j) :
    ∃ p', p.acknowledge = some (base' + j, p') ∧ p'.eoi true = p.clear (8 + j) := by
  have hlt : j < 8 := by
    rw [h.slave.request] at hslave
    exact first_lt hslave
  have hcascade : (2 : ℕ) = 2 ∧ p.master.cascade.getLsbD 2 = true ∧ p.slave.cascade = 2 := by
    rw [h.master.cascade, h.slave.cascade]
    decide
  have hwire : Function.update p.master.irr 2 false = p.master.irr := by
    rw [← h.wire]
    exact Function.update_eq_self 2 _
  refine ⟨⟨p.master.acknowledge 2, p.slave.acknowledge j⟩, ?_, ?_⟩
  · unfold Pair.acknowledge
    rw [hrequest]
    dsimp only
    rw [if_pos hcascade, hslave]
    dsimp only
    rw [h.slave.base]
  · unfold Pair.eoi Pair.clear Pair.latch
    rw [if_pos rfl, if_neg (by omega), Nat.add_sub_cancel_left]
    dsimp only
    rw [h.master.eoi_acknowledge (by decide), h.slave.eoi_acknowledge hlt, hwire]

/-- The vector of a line. -/
def vectorOf (base base' k : ℕ) : ℕ := if k < 8 then base + k else base' + (k - 8)

/-- Between interrupts the pending line of highest priority is acknowledged, and once its end is told
the controllers are as before but for its request. -/
theorem Pair.Quiet.acknowledge_some (h : p.Quiet base base') {k : ℕ}
    (hk : Pair.serviceOrder.find? p.pending = some k) :
    ∃ p', p.acknowledge = some (vectorOf base base' k, p') ∧
      p'.eoi (decide (8 ≤ k)) = p.clear k := by
  have hwired : p.wired.request = first (Function.update p.master.irr 2 p.slave.request.isSome) :=
    h.wired.request
  rw [first_wired] at hwired
  rw [find_pending, ← h.slave.request] at hk
  unfold vectorOf
  cases hlow : [0, 1].find? p.master.irr with
  | some i =>
    rw [hlow] at hk hwired
    have hik : i = k := Option.some.inj hk
    have hi : k ∈ [0, 1] := hik ▸ List.mem_of_find?_eq_some hlow
    have hall : ∀ i ∈ [0, 1], i < 8 ∧ i ≠ 2 := by decide
    obtain ⟨hlt, hne⟩ := hall k hi
    rw [hik] at hwired
    rw [if_pos hlt, decide_eq_false (by omega)]
    exact h.acknowledge_low hwired hne
  | none =>
    rw [hlow, Option.none_or] at hk hwired
    cases hslave : p.slave.request with
    | some j =>
      rw [hslave] at hk hwired
      obtain rfl : 8 + j = k := Option.some.inj hk
      rw [if_neg (by omega), decide_eq_true (by omega), Nat.add_sub_cancel_left]
      exact h.acknowledge_high hwired hslave
    | none =>
      rw [hslave] at hk hwired
      rw [Option.map_none, Option.none_or] at hk
      have hi : k ∈ [3, 4, 5, 6, 7] := List.mem_of_find?_eq_some hk
      have hall : ∀ i ∈ [3, 4, 5, 6, 7], i < 8 ∧ i ≠ 2 := by decide
      obtain ⟨hlt, hne⟩ := hall k hi
      rw [if_pos hlt, decide_eq_false (by omega)]
      refine h.acknowledge_low (hwired.trans ?_) hne
      rw [Option.isSome_none, if_neg Bool.false_ne_true, Option.none_or, hk]

theorem serviceOrder_find_ne {register : ℕ → Bool} {k : ℕ}
    (h : Pair.serviceOrder.find? register = some k) : k < 16 ∧ k ≠ 2 := by
  have hall : ∀ k ∈ Pair.serviceOrder, k < 16 ∧ k ≠ 2 := by decide
  exact hall k (List.mem_of_find?_eq_some h)

theorem Pair.Quiet.acknowledge_none (h : p.Quiet base base')
    (hk : Pair.serviceOrder.find? p.pending = none) : p.acknowledge = none := by
  have hwired : p.wired.request = first (Function.update p.master.irr 2 p.slave.request.isSome) :=
    h.wired.request
  rw [first_wired] at hwired
  rw [find_pending, ← h.slave.request, Option.or_eq_none_iff, Option.or_eq_none_iff,
    Option.map_eq_none_iff] at hk
  obtain ⟨⟨hlow, hslave⟩, hhigh⟩ := hk
  rw [hlow, hslave, hhigh, Option.isSome_none, if_neg Bool.false_ne_true] at hwired
  unfold Pair.acknowledge
  rw [hwired]
  rfl

end Pair

end InterruptController
