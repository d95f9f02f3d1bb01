import Mathlib.Data.BitVec
import Mathlib.Tactic.Common

/-! # A channel of an interval timer

The 8254: a control word chooses how the reload value of the channel is written, and 0 stands for the
greatest value. The other channels and counting in decimal are not described. -/

namespace IntervalTimer
set_option autoImplicit false

inductive Access where
  | latch
  | low
  | high
  | both
  deriving DecidableEq

structure Channel where
  access : Access
  mode : ℕ
  /-- The low byte, once it is written and the high byte is not. -/
  pendingLow : Option (BitVec 8)
  /-- What the channel counts down from, once it is written. -/
  reload : Option ℕ
  deriving DecidableEq

/-- How a control word has the value written. -/
def accessOf (value : BitVec 8) : Access :=
  match (value >>> 4 &&& 3).toNat with
  | 0 => .latch
  | 1 => .low
  | 2 => .high
  | _ => .both

/-- A control word; only those for channel 0 concern it. -/
def Channel.control (value : BitVec 8) (c : Channel) : Channel :=
  if value >>> 6 ≠ 0 ∨ accessOf value = .latch then c
  else ⟨accessOf value, (value >>> 1 &&& 7).toNat, none, none⟩

/-- The value that is counted down from. -/
def counted (value : ℕ) : ℕ := if value = 0 then 65536 else value

/-- A write to the port of the channel. -/
def Channel.write (value : BitVec 8) (c : Channel) : Channel :=
  match c.access with
  | .latch => c
  | .low => { c with reload := some (counted value.toNat) }
  | .high => { c with reload := some (counted (value.toNat * 256)) }
  | .both =>
    match c.pendingLow with
    | none => { c with pendingLow := some value }
    | some low =>
      { c with pendingLow := none, reload := some (counted (value.toNat * 256 + low.toNat)) }

theorem write_both {c : Channel} (h : c.access = .both) (hlow : c.pendingLow = none)
    (low high : BitVec 8) :
    (c.write low).write high = { c with
      pendingLow := none, reload := some (counted (high.toNat * 256 + low.toNat)) } := by
  have hfirst : c.write low = { c with pendingLow := some low } := by
    unfold Channel.write
    rw [h, hlow]
  rw [hfirst]
  unfold Channel.write
  dsimp only
  rw [h]

end IntervalTimer
