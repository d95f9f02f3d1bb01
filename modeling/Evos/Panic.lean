import Mathlib.Algebra.Group.Int.Defs
import Mathlib.Algebra.Group.Nat.Defs
import Mathlib.Data.Int.Notation
import Mathlib.Tactic.Common

/-! # Words and panics

Unsigned 32-bit arithmetic on naturals with the wrap written out, the signed reading of a word,
and the ways the kernel stops. -/

namespace Evos
set_option autoImplicit false

/-! ## 32-bit words -/

/-- The value kept by a `uint32_t`. -/
def u32 (n : ℕ) : ℕ := n % 2 ^ 32

/-- Unsigned 32-bit subtraction of two words. -/
def sub32 (a b : ℕ) : ℕ := (a + 2 ^ 32 - b) % 2 ^ 32

/-- The `int32_t` reading of a word. -/
def s32 (n : ℕ) : ℤ := if n < 2 ^ 31 then n else n - 2 ^ 32

theorem u32_of_lt {n : ℕ} (h : n < 2 ^ 32) : u32 n = n := Nat.mod_eq_of_lt h

theorem u32_lt (n : ℕ) : u32 n < 2 ^ 32 := Nat.mod_lt n (by decide)

theorem sub32_of_le {a b : ℕ} (h : b ≤ a) (ha : a < 2 ^ 32) : sub32 a b = a - b := by
  unfold sub32
  omega

theorem s32_of_lt {n : ℕ} (h : n < 2 ^ 31) : s32 n = n := if_pos h

/-! ## Panics -/

/-- Why the kernel stopped. -/
inductive Panic where
  /-- `assert(condition, message)` failed. -/
  | assertion (message : String)
  /-- `panic(message)`. -/
  | message (text : String)
  /-- An access to an address the loaded page directory does not map. -/
  | pageFault (address : ℕ)
  /-- A null pointer was dereferenced. -/
  | nullPointer
  /-- The kernel stack ran out in a recursion. -/
  | stackOverflow
  /-- Memory that holds no such object was used as one. -/
  | wildAccess
  deriving DecidableEq

/-- `assert(condition, message)`. -/
def assert (condition : Prop) [Decidable condition] (message : String) : Except Panic Unit :=
  if condition then .ok () else .error (.assertion message)

theorem assert_of {c : Prop} [Decidable c] (h : c) (message : String) :
    assert c message = .ok () := if_pos h

theorem assert_of_not {c : Prop} [Decidable c] (h : ¬ c) (message : String) :
    assert c message = .error (.assertion message) := if_neg h

theorem assert_ok {c : Prop} [Decidable c] {message : String} {u : Unit}
    (h : assert c message = .ok u) : c := by
  by_contra hc
  rw [assert_of_not hc] at h
  exact nomatch h

end Evos
