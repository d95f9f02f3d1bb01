import Mathlib.Algebra.Group.Nat.Defs
import Mathlib.Tactic.Common

/-! # Byte memories with 32-bit words

A flat byte memory, little-endian 32-bit loads and stores, and the two frame relations used to
say where a program wrote:

* `load32`, `store32`: a word is the four bytes at its address, least significant first.
* `SameOn lo hi m m'`: the two memories agree on `[lo, hi)`.
* `OnlyIn lo hi m m'`: `m'` differs from `m` inside `[lo, hi)` at most.
-/

namespace ByteMemory
set_option autoImplicit false

/-- A byte for every address. -/
abbrev Mem := ℕ → UInt8

/-- The little-endian word at `a`. -/
def load32 (m : Mem) (a : ℕ) : ℕ :=
  (m a).toNat + 256 * (m (a + 1)).toNat + 65536 * (m (a + 2)).toNat + 16777216 * (m (a + 3)).toNat

/-- Store the low 32 bits of `v` at `a`, least significant byte first. -/
def store32 (m : Mem) (a v : ℕ) : Mem := fun x =>
  if a ≤ x ∧ x < a + 4 then UInt8.ofNat (v / 256 ^ (x - a)) else m x

/-- Fill `[a, a + n)` with one byte. -/
def fill (m : Mem) (a : ℕ) (b : UInt8) (n : ℕ) : Mem := fun x =>
  if a ≤ x ∧ x < a + n then b else m x

/-! ## Loads and stores -/

theorem load32_lt (m : Mem) (a : ℕ) : load32 m a < 2 ^ 32 := by
  have h0 := (m a).toNat_lt
  have h1 := (m (a + 1)).toNat_lt
  have h2 := (m (a + 2)).toNat_lt
  have h3 := (m (a + 3)).toNat_lt
  unfold load32
  omega

theorem load32_congr {m m' : Mem} {a : ℕ} (h : ∀ x, a ≤ x → x < a + 4 → m' x = m x) :
    load32 m' a = load32 m a := by
  unfold load32
  rw [h a (by omega) (by omega), h (a + 1) (by omega) (by omega), h (a + 2) (by omega) (by omega),
    h (a + 3) (by omega) (by omega)]

theorem store32_of_outside (m : Mem) (a v x : ℕ) (h : x < a ∨ a + 4 ≤ x) :
    store32 m a v x = m x := by
  unfold store32
  rw [if_neg (by omega)]

theorem load32_store32_self (m : Mem) (a v : ℕ) (hv : v < 2 ^ 32) :
    load32 (store32 m a v) a = v := by
  have e0 : a + 1 - a = 1 := by omega
  have e1 : a + 2 - a = 2 := by omega
  have e2 : a + 3 - a = 3 := by omega
  unfold load32 store32
  rw [if_pos (by omega), if_pos (by omega), if_pos (by omega), if_pos (by omega), e0, e1, e2,
    Nat.sub_self]
  simp only [UInt8.toNat_ofNat']
  omega

theorem load32_store32_of_disjoint (m : Mem) (a b v : ℕ) (h : b + 4 ≤ a ∨ a + 4 ≤ b) :
    load32 (store32 m a v) b = load32 m b :=
  load32_congr fun x _ _ => store32_of_outside m a v x (by omega)

theorem fill_of_outside (m : Mem) (a n x : ℕ) (b : UInt8) (h : x < a ∨ a + n ≤ x) :
    fill m a b n x = m x := by
  unfold fill
  rw [if_neg (by omega)]

/-! ## Where a program wrote -/

/-- The two memories agree on `[lo, hi)`. -/
def SameOn (lo hi : ℕ) (m m' : Mem) : Prop := ∀ x, lo ≤ x → x < hi → m' x = m x

/-- `m'` differs from `m` at most inside `[lo, hi)`. -/
def OnlyIn (lo hi : ℕ) (m m' : Mem) : Prop := ∀ x, x < lo ∨ hi ≤ x → m' x = m x

theorem SameOn.load32 {lo hi a : ℕ} {m m' : Mem} (h : SameOn lo hi m m') (hlo : lo ≤ a)
    (hhi : a + 4 ≤ hi) : load32 m' a = load32 m a :=
  load32_congr fun x h1 h2 => h x (by omega) (by omega)

theorem SameOn.mono {lo hi lo' hi' : ℕ} {m m' : Mem} (h : SameOn lo hi m m') (hlo : lo ≤ lo')
    (hhi : hi' ≤ hi) : SameOn lo' hi' m m' :=
  fun x h1 h2 => h x (by omega) (by omega)

theorem SameOn.trans {lo hi : ℕ} {m m' m'' : Mem} (h : SameOn lo hi m m')
    (h' : SameOn lo hi m' m'') : SameOn lo hi m m'' :=
  fun x h1 h2 => (h' x h1 h2).trans (h x h1 h2)

theorem OnlyIn.refl (lo hi : ℕ) (m : Mem) : OnlyIn lo hi m m := fun _ _ => rfl

theorem OnlyIn.trans {lo hi : ℕ} {m m' m'' : Mem} (h : OnlyIn lo hi m m')
    (h' : OnlyIn lo hi m' m'') : OnlyIn lo hi m m'' :=
  fun x hx => (h' x hx).trans (h x hx)

theorem OnlyIn.mono {lo hi lo' hi' : ℕ} {m m' : Mem} (h : OnlyIn lo hi m m') (hlo : lo' ≤ lo)
    (hhi : hi ≤ hi') : OnlyIn lo' hi' m m' :=
  fun x hx => h x (by omega)

theorem OnlyIn.sameOn {lo hi lo' hi' : ℕ} {m m' : Mem} (h : OnlyIn lo hi m m')
    (hd : hi' ≤ lo ∨ hi ≤ lo') : SameOn lo' hi' m m' :=
  fun x h1 h2 => h x (by omega)

theorem OnlyIn.store32 {lo hi a v : ℕ} {m m' : Mem} (h : OnlyIn lo hi m m') (hlo : lo ≤ a)
    (hhi : a + 4 ≤ hi) : OnlyIn lo hi m (store32 m' a v) :=
  fun x hx => (store32_of_outside m' a v x (by omega)).trans (h x hx)

end ByteMemory
