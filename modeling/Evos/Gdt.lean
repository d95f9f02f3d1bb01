import Mathlib.Data.BitVec
import Mathlib.Tactic.Common

/-! # `gdt.c`: segment descriptors

`gdt_set_entry` splits base and limit over the fields of a descriptor, and the processor puts them
together again. -/

namespace Evos
set_option autoImplicit false

/-! ## Descriptors -/

/-- `access_flags_t`. -/
structure AccessFlags where
  segmentParams : BitVec 3
  isCode : BitVec 1
  reserved : BitVec 1
  ring : BitVec 2
  present : BitVec 1
  deriving DecidableEq

/-- `granularity_flags_t`. -/
structure GranularityFlags where
  limitHigh : BitVec 4
  reserved : BitVec 2
  operandSize : BitVec 1
  granularity : BitVec 1
  deriving DecidableEq

/-- `gdt_entry_t`. -/
structure GdtEntry where
  limitLower : BitVec 16
  baseLower : BitVec 16
  baseMid : BitVec 8
  accessFlags : AccessFlags
  granularity : GranularityFlags
  baseHigh : BitVec 8
  deriving DecidableEq

/-- `gdt_set_entry`. Of the entry there was, the reserved bits stay. -/
def gdtSetEntry (ent : GdtEntry) (base limit : BitVec 32) (accessFlags : AccessFlags)
    (use4kib : BitVec 32) : GdtEntry :=
  -- what is more than a word is counted in pages
  let (limit, use4kib) := if 0xFFFF < limit then (limit >>> 12, 1) else (limit, use4kib)
  { ent with
    baseLower := (base &&& 0xFFFF).setWidth 16
    baseMid := ((base >>> 16) &&& 0xFF).setWidth 8
    baseHigh := ((base >>> 24) &&& 0xFF).setWidth 8
    limitLower := (limit &&& 0xFFFF).setWidth 16
    granularity :=
      { ent.granularity with
        limitHigh := ((limit >>> 16) &&& 0x0F).setWidth 4
        granularity := use4kib.setWidth 1
        operandSize := 1 }
    accessFlags := accessFlags }

/-! ## What the processor reads -/

/-- The base, put together. -/
def GdtEntry.base (ent : GdtEntry) : ℕ :=
  ent.baseHigh.toNat * 2 ^ 24 + ent.baseMid.toNat * 2 ^ 16 + ent.baseLower.toNat

/-- The limit in bytes or in pages. -/
def GdtEntry.rawLimit (ent : GdtEntry) : ℕ :=
  ent.granularity.limitHigh.toNat * 2 ^ 16 + ent.limitLower.toNat

/-- The highest offset that can be addressed. -/
def GdtEntry.limit (ent : GdtEntry) : ℕ :=
  if ent.granularity.granularity = 1 then ent.rawLimit * 4096 + 4095 else ent.rawLimit

/-- There is a descriptor with this limit. -/
def Representable (limit : BitVec 32) : Prop :=
  limit.toNat ≤ 0xFFFFF ∨ limit.toNat % 4096 = 4095

/-- The descriptor set up in bytes says what was asked for. -/
def Describes (ent : GdtEntry) (base limit : BitVec 32) (accessFlags : AccessFlags) : Prop :=
  let ent' := gdtSetEntry ent base limit accessFlags 0
  ent'.base = base.toNat ∧ ent'.accessFlags = accessFlags ∧ ent'.limit = limit.toNat

variable {ent : GdtEntry} {base limit use4kib : BitVec 32} {accessFlags : AccessFlags}

/-! ## Fields -/

theorem toNat_setWidth_mask (x : BitVec 32) {w : ℕ} (hw : w ≤ 32) :
    ((x &&& BitVec.ofNat 32 (2 ^ w - 1)).setWidth w).toNat = x.toNat % 2 ^ w := by
  have hpow : 2 ^ w ≤ 2 ^ 32 := Nat.pow_le_pow_right (by decide) hw
  have hpos : 0 < 2 ^ w := Nat.two_pow_pos w
  have hmask : (2 ^ w - 1) % 2 ^ 32 = 2 ^ w - 1 := Nat.mod_eq_of_lt (by omega)
  rw [BitVec.toNat_setWidth, BitVec.toNat_and, BitVec.toNat_ofNat, hmask,
    Nat.and_two_pow_sub_one_eq_mod, Nat.mod_mod]

theorem toNat_setWidth_shift (x : BitVec 32) (shift : ℕ) {w : ℕ} (hw : w ≤ 32) :
    ((x >>> shift &&& BitVec.ofNat 32 (2 ^ w - 1)).setWidth w).toNat =
      x.toNat / 2 ^ shift % 2 ^ w := by
  rw [toNat_setWidth_mask _ hw, BitVec.toNat_ushiftRight, Nat.shiftRight_eq_div_pow]

theorem gdtSetEntry_base (ent : GdtEntry) (base limit : BitVec 32) (accessFlags : AccessFlags)
    (use4kib : BitVec 32) :
    (gdtSetEntry ent base limit accessFlags use4kib).base = base.toNat := by
  have hlower : ((base &&& 0xFFFF).setWidth 16).toNat = base.toNat % 2 ^ 16 :=
    toNat_setWidth_mask base (by decide)
  have hmid : ((base >>> 16 &&& 0xFF).setWidth 8).toNat = base.toNat / 2 ^ 16 % 2 ^ 8 :=
    toNat_setWidth_shift base 16 (by decide)
  have hhigh : ((base >>> 24 &&& 0xFF).setWidth 8).toNat = base.toNat / 2 ^ 24 % 2 ^ 8 :=
    toNat_setWidth_shift base 24 (by decide)
  have hlt := base.isLt
  unfold GdtEntry.base gdtSetEntry
  dsimp only
  rw [hlower, hmid, hhigh]
  omega

theorem rawLimit_fields (limit : BitVec 32) :
    ((limit >>> 16 &&& 0x0F).setWidth 4).toNat * 2 ^ 16 + ((limit &&& 0xFFFF).setWidth 16).toNat =
      limit.toNat % 2 ^ 20 := by
  have hlower : ((limit &&& 0xFFFF).setWidth 16).toNat = limit.toNat % 2 ^ 16 :=
    toNat_setWidth_mask limit (by decide)
  have hhigh : ((limit >>> 16 &&& 0x0F).setWidth 4).toNat = limit.toNat / 2 ^ 16 % 2 ^ 4 :=
    toNat_setWidth_shift limit 16 (by decide)
  rw [hlower, hhigh]
  omega

theorem gdtSetEntry_limit_of_lt (h : 0xFFFF < limit.toNat) :
    (gdtSetEntry ent base limit accessFlags use4kib).limit = limit.toNat / 4096 * 4096 + 4095 := by
  have hpages : (0xFFFF : BitVec 32) < limit := BitVec.lt_def.mpr h
  have hshift : (limit >>> 12).toNat = limit.toNat / 4096 := by
    rw [BitVec.toNat_ushiftRight, Nat.shiftRight_eq_div_pow]
  have hraw := rawLimit_fields (limit >>> 12)
  have hlt := limit.isLt
  rw [hshift, Nat.mod_eq_of_lt (by omega)] at hraw
  unfold GdtEntry.limit GdtEntry.rawLimit gdtSetEntry
  rw [if_pos hpages]
  dsimp only
  rw [hraw, if_pos (by decide)]

theorem gdtSetEntry_limit_of_le (h : limit.toNat ≤ 0xFFFF) :
    (gdtSetEntry ent base limit accessFlags use4kib).limit =
      if use4kib.setWidth 1 = 1 then limit.toNat * 4096 + 4095 else limit.toNat := by
  have hword : ¬(0xFFFF : BitVec 32) < limit := fun hlt => Nat.not_lt.mpr h (BitVec.lt_def.mp hlt)
  have hraw := rawLimit_fields limit
  rw [Nat.mod_eq_of_lt (by omega)] at hraw
  unfold GdtEntry.limit GdtEntry.rawLimit gdtSetEntry
  rw [if_neg hword]
  dsimp only
  rw [hraw]

/-! ## Round trip -/

/-- The threshold is a word although the field for the limit is longer: a limit that needs the rest of
the field is rounded up to the end of its page. -/
theorem describes_iff (ent : GdtEntry) (base limit : BitVec 32) (accessFlags : AccessFlags) :
    Describes ent base limit accessFlags ↔ limit.toNat ≤ 0xFFFF ∨ limit.toNat % 4096 = 4095 := by
  have hiff : (gdtSetEntry ent base limit accessFlags 0).limit = limit.toNat ↔
      limit.toNat ≤ 0xFFFF ∨ limit.toNat % 4096 = 4095 := by
    by_cases hword : limit.toNat ≤ 0xFFFF
    · rw [gdtSetEntry_limit_of_le hword, if_neg (by decide)]
      exact iff_of_true rfl (Or.inl hword)
    · rw [gdtSetEntry_limit_of_lt (by omega)]
      omega
  have hbase := gdtSetEntry_base ent base limit accessFlags 0
  unfold Describes
  exact ⟨fun h => hiff.mp h.2.2, fun h => ⟨hbase, rfl, hiff.mpr h⟩⟩

/-- `0x10000` has a descriptor, but is set up as `0x10FFF`. -/
theorem not_describes_0x10000 :
    ¬∀ ent base limit accessFlags, Representable limit → Describes ent base limit accessFlags := by
  intro hall
  have hdescribes := hall ⟨0, 0, 0, ⟨0, 0, 0, 0, 0⟩, ⟨0, 0, 0, 0⟩, 0⟩ 0 0x10000 ⟨0, 0, 0, 0, 0⟩
    (Or.inl (by decide))
  have hlong : 0xFFFF < (0x10000 : BitVec 32).toNat := by decide
  have hlimit := (gdtSetEntry_limit_of_lt hlong).symm.trans hdescribes.2.2
  exact absurd hlimit (by decide)

end Evos
