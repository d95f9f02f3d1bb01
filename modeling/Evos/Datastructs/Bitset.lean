import Evos.Panic
import Evos.Foundations.ByteMemory
import Mathlib.Data.Nat.Bitwise

/-! # `datastructs/bitset.c`

The operations are written over a store of 32-bit words, which is either the memory at `base` or the
list of the words themselves. Bit `i` is bit `i % 32` of word `i / 32`. -/

namespace Evos
open ByteMemory
set_option autoImplicit false

/-- Where the words of a bitset are kept. -/
structure Words (σ : Type) where
  read : σ → ℕ → ℕ
  write : σ → ℕ → ℕ → σ

def bitsPerItem : ℕ := 32
def outerIndex (i : ℕ) : ℕ := i / bitsPerItem
def innerIndex (i : ℕ) : ℕ := i % bitsPerItem
def allUsed : ℕ := 0xFFFFFFFF

/-! ## The operations -/

section Operations
variable {σ : Type} (W : Words σ) (size : ℕ)

def bitsetSet (set : σ) (index : ℕ) : σ :=
  if outerIndex index ≥ size then set
  else W.write set (outerIndex index)
    (W.read set (outerIndex index) ||| 1 <<< innerIndex index)

def bitsetClear (set : σ) (index : ℕ) : σ :=
  if outerIndex index ≥ size then set
  else W.write set (outerIndex index)
    (W.read set (outerIndex index) &&& (allUsed ^^^ 1 <<< innerIndex index))

def bitsetCheckSet (set : σ) (index : ℕ) : ℕ :=
  if outerIndex index ≥ size then 0
  else W.read set (outerIndex index) &&& 1 <<< innerIndex index

/-- The inner loop of `bitset_find_free`. -/
def findInWord (set : σ) (outer : ℕ) : Option ℕ :=
  ((List.range bitsPerItem).map fun inner => outer * bitsPerItem + inner).find? fun index =>
    bitsetCheckSet W size set index == 0

/-- `bitset_find_free`; `none` is the `(uint32_t) -1` of the code. -/
def bitsetFindFree (set : σ) : Option ℕ :=
  (List.range size).findSome? fun outer =>
    if W.read set outer ≠ allUsed then findInWord W size set outer else none

end Operations

/-! ## Stores -/

/-- The address of `base[outer]`. -/
def wordAddress (base outer : ℕ) : ℕ := u32 (base + 4 * outer)

/-- The words at `base` in memory. -/
def Words.atBase (base : ℕ) : Words Mem where
  read m outer := load32 m (wordAddress base outer)
  write m outer v := store32 m (wordAddress base outer) v

/-- The words themselves. -/
def Words.list : Words (List ℕ) where
  read ws outer := ws.getD outer 0
  write ws outer v := ws.set outer v

/-- A store of `size` words that reads back what was written. -/
structure Words.Lawful {σ : Type} (W : Words σ) (size : ℕ) (Valid : σ → Prop) : Prop where
  valid_write : ∀ {s o v}, Valid s → o < size → v < 2 ^ 32 → Valid (W.write s o v)
  read_lt : ∀ {s o}, Valid s → o < size → W.read s o < 2 ^ 32
  read_write : ∀ {s o p v}, Valid s → o < size → p < size → v < 2 ^ 32 →
    W.read (W.write s o v) p = if p = o then v else W.read s p

theorem Words.list_lawful (size : ℕ) :
    Words.list.Lawful size fun ws => ws.length = size ∧ ∀ w ∈ ws, w < 2 ^ 32 where
  valid_write {s o v} hs ho hv := by
    refine ⟨by simpa [Words.list] using hs.1, fun w hw => ?_⟩
    rcases List.mem_or_eq_of_mem_set hw with h | h
    · exact hs.2 w h
    · rw [h]
      exact hv
  read_lt {s o} hs ho := by
    have hlt : o < s.length := by omega
    simp only [Words.list, List.getD_eq_getElem?_getD, List.getElem?_eq_getElem hlt,
      Option.getD_some]
    exact hs.2 _ (List.getElem_mem hlt)
  read_write {s o p v} hs ho hp hv := by
    have hlt : o < s.length := by omega
    simp only [Words.list, List.getD_eq_getElem?_getD, List.getElem?_set]
    by_cases h : p = o
    · subst h
      simp [hlt]
    · rw [if_neg (fun e => h e.symm), if_neg h]

theorem Words.atBase_lawful {base size : ℕ} (h : base + 4 * size ≤ 2 ^ 32) :
    (Words.atBase base).Lawful size fun _ => True where
  valid_write _ _ _ := trivial
  read_lt _ _ := load32_lt _ _
  read_write {s o p v} _ ho hp hv := by
    have e : ∀ q < size, wordAddress base q = base + 4 * q := fun q hq => u32_of_lt (by omega)
    simp only [Words.atBase, e o ho, e p hp]
    by_cases hpo : p = o
    · rw [if_pos hpo, hpo]
      exact load32_store32_self s _ v hv
    · rw [if_neg hpo]
      exact load32_store32_of_disjoint _ _ _ _ (by omega)

/-! ## Bits -/

section Bits
variable {σ : Type} {W : Words σ} {size : ℕ} {s : σ} {i j : ℕ}

/-- Bit `i` of the words. -/
def isSet (W : Words σ) (s : σ) (i : ℕ) : Bool := (W.read s (outerIndex i)).testBit (innerIndex i)

theorem and_shiftLeft_eq_zero (w k : ℕ) : w &&& 1 <<< k = 0 ↔ w.testBit k = false := by
  rw [Nat.one_shiftLeft, Nat.and_two_pow]
  cases w.testBit k <;> simp

theorem bitsetCheckSet_eq_zero :
    bitsetCheckSet W size s i = 0 ↔ (outerIndex i < size → isSet W s i = false) := by
  unfold bitsetCheckSet isSet
  split
  · rename_i h
    exact ⟨fun _ hlt => absurd hlt (by omega), fun _ => rfl⟩
  · rename_i h
    rw [and_shiftLeft_eq_zero]
    exact ⟨fun hb _ => hb, fun hb => hb (by omega)⟩

theorem eq_of_outer_inner (ho : outerIndex i = outerIndex j) (hi : innerIndex i = innerIndex j) :
    i = j := by
  unfold outerIndex innerIndex bitsPerItem at *
  omega

theorem innerIndex_lt (i : ℕ) : innerIndex i < 32 := Nat.mod_lt _ (by decide)

theorem outerIndex_lt_iff : outerIndex i < size ↔ i < 32 * size := by
  unfold outerIndex bitsPerItem
  omega

theorem shiftLeft_lt (i : ℕ) : 1 <<< innerIndex i < 2 ^ 32 := by
  rw [Nat.one_shiftLeft]
  exact Nat.pow_lt_pow_right (by decide) (innerIndex_lt i)

variable {Valid : σ → Prop}

theorem valid_bitsetSet (L : W.Lawful size Valid) (hv : Valid s) :
    Valid (bitsetSet W size s i) := by
  unfold bitsetSet
  split
  · exact hv
  · rename_i h
    exact L.valid_write hv (by omega)
      (Nat.or_lt_two_pow (L.read_lt hv (by omega)) (shiftLeft_lt i))

theorem valid_bitsetClear (L : W.Lawful size Valid) (hv : Valid s) :
    Valid (bitsetClear W size s i) := by
  unfold bitsetClear
  split
  · exact hv
  · rename_i h
    exact L.valid_write hv (by omega) (Nat.lt_of_le_of_lt Nat.and_le_left (L.read_lt hv (by omega)))

theorem isSet_bitsetSet (L : W.Lawful size Valid) (hv : Valid s)
    (hi : outerIndex i < size) (hj : outerIndex j < size) :
    isSet W (bitsetSet W size s i) j = (isSet W s j || decide (j = i)) := by
  unfold bitsetSet isSet
  rw [if_neg (by omega), L.read_write hv hi hj
    (Nat.or_lt_two_pow (L.read_lt hv hi) (shiftLeft_lt i))]
  by_cases ho : outerIndex j = outerIndex i
  · rw [if_pos ho, Nat.testBit_or, Nat.one_shiftLeft, Nat.testBit_two_pow, ho]
    congr 1
    by_cases he : innerIndex i = innerIndex j
    · simp [he, eq_of_outer_inner ho he.symm]
    · have hne : j ≠ i := by
        rintro rfl
        exact he rfl
      simp [he, hne]
  · have hne : j ≠ i := by
      rintro rfl
      exact ho rfl
    simp [ho, hne]

theorem isSet_bitsetClear (L : W.Lawful size Valid) (hv : Valid s)
    (hi : outerIndex i < size) (hj : outerIndex j < size) :
    isSet W (bitsetClear W size s i) j = (isSet W s j && !decide (j = i)) := by
  unfold bitsetClear isSet
  rw [if_neg (by omega), L.read_write hv hi hj
    (Nat.lt_of_le_of_lt Nat.and_le_left (L.read_lt hv hi))]
  by_cases ho : outerIndex j = outerIndex i
  · have hall : allUsed.testBit (innerIndex j) = true := by
      rw [show allUsed = 2 ^ 32 - 1 from rfl, Nat.testBit_two_pow_sub_one]
      simpa using innerIndex_lt j
    rw [if_pos ho, Nat.testBit_and, Nat.testBit_xor, Nat.one_shiftLeft, Nat.testBit_two_pow, ho, hall]
    by_cases he : innerIndex i = innerIndex j
    · simp [he, eq_of_outer_inner ho he.symm]
    · have hne : j ≠ i := by
        rintro rfl
        exact he rfl
      simp [he, hne]
  · have hne : j ≠ i := by
      rintro rfl
      exact ho rfl
    simp [ho, hne]

end Bits

/-! ## The scan -/

section Scan
variable {σ : Type} {W : Words σ} {size : ℕ} {s : σ}

theorem allUsed_isSet {i : ℕ} (h : W.read s (outerIndex i) = allUsed) : isSet W s i = true := by
  unfold isSet
  rw [h, show allUsed = 2 ^ 32 - 1 from rfl, Nat.testBit_two_pow_sub_one]
  simpa using innerIndex_lt i

theorem outerIndex_mul_add {o k : ℕ} (hk : k < bitsPerItem) : outerIndex (o * bitsPerItem + k) = o := by
  unfold outerIndex bitsPerItem at *
  omega

theorem check_ne_zero {i : ℕ} (h : bitsetCheckSet W size s i ≠ 0) :
    outerIndex i < size ∧ isSet W s i = true := by
  have := mt bitsetCheckSet_eq_zero.mpr h
  simpa using this

/-- No clear bit was found in a word: all of them are set. -/
theorem findInWord_none {o : ℕ} (h : findInWord W size s o = none) {i : ℕ} (hi : outerIndex i = o) :
    isSet W s i = true := by
  have hmem : i ∈ (List.range bitsPerItem).map fun inner => o * bitsPerItem + inner := by
    refine List.mem_map.mpr ⟨innerIndex i, List.mem_range.mpr (innerIndex_lt i), ?_⟩
    unfold outerIndex innerIndex bitsPerItem at *
    omega
  have hne := List.find?_eq_none.mp h i hmem
  exact (check_ne_zero (by simpa using hne)).2

theorem findInWord_some {o i : ℕ} (ho : o < size) (h : findInWord W size s o = some i) :
    outerIndex i = o ∧ isSet W s i = false ∧
      ∀ j, outerIndex j = o → j < i → isSet W s j = true := by
  obtain ⟨hzero, as, bs, hsplit, hbefore⟩ := List.find?_eq_some_iff_append.mp h
  have hmem : i ∈ (List.range bitsPerItem).map fun inner => o * bitsPerItem + inner := by
    rw [hsplit]
    simp
  obtain ⟨k, hk, rfl⟩ := List.mem_map.mp hmem
  have hko := outerIndex_mul_add (o := o) (List.mem_range.mp hk)
  refine ⟨hko, bitsetCheckSet_eq_zero.mp (by simpa using hzero) (by omega), fun j hj hlt => ?_⟩
  have hjm : j ∈ (List.range bitsPerItem).map fun inner => o * bitsPerItem + inner := by
    refine List.mem_map.mpr ⟨innerIndex j, List.mem_range.mpr (innerIndex_lt j), ?_⟩
    unfold outerIndex innerIndex bitsPerItem at *
    omega
  have hpair : ((List.range bitsPerItem).map fun inner => o * bitsPerItem + inner).Pairwise
      (· < ·) := by
    refine List.pairwise_map.mpr (List.pairwise_lt_range.imp ?_)
    intro a b hab
    omega
  rw [hsplit] at hjm hpair
  have hja : j ∈ as := by
    rcases List.mem_append.mp hjm with hja | hjb
    · exact hja
    · obtain ⟨_, hb, _⟩ := List.pairwise_append.mp hpair
      rcases List.mem_cons.mp hjb with rfl | hjb
      · omega
      · have := (List.pairwise_cons.mp hb).1 j hjb
        omega
  exact (check_ne_zero (by simpa using hbefore j hja)).2

theorem bitsetFindFree_some {i : ℕ} (h : bitsetFindFree W size s = some i) :
    outerIndex i < size ∧ isSet W s i = false ∧ ∀ j < i, isSet W s j = true := by
  obtain ⟨as, o, bs, hsplit, hfound, hbefore⟩ := List.findSome?_eq_some_iff.mp h
  have hmem : o ∈ List.range size := by
    rw [hsplit]
    simp
  have ho := List.mem_range.mp hmem
  split at hfound
  · obtain ⟨hi, hclear, hmin⟩ := findInWord_some ho hfound
    refine ⟨by omega, hclear, fun j hj => ?_⟩
    by_cases hjo : outerIndex j = o
    · exact hmin j hjo hj
    · have hlt : outerIndex j < o := by
        unfold outerIndex bitsPerItem at *
        omega
      have hjm : outerIndex j ∈ as := by
        have hpair := List.pairwise_lt_range (n := size)
        have hjr : outerIndex j ∈ List.range size := List.mem_range.mpr (by omega)
        rw [hsplit] at hpair hjr
        rcases List.mem_append.mp hjr with hja | hjb
        · exact hja
        · obtain ⟨_, hb, _⟩ := List.pairwise_append.mp hpair
          rcases List.mem_cons.mp hjb with he | hjb
          · omega
          · have := (List.pairwise_cons.mp hb).1 _ hjb
            omega
      have hnone := hbefore _ hjm
      split at hnone
      · exact findInWord_none hnone rfl
      · rename_i hall
        exact allUsed_isSet (by simpa using hall)
  · cases hfound

theorem bitsetFindFree_none :
    bitsetFindFree W size s = none ↔ ∀ i, outerIndex i < size → isSet W s i = true := by
  constructor
  · intro h i hi
    have hnone := List.findSome?_eq_none_iff.mp h (outerIndex i) (List.mem_range.mpr hi)
    split at hnone
    · exact findInWord_none hnone rfl
    · rename_i hall
      exact allUsed_isSet (by simpa using hall)
  · intro h
    by_contra hne
    obtain ⟨i, hi⟩ := Option.ne_none_iff_exists'.mp hne
    obtain ⟨ho, hclear, _⟩ := bitsetFindFree_some hi
    rw [h i ho] at hclear
    cases hclear

/-! ## What the reads depend on -/

/-- Two states with the same words below `size`. -/
def SameWords (W : Words σ) (size : ℕ) (s t : σ) : Prop := ∀ o < size, W.read t o = W.read s o

variable {t : σ}

theorem bitsetCheckSet_congr (h : SameWords W size s t) (i : ℕ) :
    bitsetCheckSet W size t i = bitsetCheckSet W size s i := by
  unfold bitsetCheckSet
  by_cases ho : outerIndex i ≥ size
  · rw [if_pos ho, if_pos ho]
  · rw [if_neg ho, if_neg ho, h _ (by omega)]

theorem bitsetFindFree_congr (h : SameWords W size s t) :
    bitsetFindFree W size t = bitsetFindFree W size s := by
  have hword : ∀ o, findInWord W size t o = findInWord W size s o := by
    intro o
    unfold findInWord
    simp only [bitsetCheckSet_congr h]
  have hstep : ∀ o ∈ List.range size,
      (if W.read t o ≠ allUsed then findInWord W size t o else none) =
        if W.read s o ≠ allUsed then findInWord W size s o else none := by
    intro o ho
    rw [h o (List.mem_range.mp ho), hword o]
  have hid : ∀ f : ℕ → Option ℕ,
      (List.range size).findSome? f = ((List.range size).map f).findSome? id := by
    intro f
    rw [List.findSome?_map]
    rfl
  unfold bitsetFindFree
  rw [hid, hid, List.map_congr_left hstep]

end Scan

end Evos
