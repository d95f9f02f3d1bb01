import Evos.Foundations.Overlay
import Evos.Mm.BootMapping

/-! # `init_paging` on the bytes of memory

The words of the frame bitmap reach behind the block asked for them, into the page directory and the
tables that `init_paging` puts there. Here all three are bytes of one memory, up to the end of the
identity mapping: the functions first, and then the words that they put behind the bitmap, each by its
place. -/

namespace Evos
open ByteMemory Outcome
set_option autoImplicit false

/-! ## The functions -/

/-- Memory, `mem_first_unused`, the bitmap of the frames and `kernel_directory`. -/
structure RawKernel where
  mem : Mem
  memFirstUnused : ℕ
  frames : Bitset
  kernelDirectory : ℕ

abbrev RawM := EStateM Panic RawKernel

def rawLoad (address : ℕ) : RawM ℕ := fun s => .ok (load32 s.mem address) s

def rawStore (address value : ℕ) : RawM Unit :=
  modify fun s => { s with mem := store32 s.mem address value }

/-- `memset(address, 0, size)`. -/
def rawClear (address size : ℕ) : RawM Unit :=
  modify fun s => { s with mem := fill s.mem address 0 size }

/-- `kmalloc_ap` before the heap exists; the block is its own physical address. -/
def rawKmallocAp (size : ℕ) : RawM ℕ := fun s =>
  .ok (linearKmalloc size true s.memFirstUnused).1
    { s with memFirstUnused := (linearKmalloc size true s.memFirstUnused).2 }

/-- `frame_alloc` on the words in memory. -/
def rawAllocFrame : RawM ℕ := fun s =>
  match frameAlloc (Words.atBase s.frames.base) s.frames.size s.mem with
  | .ok (frame, mem) => .ok frame { s with mem := mem }
  | .error e => .error e s

/-- A `page_t` with its three low bits and its frame set. -/
def pageWord (word : ℕ) (writeable : Bool) (frame : ℕ) : ℕ :=
  4096 * (frame % 2 ^ 20) + 8 * (word % 4096 / 8) + if writeable then 7 else 5

/-- `page_alloc` of the `page_t` at `page`. -/
def rawPageAlloc (page : ℕ) (writeable : Bool) : RawM Unit := do
  if (← rawLoad page) / 4096 ≠ 0 then return ()
  else
    let frame ← rawAllocFrame
    let word ← rawLoad page
    rawStore page (pageWord word writeable frame)

/-- `get_page(address, TRUE, dir)`: the address of the `page_t`. Behind the 1024 words of `tables` come
those of `tables_physical_addr`. -/
def rawGetPage (address dir : ℕ) : RawM ℕ := do
  let entry := wordAddress dir (tableIndex address)
  if (← rawLoad entry) ≠ 0 then
    return wordAddress (← rawLoad entry) (pageIndex address)
  else
    let table ← rawKmallocAp pageTableSize
    rawStore entry table
    rawClear (← rawLoad entry) pageTableSize
    rawStore (wordAddress dir (1024 + tableIndex address)) (table ||| 7)
    return wordAddress (← rawLoad entry) (pageIndex address)

/-- The page directory of the kernel; its last word is the address of `tables_physical_addr`. -/
def rawKernelDirectory : RawM Unit := do
  let dir ← rawKmallocAp pageDirectorySize
  modify fun s => { s with kernelDirectory := dir }
  rawClear dir pageDirectorySize
  rawStore (wordAddress dir 2048) (u32 (dir + 4096))

/-- `get_page(i, TRUE, kernel_directory)` for `n` pages from `i` on. -/
def rawHeapPages : ℕ → ℕ → RawM Unit
  | _, 0 => return ()
  | i, n + 1 => do
    let _ ← rawGetPage i (← get).kernelDirectory
    rawHeapPages (i + 4096) n

/-- The identity mapping from `i` on; more than `n` rounds do not end. -/
def rawIdentityMap : ℕ → ℕ → RawM Unit
  | 0, _ => throw .stackOverflow
  | n + 1, i => do
    if i < u32 ((← get).memFirstUnused + 4096 * 4) then
      let page ← rawGetPage i (← get).kernelDirectory
      rawPageAlloc page true
      if (← rawLoad page) / 4096 = i / 4096 then rawIdentityMap n (u32 (i + 4096))
      else throw (.assertion "Cannot identity-map lower memory\n")
    else return ()

/-- `init_paging` up to the end of the identity mapping. -/
def rawInitIdentity : RawM Unit := do
  rawKernelDirectory
  rawHeapPages kheapStart (kheapInitialSize / 4096)
  rawIdentityMap (2 ^ 20 + 1) 0

/-- The kernel when `init_frames` returns. -/
def rawAfterInitFrames (m : Mem) (scan : Scan) : RawKernel where
  mem := memAfterInit scan.memTotalBytes ⟨m, scan.baseAddr⟩
  memFirstUnused := (initFrames scan.memTotalBytes ⟨m, scan.baseAddr⟩).2.memFirstUnused
  frames := frameBitmap scan.memTotalBytes ⟨m, scan.baseAddr⟩
  kernelDirectory := 0

section Steps
variable {α : Type} {s : RawKernel}

theorem rawLoad_bind (address : ℕ) (f : ℕ → RawM α) :
    (rawLoad address >>= f) s = f (load32 s.mem address) s := rfl

theorem rawStore_bind (address value : ℕ) (f : Unit → RawM α) :
    (rawStore address value >>= f) s = f () { s with mem := store32 s.mem address value } := rfl

theorem rawClear_bind (address size : ℕ) (f : Unit → RawM α) :
    (rawClear address size >>= f) s = f () { s with mem := fill s.mem address 0 size } := rfl

theorem rawKmallocAp_bind (size : ℕ) (f : ℕ → RawM α) :
    (rawKmallocAp size >>= f) s = f (linearKmalloc size true s.memFirstUnused).1
      { s with memFirstUnused := (linearKmalloc size true s.memFirstUnused).2 } := rfl

end Steps

/-! ## The words that `init_paging` puts behind the bitmap -/

section Words
variable (base c n : ℕ)

/-- The loop has made table `j`, or the heap has it. -/
def HasTable (j : ℕ) : Prop := j = 60 ∨ 1024 * j < c

instance (j : ℕ) : Decidable (HasTable c j) := inferInstanceAs (Decidable (_ ∨ _))

/-- Where table `j` is put. That of the heap comes first, behind the directory. -/
def tableAddress (j : ℕ) : ℕ :=
  if j = 60 then base + 0x3000 else base + 0x4000 + 4096 * tablesBelow (1024 * j)

/-- The table that is `s` tables behind that of the heap. -/
def tableOfSlot (s : ℕ) : ℕ := if s = 0 then 60 else if s ≤ 60 then s - 1 else s

/-- Word `k` from the page directory at `base` on, with the tables for the pages below `c`, and the
pages below `n` mapped. -/
def identityWord (k : ℕ) : Option ℕ :=
  if k < 1024 then some (if HasTable c k then tableAddress base k else 0)
  else if k < 2048 then some (if HasTable c (k - 1024) then tableAddress base (k - 1024) ||| 7 else 0)
  else if k = 2048 then some (base + 4096)
  else if k < 3072 then none
  else if k / 1024 - 3 ≤ tablesBelow c then
    let page := 1024 * tableOfSlot (k / 1024 - 3) + k % 1024
    some (if page < n then 4096 * page + 7 else 0)
  else none

end Words

section Layout
variable {base c n j k v : ℕ}

theorem tablesBelow_table (j : ℕ) : tablesBelow (1024 * j) = if j ≤ 60 then j else j - 1 := by
  have hj : (1024 * j + 1023) / 1024 = j := by omega
  unfold tablesBelow
  rw [hj]

theorem tableOfSlot_table (hj : j ≠ 60) : tableOfSlot (tablesBelow (1024 * j) + 1) = j := by
  unfold tableOfSlot
  rw [tablesBelow_table, if_neg (Nat.succ_ne_zero _)]
  by_cases hle : j ≤ 60
  · rw [if_pos hle, if_pos (by omega), Nat.add_sub_cancel]
  · rw [if_neg hle, if_neg (by omega)]
    omega

theorem slot_le (hj : j ≠ 60) (h : HasTable c j) : tablesBelow (1024 * j) + 1 ≤ tablesBelow c := by
  unfold HasTable at h
  rw [tablesBelow_table]
  unfold tablesBelow
  split <;> split <;> omega

theorem tableAddress_eq (hj : j ≠ 60) :
    tableAddress base j = base + 4 * (4096 + 1024 * tablesBelow (1024 * j)) := by
  unfold tableAddress
  rw [if_neg hj]
  omega

theorem le_tableAddress (base j : ℕ) : base + 0x3000 ≤ tableAddress base j := by
  unfold tableAddress
  split <;> omega

theorem tableAddress_lt (hbase : base ≤ 2 ^ 32 - 15 * 2 ^ 20) (hj : j < 1024) :
    tableAddress base j + 4096 < 2 ^ 32 := by
  have htables : tablesBelow (1024 * j) ≤ j := by
    rw [tablesBelow_table]
    split <;> omega
  unfold tableAddress
  split <;> omega

theorem tableAddress_slot (base s : ℕ) :
    tableAddress base (tableOfSlot s) = base + 4 * (3072 + 1024 * s) := by
  unfold tableOfSlot
  by_cases hs : s = 0
  · rw [if_pos hs, hs]
    rfl
  · rw [if_neg hs]
    by_cases hle : s ≤ 60
    · rw [if_pos hle, tableAddress_eq (by omega), tablesBelow_table, if_pos (by omega)]
      omega
    · rw [if_neg hle, tableAddress_eq (by omega), tablesBelow_table, if_neg (by omega)]
      omega

/-! ### By their place -/

theorem identityWord_entry (base c n : ℕ) (hj : j < 1024) :
    identityWord base c n j = some (if HasTable c j then tableAddress base j else 0) := if_pos hj

theorem identityWord_physical (base c n : ℕ) (hj : j < 1024) :
    identityWord base c n (1024 + j) =
      some (if HasTable c j then tableAddress base j ||| 7 else 0) := by
  unfold identityWord
  rw [if_neg (by omega), if_pos (by omega), Nat.add_sub_cancel_left]

theorem identityWord_meta : identityWord base c n 2048 = some (base + 4096) := rfl

theorem identityWord_pad (hlo : 2048 < k) (hhi : k < 3072) : identityWord base c n k = none := by
  unfold identityWord
  rw [if_neg (by omega), if_neg (by omega), if_neg (by omega), if_pos hhi]

theorem identityWord_slot (hlo : 3072 ≤ k) (hs : k / 1024 - 3 ≤ tablesBelow c) :
    identityWord base c n k =
      some (if 1024 * tableOfSlot (k / 1024 - 3) + k % 1024 < n then
        4096 * (1024 * tableOfSlot (k / 1024 - 3) + k % 1024) + 7 else 0) := by
  unfold identityWord
  rw [if_neg (by omega), if_neg (by omega), if_neg (by omega), if_neg (by omega), if_pos hs]

theorem identityWord_behind (hlo : 3072 ≤ k) (hs : tablesBelow c < k / 1024 - 3) :
    identityWord base c n k = none := by
  unfold identityWord
  rw [if_neg (by omega), if_neg (by omega), if_neg (by omega), if_neg (by omega), if_neg (by omega)]

theorem identityWord_congr {c' n' : ℕ}
    (hhas : ∀ i, k = i ∨ k = 1024 + i → (HasTable c' i ↔ HasTable c i))
    (hslot : 3072 ≤ k → (k / 1024 - 3 ≤ tablesBelow c' ↔ k / 1024 - 3 ≤ tablesBelow c))
    (hpage : 3072 ≤ k → (1024 * tableOfSlot (k / 1024 - 3) + k % 1024 < n' ↔
      1024 * tableOfSlot (k / 1024 - 3) + k % 1024 < n)) :
    identityWord base c' n' k = identityWord base c n k := by
  by_cases hdir : k < 1024
  · rw [identityWord_entry _ _ _ hdir, identityWord_entry _ _ _ hdir]
    simp only [hhas k (Or.inl rfl)]
  · by_cases hphysical : k < 2048
    · obtain ⟨i, rfl⟩ := Nat.exists_eq_add_of_le (Nat.not_lt.mp hdir)
      rw [identityWord_physical _ _ _ (by omega), identityWord_physical _ _ _ (by omega)]
      simp only [hhas i (Or.inr rfl)]
    · by_cases hmeta : k = 2048
      · rw [hmeta, identityWord_meta, identityWord_meta]
      · by_cases hpad : k < 3072
        · rw [identityWord_pad (by omega) hpad, identityWord_pad (by omega) hpad]
        · have hin := hslot (Nat.not_lt.mp hpad)
          by_cases hs : k / 1024 - 3 ≤ tablesBelow c
          · rw [identityWord_slot (by omega) (hin.mpr hs), identityWord_slot (by omega) hs]
            simp only [hpage (Nat.not_lt.mp hpad)]
          · rw [identityWord_behind (by omega) (by omega), identityWord_behind (by omega) (by omega)]

theorem identityWord_page (base : ℕ) (hv : HasTable c (v / 1024)) :
    ∃ k, tableAddress base (v / 1024) + 4 * (v % 1024) = base + 4 * k ∧
      ∀ n, identityWord base c n k = some (if v < n then 4096 * v + 7 else 0) := by
  by_cases hj : v / 1024 = 60
  · refine ⟨3072 + v % 1024, ?_, fun n => ?_⟩
    · unfold tableAddress
      rw [if_pos hj]
      omega
    · have hslot : (3072 + v % 1024) / 1024 - 3 = 0 := by omega
      have hpage : 1024 * 60 + (3072 + v % 1024) % 1024 = v := by omega
      rw [identityWord_slot (by omega) (by omega), hslot, show tableOfSlot 0 = 60 from rfl, hpage]
  · refine ⟨4096 + 1024 * tablesBelow (1024 * (v / 1024)) + v % 1024, ?_, fun n => ?_⟩
    · rw [tableAddress_eq hj]
      omega
    · have hindex : (4096 + 1024 * tablesBelow (1024 * (v / 1024)) + v % 1024) / 1024 - 3 =
          tablesBelow (1024 * (v / 1024)) + 1 := by omega
      have hpage : 1024 * (v / 1024) +
          (4096 + 1024 * tablesBelow (1024 * (v / 1024)) + v % 1024) % 1024 = v := by omega
      have hslot := slot_le hj hv
      rw [identityWord_slot (by omega) (by omega), hindex, tableOfSlot_table hj, hpage]

theorem overlay_addTable {m : Mem} {words words' : ℕ → Option ℕ} {a : ℕ} (hj : j < 1024)
    (ha : 2048 ≤ a) (hptr : words' j = some (base + 4 * a))
    (hphysical : words' (1024 + j) = some ((base + 4 * a) ||| 7))
    (hzero : ∀ k, a ≤ k → k < a + 1024 → words' k = some 0)
    (hother : ∀ k, k ≠ j → k ≠ 1024 + j → k < a ∨ a + 1024 ≤ k → words' k = words k) :
    store32 (fill (store32 (overlay m base words) (base + 4 * j) (base + 4 * a)) (base + 4 * a) 0 4096)
      (base + 4 * (1024 + j)) ((base + 4 * a) ||| 7) = overlay m base words' := by
  let entered := Function.update words j (some (base + 4 * a))
  let cleared := fun k => if a ≤ k ∧ k < a + 1024 then some 0 else entered k
  have hentered : ∀ k, k ≠ j → entered k = words k := fun k hk => Function.update_of_ne hk _ _
  have hself : entered j = some (base + 4 * a) := Function.update_self _ _ _
  have hcleared : ∀ k, k < a ∨ a + 1024 ≤ k → cleared k = entered k :=
    fun k hk => if_neg (by omega)
  have hzeroed : ∀ k, a ≤ k → k < a + 1024 → cleared k = some 0 := fun k hlo hhi => if_pos ⟨hlo, hhi⟩
  rw [store32_overlay hself hentered, show 4096 = 4 * 1024 from rfl, fill_overlay hzeroed hcleared]
  refine store32_overlay hphysical fun k hk => ?_
  by_cases hin : a ≤ k ∧ k < a + 1024
  · rw [hzero k hin.1 hin.2]
    exact (if_pos hin).symm
  · rw [hcleared k (by omega)]
    by_cases hkj : k = j
    · rw [hkj, hptr, hself]
    · rw [hentered k hkj]
      exact hother k hkj hk (by omega)

/-- The words of the directory before it has a table. -/
def directoryWord (base k : ℕ) : Option ℕ :=
  if k < 2048 then some 0 else if k = 2048 then some (base + 4096) else none

theorem identityWord_heap (base : ℕ) :
    (∀ k, 3072 ≤ k → k < 3072 + 1024 → identityWord base 0 0 k = some 0) ∧
    ∀ k, k ≠ 60 → k ≠ 1024 + 60 → k < 3072 ∨ 3072 + 1024 ≤ k →
      identityWord base 0 0 k = directoryWord base k := by
  have hzero : tablesBelow 0 = 0 := rfl
  have hnone : ∀ i, i ≠ 60 → ¬HasTable 0 i := by
    intro i hi
    unfold HasTable
    omega
  refine ⟨fun k hlo hhi => ?_, fun k h60 h1084 hout => ?_⟩
  · rw [identityWord_slot hlo (by omega), if_neg (Nat.not_lt_zero _)]
  · unfold directoryWord
    by_cases hdir : k < 1024
    · rw [identityWord_entry _ _ _ hdir, if_neg (hnone k h60), if_pos (by omega)]
    · by_cases hphysical : k < 2048
      · obtain ⟨i, rfl⟩ := Nat.exists_eq_add_of_le (Nat.not_lt.mp hdir)
        rw [identityWord_physical _ _ _ (by omega), if_neg (hnone i (by omega)), if_pos hphysical]
      · rw [if_neg hphysical]
        by_cases hmeta : k = 2048
        · rw [if_pos hmeta, hmeta, identityWord_meta]
        · rw [if_neg hmeta]
          rcases hout with hlt | hle
          · exact identityWord_pad (by omega) hlt
          · exact identityWord_behind (by omega) (by omega)

theorem identityWord_newTable (base : ℕ) (hmod : n % 1024 = 0) (hj : n / 1024 ≠ 60) :
    (∀ k, 4096 + 1024 * tablesBelow n ≤ k → k < 4096 + 1024 * tablesBelow n + 1024 →
      identityWord base (n + 1) n k = some 0) ∧
    ∀ k, k ≠ n / 1024 → k ≠ 1024 + n / 1024 →
      k < 4096 + 1024 * tablesBelow n ∨ 4096 + 1024 * tablesBelow n + 1024 ≤ k →
      identityWord base (n + 1) n k = identityWord base n n k := by
  have hn : 1024 * (n / 1024) = n := by omega
  have hsucc := tablesBelow_succ_of_new hmod hj
  have hsame : ∀ i, i ≠ n / 1024 → (HasTable (n + 1) i ↔ HasTable n i) := by
    intro i hi
    unfold HasTable
    omega
  refine ⟨fun k hlo hhi => ?_, fun k hentry hphysical hout => ?_⟩
  · have hslot : k / 1024 - 3 = tablesBelow (1024 * (n / 1024)) + 1 := by
      rw [hn]
      omega
    rw [identityWord_slot (by omega) (by omega), hslot, tableOfSlot_table hj, if_neg (by omega)]
  · refine identityWord_congr (fun i hi => hsame i (by omega)) (fun _ => ?_) fun _ => Iff.rfl
    omega

/-- The loop maps a page: no word but that of the page changes. -/
theorem identityWord_mapped (hk : base + 4 * k ≠ tableAddress base (n / 1024) + 4 * (n % 1024)) :
    identityWord base c (n + 1) k = identityWord base c n k := by
  refine identityWord_congr (fun _ _ => Iff.rfl) (fun _ => Iff.rfl) fun hlo => ?_
  have hne : 1024 * tableOfSlot (k / 1024 - 3) + k % 1024 ≠ n := by
    rintro rfl
    have hdiv : (1024 * tableOfSlot (k / 1024 - 3) + k % 1024) / 1024 = tableOfSlot (k / 1024 - 3) := by
      omega
    rw [hdiv, tableAddress_slot] at hk
    omega
  omega

end Layout

end Evos
