import Evos.Mm.Init

/-! # The region that `init_mem` selects

The largest part of an available region behind the kernel image. -/

namespace Evos
open ByteMemory
set_option autoImplicit false

/-- No entry goes past the end of the 64-bit addresses. -/
def ValidMap (b : BootInfo) : Prop := ∀ e ∈ b.entries, e.addr + e.len ≤ 2 ^ 64

/-- A region found lies behind the image and below 2^32. -/
structure Scan.Sound (imageEnd : ℕ) (s : Scan) : Prop where
  total : s.memTotalBytes < 2 ^ 32
  image : 0 < s.regionLen → imageEnd ≤ s.baseAddr
  stop : 0 < s.regionLen → s.baseAddr + s.regionLen < 2 ^ 32

variable {imageEnd : ℕ} {s t : Scan}

theorem entry_lt {e : MmapEntry} (hv : e.addr + e.len ≤ 2 ^ 64)
    (h : ¬(e.addr / 2 ^ 32 ≠ 0 ∨ (e.addr + e.len + 2 ^ 64 - 1) % 2 ^ 64 / 2 ^ 32 ≠ 0)) :
    e.addr < 2 ^ 32 ∧ 0 < e.addr + e.len ∧ e.addr + e.len ≤ 2 ^ 32 := by
  omega

theorem region_behind_image {e : MmapEntry} (himage : 0 < imageEnd)
    (hlt : e.addr < 2 ^ 32 ∧ 0 < e.addr + e.len ∧ e.addr + e.len ≤ 2 ^ 32)
    (hstop : imageEnd ≤ u32 (u32 e.addr + e.len)) :
    sub32 (u32 (u32 e.addr + e.len)) (if u32 e.addr < imageEnd then imageEnd else u32 e.addr) =
        e.addr + e.len - max imageEnd e.addr ∧
      (if u32 e.addr < imageEnd then imageEnd else u32 e.addr) = max imageEnd e.addr ∧
      max imageEnd e.addr ≤ e.addr + e.len ∧ e.addr + e.len < 2 ^ 32 := by
  have haddr : u32 e.addr = e.addr := u32_of_lt hlt.1
  rw [haddr] at hstop ⊢
  unfold u32 at hstop ⊢
  unfold sub32
  split <;> omega

theorem scanEntry_sound {e : MmapEntry} (himage : 0 < imageEnd) (hv : e.addr + e.len ≤ 2 ^ 64)
    (hs : s.Sound imageEnd) (h : scanEntry imageEnd s e = .ok t) : t.Sound imageEnd := by
  unfold scanEntry at h
  split at h
  · cases h
  rename_i hcheck
  have hlt := entry_lt hv hcheck
  have htotal : ({ s with memTotalBytes := u32 (s.memTotalBytes + e.len) } : Scan).Sound imageEnd :=
    ⟨u32_lt _, hs.image, hs.stop⟩
  dsimp only at h
  split at h
  · split at h
    · rename_i hstop
      obtain ⟨hlen, hstart, hle, hbelow⟩ := region_behind_image himage hlt hstop
      rw [hlen, hstart] at h
      split at h
      · cases h
        refine ⟨u32_lt _, fun _ => Nat.le_max_left _ _, fun _ => ?_⟩
        change max imageEnd e.addr + (e.addr + e.len - max imageEnd e.addr) < 2 ^ 32
        omega
      · cases h
        exact htotal
    · cases h
      exact htotal
  · cases h
    exact htotal

theorem scanMap_sound {entries : List MmapEntry} (himage : 0 < imageEnd)
    (hv : ∀ e ∈ entries, e.addr + e.len ≤ 2 ^ 64) (hs : s.Sound imageEnd)
    (h : scanMap imageEnd s entries = .ok t) : t.Sound imageEnd := by
  induction entries generalizing s with
  | nil =>
    cases h
    exact hs
  | cons e entries ih =>
    unfold scanMap at h
    cases he : scanEntry imageEnd s e with
    | error err =>
      rw [he] at h
      cases h
    | ok u =>
      rw [he] at h
      exact ih (fun x hx => hv x (List.mem_cons_of_mem _ hx))
        (scanEntry_sound himage (hv e List.mem_cons_self) hs he) h

theorem readMap_sound {b : BootInfo} (himage : 0 < b.imageEnd) (hv : ValidMap b)
    (h : readMap b = .ok s) : s.Sound b.imageEnd ∧ 16 * 1024 * 1024 < s.regionLen := by
  unfold readMap at h
  split at h
  · cases hm : scanMap b.imageEnd ⟨0, 0, 0⟩ b.entries with
    | error e =>
      rw [hm] at h
      cases h
    | ok u =>
      rw [hm] at h
      dsimp only at h
      split at h
      · rename_i hlen
        cases h
        have hstart : (⟨0, 0, 0⟩ : Scan).Sound b.imageEnd :=
          ⟨by decide, fun h0 => absurd h0 (Nat.lt_irrefl 0), fun h0 => absurd h0 (Nat.lt_irrefl 0)⟩
        exact ⟨scanMap_sound himage hv hstart hm, hlen⟩
      · cases h
  · cases h

/-! ## The largest region -/

/-- Every entry has bytes, all of them below 2^32. -/
def WellFormedMap (b : BootInfo) : Prop := ∀ e ∈ b.entries, 0 < e.len ∧ e.addr + e.len ≤ 2 ^ 32

/-- The bytes of an entry at or above the end of the image. -/
def MmapEntry.partLen (imageEnd : ℕ) (e : MmapEntry) : ℕ := e.addr + e.len - max imageEnd e.addr

/-- What the loop has found is the largest such part of the available entries. -/
structure PicksLargest (imageEnd : ℕ) (entries : List MmapEntry) (s : Scan) : Prop where
  picked : 0 < s.regionLen → ∃ e ∈ entries, e.type = 1 ∧ s.baseAddr = max imageEnd e.addr ∧
    s.baseAddr + s.regionLen = e.addr + e.len
  largest : ∀ e ∈ entries, e.type = 1 → e.partLen imageEnd ≤ s.regionLen
  none : (∀ e ∈ entries, e.type = 1 → e.partLen imageEnd = 0) → s.regionLen = 0

/-- An available entry that ends at 2^32 has no larger part than one that ends below. -/
def LargestBelow (imageEnd : ℕ) (entries : List MmapEntry) : Prop :=
  ∀ e ∈ entries, e.type = 1 → e.addr + e.len = 2 ^ 32 →
    ∃ f ∈ entries, f.type = 1 ∧ f.addr + f.len < 2 ^ 32 ∧ e.partLen imageEnd ≤ f.partLen imageEnd

/-- The loop looks at the entries that end below 2^32: the end of another one is 0. -/
structure PicksBelow (imageEnd : ℕ) (entries : List MmapEntry) (s : Scan) : Prop where
  picked : 0 < s.regionLen → ∃ e ∈ entries, e.type = 1 ∧ e.addr + e.len < 2 ^ 32 ∧
    s.baseAddr = max imageEnd e.addr ∧ s.baseAddr + s.regionLen = e.addr + e.len
  largest : ∀ e ∈ entries, e.type = 1 → e.addr + e.len < 2 ^ 32 → e.partLen imageEnd ≤ s.regionLen

section Largest
variable {seen entries : List MmapEntry} {e : MmapEntry}

theorem PicksBelow.skip (h : PicksBelow imageEnd seen s) (total : ℕ)
    (hskip : e.type = 1 → e.addr + e.len < 2 ^ 32 → e.partLen imageEnd ≤ s.regionLen) :
    PicksBelow imageEnd (seen ++ [e]) { s with memTotalBytes := total } where
  picked hpos := by
    obtain ⟨f, hf, hrest⟩ := h.picked hpos
    exact ⟨f, List.mem_append_left _ hf, hrest⟩
  largest f hf := by
    rcases List.mem_append.mp hf with hf | hf
    · exact h.largest f hf
    · rw [List.mem_singleton.mp hf]
      exact hskip

theorem PicksBelow.take (h : PicksBelow imageEnd seen s) (total : ℕ) (htype : e.type = 1)
    (hlt : e.addr + e.len < 2 ^ 32) (hle : max imageEnd e.addr ≤ e.addr + e.len)
    (hmore : s.regionLen < e.partLen imageEnd) :
    PicksBelow imageEnd (seen ++ [e]) ⟨max imageEnd e.addr, e.partLen imageEnd, total⟩ where
  picked _ := by
    refine ⟨e, List.mem_append_right _ (List.mem_singleton_self e), htype, hlt, rfl, ?_⟩
    unfold MmapEntry.partLen
    dsimp only
    omega
  largest f hf htype' hlt' := by
    rcases List.mem_append.mp hf with hf | hf
    · exact (h.largest f hf htype' hlt').trans hmore.le
    · rw [List.mem_singleton.mp hf]

theorem PicksBelow.scanEntry (himage : 0 < imageEnd) (hlen : 0 < e.len)
    (hend : e.addr + e.len ≤ 2 ^ 32) (h : PicksBelow imageEnd seen s)
    (hs : scanEntry imageEnd s e = .ok t) : PicksBelow imageEnd (seen ++ [e]) t := by
  have haddr : u32 e.addr = e.addr := u32_of_lt (by omega)
  unfold Evos.scanEntry at hs
  split at hs
  · cases hs
  dsimp only at hs
  split at hs
  · rename_i htype
    split at hs
    · rename_i hstop
      obtain ⟨hpart, hstart, hle, hbelow⟩ := region_behind_image himage (by omega) hstop
      rw [hpart, hstart] at hs
      split at hs
      · rename_i hmore
        cases hs
        exact h.take _ htype hbelow hle hmore
      · rename_i hmore
        cases hs
        exact h.skip _ fun _ _ => Nat.not_lt.mp hmore
    · rename_i hstop
      cases hs
      refine h.skip _ fun _ hlt => ?_
      rw [haddr, u32_of_lt hlt] at hstop
      unfold MmapEntry.partLen
      omega
  · rename_i htype
    cases hs
    exact h.skip _ fun htype' => absurd htype' htype

theorem PicksBelow.scanMap (himage : 0 < imageEnd)
    (hwf : ∀ e ∈ entries, 0 < e.len ∧ e.addr + e.len ≤ 2 ^ 32) (h : PicksBelow imageEnd seen s)
    (hs : scanMap imageEnd s entries = .ok t) : PicksBelow imageEnd (seen ++ entries) t := by
  induction entries generalizing s seen with
  | nil =>
    cases hs
    rw [List.append_nil]
    exact h
  | cons e entries ih =>
    unfold Evos.scanMap at hs
    cases he : Evos.scanEntry imageEnd s e with
    | error err =>
      rw [he] at hs
      cases hs
    | ok u =>
      rw [he] at hs
      obtain ⟨hlen, hend⟩ := hwf e List.mem_cons_self
      have hrest := ih (fun x hx => hwf x (List.mem_cons_of_mem _ hx))
        (h.scanEntry himage hlen hend he) hs
      rw [List.append_assoc] at hrest
      exact hrest

theorem PicksBelow.partLen_eq (h : PicksBelow imageEnd entries s) (hpos : 0 < s.regionLen) :
    ∃ f ∈ entries, f.type = 1 ∧ f.addr + f.len < 2 ^ 32 ∧ f.partLen imageEnd = s.regionLen := by
  obtain ⟨f, hf, htype, hlt, hbase, hstop⟩ := h.picked hpos
  refine ⟨f, hf, htype, hlt, ?_⟩
  unfold MmapEntry.partLen
  omega

/-- The loop of `init_mem` finds the largest available region at or above the end of the image exactly
if no region that ends at 2^32 is larger than all those that end below. -/
theorem picksLargest_iff {b : BootInfo} (hwf : WellFormedMap b) (himage : 0 < b.imageEnd)
    (himage' : b.imageEnd < 2 ^ 32) (hs : scanMap b.imageEnd ⟨0, 0, 0⟩ b.entries = .ok s) :
    PicksLargest b.imageEnd b.entries s ↔ LargestBelow b.imageEnd b.entries := by
  have hstart : PicksBelow b.imageEnd [] ⟨0, 0, 0⟩ :=
    ⟨fun hpos => absurd hpos (Nat.lt_irrefl 0), fun e he => absurd he List.not_mem_nil⟩
  have h := hstart.scanMap himage hwf hs
  rw [List.nil_append] at h
  constructor
  · intro hp e he htype hend
    have hle := hp.largest e he htype
    have hpos : 0 < e.partLen b.imageEnd := by
      have hlen := (hwf e he).1
      unfold MmapEntry.partLen
      omega
    obtain ⟨f, hf, htype', hlt, hpart⟩ := h.partLen_eq (hpos.trans_le hle)
    exact ⟨f, hf, htype', hlt, hle.trans hpart.ge⟩
  · intro hbelow
    refine ⟨fun hpos => ?_, fun e he htype => ?_, fun hnone => ?_⟩
    · obtain ⟨f, hf, htype, _, hrest⟩ := h.picked hpos
      exact ⟨f, hf, htype, hrest⟩
    · by_cases hend : e.addr + e.len = 2 ^ 32
      · obtain ⟨f, hf, htype', hlt, hle⟩ := hbelow e he htype hend
        exact hle.trans (h.largest f hf htype' hlt)
      · have hle := (hwf e he).2
        exact h.largest e he htype (by omega)
    · by_contra hne
      obtain ⟨f, hf, htype, _, hpart⟩ := h.partLen_eq (Nat.pos_of_ne_zero hne)
      have hzero := hnone f hf htype
      omega

end Largest

/-- On a machine of 32 MiB the region behind the image is found. -/
theorem picksLargest_at_32MiB :
    PicksLargest 0x10c000 [⟨0, 0xa0000, 1⟩, ⟨0x100000, 0x1f00000, 1⟩] ⟨0x10c000, 0x1ef4000, 0x1fa0000⟩ :=
  (picksLargest_iff (b := ⟨0x40, [⟨0, 0xa0000, 1⟩, ⟨0x100000, 0x1f00000, 1⟩], 0x10c000⟩)
    (by unfold WellFormedMap; decide) (by decide) (by decide) (by rfl)).mpr
    (by unfold LargestBelow; decide)

/-- With memory up to 4 GiB no region is found at all. -/
theorem not_picksLargest_at_4GiB :
    ¬∀ (b : BootInfo) (s : Scan), WellFormedMap b → 0 < b.imageEnd → b.imageEnd < 2 ^ 32 →
      scanMap b.imageEnd ⟨0, 0, 0⟩ b.entries = .ok s → PicksLargest b.imageEnd b.entries s := by
  intro hall
  have h := hall ⟨0x40, [⟨0, 0x9fc00, 1⟩, ⟨0x100000, 0xfff00000, 1⟩], 0x10c000⟩
    ⟨0, 0, 0xfff9fc00⟩ (by unfold WellFormedMap; decide) (by decide) (by decide) (by rfl)
  exact absurd (h.largest ⟨0x100000, 0xfff00000, 1⟩ (List.mem_cons_of_mem _ List.mem_cons_self) rfl)
    (by decide)

end Evos
