import Evos.Kmain.BootBlocks
import Evos.Mm.FrameHistory
import Evos.Mm.RawIdentity
import Mathlib.Data.Nat.Find

/-! # The frames handed out behind the identity mapping

`init_frames` counts the bytes of all regions, whatever their type and wherever they lie, and
`frame_alloc` numbers the frames from address 0 on. Which frames come after those of the identity
mapping depends on the words of the bitmap alone, and these are what `init_frames` leaves in memory,
under the page directory and the tables of `init_paging`. -/

namespace Evos
open ByteMemory Outcome Runs Bump
set_option autoImplicit false

/-! ## Frames of available memory -/

instance (base v : ℕ) : Decidable (BehindIdentity base v) := inferInstanceAs (Decidable (_ ≤ _))

theorem exists_behindIdentity (base : ℕ) : ∃ v, BehindIdentity base v := by
  refine ⟨base + 0x8000, ?_⟩
  have htables : tablesBelow (base + 0x8000) ≤ (base + 0x8000 + 1023) / 1024 := by
    unfold tablesBelow
    split <;> omega
  unfold BehindIdentity
  omega

/-- The number of pages that the loop maps, for a page directory at `base`. -/
def identityPages (base : ℕ) : ℕ := Nat.find (exists_behindIdentity base)

section Identity
variable {o t : RawKernel}

theorem le_identityPages_iff {base v : ℕ} : identityPages base ≤ v ↔ BehindIdentity base v := by
  constructor
  · intro hle
    exact (Nat.find_spec (exists_behindIdentity base)).mono hle
  · exact Nat.find_min' (exists_behindIdentity base)

theorem rawInitIdentity_ok (ho : o.Ready) (h : rawInitIdentity o = .ok () t) :
    RawBooting o (identityPages o.bootBase) (identityPages o.bootBase) t := by
  obtain ⟨n, hboot, hbehind⟩ := (rawInitIdentity_ends ho).ok h
  have hn : identityPages o.bootBase = n :=
    Nat.le_antisymm (le_identityPages_iff.mpr ((hbehind n).mpr (Nat.le_refl n)))
      ((hbehind _).mp (le_identityPages_iff.mp (Nat.le_refl _)))
  rw [hn]
  exact hboot

end Identity

/-! ## From the memory map -/

/-- Regions below 2^32 that do not overlap. -/
structure SeparateMap (b : BootInfo) : Prop where
  fits : ∀ e ∈ b.entries, e.addr + e.len ≤ 2 ^ 32
  apart : b.entries.Pairwise fun e f => Apart (e.addr, e.len) (f.addr, f.len)

theorem SeparateMap.valid {b : BootInfo} (h : SeparateMap b) : ValidMap b := by
  intro e he
  have hle := h.fits e he
  omega

/-- Regions that do not overlap have no more bytes than there are addresses. -/
theorem SeparateMap.sum_le {b : BootInfo} (h : SeparateMap b) :
    (b.entries.map MmapEntry.len).sum ≤ 2 ^ 32 := by
  let addresses := b.entries.flatMap fun e => List.range' e.addr e.len
  have hnodup : addresses.Nodup := by
    refine List.nodup_flatMap.mpr ⟨fun e _ => List.nodup_range', h.apart.imp ?_⟩
    intro e f hapart x hx hx'
    rw [List.mem_range'_1] at hx hx'
    unfold Apart at hapart
    dsimp only at hapart
    omega
  have hsub : addresses.toFinset ⊆ Finset.range (2 ^ 32) := by
    intro x hx
    obtain ⟨e, he, hmem⟩ := List.mem_flatMap.mp (List.mem_toFinset.mp hx)
    have hfits := h.fits e he
    rw [List.mem_range'_1] at hmem
    exact Finset.mem_range.mpr (by omega)
  have hcard := Finset.card_le_card hsub
  rw [List.toFinset_card_of_nodup hnodup, Finset.card_range] at hcard
  have hlength : addresses.length = (b.entries.map MmapEntry.len).sum := by
    change (b.entries.flatMap fun e => List.range' e.addr e.len).length = _
    rw [List.length_flatMap]
    simp only [List.length_range']
  omega

theorem scanEntry_counts {imageEnd : ℕ} {s t : Scan} {e : MmapEntry} (himage : 0 < imageEnd)
    (hv : e.addr + e.len ≤ 2 ^ 64) (h : scanEntry imageEnd s e = .ok t) :
    t.memTotalBytes = u32 (s.memTotalBytes + e.len) ∧
      (t.regionLen ≤ s.regionLen ∨ t.regionLen ≤ e.len) := by
  unfold scanEntry at h
  split at h
  · cases h
  rename_i hcheck
  have hlt := entry_lt hv hcheck
  dsimp only at h
  split at h
  · split at h
    · rename_i hstop
      obtain ⟨hlen, _, _, _⟩ := region_behind_image himage hlt hstop
      rw [hlen] at h
      split at h
      · cases h
        refine ⟨rfl, Or.inr ?_⟩
        change e.addr + e.len - max imageEnd e.addr ≤ e.len
        omega
      · cases h
        exact ⟨rfl, Or.inl (Nat.le_refl _)⟩
    · cases h
      exact ⟨rfl, Or.inl (Nat.le_refl _)⟩
  · cases h
    exact ⟨rfl, Or.inl (Nat.le_refl _)⟩

theorem scanMap_counts {imageEnd : ℕ} {entries : List MmapEntry} {s t : Scan} (himage : 0 < imageEnd)
    (hv : ∀ e ∈ entries, e.addr + e.len ≤ 2 ^ 64) (h : scanMap imageEnd s entries = .ok t)
    (hs : s.memTotalBytes < 2 ^ 32) :
    t.memTotalBytes = u32 (s.memTotalBytes + (entries.map MmapEntry.len).sum) ∧
      (t.regionLen ≤ s.regionLen ∨ t.regionLen ≤ (entries.map MmapEntry.len).sum) := by
  induction entries generalizing s with
  | nil =>
    cases h
    exact ⟨(u32_of_lt hs).symm, Or.inl (Nat.le_refl _)⟩
  | cons e entries ih =>
    unfold scanMap at h
    cases he : scanEntry imageEnd s e with
    | error err =>
      rw [he] at h
      cases h
    | ok u =>
      rw [he] at h
      obtain ⟨htotal, hregion⟩ := scanEntry_counts himage (hv e List.mem_cons_self) he
      have hu : u.memTotalBytes < 2 ^ 32 := by
        rw [htotal]
        exact u32_lt _
      obtain ⟨htotal', hregion'⟩ := ih (fun x hx => hv x (List.mem_cons_of_mem _ hx)) h hu
      rw [List.map_cons, List.sum_cons]
      refine ⟨?_, by omega⟩
      rw [htotal', htotal]
      unfold u32
      omega

/-- The bytes counted are at least those of the region found, or wrap to none. -/
theorem readMap_counts {b : BootInfo} {scan : Scan} (hmap : SeparateMap b) (himage : 0 < b.imageEnd)
    (h : readMap b = .ok scan) : scan.memTotalBytes = 0 ∨ scan.regionLen ≤ scan.memTotalBytes := by
  have hsum := hmap.sum_le
  unfold readMap at h
  split at h
  · cases hm : scanMap b.imageEnd ⟨0, 0, 0⟩ b.entries with
    | error e =>
      rw [hm] at h
      cases h
    | ok u =>
      rw [hm] at h
      dsimp only at h
      split at h
      · cases h
        obtain ⟨htotal, hregion⟩ := scanMap_counts himage hmap.valid hm (by decide)
        dsimp only at htotal hregion
        rw [Nat.zero_add] at htotal
        unfold u32 at htotal
        omega
      · cases h
  · cases h

section Map
variable {b : BootInfo} {scan : Scan} {m : Mem}

theorem rawAfterInitFrames_ready (hs : scan.Sound b.imageEnd) (hlen : 16 * 1024 * 1024 < scan.regionLen)
    (htotal : scan.memTotalBytes = 0 ∨ scan.regionLen ≤ scan.memTotalBytes) (m : Mem) :
    (rawAfterInitFrames m scan).Ready ∧
      (rawAfterInitFrames m scan).frames = ⟨scan.baseAddr, bitmapWords scan⟩ := by
  have hstop := hs.stop (by omega)
  have hwords := bitmapWords_le hs
  have hsize : (frameBitmap scan.memTotalBytes ⟨m, scan.baseAddr⟩).size = bitmapWords scan :=
    frameBitmap_size hs.total
  have hframes : (rawAfterInitFrames m scan).frames = ⟨scan.baseAddr, bitmapWords scan⟩ := by
    rw [← hsize]
    rfl
  have hfirst : (rawAfterInitFrames m scan).memFirstUnused = scan.baseAddr + bitmapWords scan :=
    (afterInitFrames_first hs hlen m).1
  refine ⟨⟨?_, ?_, ?_, ?_⟩, hframes⟩
  · rw [hfirst, hframes]
  · rw [hfirst]
    omega
  · rw [hframes]
    exact hwords
  · rw [hframes]
    change bitmapWords scan = 0 ∨ 128 ≤ bitmapWords scan
    unfold bitmapWords
    omega

end Map

end Evos
