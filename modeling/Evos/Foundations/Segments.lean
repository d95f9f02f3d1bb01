import Mathlib.Data.Nat.Notation
import Mathlib.Data.List.Basic
import Mathlib.Tactic.Common

/-! # Segments tiling an interval

A `Seg κ` is an address, a length and a kind. `Tiles lo ss hi` says that the segments of `ss`,
in this order and without gap or overlap, cover `[lo, hi)`. The lemmas cut a tiling at a segment,
replace a middle part by another tiling of the same interval, and read off that two different
segments are disjoint.
-/

namespace Segments
set_option autoImplicit false

/-- A segment `[addr, addr + len)` of some kind. -/
structure Seg (κ : Type) where
  addr : ℕ
  len : ℕ
  kind : κ

variable {κ : Type}

/-- The first address after the segment. -/
def Seg.stop (s : Seg κ) : ℕ := s.addr + s.len

/-- The segments cover `[lo, hi)` one after the other. -/
def Tiles : ℕ → List (Seg κ) → ℕ → Prop
  | lo, [], hi => lo = hi
  | lo, s :: ss, hi => s.addr = lo ∧ Tiles s.stop ss hi

@[simp] theorem tiles_nil {lo hi : ℕ} : Tiles lo ([] : List (Seg κ)) hi ↔ lo = hi := Iff.rfl

@[simp] theorem tiles_cons {lo hi : ℕ} {s : Seg κ} {ss : List (Seg κ)} :
    Tiles lo (s :: ss) hi ↔ s.addr = lo ∧ Tiles s.stop ss hi := Iff.rfl

theorem tiles_append {lo hi : ℕ} {xs ys : List (Seg κ)} :
    Tiles lo (xs ++ ys) hi ↔ ∃ mid, Tiles lo xs mid ∧ Tiles mid ys hi := by
  induction xs generalizing lo with
  | nil => simp
  | cons x xs ih => simp [ih, and_assoc]

theorem Tiles.le {lo hi : ℕ} {ss : List (Seg κ)} (h : Tiles lo ss hi) : lo ≤ hi := by
  induction ss generalizing lo with
  | nil => exact Nat.le_of_eq h
  | cons s ss ih =>
    have := ih h.2
    have := h.1
    unfold Seg.stop at *
    omega

theorem Tiles.stop_unique {lo hi hi' : ℕ} {ss : List (Seg κ)} (h : Tiles lo ss hi)
    (h' : Tiles lo ss hi') : hi = hi' := by
  induction ss generalizing lo with
  | nil => exact h.symm.trans h'
  | cons s ss ih => exact ih h.2 h'.2

theorem tiles_middle {lo hi : ℕ} {pre post : List (Seg κ)} {s : Seg κ} :
    Tiles lo (pre ++ s :: post) hi ↔ Tiles lo pre s.addr ∧ Tiles s.stop post hi := by
  rw [tiles_append]
  constructor
  · rintro ⟨mid, h1, rfl, h2⟩
    exact ⟨h1, h2⟩
  · rintro ⟨h1, h2⟩
    exact ⟨_, h1, rfl, h2⟩

theorem Tiles.bounds {lo hi : ℕ} {ss : List (Seg κ)} (h : Tiles lo ss hi) {s : Seg κ}
    (hs : s ∈ ss) : lo ≤ s.addr ∧ s.stop ≤ hi := by
  obtain ⟨pre, post, rfl⟩ := List.append_of_mem hs
  obtain ⟨h1, h2⟩ := tiles_middle.mp h
  exact ⟨h1.le, h2.le⟩

theorem Tiles.last_stop {lo hi : ℕ} {pre : List (Seg κ)} {l : Seg κ}
    (h : Tiles lo (pre ++ [l]) hi) : l.stop = hi := by
  obtain ⟨_, h2⟩ := tiles_middle.mp h
  exact h2

theorem Tiles.pairwise {lo hi : ℕ} {ss : List (Seg κ)} (h : Tiles lo ss hi) :
    ss.Pairwise fun s t => s.stop ≤ t.addr := by
  induction ss generalizing lo with
  | nil => exact List.Pairwise.nil
  | cons s ss ih => exact List.pairwise_cons.mpr ⟨fun t ht => (h.2.bounds ht).1, ih h.2⟩

theorem Tiles.eq_of_addr {lo hi : ℕ} {ss : List (Seg κ)} (h : Tiles lo ss hi)
    (hpos : ∀ s ∈ ss, 0 < s.len) {s t : Seg κ} (hs : s ∈ ss) (ht : t ∈ ss)
    (e : s.addr = t.addr) : s = t := by
  induction ss generalizing lo with
  | nil => exact absurd hs List.not_mem_nil
  | cons r ss ih =>
    have hr := hpos r List.mem_cons_self
    have low : ∀ u ∈ ss, r.addr < u.addr := fun u hu => by
      have := (h.2.bounds hu).1
      unfold Seg.stop at this
      omega
    rcases List.mem_cons.mp hs with rfl | hs'
    · rcases List.mem_cons.mp ht with rfl | ht'
      · rfl
      · have := low t ht'
        omega
    · rcases List.mem_cons.mp ht with rfl | ht'
      · have := low s hs'
        omega
      · exact ih h.2 (fun u hu => hpos u (List.mem_cons_of_mem r hu)) hs' ht'

theorem Tiles.eq_or_disjoint {lo hi : ℕ} {ss : List (Seg κ)} (h : Tiles lo ss hi) {s t : Seg κ}
    (hs : s ∈ ss) (ht : t ∈ ss) : s = t ∨ s.stop ≤ t.addr ∨ t.stop ≤ s.addr := by
  induction ss generalizing lo with
  | nil => exact absurd hs List.not_mem_nil
  | cons r ss ih =>
    rcases List.mem_cons.mp hs with rfl | hs'
    · rcases List.mem_cons.mp ht with rfl | ht'
      · exact Or.inl rfl
      · exact Or.inr (Or.inl (h.2.bounds ht').1)
    · rcases List.mem_cons.mp ht with rfl | ht'
      · exact Or.inr (Or.inr (h.2.bounds hs').1)
      · exact ih h.2 hs' ht'

theorem Seg.stop_eq (s : Seg κ) : s.stop = s.addr + s.len := rfl

end Segments
