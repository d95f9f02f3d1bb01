import Mathlib.Algebra.Group.Nat.Defs
import Mathlib.Data.List.Basic
import Mathlib.Data.List.Chain
import Mathlib.Data.List.Perm.Basic
import Mathlib.Order.Defs.Unbundled
import Mathlib.Tactic.Common

/-! # One right-to-left bubble pass over a list

`bubbleLoop` is the index loop: for `i` from the last position down to `1`, swap the neighbours
`i - 1`, `i` when the right one is less. `bubblePass` is the same pass by recursion on the list.
What one pass restores:

* an element appended to a sorted list travels to its place (`bubblePass_append_sorted`);
* an element whose key became smaller does as well (`bubblePass_insert_sorted`);
* an element that grew in place moves at most one position right (`bubblePass_grown`), so the pass
  sorts only when nothing further right is smaller (`sorted_bubblePass_changed_iff`).
-/

namespace BubblePass
set_option autoImplicit false

variable {α : Type} (lt : α → α → Bool)

/-- Compare the neighbours `i`, `i + 1` and swap them when the right one is less. -/
def bubbleStep (xs : List α) (i : ℕ) : List α :=
  match xs[i]?, xs[i + 1]? with
  | some a, some b => if lt b a then (xs.set i b).set (i + 1) a else xs
  | _, _ => xs

/-- The steps at positions `i - 1`, …, `0`, in this order. -/
def bubbleLoop : ℕ → List α → List α
  | 0, xs => xs
  | i + 1, xs => bubbleLoop i (bubbleStep lt xs i)

/-- Put `x` in front of a list and compare it once with its new neighbour. -/
def settle (x : α) : List α → List α
  | [] => [x]
  | y :: ys => if lt y x then y :: x :: ys else x :: y :: ys

/-- The whole pass: the tail first, then the head against its new neighbour. -/
def bubblePass : List α → List α
  | [] => []
  | x :: xs => settle lt x (bubblePass xs)

/-- No later element is less than an earlier one. -/
def Sorted (xs : List α) : Prop := xs.Pairwise fun a b => lt b a = false

/-! ## The index loop is the pass -/

theorem bubbleStep_cons (x : α) (xs : List α) (i : ℕ) :
    bubbleStep lt (x :: xs) (i + 1) = x :: bubbleStep lt xs i := by
  unfold bubbleStep
  simp only [List.getElem?_cons_succ]
  cases xs[i]? with
  | none => rfl
  | some a =>
    cases xs[i + 1]? with
    | none => rfl
    | some b => cases h : lt b a <;> simp [h]

theorem bubbleLoop_cons (x : α) (xs : List α) (i : ℕ) :
    bubbleLoop lt (i + 1) (x :: xs) = bubbleStep lt (x :: bubbleLoop lt i xs) 0 := by
  induction i generalizing xs with
  | zero => rfl
  | succ i ih =>
    have h := ih (bubbleStep lt xs i)
    rw [← bubbleStep_cons] at h
    exact h

theorem bubbleStep_zero (x : α) (xs : List α) : bubbleStep lt (x :: xs) 0 = settle lt x xs := by
  cases xs with
  | nil => rfl
  | cons y ys => cases h : lt y x <;> simp [bubbleStep, settle, h]

theorem bubbleLoop_eq_pass (xs : List α) : bubbleLoop lt (xs.length - 1) xs = bubblePass lt xs := by
  induction xs with
  | nil => rfl
  | cons x xs ih =>
    cases xs with
    | nil => rfl
    | cons y ys =>
      have e : (x :: y :: ys).length - 1 = ((y :: ys).length - 1) + 1 := by simp
      rw [e, bubbleLoop_cons, ih, bubbleStep_zero]
      rfl

/-! ## The pass permutes -/

theorem settle_perm (x : α) (xs : List α) : (settle lt x xs).Perm (x :: xs) := by
  cases xs with
  | nil => exact List.Perm.refl _
  | cons y ys =>
    rw [settle]
    split
    · exact List.Perm.swap x y ys
    · exact List.Perm.refl _

theorem bubblePass_perm (xs : List α) : (bubblePass lt xs).Perm xs := by
  induction xs with
  | nil => exact List.Perm.refl _
  | cons x xs ih => exact (settle_perm lt x _).trans (ih.cons x)

theorem bubblePass_length (xs : List α) : (bubblePass lt xs).length = xs.length :=
  (bubblePass_perm lt xs).length_eq

/-! ## What one pass sorts -/

theorem bubblePass_cons_of_le {x : α} {xs : List α} (h : ∀ y ∈ xs, lt y x = false) :
    bubblePass lt (x :: xs) = x :: bubblePass lt xs := by
  rw [bubblePass]
  cases hp : bubblePass lt xs with
  | nil => rfl
  | cons y ys =>
    have hy : y ∈ xs := (bubblePass_perm lt xs).subset (by rw [hp]; exact List.mem_cons_self)
    simp [settle, h y hy]

theorem bubblePass_append_of_le {pre xs : List α} (hpre : Sorted lt pre)
    (h : ∀ x ∈ pre, ∀ y ∈ xs, lt y x = false) :
    bubblePass lt (pre ++ xs) = pre ++ bubblePass lt xs := by
  induction pre with
  | nil => rfl
  | cons p pre ih =>
    obtain ⟨hp, hs⟩ := List.pairwise_cons.mp hpre
    rw [List.cons_append, bubblePass_cons_of_le, ih hs fun x hx => h x (List.mem_cons_of_mem p hx)]
    · rfl
    · intro y hy
      rcases List.mem_append.mp hy with h1 | h1
      · exact hp y h1
      · exact h p List.mem_cons_self y h1

theorem bubblePass_sorted {xs : List α} (h : Sorted lt xs) : bubblePass lt xs = xs := by
  have h' : bubblePass lt (xs ++ []) = xs ++ bubblePass lt [] :=
    bubblePass_append_of_le lt h (by simp)
  simpa [bubblePass] using h'

/-- One pass carries an element of a sorted list that is not too large for its position to its
place. -/
theorem bubblePass_insert_sorted
    (trans : ∀ a b c, lt b a = false → lt c b = false → lt c a = false)
    (asymm : ∀ a b, lt a b = true → lt b a = false) {pre post : List α} (h : Sorted lt (pre ++ post))
    {v : α} (hv : Sorted lt (v :: post)) : Sorted lt (bubblePass lt (pre ++ v :: post)) := by
  induction pre with
  | nil =>
    rw [List.nil_append, bubblePass_sorted lt hv]
    exact hv
  | cons x xs ih =>
    obtain ⟨hx, hs⟩ := List.pairwise_cons.mp h
    have hsort := ih hs
    have hperm := (bubblePass_perm lt (xs ++ v :: post)).trans List.perm_middle
    rw [List.cons_append, bubblePass]
    cases hp : bubblePass lt (xs ++ v :: post) with
    | nil => exact List.pairwise_singleton _ _
    | cons y ys =>
      rw [hp] at hsort hperm
      obtain ⟨hy, hys⟩ := List.pairwise_cons.mp hsort
      by_cases hlt : lt y x = true
      · have hyv : y ∉ xs ++ post := by
          intro hm
          have := hx y hm
          rw [this] at hlt
          exact Bool.false_ne_true hlt
        have hy' : y = v := by
          rcases List.mem_cons.mp (hperm.subset List.mem_cons_self) with h1 | h1
          · exact h1
          · exact absurd h1 hyv
        subst hy'
        have hrest : ys.Perm (xs ++ post) := hperm.cons_inv
        rw [settle, if_pos hlt]
        refine List.pairwise_cons.mpr ⟨?_, List.pairwise_cons.mpr ⟨?_, hys⟩⟩
        · intro z hz
          rcases List.mem_cons.mp hz with rfl | hz
          · exact asymm _ _ hlt
          · exact hy z hz
        · exact fun z hz => hx z (hrest.subset hz)
      · have hlt' : lt y x = false := by simpa using hlt
        rw [settle, if_neg hlt]
        refine List.pairwise_cons.mpr ⟨?_, hsort⟩
        intro z hz
        rcases List.mem_cons.mp hz with rfl | hz
        · exact hlt'
        · exact trans _ _ _ hlt' (hy z hz)

/-- One pass carries an element appended to a sorted list to its place. -/
theorem bubblePass_append_sorted
    (trans : ∀ a b c, lt b a = false → lt c b = false → lt c a = false)
    (asymm : ∀ a b, lt a b = true → lt b a = false) {xs : List α} (h : Sorted lt xs) (v : α) :
    Sorted lt (bubblePass lt (xs ++ [v])) :=
  bubblePass_insert_sorted lt trans asymm ((List.append_nil xs).symm ▸ h)
    (List.pairwise_singleton _ _)

section StrictWeakOrder
variable [IsStrictWeakOrder α fun a b => lt a b = true]

theorem lt_asymm (a b : α) (h : lt a b = true) : lt b a = false := by
  by_contra hb
  have hb' : lt b a = true := by simpa using hb
  exact irrefl_of (fun a b => lt a b = true) a (trans_of (fun a b => lt a b = true) h hb')

theorem not_lt_trans (a b c : α) (hba : lt b a = false) (hcb : lt c b = false) :
    lt c a = false := by
  by_contra hca
  have hca' : lt c a = true := by simpa using hca
  have hbc : ¬ lt b c = true := by
    intro h
    have := trans_of (fun a b => lt a b = true) h hca'
    exact Bool.false_ne_true (hba.symm.trans this)
  have hab : ¬ lt a b = true := by
    intro h
    have := trans_of (fun a b => lt a b = true) hca' h
    exact Bool.false_ne_true (hcb.symm.trans this)
  have key := @IsStrictWeakOrder.incomp_trans α (fun a b => lt a b = true) _ a b c
  exact (key ⟨hab, by simp [hba]⟩ ⟨hbc, by simp [hcb]⟩).2 hca'

theorem sorted_bubblePass_append {xs : List α} (h : Sorted lt xs) (v : α) :
    Sorted lt (bubblePass lt (xs ++ [v])) :=
  bubblePass_append_sorted lt (not_lt_trans lt) (lt_asymm lt) h v

end StrictWeakOrder

/-- What an element that grew in place overtakes in one pass, and what it leaves behind it: it is
compared with one neighbour only. -/
def overtaken (g : α) : List α → List α × List α
  | [] => ([], [])
  | y :: ys => if lt y g then ([y], ys) else ([], y :: ys)

theorem overtaken_append (g : α) (ys : List α) :
    (overtaken lt g ys).1 ++ (overtaken lt g ys).2 = ys := by
  cases ys with
  | nil => rfl
  | cons y ys =>
    rw [overtaken]
    split <;> rfl

theorem lt_of_mem_overtaken {g x : α} {ys : List α} (h : x ∈ (overtaken lt g ys).1) :
    lt x g = true := by
  cases ys with
  | nil => exact absurd h List.not_mem_nil
  | cons y ys =>
    rw [overtaken] at h
    split at h
    · rw [List.mem_singleton.mp h]
      assumption
    · exact absurd h List.not_mem_nil

/-- An element that grew in place in a sorted list overtakes its right neighbour at most. -/
theorem bubblePass_grown {pre : List α} {g : α} {post : List α} (hpre : Sorted lt pre)
    (hpost : Sorted lt post) (hle : ∀ p ∈ pre, ∀ y ∈ g :: post, lt y p = false) :
    bubblePass lt (pre ++ g :: post) =
      pre ++ (overtaken lt g post).1 ++ g :: (overtaken lt g post).2 := by
  rw [bubblePass_append_of_le lt hpre hle, bubblePass, bubblePass_sorted lt hpost]
  cases post with
  | nil => simp [settle, overtaken]
  | cons y post =>
    rw [settle, overtaken]
    split <;> simp

/-- A pass sorts a list that was sorted but for one element exactly if the second one behind it is not
less. -/
theorem sorted_bubblePass_changed_iff [IsStrictWeakOrder α fun a b => lt a b = true]
    {pre post : List α} (h : Sorted lt (pre ++ post)) (x : α) :
    Sorted lt (bubblePass lt (pre ++ x :: post)) ↔ ∀ z, post[1]? = some z → lt z x = false := by
  obtain ⟨hpre, hpost, hle⟩ := List.pairwise_append.mp h
  by_cases hgrown : ∃ y, post.head? = some y ∧ lt y x = true
  · obtain ⟨y, hhead, hlt⟩ := hgrown
    obtain ⟨ys, rfl⟩ : ∃ ys, post = y :: ys := List.head?_eq_some_iff.mp hhead
    have hall : ∀ p ∈ pre, ∀ z ∈ x :: y :: ys, lt z p = false := by
      intro p hp z hz
      rcases List.mem_cons.mp hz with rfl | hz
      · exact not_lt_trans lt p y z (hle p hp y List.mem_cons_self) (lt_asymm lt y z hlt)
      · exact hle p hp z hz
    have hpass := bubblePass_grown lt hpre hpost hall
    rw [overtaken, if_pos hlt, List.append_assoc, List.singleton_append] at hpass
    obtain ⟨hy, hys⟩ := List.pairwise_cons.mp hpost
    rw [hpass]
    constructor
    · intro hs z hz
      have hmem : z ∈ ys := List.mem_of_getElem? (i := 0) hz
      have hrest := (List.pairwise_append.mp hs).2.1
      exact (List.pairwise_cons.mp (List.pairwise_cons.mp hrest).2).1 z hmem
    · intro hz
      have hx : ∀ z ∈ ys, lt z x = false := by
        cases ys with
        | nil => exact fun z hz => absurd hz List.not_mem_nil
        | cons w ws =>
          have hw := hz w rfl
          intro z hz
          rcases List.mem_cons.mp hz with rfl | hz
          · exact hw
          · exact not_lt_trans lt x w z hw ((List.pairwise_cons.mp hys).1 z hz)
      refine List.pairwise_append.mpr ⟨hpre, ?_, ?_⟩
      · refine List.pairwise_cons.mpr ⟨?_, List.pairwise_cons.mpr ⟨hx, hys⟩⟩
        intro z hz
        rcases List.mem_cons.mp hz with rfl | hz
        · exact lt_asymm lt y z hlt
        · exact hy z hz
      · intro p hp z hz
        rcases List.mem_cons.mp hz with rfl | hz
        · exact hall p hp z (List.mem_cons_of_mem _ List.mem_cons_self)
        · rcases List.mem_cons.mp hz with rfl | hz
          · exact hall p hp z List.mem_cons_self
          · exact hall p hp z (List.mem_cons_of_mem _ (List.mem_cons_of_mem _ hz))
  · have hx : ∀ z ∈ post, lt z x = false := by
      cases post with
      | nil => exact fun z hz => absurd hz List.not_mem_nil
      | cons y ys =>
        have hy : lt y x = false := by
          by_contra hlt
          exact hgrown ⟨y, rfl, by simpa using hlt⟩
        intro z hz
        rcases List.mem_cons.mp hz with rfl | hz
        · exact hy
        · exact not_lt_trans lt x y z hy ((List.pairwise_cons.mp hpost).1 z hz)
    refine ⟨fun _ z hz => hx z (List.mem_of_getElem? hz), fun _ => ?_⟩
    exact bubblePass_insert_sorted lt (not_lt_trans lt) (lt_asymm lt) h
      (List.pairwise_cons.mpr ⟨hx, hpost⟩)

end BubblePass
