import Evos.Kheap.Grow

/-! # What `heap_alloc` leaves alone on any host

Whatever state the heap is in, `heap_alloc` never moves the start of the heap or `max_addr`. A host
whose pages keep a relation between states keeps it over the whole call. -/

namespace Evos
open ByteMemory Outcome
set_option autoImplicit false

/-- The same start and the same `max_addr`. -/
structure SameBounds (a a' : Arena) : Prop where
  start : a'.heap.allocatedStart = a.heap.allocatedStart
  max : a'.heap.maxAddr = a.heap.maxAddr

theorem SameBounds.refl (a : Arena) : SameBounds a a := ⟨rfl, rfl⟩

theorem SameBounds.trans {a b c : Arena} (h : SameBounds a b) (h' : SameBounds b c) :
    SameBounds a c :=
  ⟨h'.start.trans h.start, h'.max.trans h.max⟩

/-- A step on the arena that keeps its bounds. -/
def KeepsBounds {α : Type} (f : Arena → Except Panic (α × Arena)) : Prop :=
  ∀ a x a', f a = .ok (x, a') → SameBounds a a'

/-! ## The steps of `heap_alloc` -/

theorem keepsBounds_setAllocatedEnd (newSize : ℕ) : KeepsBounds (setAllocatedEnd newSize) := by
  intro a x a' h
  cases h
  exact ⟨rfl, rfl⟩

theorem keepsBounds_addHole (oldEnd oldLength : ℕ) : KeepsBounds (addHole oldEnd oldLength) := by
  intro a x a' h
  unfold addHole at h
  obtain ⟨index, _, h⟩ := except_bind_ok h
  cases h
  exact ⟨rfl, rfl⟩

theorem keepsBounds_claimHole (i addr size : ℕ) (pageAlign : Bool) :
    KeepsBounds (claimHole i addr size pageAlign) := by
  intro a x a' h
  unfold claimHole at h
  split at h
  · unfold splitLeft at h
    obtain ⟨_, _, h⟩ := except_bind_ok h
    obtain ⟨_, _, h⟩ := except_bind_ok h
    obtain ⟨_, _, h⟩ := except_bind_ok h
    cases h
    exact ⟨rfl, rfl⟩
  · unfold takeHole at h
    obtain ⟨_, _, h⟩ := except_bind_ok h
    cases h
    exact ⟨rfl, rfl⟩

theorem keepsBounds_placeBlock (addr size newSize : ℕ) :
    KeepsBounds (placeBlock addr size newSize) := by
  intro a x a' h
  unfold placeBlock at h
  obtain ⟨_, _, h⟩ := except_bind_ok h
  split at h
  · obtain ⟨_, _, h⟩ := except_bind_ok h
    obtain ⟨_, _, h⟩ := except_bind_ok h
    obtain ⟨_, _, h⟩ := except_bind_ok h
    cases h
    exact ⟨rfl, rfl⟩
  · cases h
    exact ⟨rfl, rfl⟩

theorem keepsBounds_carve (i newSize : ℕ) (pageAlign : Bool) :
    KeepsBounds (carve i newSize pageAlign) := by
  intro a x a' h
  unfold carve at h
  obtain ⟨addr, _, h⟩ := except_bind_ok h
  obtain ⟨⟨⟨_, _⟩, b⟩, hclaim, h⟩ := except_bind_ok h
  exact (keepsBounds_claimHole _ _ _ _ _ _ _ hclaim).trans (keepsBounds_placeBlock _ _ _ _ _ _ h)

/-! ## The call -/

/-- A relation between states that the host keeps, and that does not look at the arena beyond its
bounds. -/
structure HostFrame {σ : Type} (H : Host σ) (R : σ → σ → Prop) : Prop where
  refl : ∀ s, R s s
  trans : ∀ {s t u}, R s t → R t u → R s u
  arena : ∀ s a, SameBounds (H.arena s) a → R s (H.setArena a s)
  mapPage : ∀ s x, Ends (H.mapPage x s) (fun _ t => R s t) fun t => R s t
  enterPages : ∀ s x y, Ends (H.enterPages x y s) (fun _ t => R s t) fun t => R s t

section Frame
variable {σ : Type} {H : Host σ} {R : σ → σ → Prop}

theorem HostFrame.bind (F : HostFrame H R) {α β : Type} {x : EStateM Panic σ α}
    {f : α → EStateM Panic σ β} {s : σ} (hx : Ends (x s) (fun _ t => R s t) fun t => R s t)
    (hf : ∀ a t, Ends (f a t) (fun _ u => R t u) fun u => R t u) :
    Ends ((x >>= f) s) (fun _ t => R s t) fun t => R s t :=
  ends_bind hx fun a t h => (hf a t).mono (fun _ _ h' => F.trans h h') fun _ h' => F.trans h h'

theorem HostFrame.onArena (F : HostFrame H R) {α : Type} {f : Arena → Except Panic (α × Arena)}
    (hf : KeepsBounds f) (s : σ) : Ends (H.onArena f s) (fun _ t => R s t) fun t => R s t := by
  unfold Host.onArena
  split
  · rename_i x a he
    exact ends_ok (F.arena s a (hf _ _ _ he))
  · exact ends_error (F.refl s)

theorem HostFrame.mapPages (F : HostFrame H R) (start n i : ℕ) (s : σ) :
    Ends (mapPages H start i n s) (fun _ t => R s t) fun t => R s t := by
  induction n generalizing i s with
  | zero => exact ends_pure (F.refl s)
  | succ n ih => exact F.bind (F.mapPage s _) fun _ t => ih (i + 4096) t

theorem HostFrame.expand (F : HostFrame H R) (newSize : ℕ) (s : σ) :
    Ends (expand H newSize s) (fun _ t => R s t) fun t => R s t := by
  refine ends_get_bind (F.bind (F.onArena ?_ s) fun _ t => F.bind (F.mapPages _ _ _ t) fun _ u =>
    F.onArena (keepsBounds_setAllocatedEnd _) u)
  intro a x a' h
  obtain ⟨_, _, h⟩ := except_bind_ok h
  obtain ⟨_, _, h⟩ := except_bind_ok h
  cases h
  exact SameBounds.refl a

theorem HostFrame.growHeap (F : HostFrame H R) (newSize : ℕ) (pageAlign : Bool) (s : σ) :
    Ends (growHeap H newSize pageAlign s) (fun _ t => R s t) fun t => R s t := by
  refine ends_get_bind (F.bind (F.expand _ s) fun _ t => ends_get_bind (F.bind
    (F.enterPages t _ _) fun _ u => F.bind (F.onArena (keepsBounds_addHole _ _) u) fun _ v =>
      ends_get_bind ?_))
  cases findHole (H.arena v) newSize pageAlign with
  | some i => exact ends_pure (F.refl v)
  | none => exact ends_throw (F.refl v)

theorem HostFrame.chooseHole (F : HostFrame H R) (newSize : ℕ) (pageAlign : Bool) (s : σ) :
    Ends (chooseHole H newSize pageAlign s) (fun _ t => R s t) fun t => R s t := by
  refine ends_get_bind ?_
  cases findHole (H.arena s) newSize pageAlign with
  | some i => exact ends_pure (F.refl s)
  | none => exact F.growHeap newSize pageAlign s

/-- `heap_alloc` keeps the relation, however it ends. -/
theorem HostFrame.heapAlloc (F : HostFrame H R) (size : ℕ) (pageAlign : Bool) (s : σ) :
    Ends (heapAlloc H size pageAlign s) (fun _ t => R s t) fun t => R s t :=
  F.bind (F.chooseHole _ _ s) fun _ t => F.onArena (keepsBounds_carve _ _ _) t

end Frame

/-! ## Rules for the call -/

section Rules
variable {σ : Type} {H : Host σ} {s : σ} {E : σ → Prop}

theorem ends_onArena {α : Type} {f : Arena → Except Panic (α × Arena)} {Q : α → σ → Prop}
    (he : E s) (hq : ∀ x a, f (H.arena s) = .ok (x, a) → Q x (H.setArena a s)) :
    Ends (H.onArena f s) Q E := by
  unfold Host.onArena
  split
  · rename_i x a h
    exact ends_ok (hq x a h)
  · exact ends_error he

theorem ends_expand {newSize : ℕ} {Q : Unit → σ → Prop} (he : E s)
    (hset : H.setArena (H.arena s) s = s)
    (hmap : sub32 (H.arena s).heap.allocatedEnd (H.arena s).heap.allocatedStart <
        pageRoundUp newSize →
      u32 ((H.arena s).heap.allocatedStart + pageRoundUp newSize) ≤ (H.arena s).heap.maxAddr →
      Ends (mapPages H (H.arena s).heap.allocatedStart
          (sub32 (H.arena s).heap.allocatedEnd (H.arena s).heap.allocatedStart)
          ((pageRoundUp newSize -
            sub32 (H.arena s).heap.allocatedEnd (H.arena s).heap.allocatedStart + 4095) / 4096) s)
        (fun _ t => E t ∧ Q () (H.setArena ((H.arena t).extended
          (u32 ((H.arena t).heap.allocatedStart + pageRoundUp newSize))) t)) E) :
    Ends (expand H newSize s) Q E := by
  refine ends_get_bind (ends_bind (Q := fun _ t => t = s ∧
    sub32 (H.arena s).heap.allocatedEnd (H.arena s).heap.allocatedStart < pageRoundUp newSize ∧
    u32 ((H.arena s).heap.allocatedStart + pageRoundUp newSize) ≤ (H.arena s).heap.maxAddr)
    (ends_onArena he ?_) ?_)
  · intro x a h
    obtain ⟨_, hgt, h⟩ := except_bind_ok h
    obtain ⟨_, hle, h⟩ := except_bind_ok h
    cases h
    exact ⟨hset, assert_ok hgt, assert_ok hle⟩
  · intro _ t ht
    obtain ⟨rfl, hgt, hle⟩ := ht
    refine ends_bind (hmap hgt hle) fun _ u hu => ends_onArena hu.1 fun x a h => ?_
    cases h
    exact hu.2

/-- The growth branch: `expand`, the first accesses, the new hole. -/
theorem ends_growHeap {newSize : ℕ} {pageAlign : Bool} {Q : ℕ → σ → Prop}
    (h : Ends (expand H (u32 (sub32 (H.arena s).heap.allocatedEnd (H.arena s).heap.allocatedStart +
        newSize + 4096)) s)
      (fun _ t => Ends (H.enterPages (H.arena s).heap.allocatedEnd (H.arena t).heap.allocatedEnd t)
        (fun _ u => E u ∧ ∀ a, addHole (H.arena s).heap.allocatedEnd
            (sub32 (H.arena s).heap.allocatedEnd (H.arena s).heap.allocatedStart) (H.arena u) =
              .ok ((), a) →
          E (H.setArena a u) ∧
            ∀ i, findHole (H.arena (H.setArena a u)) newSize pageAlign = some i →
              Q i (H.setArena a u)) E) E) :
    Ends (growHeap H newSize pageAlign s) Q E := by
  refine ends_get_bind (ends_bind h fun _ t ht => ends_get_bind (ends_bind ht fun _ u hu =>
    ends_bind (Q := fun _ v => E v ∧
        ∀ i, findHole (H.arena v) newSize pageAlign = some i → Q i v)
      (ends_onArena hu.1 fun x a ha => hu.2 a ha) fun _ v hv => ends_get_bind ?_))
  cases hf : findHole (H.arena v) newSize pageAlign with
  | some i => exact ends_pure (hv.2 i hf)
  | none => exact ends_throw hv.1

theorem ends_heapAlloc {size : ℕ} {pageAlign : Bool} {Q : ℕ → σ → Prop}
    (hfound : ∀ i, findHole (H.arena s) (u32 (size + 20)) pageAlign = some i →
      E s ∧ ∀ p a, carve i (u32 (size + 20)) pageAlign (H.arena s) = .ok (p, a) →
        Q p (H.setArena a s))
    (hgrow : findHole (H.arena s) (u32 (size + 20)) pageAlign = none →
      Ends (growHeap H (u32 (size + 20)) pageAlign s)
        (fun i t => E t ∧ ∀ p a, carve i (u32 (size + 20)) pageAlign (H.arena t) = .ok (p, a) →
          Q p (H.setArena a t)) E) :
    Ends (heapAlloc H size pageAlign s) Q E := by
  refine ends_bind (Q := fun i t => E t ∧ ∀ p a,
    carve i (u32 (size + 20)) pageAlign (H.arena t) = .ok (p, a) → Q p (H.setArena a t))
    (ends_get_bind ?_) fun i t ht => ends_onArena ht.1 ht.2
  cases hf : findHole (H.arena s) (u32 (size + 20)) pageAlign with
  | some i => exact ends_pure (hfound i hf)
  | none => exact hgrow hf

end Rules

end Evos
