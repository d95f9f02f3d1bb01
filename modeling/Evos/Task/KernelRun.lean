import Evos.Kmain.BootBlocks
import Evos.Mm.BootInvariant

/-! # Runs of the paged kernel

The calls that the kernel's users make once `init_paging` has returned, in any order. Every state
reached meets the invariant, and wherever a call stops, the states recorded on the way do. -/

namespace Evos
open ByteMemory Segments Outcome Runs
set_option autoImplicit false

/-! ## The calls -/

inductive KernelOp where
  | kmalloc (size : ℕ)
  | kmallocA (size : ℕ)
  | kfree (ptr : ℕ)
  /-- A caller writes one byte of a live block. -/
  | write (address : ℕ) (value : UInt8)
  | cloneDirectory (src : ℕ)
  | taskCreate (image : ℕ → UInt8)
  | taskSwitch

/-- A byte of a block is written. -/
def writeByte (address : ℕ) (value : UInt8) : KM Unit := fun s =>
  match writeStep address value s.heap with
  | some h => .ok () { s with heap := h }
  | none => .error .wildAccess s

section Depth
variable (depth : ℕ)

/-- One call. -/
def perform : KernelOp → KM Unit
  | .kmalloc size => do let _ ← kmalloc depth size
  | .kmallocA size => do let _ ← kmallocA depth size
  | .kfree ptr => kfree ptr
  | .write address value => writeByte address value
  | .cloneDirectory src => do let _ ← cloneDirectory depth src
  | .taskCreate image => do let _ ← taskCreate depth image
  | .taskSwitch => taskSwitch

/-- One call that returns. -/
def kernelStep (op : KernelOp) (s : Kernel) : Option Kernel :=
  match perform depth op s with
  | .ok _ t => some t
  | .error _ _ => none

end Depth

/-- What the callers keep to: requests below 2 GiB; a block freed is one that `kmalloc` handed out to
them, and its neighbours' tags are right; a directory cloned is one that was made. -/
def KernelSafe : KernelOp → Kernel → Prop
  | .kmalloc size, _ => size + 20 < 2 ^ 31
  | .kmallocA size, _ => size + 20 < 2 ^ 31
  | .kfree ptr, s =>
    ptr ≠ 0 → (∃ n, (ptr, n) ∈ s.heap.live) ∧ ptr ∉ s.paging ∧ JoinsHoles s.arena ptr
  | .cloneDirectory src, s => src ∈ s.created
  | _, _ => True

theorem exists_live_iff {ptr : ℕ} {s : Kernel} :
    ptr ∈ s.heap.live.map Prod.fst ↔ ∃ n, (ptr, n) ∈ s.heap.live := by
  simp only [List.mem_map, Prod.exists, exists_and_right, exists_eq_right]

instance (ptr : ℕ) (s : Kernel) : Decidable (∃ n, (ptr, n) ∈ s.heap.live) :=
  decidable_of_iff _ exists_live_iff

instance (op : KernelOp) (s : Kernel) : Decidable (KernelSafe op s) :=
  match op with
  | .kmalloc _ => inferInstanceAs (Decidable (_ < _))
  | .kmallocA _ => inferInstanceAs (Decidable (_ < _))
  | .kfree _ => inferInstanceAs (Decidable (_ → _))
  | .write _ _ => isTrue trivial
  | .cloneDirectory _ => inferInstanceAs (Decidable (_ ∈ _))
  | .taskCreate _ => isTrue trivial
  | .taskSwitch => isTrue trivial

/-! ## The invariant -/

section Invariant
variable {depth top : ℕ} {s t : Kernel} {op : KernelOp}

theorem Kernel.Settled.withHeap {h : HeapState} (hs : s.Settled top)
    (hp : ({ s with heap := h } : Kernel).Paged top) : ({ s with heap := h } : Kernel).Settled top :=
  ⟨hp, hs.own, hs.tasks⟩

theorem perform_settled (depth : ℕ) (hs : s.Settled top) (hok : KernelSafe op s) :
    Ends (perform depth op s) (fun _ t => t.Settled top) (MidpointsOK top) := by
  cases op with
  | kmalloc size =>
    exact ends_bind (kmalloc_settled depth hs hok false false) fun _ _ ht => ends_pure ht
  | kmallocA size =>
    exact ends_bind (kmalloc_settled depth hs hok true false) fun _ _ ht => ends_pure ht
  | kfree ptr =>
    refine (kfree_ends hs.paged hok).mono ?_ fun t ht => ht ▸ hs.paged.midpointsOK
    rintro _ t ⟨ht, h, rfl⟩
    exact hs.withHeap ht
  | write address value =>
    change Ends (writeByte address value s) _ _
    unfold writeByte
    cases hw : writeStep address value s.heap with
    | none => exact ends_error hs.paged.midpointsOK
    | some h => exact ends_ok (hs.withHeap (hs.paged.written hw))
  | cloneDirectory src =>
    exact ends_bind (cloneDirectory_settled depth hs hok) fun _ _ ht => ends_pure ht
  | taskCreate image =>
    exact ends_bind (taskCreate_settled depth hs image) fun _ _ ht => ends_pure ht.1
  | taskSwitch => exact (taskSwitch_settled hs).mono (fun _ _ ht => ht.1) fun _ ht => ht

theorem Kernel.Settled.step (hs : s.Settled top) (hok : KernelSafe op s)
    (h : kernelStep depth op s = some t) : t.Settled top := by
  unfold kernelStep at h
  cases hp : perform depth op s with
  | ok _ u =>
    rw [hp] at h
    cases h
    exact (perform_settled depth hs hok).ok hp
  | error e u =>
    rw [hp] at h
    exact nomatch h

theorem settled_of_run {o : Kernel} {boot : Kernel} (ho : o.Startup)
    (hb : initPaging depth o = .ok () boot) (r : Run (kernelStep depth) KernelSafe boot s) :
    s.Settled o.bootTop :=
  r.invariant (I := fun x => x.Settled o.bootTop) ((initPaging_settled depth ho).ok hb).1
    fun _ _ _ hx hok h => hx.step hok h

end Invariant

end Evos
