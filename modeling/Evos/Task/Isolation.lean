import Evos.Task.KernelRun

/-! # Are tasks isolated?

`TASK_USER_STACK_BOTTOM` is `PAGE_CLONING_BUFFER`. Its page table is one that `clone_directory` shares
with the kernel, so the user stack of every task is the page that `mm_memcpy_physical` points at the
frame it writes. -/

namespace Evos
open Outcome Runs
set_option autoImplicit false

/-! ## Isolation -/

/-- The frame that the directory of a task maps an address to. -/
def Kernel.taskFrame (s : Kernel) (i address : ℕ) : Option ℕ :=
  s.spaces.translate (s.tasks i).pageDirectory address

/-- The frame of the cloning page. -/
def Kernel.cloningFrame (s : Kernel) : Option ℕ :=
  s.spaces.translate s.kernelDirectory pageCloningBuffer

/-- The pages of the live tasks are mapped to frames of their own, none of them the frame of the
cloning page, and the images are those the tasks were created with. -/
structure Kernel.Isolated (s : Kernel) (images : ℕ → ℕ → UInt8) : Prop where
  mapped : ∀ i < maxNumTasks, s.alive i = true → ∀ a ∈ taskPages, ∃ f, s.taskFrame i a = some f
  distinct : ∀ i < maxNumTasks, s.alive i = true → ∀ j < maxNumTasks, s.alive j = true →
    ∀ a ∈ taskPages, ∀ b ∈ taskPages, (i, a) ≠ (j, b) → s.taskFrame i a ≠ s.taskFrame j b
  cloning : ∀ i < maxNumTasks, s.alive i = true → ∀ a ∈ taskPages,
    s.taskFrame i a ≠ s.cloningFrame
  image : ∀ i < maxNumTasks, s.alive i = true → ∀ f, s.taskFrame i taskImageBase = some f →
    ∀ b < 4096, s.ram f b = images i b

/-! ## Calls on tasks -/

/-- The calls that are made on tasks. -/
def KernelOp.OfTasks : KernelOp → Prop
  | .taskCreate _ => True
  | .taskSwitch => True
  | _ => False

instance : DecidablePred KernelOp.OfTasks := fun op => by
  cases op <;> unfold KernelOp.OfTasks <;> infer_instance

/-- Some task is live. -/
def Kernel.HasTask (s : Kernel) : Prop := ∃ i < maxNumTasks, s.alive i = true

section Calls
variable {s t o boot : Kernel} {depth top : ℕ} {op : KernelOp} {ops : List KernelOp}

/-- A call on tasks keeps the invariant; there is a live task if there was one, or if one was created. -/
theorem Kernel.Settled.taskStep (hs : s.Settled top) (hop : op.OfTasks)
    (h : kernelStep depth op s = some t) :
    t.Settled top ∧ (s.HasTask ∨ op ≠ .taskSwitch → t.HasTask) ∧
      (¬s.HasTask → op = .taskSwitch → ¬t.HasTask) := by
  unfold kernelStep at h
  cases hp : perform depth op s with
  | error e u =>
    rw [hp] at h
    exact nomatch h
  | ok _ u =>
    rw [hp] at h
    cases h
    cases op with
    | taskCreate image =>
      have hends : Ends (perform depth (.taskCreate image) s)
          (fun _ t => t.Settled top ∧ t.HasTask) (MidpointsOK top) :=
        ends_bind (taskCreate_settled depth hs image) fun pid _ ht =>
          ends_pure ⟨ht.1, pid, ht.2.1, ht.2.2⟩
      obtain ⟨ht, htask⟩ := hends.ok hp
      exact ⟨ht, fun _ => htask, fun _ he => nomatch he⟩
    | taskSwitch =>
      obtain ⟨ht, halive⟩ := (taskSwitch_settled hs).ok hp
      refine ⟨ht, fun hor => ?_, fun hno _ => ?_⟩
      · obtain ⟨i, hi, ha⟩ := hor.resolve_right fun hne => hne rfl
        exact ⟨i, hi, halive ▸ ha⟩
      · rintro ⟨i, hi, ha⟩
        exact hno ⟨i, hi, halive ▸ ha⟩
    | kmalloc size => exact hop.elim
    | kmallocA size => exact hop.elim
    | kfree ptr => exact hop.elim
    | write address value => exact hop.elim
    | cloneDirectory src => exact hop.elim

/-- There is a live task after the calls if and only if there was one before or one was created. -/
theorem Kernel.Settled.taskTrace (hs : s.Settled top)
    (h : trace (kernelStep depth) (fun op _ => op.OfTasks) ops s = some t) :
    t.Settled top ∧ (t.HasTask ↔ s.HasTask ∨ ¬∀ op ∈ ops, op = .taskSwitch) := by
  induction ops generalizing s with
  | nil =>
    cases h
    exact ⟨hs, by simp⟩
  | cons op ops ih =>
    rw [trace] at h
    split at h
    · rename_i hop
      obtain ⟨u, hu, h⟩ := Option.bind_eq_some_iff.mp h
      obtain ⟨hsettled, hlive, hnone⟩ := hs.taskStep hop hu
      obtain ⟨ht, hiff⟩ := ih hsettled h
      refine ⟨ht, hiff.trans ?_⟩
      rw [List.forall_mem_cons]
      by_cases hor : s.HasTask ∨ op ≠ .taskSwitch
      · have hu' := hlive hor
        simp only [hu', true_or, true_iff]
        exact hor.imp_right fun hne hall => hne hall.1
      · obtain ⟨hno, he⟩ := not_or.mp hor
        have hswitch := not_not.mp he
        have hu' := hnone hno hswitch
        simp only [hu', hno, hswitch, false_or, true_and]
    · cases h

end Calls

/-! ## The user stack -/

section Stack
variable {s o boot : Kernel} {depth top i : ℕ} {ops : List KernelOp}

theorem Kernel.Settled.taskFrame_stack (hs : s.Settled top) (hi : i < maxNumTasks)
    (ha : s.alive i = true) : s.taskFrame i taskUserStackBottom = s.cloningFrame := by
  obtain ⟨hcreated, _⟩ := hs.task hi ha
  have htable : (s.spaces.dirs (s.tasks i).pageDirectory).tables 960 = s.tableAt 960 :=
    hs.paged.common hcreated (Or.inr rfl)
  have hindex : tableIndex taskUserStackBottom = 960 := rfl
  have hindex' : tableIndex pageCloningBuffer = 960 := rfl
  unfold Kernel.taskFrame Kernel.cloningFrame Spaces.translate
  dsimp only
  rw [hindex, hindex', htable]
  rfl

theorem Kernel.Settled.isolated_iff (hs : s.Settled top) (images : ℕ → ℕ → UInt8) :
    s.Isolated images ↔ ¬s.HasTask := by
  constructor
  · rintro h ⟨i, hi, ha⟩
    exact h.cloning i hi ha taskUserStackBottom (by decide) (hs.taskFrame_stack hi ha)
  · intro hno
    have hdead : ∀ i < maxNumTasks, s.alive i ≠ true := fun i hi ha => hno ⟨i, hi, ha⟩
    exact ⟨fun i hi ha => absurd ha (hdead i hi), fun i hi ha => absurd ha (hdead i hi),
      fun i hi ha => absurd ha (hdead i hi), fun i hi ha => absurd ha (hdead i hi)⟩

/-- After `init_paging` and any calls on tasks, the tasks are isolated if and only if none was
created. -/
theorem isolated_iff_of_trace (ho : o.Startup) (hb : initPaging depth o = .ok () boot)
    (h : trace (kernelStep depth) (fun op _ => op.OfTasks) ops boot = some s)
    (images : ℕ → ℕ → UInt8) : s.Isolated images ↔ ∀ op ∈ ops, op = .taskSwitch := by
  obtain ⟨hboot, hdead, _⟩ := (initPaging_settled depth ho).ok hb
  obtain ⟨hs, hiff⟩ := hboot.taskTrace h
  have hnone : ¬boot.HasTask := by
    rintro ⟨i, hi, ha⟩
    exact Bool.false_ne_true ((hdead i hi).symm.trans ha)
  rw [hs.isolated_iff images, hiff]
  simp only [hnone, false_or, not_not]

end Stack

/-! ## Two tasks -/

/-- Two tasks are created, and the first is switched to. -/
def twoTasks : List KernelOp := [.taskCreate fun _ => 1, .taskCreate fun _ => 2, .taskSwitch]

set_option maxRecDepth 100000 in
theorem twoTasks_run : ∃ boot s, initPaging 2 (lowKernel 0x1000 8) = .ok () boot ∧
    trace (kernelStep 2) (fun op _ => op.OfTasks) twoTasks boot = some s ∧
    (s.alive 0 && s.alive 1) = true := by
  have hrun : ((booted 2 (lowKernel 0x1000 8)).bind
      (trace (kernelStep 2) (fun op _ => op.OfTasks) twoTasks)).any
      (fun s => s.alive 0 && s.alive 1) = true := by decide +kernel
  obtain ⟨s, hs, ha⟩ := (Option.any_eq_true _ _).mp hrun
  obtain ⟨boot, hb, ht⟩ := Option.bind_eq_some_iff.mp hs
  exact ⟨boot, s, booted_some hb, ht, ha⟩

theorem isolated_iff_twoTasks : ∃ boot s, initPaging 2 (lowKernel 0x1000 8) = .ok () boot ∧
    trace (kernelStep 2) (fun op _ => op.OfTasks) twoTasks boot = some s ∧
    (s.Isolated (fun i _ => if i = 0 then 1 else 2) ↔ ∀ op ∈ twoTasks, op = .taskSwitch) := by
  obtain ⟨boot, s, hb, hs, _⟩ := twoTasks_run
  exact ⟨boot, s, hb, hs,
    isolated_iff_of_trace (lowKernel_startup (by decide) (by decide)) hb hs _⟩

/-- The user stacks of both are the cloning page. -/
theorem not_isolated_twoTasks : ∃ boot s, initPaging 2 (lowKernel 0x1000 8) = .ok () boot ∧
    trace (kernelStep 2) (fun op _ => op.OfTasks) twoTasks boot = some s ∧
    s.taskFrame 0 taskUserStackBottom = s.cloningFrame ∧
    s.taskFrame 1 taskUserStackBottom = s.cloningFrame ∧ ∀ images, ¬s.Isolated images := by
  obtain ⟨boot, s, hb, hs, ha⟩ := twoTasks_run
  obtain ⟨h0, h1⟩ := Bool.and_eq_true _ _ ▸ ha
  have hboot := ((initPaging_settled 2 (lowKernel_startup (by decide) (by decide))).ok hb).1
  have hsettled := (hboot.taskTrace hs).1
  refine ⟨boot, s, hb, hs, hsettled.taskFrame_stack (by decide) h0,
    hsettled.taskFrame_stack (by decide) h1, fun images => ?_⟩
  exact (hsettled.isolated_iff images).not.mpr fun hno => hno ⟨0, by decide, h0⟩

end Evos
