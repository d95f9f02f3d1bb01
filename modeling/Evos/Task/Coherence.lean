import Evos.Mm.Reentrancy
import Evos.Mm.SharedClone
import Evos.Task.KernelRun

/-! # Do the directories agree on the heap?

Between two calls every directory in use maps the heap as the kernel's directory does. Right behind
`expand` it does so as long as the heap stays in the page tables that the kernel's directory had when
it was cloned: a table that is added while the heap grows is in no other directory. -/

namespace Evos
open Outcome Runs
set_option autoImplicit false

/-! ## What the calls ask for -/

/-- The table that `get_page` asks for at an address, unless it is there. -/
def pageRequests (tables : ℕ → ℕ) (address : ℕ) : List (ℕ × Bool) :=
  if tables (tableIndex address) = 0 then [tableRequest] else []

/-- The blocks that `task_create` asks for: a clone of the current directory, and tables for the pages
of the task. -/
def Kernel.createRequests (s : Kernel) : List (ℕ × Bool) :=
  s.cloneRequests s.currentDirectory ++
    taskPages.flatMap (pageRequests (s.spaces.dirs s.currentDirectory).tables)

/-- The blocks that a call asks the heap for, in order. -/
def Kernel.requests (s : Kernel) : KernelOp → List (ℕ × Bool)
  | .kmalloc size => [(size, false)]
  | .kmallocA size => [(size, true)]
  | .cloneDirectory src => s.cloneRequests src
  | .taskCreate _ => if (findAvailableTask s.alive).isSome then s.createRequests else []
  | _ => []

/-- The kernel's directory has the page tables of the heap's addresses below this one. -/
def Kernel.TablesBelow (s : Kernel) (limit : ℕ) : Prop :=
  ∀ i, 60 ≤ i → 0x400000 * i < limit → s.tableAt i ≠ 0

/-- Wherever the heap grows to serve the call, it stays in page tables that are there. -/
def KernelOp.StaysShared (op : KernelOp) (s : Kernel) : Prop :=
  Evos.StaysShared s.TablesBelow (s.requests op) s.arena

/-! ## The pages of a task -/

section Pages
variable {s t : Kernel} {top dir address : ℕ} {rs : List (ℕ × Bool)}

theorem pageRequests_congr {tables tables' : ℕ → ℕ}
    (h : tables (tableIndex address) = 0 ↔ tables' (tableIndex address) = 0) :
    pageRequests tables address = pageRequests tables' address := by
  unfold pageRequests
  simp only [h]

theorem getPage_ready (depth : ℕ) (hs : s.Paged top) (hu : OwnSpaces s)
    (hr : Ready top (pageRequests (s.spaces.dirs dir).tables address ++ rs) s) :
    Ends (getPage depth address dir s) (fun _ t => Ready top rs t ∧ ∀ j, j ≠ tableIndex address →
      (t.spaces.dirs dir).tables j = (s.spaces.dirs dir).tables j) (LowMidpoints top) := by
  unfold pageRequests at hr
  by_cases hne : (s.spaces.dirs dir).tables (tableIndex address) ≠ 0
  · rw [if_neg hne] at hr
    unfold getPage
    rw [getPageWith_found hne]
    exact ends_ok ⟨hr, fun _ _ => rfl⟩
  · have hsize : pageTableSize + 20 < 2 ^ 31 := by decide
    rw [if_pos (Decidable.not_not.mp hne)] at hr
    refine ends_get_bind ?_
    rw [if_neg hne]
    refine ends_bind (((kmallocAt_ready depth (hs.sound hu) hsize hr true).and
      (kmallocAp_paged depth hs hu hsize)).mono (fun _ _ h => h) fun _ h => h.1) ?_
    rintro block t ⟨hready, htook, _⟩
    refine ends_modify_bind (ends_get_bind (ends_pure ⟨hready.congr rfl rfl, fun j hj => ?_⟩))
    rw [Kernel.addTable_entry, if_neg fun he => hj he.2, htook.grew.dirs]

theorem mapTaskPage_ready (depth : ℕ) (hs : s.Paged top) (hu : OwnSpaces s)
    (hr : Ready top (pageRequests (s.spaces.dirs dir).tables address ++ rs) s) :
    Ends (mapTaskPage depth address dir s) (fun _ t => Ready top rs t ∧ ∀ j, j ≠ tableIndex address →
      (t.spaces.dirs dir).tables j = (s.spaces.dirs dir).tables j) (LowMidpoints top) := by
  refine ends_bind (getPage_ready depth hs hu hr) ?_
  rintro page t ⟨hready, hsame⟩
  refine ends_bind ((pageAlloc_quiet page true t).mono (fun _ _ h => h) fun _ h =>
    hready.low.same h) ?_
  rintro _ u hu
  refine ends_pure ⟨hready.same hu, fun j hj => ?_⟩
  rw [hu.dirs]
  exact hsame j hj

end Pages

/-! ## The calls -/

section Calls
variable {s t : Kernel} {top : ℕ} {rs : List (ℕ × Bool)}

theorem createIn_ready (depth : ℕ) (hs : s.Settled top) (pid : ℕ) (image : ℕ → UInt8)
    (hr : Ready top s.createRequests s) :
    Ends (createIn depth pid image s) (fun _ t => LowMidpoints top t) (LowMidpoints top) := by
  have htask : OwnSpaces (s.setTask pid fun _ => { Task.zero with
      pid := pid, alive := true, savedState := initialRegisters }) := hs.own.setTask _ (Or.inl rfl)
  have hr₀ : Ready top s.createRequests (s.setTask pid fun _ => { Task.zero with
      pid := pid, alive := true, savedState := initialRegisters }) := hr.congr rfl rfl
  refine ends_modify_bind (ends_get_bind (ends_bind (((cloneDirectory_paged depth
    (hs.paged.setTask _) htask hs.current).and (cloneDirectory_ready depth (hs.paged.setTask _) htask
      hs.current hr₀)).mono (fun _ _ h => h) fun _ h => h.2) ?_))
  rintro dir t ⟨ht, hr₁, hentries⟩
  have hzero : ∀ j < 1024, ((t.spaces.dirs dir).tables j = 0 ↔
      (s.spaces.dirs s.currentDirectory).tables j = 0) := hentries
  have hk := ht.ne hs.paged.kernel
  have hdir : dir ∈ t.created := by
    rw [ht.created]
    exact List.mem_cons_self
  have hown : OwnSpaces (t.setTask pid fun task => { task with pageDirectory := dir }) :=
    (ht.use.ownSpaces htask).setTask _ (Or.inr ⟨hdir, hk⟩)
  have hpaged : (t.setTask pid fun task => { task with pageDirectory := dir }).Paged top :=
    ht.paged.setTask _
  have himage : tableIndex taskImageBase = 64 := by decide
  have hr₂ : Ready top (pageRequests (s.spaces.dirs s.currentDirectory).tables taskImageBase ++
      (pageRequests (s.spaces.dirs s.currentDirectory).tables taskUserStackBottom ++
        (pageRequests (s.spaces.dirs s.currentDirectory).tables taskKernelStackBottom ++ [])))
      (t.setTask pid fun task => { task with pageDirectory := dir }) := hr₁.congr rfl rfl
  rw [← pageRequests_congr (hzero (tableIndex taskImageBase) (by decide))] at hr₂
  refine ends_modify_bind (ends_bind (((mapTaskPage_paged depth hpaged hown hdir (by decide)).and
    (mapTaskPage_ready depth hpaged hown hr₂)).mono (fun _ _ h => h) fun _ h => h.2) ?_)
  rintro imagePage t₁ ⟨⟨h₁, hu₁, hc₁, _⟩, hr₃, hsame₁⟩
  have hzero₁ : ∀ j, j ≠ 64 → j < 1024 → ((t₁.spaces.dirs dir).tables j = 0 ↔
      (s.spaces.dirs s.currentDirectory).tables j = 0) := by
    intro j hj hlt
    rw [hsame₁ j (himage ▸ hj)]
    exact hzero j hlt
  rw [← pageRequests_congr (hzero₁ (tableIndex taskUserStackBottom) (by decide) (by decide))] at hr₃
  refine ends_bind (((mapTaskPage_paged depth h₁ (hu₁.ownSpaces hown) (hc₁ ▸ hdir) (by decide)).and
      (mapTaskPage_ready depth h₁ (hu₁.ownSpaces hown) hr₃)).mono (fun _ _ h => h) fun _ h => h.2) ?_
  rintro _ t₂ ⟨⟨h₂, hu₂, hc₂, _⟩, hr₄, hsame₂⟩
  have hu₁₂ := hu₁.trans hu₂
  have hzero₂ : ((t₂.spaces.dirs dir).tables 128 = 0 ↔
      (s.spaces.dirs s.currentDirectory).tables 128 = 0) := by
    rw [hsame₂ 128 (by decide)]
    exact hzero₁ 128 (by decide) (by decide)
  have hrequests : pageRequests (t₂.spaces.dirs dir).tables taskKernelStackBottom =
      pageRequests (s.spaces.dirs s.currentDirectory).tables taskKernelStackBottom :=
    pageRequests_congr hzero₂
  rw [← hrequests] at hr₄
  refine ends_bind (mapTaskPage_ready depth h₂ (hu₁₂.ownSpaces hown) hr₄) ?_
  rintro _ t₃ ⟨hr₅, _⟩
  refine ends_bind ((pageAddress_ends imagePage t₃).mono (fun _ _ h => h) ?_) ?_
  · rintro u rfl
    exact hr₅.low
  · rintro frame u rfl
    refine ends_bind ((mmMemcpyPhysical_quiet _ image 0x1000 _).mono (fun _ _ h => h) fun _ h =>
      hr₅.low.same h) ?_
    rintro _ v hv
    exact ends_pure (hr₅.low.same hv)

theorem taskSwitch_quiet (s : Kernel) :
    Ends (taskSwitch s) (fun _ t => SameHeap s t) fun t => SameHeap s t := by
  refine ends_get_bind (ends_get_bind ?_)
  by_cases hwild : findNextTask s.alive s.currentTask ≥ maxNumTasks
  · rw [if_pos hwild]
    exact ends_throw (SameHeap.refl s)
  · rw [if_neg hwild]
    generalize findNextTask s.alive s.currentTask = next
    have hnext : SameHeap s { s with currentTask := next } := ⟨rfl, rfl, rfl⟩
    refine ends_modify_bind (ends_get_bind (ends_get_bind ?_))
    refine ends_bind ((pageAddress_ends _ _).mono (fun _ _ h => h) ?_) ?_
    · rintro _ rfl
      exact hnext
    · rintro frame _ rfl
      refine ends_bind ((mmMemcpyPhysical_quiet _ _ _ _).mono (fun _ _ h => hnext.trans h) fun _ h =>
        hnext.trans h) ?_
      rintro _ u hu
      exact ends_modify (hu.trans ⟨rfl, rfl, rfl⟩)

theorem perform_ready (depth : ℕ) {op : KernelOp} (hs : s.Settled top) (hok : KernelSafe op s)
    (hr : Ready top (s.requests op) s) :
    Ends (perform depth op s) (fun _ t => LowMidpoints top t) (LowMidpoints top) := by
  have hsound := hs.paged.sound hs.own
  cases op with
  | kmalloc size =>
    exact ends_bind (kmallocAt_ready depth hsound hok hr false) fun _ _ ht => ends_pure ht.low
  | kmallocA size =>
    exact ends_bind (kmallocAt_ready depth hsound hok hr false) fun _ _ ht => ends_pure ht.low
  | kfree ptr =>
    refine (kfree_ends hs.paged hok).mono ?_ fun t ht => ht ▸ hr.low
    rintro _ t ⟨_, h, rfl⟩
    exact hr.low.congr rfl
  | write address value =>
    change Ends (writeByte address value s) _ _
    unfold writeByte
    cases writeStep address value s.heap with
    | none => exact ends_error hr.low
    | some h => exact ends_ok (hr.low.congr rfl)
  | cloneDirectory src =>
    have hr' : Ready top (s.cloneRequests src ++ []) s := by
      rw [List.append_nil]
      exact hr
    exact ends_bind (cloneDirectory_ready depth hs.paged hs.own hok hr') fun _ _ ht =>
      ends_pure ht.1.low
  | taskCreate image =>
    refine ends_bind (Q := fun _ t => LowMidpoints top t) (ends_get_bind ?_) fun _ _ ht => ends_pure ht
    unfold Kernel.requests at hr
    cases hpid : findAvailableTask s.alive with
    | none => exact ends_throw hr.low
    | some pid =>
      rw [hpid] at hr
      exact createIn_ready depth hs pid image hr
  | taskSwitch =>
    exact (taskSwitch_quiet s).mono (fun _ _ h => hr.low.same h) fun _ h => hr.low.same h

end Calls

/-! ## Runs -/

section Runs
variable {s o boot : Kernel} {depth top : ℕ} {op : KernelOp}

theorem Kernel.Settled.ready (hs : s.Settled top) (hm : LowMidpoints top s) (h : op.StaysShared s) :
    Ready top (s.requests op) s := by
  refine ⟨h.mono fun n hmax htables => ?_, hm⟩
  by_contra hgt
  have htop := hs.paged.topLe
  have hlast : heapTop top < 0x0ffff000 := lt_of_lt_of_le (Nat.lt_of_not_le hgt) hmax
  have hlt : top < 64 := by
    unfold heapTop at hlast
    omega
  obtain ⟨ts, hi⟩ := hs.paged.inv
  have hge := hi.pages.topGe
  exact htables top (by omega) (Nat.lt_of_not_le hgt) (hs.paged.low top (Nat.le_refl _) hlt)

theorem LowMidpoints.coherent {t : Kernel} (h : LowMidpoints top t) (hok : MidpointsOK top t) :
    ∀ v ∈ t.midpoints, v.Coherent := fun v hv => (hok v hv).mpr (h v hv)

/-- If no call grows the heap past the page tables that the kernel's directory has, then every
directory in use maps the heap as the kernel's does: in every state reached, at every point behind an
`expand` on the way, and at such points of a call that stops. -/
theorem coherent_of_run (ho : o.Startup) (hb : initPaging depth o = .ok () boot)
    (r : Run (kernelStep depth) (fun op s => KernelSafe op s ∧ op.StaysShared s) boot s) :
    s.midpoint.Coherent ∧ (∀ v ∈ s.midpoints, v.Coherent) ∧
      ∀ op, KernelSafe op s → op.StaysShared s → ∀ e t, perform depth op s = .error e t →
        ∀ v ∈ t.midpoints, v.Coherent := by
  obtain ⟨hboot, _, hnone⟩ := (initPaging_settled depth ho).ok hb
  have hlow : LowMidpoints o.bootTop boot := by
    intro v hv
    rw [hnone] at hv
    exact absurd hv List.not_mem_nil
  have hinv : s.Settled o.bootTop ∧ LowMidpoints o.bootTop s := by
    refine r.invariant (I := fun x => x.Settled o.bootTop ∧ LowMidpoints o.bootTop x)
      ⟨hboot, hlow⟩ ?_
    rintro op x y ⟨hx, hmx⟩ ⟨hok, hstays⟩ hxy
    refine ⟨hx.step hok hxy, ?_⟩
    unfold kernelStep at hxy
    cases hp : perform depth op x with
    | ok _ u =>
      rw [hp] at hxy
      cases hxy
      exact (perform_ready depth hx hok (hx.ready hmx hstays)).ok hp
    | error e u =>
      rw [hp] at hxy
      cases hxy
  obtain ⟨hs, hm⟩ := hinv
  obtain ⟨ts, h⟩ := hs.paged.inv
  refine ⟨(h.midpoint_ok hs.own).mpr h.endLe, hm.coherent hs.paged.midpointsOK, ?_⟩
  intro op hok hstays e t he
  exact ((perform_ready depth hs hok (hs.ready hm hstays)).error he).coherent
    ((perform_settled depth hs hok).error he)

end Runs

/-! ## Behind the boot -/

section Boot

set_option maxRecDepth 100000 in
theorem lowKernel_kmalloc : ∃ boot s, initPaging 3 (lowKernel 0x1000 160) = .ok () boot ∧
    KernelOp.StaysShared (.kmalloc 100) boot ∧ kernelStep 3 (.kmalloc 100) boot = some s := by
  have hrun : (booted 3 (lowKernel 0x1000 160)).any (fun boot =>
      (findHole boot.arena (100 + 20) false).isSome && (kernelStep 3 (.kmalloc 100) boot).isSome) =
        true := by decide +kernel
  obtain ⟨boot, hboot, hchecks⟩ := (Option.any_eq_true _ _).mp hrun
  obtain ⟨hfound, hstep⟩ := Bool.and_eq_true_iff.mp hchecks
  obtain ⟨s, hs⟩ := Option.isSome_iff_exists.mp hstep
  refine ⟨boot, s, booted_some hboot, ⟨fun hnone => ?_, fun _ _ _ => trivial⟩, hs⟩
  rw [hnone] at hfound
  cases hfound

theorem coherent_of_kmalloc : ∃ boot s, initPaging 3 (lowKernel 0x1000 160) = .ok () boot ∧
    kernelStep 3 (.kmalloc 100) boot = some s ∧ s.midpoint.Coherent ∧
    (∀ v ∈ s.midpoints, v.Coherent) ∧
    ∀ op, KernelSafe op s → op.StaysShared s → ∀ e t, perform 3 op s = .error e t →
      ∀ v ∈ t.midpoints, v.Coherent := by
  obtain ⟨boot, s, hb, hstays, hs⟩ := lowKernel_kmalloc
  have hsafe : KernelSafe (.kmalloc 100) boot := show 100 + 20 < 2 ^ 31 by decide
  exact ⟨boot, s, hb, hs, coherent_of_run (lowKernel_startup (by decide) (by decide)) hb
    (Run.head ⟨hsafe, hstays⟩ hs (Run.refl s))⟩

/-- A request for 4 MiB takes the heap past its first page table, and the loaded directory does not
have the second one. -/
theorem not_coherent_of_kmalloc : ∃ boot e t, initPaging 3 (lowKernel 0x1000 160) = .ok () boot ∧
    KernelSafe (.kmalloc 0x400000) boot ∧ perform 3 (.kmalloc 0x400000) boot = .error e t ∧
    ∃ v ∈ t.midpoints, ¬v.Coherent := by
  obtain ⟨boot, hb, hs, _, hpast⟩ := lowKernel_growing
  have hends : Ends (perform 3 (.kmalloc 0x400000) boot) (fun _ _ => False)
      fun u => ∃ v ∈ u.midpoints, ¬v.Coherent :=
    ends_bind (kmallocAt_past 1 (hs.paged.sound hs.own) hpast false) fun _ _ hf => hf.elim
  cases hp : perform 3 (.kmalloc 0x400000) boot with
  | ok _ t => exact (hends.ok hp).elim
  | error e t => exact ⟨boot, e, t, hb, hpast.request, hp, hends.error hp⟩

end Boot

end Evos
