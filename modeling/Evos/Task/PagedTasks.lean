import Evos.Mm.PagedClone
import Evos.Task.Task

/-! # Tasks on the paged kernel

`task_create` and `task_switch` keep the invariant: the directory of a task is a clone of the current
one, with tables of its own for the image and the kernel stack. -/

namespace Evos
open ByteMemory Segments Outcome
set_option autoImplicit false

/-- The paged kernel with its tasks, between two calls: what is loaded and in use are clones, and
every task has one. -/
structure Kernel.Settled (s : Kernel) (top : ℕ) : Prop where
  paged : s.Paged top
  own : OwnSpaces s
  tasks : ∀ i < maxNumTasks, s.alive i = true → (s.tasks i).pageDirectory ≠ 0

/-! ## The directories of the tasks -/

section Tasks
variable {s t : Kernel} {top d pid : ℕ}

theorem mem_taskDirectories :
    d ∈ s.taskDirectories ↔ ∃ i < maxNumTasks, s.alive i = true ∧ (s.tasks i).pageDirectory = d ∧ d ≠ 0 := by
  unfold Kernel.taskDirectories
  simp only [List.mem_filter, List.mem_map, List.mem_range, decide_eq_true_eq]
  constructor
  · rintro ⟨⟨i, ⟨hi, ha⟩, he⟩, hd⟩
    exact ⟨i, hi, ha, he, hd⟩
  · rintro ⟨i, hi, ha, he, hd⟩
    exact ⟨⟨i, ⟨hi, ha⟩, he⟩, hd⟩

theorem Kernel.Settled.task (hs : s.Settled top) {i : ℕ} (hi : i < maxNumTasks)
    (ha : s.alive i = true) :
    (s.tasks i).pageDirectory ∈ s.created ∧ (s.tasks i).pageDirectory ≠ s.kernelDirectory := by
  have hmem := mem_taskDirectories.mpr ⟨i, hi, ha, rfl, hs.tasks i hi ha⟩
  exact hs.own _ (List.mem_cons_of_mem _ (List.mem_cons_of_mem _ hmem))

theorem Kernel.Settled.current (hs : s.Settled top) : s.currentDirectory ∈ s.created :=
  (hs.own _ (List.mem_cons_of_mem _ List.mem_cons_self)).1

theorem Kernel.setTask_self (f : Task → Task) : (s.setTask pid f).tasks pid = f (s.tasks pid) :=
  if_pos rfl

theorem Kernel.setTask_of_ne {i : ℕ} (f : Task → Task) (h : i ≠ pid) :
    (s.setTask pid f).tasks i = s.tasks i := if_neg h

theorem Kernel.Paged.setTask (hs : s.Paged top) (f : Task → Task) : (s.setTask pid f).Paged top :=
  hs.same ⟨rfl, rfl, rfl, rfl, rfl, rfl, rfl, fun _ _ => rfl, fun _ _ _ => rfl, fun h => h,
    fun _ hp => hp, fun _ hp => Or.inl hp⟩

theorem OwnSpaces.setTask (hu : OwnSpaces s) (f : Task → Task)
    (hd : (f (s.tasks pid)).pageDirectory = 0 ∨ (f (s.tasks pid)).pageDirectory ∈ s.created ∧
      (f (s.tasks pid)).pageDirectory ≠ s.kernelDirectory) : OwnSpaces (s.setTask pid f) := by
  intro d hmem
  rcases List.mem_cons.mp hmem with rfl | hmem
  · exact hu _ List.mem_cons_self
  rcases List.mem_cons.mp hmem with rfl | hmem
  · exact hu _ (List.mem_cons_of_mem _ List.mem_cons_self)
  obtain ⟨i, hi, ha, he, hne⟩ := mem_taskDirectories.mp hmem
  unfold Kernel.alive at ha
  by_cases hip : i = pid
  · subst hip
    rw [Kernel.setTask_self] at he
    rcases hd with h0 | hown
    · exact absurd (he.symm.trans h0) hne
    · exact he ▸ hown
  · rw [Kernel.setTask_of_ne f hip] at ha he
    have hold := mem_taskDirectories.mpr ⟨i, hi, ha, he, hne⟩
    exact hu d (List.mem_cons_of_mem _ (List.mem_cons_of_mem _ hold))

end Tasks

/-! ## The pages of a task -/

section Pages
variable {s t : Kernel} {top dir address : ℕ}

/-- The addresses of a task's pages: not in the heap's tables, unless the table is there. -/
def TaskAddress (address : ℕ) : Prop :=
  tableIndex address < 60 ∨ 64 ≤ tableIndex address

instance (address : ℕ) : Decidable (TaskAddress address) := inferInstanceAs (Decidable (_ ∨ _))

/-- What setting up a page of a directory keeps. -/
structure PageMade (s : Kernel) (top : ℕ) (page : Option (ℕ × ℕ)) (t : Kernel) : Prop where
  paged : t.Paged top
  use : SameUse s t
  created : t.created = s.created
  found : ∃ v i, page = some (v, i)

theorem getPage_paged (depth : ℕ) (hs : s.Paged top) (hu : OwnSpaces s) (hd : dir ∈ s.created)
    (haddr : (s.spaces.dirs dir).tables (tableIndex address) = 0 → TaskAddress address) :
    Ends (getPage depth address dir s) (PageMade s top) (MidpointsOK top) := by
  by_cases hne : (s.spaces.dirs dir).tables (tableIndex address) ≠ 0
  · unfold getPage
    rw [getPageWith_found hne]
    exact ends_ok ⟨hs, SameUse.refl s, rfl, _, _, rfl⟩
  · have h960 : tableIndex address ≠ 960 := by
      intro he
      obtain ⟨ts, h⟩ := hs.inv
      rw [he, hs.common hd (Or.inr rfl)] at hne
      exact hne h.pages.cloningNe
    refine ends_get_bind ?_
    rw [if_neg hne]
    refine ends_bind (kmallocAp_paged depth hs hu (by decide)) ?_
    rintro block u ⟨htook, hpaged⟩
    have hkept := htook.grew.kept
    have hindex := haddr (Decidable.not_not.mp hne)
    have hblock : block.1 ≠ 0 := by
      obtain ⟨ts, h⟩ := hpaged.inv
      have := (h.live_bounds htook.mem).1
      omega
    have hadded : (u.addTable dir (tableIndex address) block.1 block.2).Paged top :=
      hpaged.addTable htook.mem block.2 hindex h960
    refine ends_modify_bind (ends_get_bind (ends_pure ⟨hadded, ?_, ?_, ?_⟩))
    · exact hkept.sameUse.trans ⟨rfl, rfl, rfl, rfl, rfl, fun _ h => h⟩
    · exact hkept.created
    · exact ⟨_, _, u.findPage_addTable _ _ _ hblock⟩

theorem mapTaskPage_paged (depth : ℕ) (hs : s.Paged top) (hu : OwnSpaces s) (hd : dir ∈ s.created)
    (haddr : TaskAddress address) :
    Ends (mapTaskPage depth address dir s) (PageMade s top) (MidpointsOK top) := by
  refine ends_bind (getPage_paged depth hs hu hd fun _ => haddr) ?_
  rintro page t ⟨hp, huse, hcreated, v, i, rfl⟩
  refine ends_bind ((pageAlloc_ends hp.framesOK v i true).mono (fun _ _ h => h) ?_) ?_
  · rintro u rfl
    exact hp.midpointsOK
  · rintro _ u hu'
    refine ends_pure ⟨hp.pageAllocated hu', huse.trans hu'.kept.sameUse, ?_, v, i, rfl⟩
    exact hu'.kept.created.trans hcreated

end Pages

/-! ## The calls -/

section Calls
variable {s : Kernel} {top : ℕ}

theorem createIn_settled (depth : ℕ) (hs : s.Settled top) (pid : ℕ) (image : ℕ → UInt8) :
    Ends (createIn depth pid image s)
      (fun p t => p = pid ∧ t.Settled top ∧ t.alive pid = true) (MidpointsOK top) := by
  have htask : OwnSpaces (s.setTask pid fun _ => { Task.zero with
      pid := pid, alive := true, savedState := initialRegisters }) := hs.own.setTask _ (Or.inl rfl)
  refine ends_modify_bind (ends_get_bind (ends_bind
    (cloneDirectory_paged depth (hs.paged.setTask _) htask hs.current) ?_))
  rintro dir t ht
  have hk := ht.ne hs.paged.kernel
  have hdir : dir ∈ t.created := by
    rw [ht.created]
    exact List.mem_cons_self
  have hown : OwnSpaces (t.setTask pid fun task => { task with pageDirectory := dir }) :=
    (ht.use.ownSpaces htask).setTask _ (Or.inr ⟨hdir, hk⟩)
  have hpaged : (t.setTask pid fun task => { task with pageDirectory := dir }).Paged top :=
    ht.paged.setTask _
  refine ends_modify_bind (ends_bind (mapTaskPage_paged depth hpaged hown hdir (by decide)) ?_)
  rintro imagePage t₁ ⟨h₁, hu₁, hc₁, _⟩
  refine ends_bind (mapTaskPage_paged depth h₁ (hu₁.ownSpaces hown) (hc₁ ▸ hdir) (by decide)) ?_
  rintro _ t₂ ⟨h₂, hu₂, hc₂, _⟩
  have hu₁₂ := hu₁.trans hu₂
  refine ends_bind (mapTaskPage_paged depth h₂ (hu₁₂.ownSpaces hown) (hc₂ ▸ hc₁ ▸ hdir)
    (by decide)) ?_
  rintro _ t₃ ⟨h₃, hu₃, hc₃, _⟩
  refine ends_bind ((pageAddress_ends imagePage t₃).mono (fun _ _ h => h) ?_) ?_
  · rintro u rfl
    exact h₃.midpointsOK
  · rintro frame u rfl
    refine ends_bind (mmMemcpyPhysical_paged h₃ _ image 0x1000) ?_
    rintro _ t₄ ⟨h₄, honly⟩
    have huse := hu₁₂.trans (hu₃.trans honly.use)
    have htasks : ∀ i, t₄.tasks i = if i = pid then
        { Task.zero with
          pid := pid, alive := true, savedState := initialRegisters, pageDirectory := dir }
        else s.tasks i := by
      intro i
      rw [huse.tasks]
      unfold Kernel.setTask
      dsimp only
      rw [ht.use.tasks]
      unfold Kernel.setTask
      dsimp only
      split <;> simp
    refine ends_pure ⟨rfl, ⟨h₄, huse.ownSpaces hown, fun i hi ha => ?_⟩, ?_⟩
    · unfold Kernel.alive at ha
      rw [htasks] at ha ⊢
      by_cases hip : i = pid
      · rw [if_pos hip]
        obtain ⟨ts, h⟩ := ht.paged.inv
        have hin := (h.pages.shares dir hdir hk).2.1
        exact fun h0 => hin (Or.inl (lt_of_eq_of_lt h0 (by decide)))
      · rw [if_neg hip] at ha ⊢
        exact hs.tasks i hi ha
    · unfold Kernel.alive
      rw [htasks, if_pos rfl]

theorem taskCreate_settled (depth : ℕ) (hs : s.Settled top) (image : ℕ → UInt8) :
    Ends (taskCreate depth image s) (fun pid t => t.Settled top ∧ pid < maxNumTasks ∧ t.alive pid = true)
      (MidpointsOK top) := by
  refine ends_get_bind ?_
  cases hpid : findAvailableTask s.alive with
  | none => exact ends_throw hs.paged.midpointsOK
  | some pid =>
    refine (createIn_settled depth hs pid image).mono ?_ fun _ h => h
    rintro _ t ⟨rfl, ht, ha⟩
    exact ⟨ht, (findAvailableTask_some hpid).1, ha⟩

theorem Kernel.Settled.sameUse {t : Kernel} (hs : s.Settled top) (ht : t.Paged top)
    (h : SameUse s t) : t.Settled top := by
  refine ⟨ht, h.ownSpaces hs.own, ?_⟩
  unfold Kernel.alive
  rw [h.tasks]
  exact hs.tasks

theorem cloneDirectory_settled (depth : ℕ) {src : ℕ} (hs : s.Settled top) (hsrc : src ∈ s.created) :
    Ends (cloneDirectory depth src s) (fun _ t => t.Settled top) (MidpointsOK top) := by
  refine (cloneDirectory_paged depth hs.paged hs.own hsrc).mono ?_ fun _ h => h
  rintro d t ht
  refine ⟨ht.paged, ht.use.ownSpaces hs.own, ?_⟩
  unfold Kernel.alive
  rw [ht.use.tasks]
  exact hs.tasks

theorem kmalloc_settled (depth : ℕ) {size : ℕ} (hs : s.Settled top) (hsize : size + 20 < 2 ^ 31)
    (align wantPhysical : Bool) :
    Ends (kmallocAt depth size align wantPhysical s) (fun _ t => t.Settled top)
      (MidpointsOK top) := by
  refine (kmallocAt_sound depth (hs.paged.sound hs.own) hsize align wantPhysical).mono ?_ fun _ h => h
  rintro block t ⟨htook, _⟩
  refine ⟨hs.paged.took htook, htook.sound.own, ?_⟩
  unfold Kernel.alive
  rw [htook.grew.kept.tasks]
  exact hs.tasks

theorem taskSwitch_settled (hs : s.Settled top) :
    Ends (taskSwitch s) (fun _ t => t.Settled top ∧ t.alive = s.alive) (MidpointsOK top) := by
  refine ends_get_bind (ends_get_bind ?_)
  by_cases hwild : findNextTask s.alive s.currentTask ≥ maxNumTasks
  · rw [if_pos hwild]
    exact ends_throw hs.paged.midpointsOK
  · rw [if_neg hwild]
    have hlt : findNextTask s.alive s.currentTask < maxNumTasks := Nat.lt_of_not_le hwild
    have halive : s.alive (findNextTask s.alive s.currentTask) = true := nextFrom_lt hlt
    have htask := hs.task hlt halive
    generalize findNextTask s.alive s.currentTask = next at *
    have hnext : ({ s with currentTask := next } : Kernel).Paged top :=
      hs.paged.same ⟨rfl, rfl, rfl, rfl, rfl, rfl, rfl, fun _ _ => rfl, fun _ _ _ => rfl, fun h => h,
        fun _ hp => hp, fun _ hp => Or.inl hp⟩
    refine ends_modify_bind (ends_get_bind (ends_get_bind ?_))
    refine ends_bind ((pageAddress_ends _ _).mono (fun _ _ h => h) ?_) ?_
    · rintro _ rfl
      exact hnext.midpointsOK
    rintro frame _ rfl
    refine ends_bind (mmMemcpyPhysical_paged hnext _ _ _) ?_
    rintro _ u ⟨hu, honly⟩
    have huse := honly.use
    have hown : OwnSpaces u := huse.ownSpaces hs.own
    have halive : u.alive = s.alive := by
      unfold Kernel.alive
      rw [huse.tasks]
    refine ends_modify ⟨⟨hu.same ⟨rfl, rfl, rfl, rfl, rfl, rfl, rfl, fun _ _ => rfl, fun _ _ _ => rfl,
      fun h => h, fun _ hp => hp, fun _ hp => Or.inl hp⟩, fun d hd => ?_, ?_⟩, halive⟩
    · rcases List.mem_cons.mp hd with rfl | hd
      · exact ⟨huse.created _ htask.1, huse.kernelDirectory ▸ htask.2⟩
      · exact hown d (List.mem_cons_of_mem _ hd)
    · unfold Kernel.alive
      rw [huse.tasks]
      exact hs.tasks

end Calls

end Evos
