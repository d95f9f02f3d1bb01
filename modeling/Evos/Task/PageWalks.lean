import Evos.Mm.BootWalks
import Evos.Task.KernelRun

/-! # The page walks in every run

The physical address that a directory keeps for one of its tables is right in every state reached. The
one of its own second page, which is what is loaded into `cr3`, was added up when the directory was
made: it is right for good if the two pages got frames that follow each other, and wrong for good
otherwise. -/

namespace Evos
open ByteMemory Segments Outcome Runs
set_option autoImplicit false

/-! ## The calls -/

/-- The calls of the kernel's users, and those that map single pages. -/
inductive PagingOp where
  | call (op : KernelOp)
  | getPage (address dir : ℕ)
  | pageAlloc (page : Option (ℕ × ℕ)) (writeable : Bool)

section Depth
variable (depth : ℕ)

/-- One call. -/
def performPaging : PagingOp → KM Unit
  | .call op => perform depth op
  | .getPage address dir => do let _ ← getPage depth address dir
  | .pageAlloc page writeable => pageAlloc page writeable

/-- One call that returns. -/
def pagingStep (op : PagingOp) (s : Kernel) : Option Kernel :=
  match performPaging depth op s with
  | .ok _ t => some t
  | .error _ _ => none

end Depth

/-- What the callers keep to: `get_page` works on a directory that was made, and makes no table in the
range of the heap, which is up to `expand`. -/
def PagingSafe : PagingOp → Kernel → Prop
  | .call op, s => KernelSafe op s
  | .getPage address dir, s => dir ∈ s.created ∧
    ((s.spaces.dirs dir).tables (tableIndex address) = 0 → TaskAddress address)
  | .pageAlloc _ _, _ => True

instance (op : PagingOp) (s : Kernel) : Decidable (PagingSafe op s) :=
  match op with
  | .call op => inferInstanceAs (Decidable (KernelSafe op s))
  | .getPage _ _ => inferInstanceAs (Decidable (_ ∧ (_ → _)))
  | .pageAlloc _ _ => isTrue trivial

/-- The calls that make a directory. -/
def PagingOp.clones : PagingOp → Bool
  | .call (.cloneDirectory _) => true
  | .call (.taskCreate _) => true
  | _ => false

/-- A directory is only made where its two pages get frames that follow each other. -/
def PagingContiguous (op : PagingOp) (s : Kernel) : Prop :=
  PagingSafe op s ∧ (op.clones = true → s.DirectoryContiguous)

/-! ## What a call without a new directory keeps -/

structure WalksKept (s t : Kernel) : Prop where
  walks : t.Walks
  pins : Pins s t
  created : t.created = s.created

section Kept
variable {s t u : Kernel} {top dir address : ℕ}

theorem WalksKept.trans (h : WalksKept s t) (h' : WalksKept t u) : WalksKept s u :=
  ⟨h'.walks, h.pins.trans h'.pins, h'.created.trans h.created⟩

theorem WalksKept.rows_iff (h : WalksKept s t) (hw : s.Walks) : t.Rows ↔ s.Rows := by
  have hrow : ∀ d ∈ s.created, (t.InARow d ↔ s.InARow d) := fun d hd =>
    (hw.dirs d hd).inARow_iff h.pins
  unfold Kernel.Rows
  rw [h.created]
  exact ⟨fun hr d hd => (hrow d hd).mp (hr d hd), fun hr d hd => (hrow d hd).mpr (hr d hd)⟩

theorem Kernel.Walks.of_spaces (hw : s.Walks) (hs : t.spaces = s.spaces)
    (hk : t.kernelDirectory = s.kernelDirectory) (hp : t.paging = s.paging)
    (hc : t.created = s.created) : WalksKept s t := by
  have hat : t.tableAt = s.tableAt := by
    unfold Kernel.tableAt
    rw [hs, hk]
  refine ⟨hw.congr (pins_of_spaces hs hk) hat (fun p hmem => ?_) hc fun d _ => by rw [hs],
    pins_of_spaces hs hk, hc⟩
  rw [hp]
  exact hmem

theorem Kernel.Walks.of_grew (hw : s.Walks) (hg : Grew s t) : WalksKept s t :=
  ⟨hw.grew hg, hg.pins, hg.kept.created⟩

theorem Kernel.Walks.addTable {index : ℕ} {block : ℕ × ℕ} (hs : s.Paged top) (hw : s.Walks)
    (hb : NewBlock s top pageTableSize block t) (hnone : (s.spaces.dirs dir).tables index = 0) :
    WalksKept t (t.addTable dir index block.1 block.2) := by
  have hwt := hw.grew hb.grew
  have hnew := (hb.new hs).2
  rw [← hb.grew.paging] at hnew
  have hne := hwt.table_ne hnew hb.inside
  have hnone' : (t.spaces.dirs dir).tables index = 0 := by
    rw [hb.grew.dirs]
    exact hnone
  have hpins : Pins t (t.addTable dir index block.1 block.2) := pins_addTable hne hnone'
  have hat : ∀ j, (t.addTable dir index block.1 block.2).tableAt j =
      if t.kernelDirectory = dir ∧ j = index then block.1 else t.tableAt j := fun j =>
    Kernel.addTable_entry t dir index block.1 block.2 t.kernelDirectory j
  refine ⟨⟨fun i j hi heq => ?_, fun i hi => ?_, fun d hd => ?_⟩, hpins, rfl⟩
  · rw [hat] at hi heq
    rw [hat] at heq
    by_cases h1 : t.kernelDirectory = dir ∧ i = index
    · by_cases h2 : t.kernelDirectory = dir ∧ j = index
      · exact h1.2.trans h2.2.symm
      · rw [if_pos h1, if_neg h2] at heq
        exact absurd heq.symm (hne j (heq ▸ hb.ne_zero))
    · rw [if_neg h1] at hi heq
      by_cases h2 : t.kernelDirectory = dir ∧ j = index
      · rw [if_pos h2] at heq
        exact absurd heq (hne i hi)
      · rw [if_neg h2] at heq
        exact hwt.apart i j hi heq
  · rw [hat] at hi ⊢
    by_cases h1 : t.kernelDirectory = dir ∧ i = index
    · rw [if_pos h1]
      exact Or.inr List.mem_cons_self
    · rw [if_neg h1] at hi ⊢
      exact (hwt.held i hi).imp id fun hp => List.mem_cons_of_mem _ hp
  · have hold := hwt.dirs d hd
    by_cases he : d = dir
    · subst he
      exact hold.setEntry (hb.entry (by decide)) hpins (Kernel.addTable_dir _ _ _ _ _)
    · exact hold.mono hpins (Kernel.setDir_of_ne he)

theorem getPage_walks (depth : ℕ) (hs : s.Paged top) (hu : OwnSpaces s) (hw : s.Walks) :
    Ends (getPage depth address dir s) (fun _ t => WalksKept s t) fun _ => True := by
  refine ends_get_bind ?_
  by_cases hne : (s.spaces.dirs dir).tables (tableIndex address) ≠ 0
  · rw [if_pos hne]
    exact ends_get_bind (ends_pure ⟨hw, Pins.refl s, rfl⟩)
  · rw [if_neg hne]
    refine ends_bind (kmallocAp_newBlock depth hs hu (by decide)) ?_
    rintro block t hb
    have hadded := hw.addTable hs hb (Decidable.not_not.mp hne)
    exact ends_modify_bind (ends_get_bind (ends_pure ((hw.of_grew hb.grew).trans hadded)))

theorem pageAlloc_walks (hs : s.Paged top) (hw : s.Walks) (page : Option (ℕ × ℕ)) (writeable : Bool) :
    Ends (pageAlloc page writeable s) (fun _ t => WalksKept s t) fun _ => True := by
  cases page with
  | none => exact ends_throw trivial
  | some page =>
    exact (pageAlloc_ends hs.framesOK page.1 page.2 writeable).mono
      (fun _ _ ht => hw.of_grew ht.grew) fun _ _ => trivial

theorem mapTaskPage_walks (depth : ℕ) (hs : s.Paged top) (hu : OwnSpaces s) (hw : s.Walks)
    (hd : dir ∈ s.created) (haddr : TaskAddress address) :
    Ends (mapTaskPage depth address dir s) (fun _ t => WalksKept s t) fun _ => True := by
  refine ends_bind (((getPage_paged depth hs hu hd fun _ => haddr).and
    (getPage_walks depth hs hu hw)).mono (fun _ _ h => h) fun _ _ => trivial) ?_
  rintro page t ⟨hmade, hkept⟩
  refine ends_bind (pageAlloc_walks hmade.paged hkept.walks page true) ?_
  rintro _ u hu'
  exact ends_pure (hkept.trans hu')

theorem mmMemcpyPhysical_walksKept (hs : s.Paged top) (hw : s.Walks) (destPhysical : ℕ)
    (src : ℕ → UInt8) (size : ℕ) :
    Ends (mmMemcpyPhysical destPhysical src size s) (fun _ t => WalksKept s t) fun _ => True :=
  ((mmMemcpyPhysical_paged hs destPhysical src size).and
    (mmMemcpyPhysical_pins hs hw.apart destPhysical src size)).mono
      (fun _ _ h => ⟨hw.pagesOnly h.1.2 h.2, h.2, h.1.2.created⟩) fun _ _ => trivial

end Kept

/-! ## The calls -/

section Calls
variable {s t : Kernel} {depth top pid : ℕ} {op : PagingOp}

theorem Kernel.directoryContiguous_setTask {s : Kernel} (pid : ℕ) (f : Task → Task) :
    (s.setTask pid f).DirectoryContiguous ↔ s.DirectoryContiguous := by
  have hframes : ∀ stop v, (s.setTask pid f).frameOf stop v = s.frameOf stop v := by
    intro stop v
    unfold Kernel.frameOf
    rw [framesFrom_congr (t := s.setTask pid f) (s := s) fun _ _ _ => rfl]
    rfl
  have harena : (s.setTask pid f).arena = s.arena := rfl
  unfold Kernel.DirectoryContiguous Kernel.directoryFrames
  rw [harena]
  simp only [hframes]

theorem createIn_walks (depth : ℕ) (hs : s.Settled top) (hw : s.Walks) (pid : ℕ)
    (image : ℕ → UInt8) :
    Ends (createIn depth pid image s)
      (fun _ t => t.Walks ∧ (t.Rows ↔ s.Rows ∧ s.DirectoryContiguous)) fun _ => True := by
  have htask : OwnSpaces (s.setTask pid fun _ => { Task.zero with
      pid := pid, alive := true, savedState := initialRegisters }) := hs.own.setTask _ (Or.inl rfl)
  have hkept : WalksKept s (s.setTask pid fun _ => { Task.zero with
      pid := pid, alive := true, savedState := initialRegisters }) := hw.of_spaces rfl rfl rfl rfl
  refine ends_modify_bind (ends_get_bind (ends_bind (((cloneDirectory_paged depth
    (hs.paged.setTask _) htask hs.current).and (cloneDirectory_walks depth (hs.paged.setTask _) htask
      hs.current hkept.walks)).mono (fun _ _ h => h) fun _ _ => trivial) ?_))
  rintro dir t ⟨ht, hcloned⟩
  have hrows : t.Rows ↔ s.Rows ∧ s.DirectoryContiguous := by
    rw [hcloned.rows_iff hkept.walks, hkept.rows_iff hw, Kernel.directoryContiguous_setTask]
  have hk := ht.ne hs.paged.kernel
  have hdir : dir ∈ t.created := by
    rw [ht.created]
    exact List.mem_cons_self
  have hown : OwnSpaces (t.setTask pid fun task => { task with pageDirectory := dir }) :=
    (ht.use.ownSpaces htask).setTask _ (Or.inr ⟨hdir, hk⟩)
  have hpaged : (t.setTask pid fun task => { task with pageDirectory := dir }).Paged top :=
    ht.paged.setTask _
  have hset : WalksKept t (t.setTask pid fun task => { task with pageDirectory := dir }) :=
    hcloned.walks.of_spaces rfl rfl rfl rfl
  refine ends_modify_bind (ends_bind (((mapTaskPage_paged depth hpaged hown hdir (by decide)).and
    (mapTaskPage_walks depth hpaged hown hset.walks hdir (by decide))).mono (fun _ _ h => h)
      fun _ _ => trivial) ?_)
  rintro imagePage t₁ ⟨⟨h₁, hu₁, hc₁, _⟩, hk₁⟩
  have hdir₁ : dir ∈ t₁.created := hc₁ ▸ hdir
  refine ends_bind (((mapTaskPage_paged depth h₁ (hu₁.ownSpaces hown) hdir₁ (by decide)).and
    (mapTaskPage_walks depth h₁ (hu₁.ownSpaces hown) hk₁.walks hdir₁ (by decide))).mono
      (fun _ _ h => h) fun _ _ => trivial) ?_
  rintro _ t₂ ⟨⟨h₂, hu₂, hc₂, _⟩, hk₂⟩
  have hdir₂ : dir ∈ t₂.created := hc₂ ▸ hdir₁
  have hown₂ := (hu₁.trans hu₂).ownSpaces hown
  refine ends_bind (((mapTaskPage_paged depth h₂ hown₂ hdir₂ (by decide)).and
    (mapTaskPage_walks depth h₂ hown₂ hk₂.walks hdir₂ (by decide))).mono
      (fun _ _ h => h) fun _ _ => trivial) ?_
  rintro _ t₃ ⟨⟨h₃, _, _, _⟩, hk₃⟩
  refine ends_bind ((pageAddress_ends imagePage t₃).mono (fun _ _ h => h) fun _ _ => trivial) ?_
  rintro frame u rfl
  refine ends_bind (mmMemcpyPhysical_walksKept h₃ hk₃.walks _ image 0x1000) ?_
  rintro _ t₄ hk₄
  have hall := hset.trans (hk₁.trans (hk₂.trans (hk₃.trans hk₄)))
  exact ends_pure ⟨hall.walks, (hall.rows_iff hcloned.walks).trans hrows⟩

theorem taskSwitch_walks (hs : s.Settled top) (hw : s.Walks) :
    Ends (taskSwitch s) (fun _ t => WalksKept s t) fun _ => True := by
  refine ends_get_bind (ends_get_bind ?_)
  by_cases hwild : findNextTask s.alive s.currentTask ≥ maxNumTasks
  · rw [if_pos hwild]
    exact ends_throw trivial
  · rw [if_neg hwild]
    generalize findNextTask s.alive s.currentTask = next
    have hnext : ({ s with currentTask := next } : Kernel).Paged top :=
      hs.paged.same ⟨rfl, rfl, rfl, rfl, rfl, rfl, rfl, fun _ _ => rfl, fun _ _ _ => rfl, fun h => h,
        fun _ hp => hp, fun _ hp => Or.inl hp⟩
    have hkept : WalksKept s { s with currentTask := next } := hw.of_spaces rfl rfl rfl rfl
    refine ends_modify_bind (ends_get_bind (ends_get_bind ?_))
    refine ends_bind ((pageAddress_ends _ _).mono (fun _ _ h => h) fun _ _ => trivial) ?_
    rintro frame _ rfl
    refine ends_bind (mmMemcpyPhysical_walksKept hnext hkept.walks _ _ _) ?_
    rintro _ u hu
    exact ends_modify (hkept.trans (hu.trans (hu.walks.of_spaces rfl rfl rfl rfl)))

/-- The walks behind a call: in order, and the directories in rows as they were, but for a new one. -/
structure CallWalks (op : PagingOp) (s t : Kernel) : Prop where
  walks : t.Walks
  rows : t.Rows ↔ s.Rows ∧ (op.clones = true → s.DirectoryContiguous)

theorem WalksKept.call (h : WalksKept s t) (hw : s.Walks) (hop : op.clones = false) :
    CallWalks op s t := by
  refine ⟨h.walks, (h.rows_iff hw).trans ⟨fun hr => ⟨hr, fun hc => ?_⟩, fun hr => hr.1⟩⟩
  rw [hop] at hc
  cases hc

theorem callWalks_of_rows (ht : t.Walks) (hop : op.clones = true)
    (hr : t.Rows ↔ s.Rows ∧ s.DirectoryContiguous) : CallWalks op s t := by
  refine ⟨ht, hr.trans (and_congr_right fun _ => ?_)⟩
  exact ⟨fun hc _ => hc, fun hc => hc hop⟩

theorem perform_walks (depth : ℕ) {op : KernelOp} (hs : s.Settled top) (hw : s.Walks)
    (hok : KernelSafe op s) :
    Ends (perform depth op s) (fun _ t => CallWalks (.call op) s t) fun _ => True := by
  have hsound := hs.paged.sound hs.own
  have hkmalloc : ∀ size align, size + 20 < 2 ^ 31 →
      Ends (kmallocAt depth size align false s) (fun _ t => WalksKept s t) fun _ => True := by
    intro size align hsize
    exact (kmallocAt_sound depth hsound hsize align false).mono
      (fun _ _ h => hw.of_grew h.1.grew) fun _ _ => trivial
  cases op with
  | kmalloc size => exact ends_bind (hkmalloc size false hok) fun _ _ h => ends_pure (h.call hw rfl)
  | kmallocA size => exact ends_bind (hkmalloc size true hok) fun _ _ h => ends_pure (h.call hw rfl)
  | kfree ptr =>
    refine (kfree_ends hs.paged hok).mono ?_ fun _ _ => trivial
    rintro _ t ⟨_, h, ht⟩
    exact (hw.of_spaces (by rw [ht]) (by rw [ht]) (by rw [ht]) (by rw [ht])).call hw rfl
  | write address value =>
    change Ends (writeByte address value s) _ _
    unfold writeByte
    cases writeStep address value s.heap with
    | none => exact ends_error trivial
    | some h =>
      have hkept : WalksKept s { s with heap := h } := hw.of_spaces rfl rfl rfl rfl
      exact ends_ok (hkept.call hw rfl)
  | cloneDirectory src =>
    refine ends_bind (cloneDirectory_walks depth hs.paged hs.own hok hw) ?_
    intro dir t ht
    exact ends_pure (callWalks_of_rows ht.walks rfl (ht.rows_iff hw))
  | taskCreate image =>
    refine ends_bind (Q := fun _ t => CallWalks (.call (.taskCreate image)) s t) (ends_get_bind ?_)
      fun _ _ ht => ends_pure ht
    cases findAvailableTask s.alive with
    | none => exact ends_throw trivial
    | some pid =>
      exact (createIn_walks depth hs hw pid image).mono
        (fun _ _ ht => callWalks_of_rows ht.1 rfl ht.2) fun _ h => h
  | taskSwitch =>
    exact (taskSwitch_walks hs hw).mono (fun _ _ h => h.call hw rfl) fun _ h => h

theorem performPaging_walks (depth : ℕ) (hs : s.Settled top) (hw : s.Walks) (hok : PagingSafe op s) :
    Ends (performPaging depth op s) (fun _ t => CallWalks op s t) fun _ => True := by
  cases op with
  | call op => exact perform_walks depth hs hw hok
  | getPage address dir =>
    exact ends_bind (getPage_walks depth hs.paged hs.own hw) fun _ _ h => ends_pure (h.call hw rfl)
  | pageAlloc page writeable =>
    exact (pageAlloc_walks hs.paged hw page writeable).mono (fun _ _ h => h.call hw rfl) fun _ h => h

theorem performPaging_settled (depth : ℕ) (hs : s.Settled top) (hok : PagingSafe op s) :
    Ends (performPaging depth op s) (fun _ t => t.Settled top) fun _ => True := by
  cases op with
  | call op => exact (perform_settled depth hs hok).mono (fun _ _ h => h) fun _ _ => trivial
  | getPage address dir =>
    refine ends_bind ((getPage_paged depth hs.paged hs.own hok.1 hok.2).mono (fun _ _ h => h)
      fun _ _ => trivial) ?_
    rintro page t ht
    exact ends_pure (hs.sameUse ht.paged ht.use)
  | pageAlloc page writeable =>
    cases page with
    | none => exact ends_throw trivial
    | some page =>
      exact (pageAlloc_ends hs.paged.framesOK page.1 page.2 writeable).mono
        (fun _ _ ht => hs.sameUse (hs.paged.pageAllocated ht) ht.kept.sameUse) fun _ _ => trivial

end Calls

/-! ## Runs -/

section Runs
variable {o boot u s t : Kernel} {depth : ℕ} {op : PagingOp}

theorem ok_of_pagingStep (h : pagingStep depth op s = some t) :
    ∃ a, performPaging depth op s = .ok a t := by
  unfold pagingStep at h
  cases hp : performPaging depth op s with
  | ok a v =>
    rw [hp] at h
    cases h
    exact ⟨a, rfl⟩
  | error e v =>
    rw [hp] at h
    cases h

section Boot
variable (ho : o.Startup) (hc : o.ClearOfCloning) (hb : initPaging depth o = .ok () boot)

include ho hc hb

theorem walks_of_run (r : Run (pagingStep depth) PagingSafe boot s) :
    s.Settled o.bootTop ∧ s.Walks := by
  obtain ⟨u, hu⟩ := (initPaging_walks depth ho hc).ok hb
  refine r.invariant (I := fun x => x.Settled o.bootTop ∧ x.Walks)
    ⟨((initPaging_settled depth ho).ok hb).1, hu.walks⟩ ?_
  rintro op x y ⟨hx, hwx⟩ hok hxy
  obtain ⟨a, hperform⟩ := ok_of_pagingStep hxy
  exact ⟨(performPaging_settled depth hx hok).ok hperform,
    ((performPaging_walks depth hx hwx hok).ok hperform).walks⟩

/-- In every state reached, a directory keeps the physical addresses of its tables, and 0 where it has
none; that of its second page is right exactly where its two pages lie in frames in a row. -/
theorem tablesPhysicalAddr_of_run (r : Run (pagingStep depth) PagingSafe boot s) {d : ℕ}
    (hd : d ∈ s.created) :
    (∀ i, ((s.spaces.dirs d).tables i ≠ 0 → ∃ x, s.phys ((s.spaces.dirs d).tables i) = some x ∧
        (s.spaces.dirs d).tablesPhysicalAddr i = x ||| 7) ∧
      ((s.spaces.dirs d).tables i = 0 → (s.spaces.dirs d).tablesPhysicalAddr i = 0)) ∧
    (s.phys (d + 4096) = some (s.spaces.dirs d).ismetaTablesPhysicalAddr ↔ s.InARow d) := by
  have hok := (walks_of_run ho hc hb r).2.dirs d hd
  exact ⟨hok.tables_agree, hok.ismeta_iff⟩

/-- The walks agree in a state exactly if it can be reached by calls that make directories only where
the heap's next two pages have frames that follow each other, from a boot that did. -/
theorem walksAgree_iff_of_run (hu : beforeClone depth o = .ok () u)
    (r : Run (pagingStep depth) PagingSafe boot s) :
    s.WalksAgree ↔
      u.DirectoryContiguous ∧ Run (pagingStep depth) PagingContiguous boot s := by
  obtain ⟨v, hv⟩ := (initPaging_walks depth ho hc).ok hb
  have hboot : boot.Rows ↔ u.DirectoryContiguous := by
    cases hu.symm.trans hv.before
    exact hv.rows
  have hrows : s.Rows ↔ u.DirectoryContiguous ∧ Run (pagingStep depth) PagingContiguous boot s := by
    constructor
    · intro hs
      induction r with
      | refl => exact ⟨hboot.mp hs, Run.refl _⟩
      | tail r hm ih =>
        obtain ⟨op, hok, hxy⟩ := hm
        obtain ⟨a, hperform⟩ := ok_of_pagingStep hxy
        obtain ⟨hx, hwx⟩ := walks_of_run ho hc hb r
        obtain ⟨hold, hcontiguous⟩ := ((performPaging_walks depth hx hwx hok).ok hperform).rows.mp hs
        obtain ⟨hdc, hrun⟩ := ih hold
        exact ⟨hdc, Run.tail hrun ⟨hok, hcontiguous⟩ hxy⟩
    · rintro ⟨hdc, hrun⟩
      have hinv : s.Settled o.bootTop ∧ s.Walks ∧ s.Rows := by
        refine hrun.invariant (I := fun x => x.Settled o.bootTop ∧ x.Walks ∧ x.Rows)
          ⟨((initPaging_settled depth ho).ok hb).1, hv.walks, hboot.mpr hdc⟩ ?_
        rintro op x y ⟨hx, hwx, hrx⟩ ⟨hok, hcontiguous⟩ hxy
        obtain ⟨a, hperform⟩ := ok_of_pagingStep hxy
        have hcall := (performPaging_walks depth hx hwx hok).ok hperform
        exact ⟨(performPaging_settled depth hx hok).ok hperform, hcall.walks,
          hcall.rows.mpr ⟨hrx, hcontiguous⟩⟩
      exact hinv.2.2
  exact (walks_of_run ho hc hb r).2.agree_iff.trans hrows

end Boot

end Runs

/-! ## A machine with 1 MiB of memory -/

section Machine

/-- The last call makes a directory in a block whose pages were taken at different times. -/
def scattered : List PagingOp :=
  [.call (.kmalloc 40916), .call (.kmalloc 4088), .call (.kmalloc 100), .call (.kfree 0x0f01000c),
    .call (.kfree 0x0f00f000), .call (.cloneDirectory 0x0f003000)]

set_option maxRecDepth 100000 in
theorem scattered_run : ∃ boot s, initPaging 3 (lowKernel 0x1000 8) = .ok () boot ∧
    trace (pagingStep 3) PagingSafe scattered boot = some s ∧ 0x0f00f000 ∈ s.created ∧
    s.phys (0x0f00f000 + 4096) ≠ some (s.spaces.dirs 0x0f00f000).ismetaTablesPhysicalAddr := by
  have hrun : ((booted 3 (lowKernel 0x1000 8)).bind (trace (pagingStep 3) PagingSafe scattered)).any
      (fun s => decide (0x0f00f000 ∈ s.created ∧ s.phys (0x0f00f000 + 4096) ≠
        some (s.spaces.dirs 0x0f00f000).ismetaTablesPhysicalAddr)) = true := by decide +kernel
  obtain ⟨s, hs, hwrong⟩ := (Option.any_eq_true _ _).mp hrun
  obtain ⟨boot, hb, ht⟩ := Option.bind_eq_some_iff.mp hs
  exact ⟨boot, s, booted_some hb, ht, of_decide_eq_true hwrong⟩

theorem tablesPhysicalAddr_of_scattered : ∃ s : Kernel, ∃ d ∈ s.created,
    (∀ i, ((s.spaces.dirs d).tables i ≠ 0 → ∃ x, s.phys ((s.spaces.dirs d).tables i) = some x ∧
        (s.spaces.dirs d).tablesPhysicalAddr i = x ||| 7) ∧
      ((s.spaces.dirs d).tables i = 0 → (s.spaces.dirs d).tablesPhysicalAddr i = 0)) ∧
    (s.phys (d + 4096) = some (s.spaces.dirs d).ismetaTablesPhysicalAddr ↔ s.InARow d) := by
  obtain ⟨boot, s, hb, ht, hd, _⟩ := scattered_run
  exact ⟨s, _, hd, tablesPhysicalAddr_of_run (lowKernel_startup (by decide) (by decide)) (by decide) hb
    (Run.of_trace ht) hd⟩

/-- The law fails behind this run, so no run that ends there makes directories in a row only. -/
theorem walksAgree_iff_scattered : ∃ boot s, ∃ u : Kernel,
    initPaging 3 (lowKernel 0x1000 8) = .ok () boot ∧
    trace (pagingStep 3) PagingSafe scattered boot = some s ∧ ¬s.WalksAgree ∧
    (s.WalksAgree ↔ u.DirectoryContiguous ∧ Run (pagingStep 3) PagingContiguous boot s) := by
  obtain ⟨boot, s, hb, ht, hd, hwrong⟩ := scattered_run
  have ho : (lowKernel 0x1000 8).Startup := lowKernel_startup (by decide) (by decide)
  have hc : (lowKernel 0x1000 8).ClearOfCloning := by decide
  obtain ⟨u, hu⟩ := (initPaging_walks 3 ho hc).ok hb
  exact ⟨boot, s, u, hb, ht, fun h => hwrong (h.ismeta _ hd),
    walksAgree_iff_of_run ho hc hb hu.before (Run.of_trace ht)⟩

end Machine

end Evos
