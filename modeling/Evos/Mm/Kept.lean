import Evos.Kheap.Host
import Evos.Mm.Paging

/-! # What `kmalloc` leaves alone

In any state, however deep the nesting and however the call ends: the directories other than the
kernel's, the tasks, what is loaded, and the bounds of the heap. -/

namespace Evos
open ByteMemory Outcome
set_option autoImplicit false

/-! ## Tables and pages by number -/

/-- The table of the kernel's directory for the pages from `1024 * j` on, 0 where there is none. -/
def Kernel.tableAt (s : Kernel) (j : ℕ) : ℕ := (s.spaces.dirs s.kernelDirectory).tables j

/-- Page `v` of the kernel's directory. -/
def Kernel.pageAt (s : Kernel) (v : ℕ) : Page := s.spaces.tables (s.tableAt (v / 1024)) (v % 1024)

/-! ## Setters -/

section Setters
variable (s : Kernel) (d t i : ℕ) (x : PageDirectory) (y : PageTable) (p : Page) (a : Arena)

@[simp] theorem Kernel.setArena_spaces : (s.setArena a).spaces = s.spaces := rfl
@[simp] theorem Kernel.setArena_arena : (s.setArena a).arena = a := rfl
@[simp] theorem Kernel.setArena_live : (s.setArena a).heap.live = s.heap.live := rfl
@[simp] theorem Kernel.setArena_kernelDirectory :
    (s.setArena a).kernelDirectory = s.kernelDirectory := rfl
@[simp] theorem Kernel.setTable_dirs : (s.setTable t y).spaces.dirs = s.spaces.dirs := rfl
@[simp] theorem Kernel.setDir_tables : (s.setDir d x).spaces.tables = s.spaces.tables := rfl
@[simp] theorem Kernel.setPage_dirs : (s.setPage t i p).spaces.dirs = s.spaces.dirs := rfl
@[simp] theorem Kernel.setDir_self : (s.setDir d x).spaces.dirs d = x := if_pos rfl
@[simp] theorem Kernel.setTable_self : (s.setTable t y).spaces.tables t = y := if_pos rfl

variable {s d t i x y p}

theorem Kernel.setDir_of_ne {e : ℕ} (h : e ≠ d) : (s.setDir d x).spaces.dirs e = s.spaces.dirs e :=
  if_neg h

theorem Kernel.setTable_of_ne {u : ℕ} (h : u ≠ t) :
    (s.setTable t y).spaces.tables u = s.spaces.tables u := if_neg h

theorem Kernel.setPage_of_ne {u : ℕ} (h : u ≠ t) :
    (s.setPage t i p).spaces.tables u = s.spaces.tables u := if_neg h

theorem Kernel.setPage_self (j : ℕ) :
    (s.setPage t i p).spaces.tables t j = if j = i then p else s.spaces.tables t j := by
  unfold Kernel.setPage
  rw [Kernel.setTable_self]

theorem PageDirectory.setEntry_self {z w : ℕ} : (x.setEntry i z w).tables i = z := if_pos rfl

theorem PageDirectory.setEntry_of_ne {j z w : ℕ} (h : j ≠ i) :
    (x.setEntry i z w).tables j = x.tables j := if_neg h

theorem PageDirectory.setEntry_physical_self {z w : ℕ} :
    (x.setEntry i z w).tablesPhysicalAddr i = w := if_pos rfl

theorem PageDirectory.setEntry_physical_of_ne {j z w : ℕ} (h : j ≠ i) :
    (x.setEntry i z w).tablesPhysicalAddr j = x.tablesPhysicalAddr j := if_neg h

end Setters

/-! ## A table entered in a directory -/

section AddTable
variable (s : Kernel) (dir index table physical : ℕ)

@[simp] theorem Kernel.addTable_kernelHeap :
    (s.addTable dir index table physical).kernelHeap = s.kernelHeap := rfl
@[simp] theorem Kernel.addTable_heap : (s.addTable dir index table physical).heap = s.heap := rfl
@[simp] theorem Kernel.addTable_frames : (s.addTable dir index table physical).frames = s.frames := rfl
@[simp] theorem Kernel.addTable_kernelDirectory :
    (s.addTable dir index table physical).kernelDirectory = s.kernelDirectory := rfl
@[simp] theorem Kernel.addTable_memFirstUnused :
    (s.addTable dir index table physical).memFirstUnused = s.memFirstUnused := rfl
@[simp] theorem Kernel.addTable_created : (s.addTable dir index table physical).created = s.created := rfl
@[simp] theorem Kernel.addTable_midpoints :
    (s.addTable dir index table physical).midpoints = s.midpoints := rfl
@[simp] theorem Kernel.addTable_tasks : (s.addTable dir index table physical).tasks = s.tasks := rfl
@[simp] theorem Kernel.addTable_paging :
    (s.addTable dir index table physical).paging = table :: s.paging := rfl
@[simp] theorem Kernel.addTable_dir : (s.addTable dir index table physical).spaces.dirs dir =
    (s.spaces.dirs dir).setEntry index table (physical ||| 7) := if_pos rfl
@[simp] theorem Kernel.addTable_linear : (s.addTable dir index table physical).linear = s.linear := rfl

theorem Kernel.addTable_tables (v : ℕ) :
    (s.addTable dir index table physical).spaces.tables v =
      if v = table then PageTable.zero else s.spaces.tables v := rfl

theorem Kernel.addTable_entry (d i : ℕ) :
    ((s.addTable dir index table physical).spaces.dirs d).tables i =
      if d = dir ∧ i = index then table else (s.spaces.dirs d).tables i := by
  by_cases hd : d = dir
  · subst hd
    rw [Kernel.addTable_dir]
    by_cases hi : i = index
    · rw [if_pos ⟨rfl, hi⟩, hi, PageDirectory.setEntry_self]
    · rw [if_neg fun he => hi he.2, PageDirectory.setEntry_of_ne hi]
  · rw [if_neg fun he => hd he.1]
    exact congrArg (fun x => PageDirectory.tables x i) (if_neg hd)

theorem Kernel.findPage_addTable (address : ℕ) {table : ℕ} (h : table ≠ 0) :
    (s.addTable dir (tableIndex address) table physical).findPage address dir =
      some (table, pageIndex address) := by
  have hentry := Kernel.addTable_entry s dir (tableIndex address) table physical dir
    (tableIndex address)
  rw [if_pos ⟨rfl, rfl⟩] at hentry
  unfold Kernel.findPage
  rw [hentry, if_pos h]

end AddTable

/-! ## `page_alloc` -/

/-- `page_alloc` leaves a page that has an address, and maps one that has none to a new frame. -/
theorem ends_pageAlloc {s : Kernel} {t i : ℕ} {w : Bool} {Q : Unit → Kernel → Prop}
    {E : Kernel → Prop} (hskip : (s.spaces.tables t i).address ≠ 0 → Q () s)
    (hnew : ∀ f ws, (s.spaces.tables t i).address = 0 →
      frameAlloc Words.list s.frames.length s.frames = .ok (f, ws) →
      Q () ({ s with frames := ws }.setPage t i ⟨true, w, true, f % 2 ^ 20⟩))
    (he : ∀ e, (s.spaces.tables t i).address = 0 →
      frameAlloc Words.list s.frames.length s.frames = .error e → E s) :
    Ends (pageAlloc (some (t, i)) w s) Q E := by
  refine ends_get_bind ?_
  by_cases h : (s.spaces.tables t i).address ≠ 0
  · rw [if_pos h]
    exact ends_pure (hskip h)
  · have h0 : (s.spaces.tables t i).address = 0 := Decidable.not_not.mp h
    rw [if_neg h]
    refine ends_bind (Q := fun f u => ∃ ws,
      frameAlloc Words.list s.frames.length s.frames = .ok (f, ws) ∧ u = { s with frames := ws })
      ?_ ?_
    · unfold allocFrame
      cases hf : frameAlloc Words.list s.frames.length s.frames with
      | ok r => exact ends_ok ⟨r.2, rfl, rfl⟩
      | error e => exact ends_error (he e h0 hf)
    · rintro f u ⟨ws, hf, rfl⟩
      exact ends_modify (hnew f ws h0 hf)

/-! ## The relation -/

/-- What no `kmalloc` changes. -/
structure Kept (s t : Kernel) : Prop where
  kernelHeap : t.kernelHeap = s.kernelHeap
  first : s.kernelHeap = true → t.memFirstUnused = s.memFirstUnused
  kernelDirectory : t.kernelDirectory = s.kernelDirectory
  currentDirectory : t.currentDirectory = s.currentDirectory
  cr3 : t.cr3 = s.cr3
  cloningBufferPage : t.cloningBufferPage = s.cloningBufferPage
  ram : t.ram = s.ram
  tasks : t.tasks = s.tasks
  currentTask : t.currentTask = s.currentTask
  created : t.created = s.created
  dirs : ∀ d, d ≠ s.kernelDirectory → t.spaces.dirs d = s.spaces.dirs d
  bounds : SameBounds s.arena t.arena
  frames : t.frames.length = s.frames.length

theorem Kept.refl (s : Kernel) : Kept s s :=
  ⟨rfl, fun _ => rfl, rfl, rfl, rfl, rfl, rfl, rfl, rfl, rfl, fun _ _ => rfl, SameBounds.refl _, rfl⟩

theorem Kept.trans {s t u : Kernel} (h : Kept s t) (h' : Kept t u) : Kept s u where
  kernelHeap := h'.kernelHeap.trans h.kernelHeap
  first hs := (h'.first (h.kernelHeap.trans hs)).trans (h.first hs)
  kernelDirectory := h'.kernelDirectory.trans h.kernelDirectory
  currentDirectory := h'.currentDirectory.trans h.currentDirectory
  cr3 := h'.cr3.trans h.cr3
  cloningBufferPage := h'.cloningBufferPage.trans h.cloningBufferPage
  ram := h'.ram.trans h.ram
  tasks := h'.tasks.trans h.tasks
  currentTask := h'.currentTask.trans h.currentTask
  created := h'.created.trans h.created
  dirs d hd := (h'.dirs d (by rw [h.kernelDirectory]; exact hd)).trans (h.dirs d hd)
  bounds := h.bounds.trans h'.bounds
  frames := h'.frames.trans h.frames

theorem Kept.inUse {s t : Kernel} (h : Kept s t) : t.inUse = s.inUse := by
  unfold Kernel.inUse Kernel.taskDirectories Kernel.alive
  rw [h.currentDirectory, h.tasks]

section Steps
variable {s : Kernel}

theorem kept_setArena {a : Arena} (h : SameBounds s.arena a) : Kept s (s.setArena a) :=
  ⟨rfl, fun _ => rfl, rfl, rfl, rfl, rfl, rfl, rfl, rfl, rfl, fun _ _ => rfl, h, rfl⟩

theorem kept_setPage (t i : ℕ) (p : Page) : Kept s (s.setPage t i p) :=
  ⟨rfl, fun _ => rfl, rfl, rfl, rfl, rfl, rfl, rfl, rfl, rfl, fun _ _ => rfl, SameBounds.refl _, rfl⟩

theorem kept_addTable (index table physical : ℕ) :
    Kept s (s.addTable s.kernelDirectory index table physical) :=
  ⟨rfl, fun _ => rfl, rfl, rfl, rfl, rfl, rfl, rfl, rfl, rfl, fun _ hd => Kernel.setDir_of_ne hd,
    SameBounds.refl _, rfl⟩

theorem frameAlloc_length {size f : ℕ} {ws ws' : List ℕ}
    (h : frameAlloc Words.list size ws = .ok (f, ws')) : ws'.length = ws.length := by
  obtain ⟨_, _, _, rfl⟩ := frameAlloc_ok h
  unfold bitsetSet
  split
  · rfl
  · exact List.length_set

theorem kept_withFrames {ws : List ℕ} (h : ws.length = s.frames.length) :
    Kept s { s with frames := ws } :=
  ⟨rfl, fun _ => rfl, rfl, rfl, rfl, rfl, rfl, rfl, rfl, rfl, fun _ _ => rfl, SameBounds.refl _, h⟩

theorem allocFrame_kept (s : Kernel) : Ends (allocFrame s) (fun _ t => Kept s t) fun t => Kept s t := by
  unfold allocFrame
  split
  · rename_i frame frames he
    exact ends_ok (kept_withFrames (frameAlloc_length he))
  · exact ends_error (Kept.refl s)

theorem pageAlloc_kept (page : Option (ℕ × ℕ)) (writeable : Bool) (s : Kernel) :
    Ends (pageAlloc page writeable s) (fun _ t => Kept s t) fun t => Kept s t := by
  cases page with
  | none => exact ends_throw (Kept.refl s)
  | some page =>
    refine ends_get_bind ?_
    by_cases h : (s.spaces.tables page.1 page.2).address ≠ 0
    · rw [if_pos h]
      exact ends_pure (Kept.refl s)
    · rw [if_neg h]
      refine ends_bind (allocFrame_kept s) fun frame t ht => ends_modify (ht.trans ?_)
      exact kept_setPage _ _ _

theorem getPageWith_kept {alloc : ℕ → KM (ℕ × ℕ)}
    (ha : ∀ n s, Ends (alloc n s) (fun _ t => Kept s t) fun t => Kept s t) (address : ℕ)
    (s : Kernel) :
    Ends (getPageWith alloc address s.kernelDirectory s) (fun _ t => Kept s t) fun t => Kept s t := by
  refine ends_get_bind ?_
  by_cases h : (s.spaces.dirs s.kernelDirectory).tables (tableIndex address) ≠ 0
  · rw [if_pos h]
    exact ends_get_bind (ends_pure (Kept.refl s))
  · rw [if_neg h]
    refine ends_bind (ha pageTableSize s) fun block t ht => ends_modify_bind (ends_get_bind
      (ends_pure (ht.trans ?_)))
    rw [← ht.kernelDirectory]
    exact kept_addTable _ _ _

/-- An access changes nothing, and stops where the loaded directory maps nothing. -/
theorem ends_touch {address : ℕ} {Q : Unit → Kernel → Prop} {E : Kernel → Prop}
    (hq : s.spaces.translate s.cr3 address ≠ none → Q () s)
    (he : s.spaces.translate s.cr3 address = none → E s) : Ends (touch address s) Q E := by
  refine ends_get_bind (ends_get_bind ?_)
  cases h : s.spaces.translate s.cr3 address with
  | some f => exact ends_pure (hq (by simp [h]))
  | none => exact ends_throw (he h)

theorem touch_kept (address : ℕ) (s : Kernel) :
    Ends (touch address s) (fun _ t => Kept s t) fun t => Kept s t :=
  ends_touch (fun _ => Kept.refl s) fun _ => Kept.refl s

theorem physicalOf_kept (address : ℕ) (s : Kernel) :
    Ends (physicalOf address s) (fun _ t => t = s) fun t => t = s := by
  refine ends_get_bind (ends_get_bind ?_)
  cases s.findPage address s.kernelDirectory with
  | none => exact ends_throw rfl
  | some page => exact ends_get_bind (ends_pure rfl)

theorem kernelHost_frame {gp : ℕ → ℕ → KM (Option (ℕ × ℕ))}
    (hg : ∀ x s, Ends (gp x s.kernelDirectory s) (fun _ t => Kept s t) fun t => Kept s t) :
    HostFrame (kernelHost gp) Kept where
  refl := Kept.refl
  trans := Kept.trans
  arena s a h := kept_setArena h
  mapPage s x := by
    refine ends_get_bind (ends_bind (hg x s) fun page t ht => ends_get_bind ?_)
    exact (pageAlloc_kept page _ t).mono (fun _ _ h => ht.trans h) fun _ h => ht.trans h
  enterPages s x y := by
    have hlog : Kept s { s with midpoints := s.midpoint :: s.midpoints } :=
      ⟨rfl, fun _ => rfl, rfl, rfl, rfl, rfl, rfl, rfl, rfl, rfl, fun _ _ => rfl, SameBounds.refl _,
        rfl⟩
    refine ends_modify_bind (ends_bind ((touch_kept x _).mono (fun _ _ h => hlog.trans h)
      fun _ h => hlog.trans h) fun _ t ht => ?_)
    exact (touch_kept _ t).mono (fun _ _ h => ht.trans h) fun _ h => ht.trans h

end Steps

theorem kmallocAt_kept (depth size : ℕ) (align wantPhysical : Bool) (s : Kernel) :
    Ends (kmallocAt depth size align wantPhysical s) (fun _ t => Kept s t) fun t => Kept s t := by
  induction depth generalizing size align wantPhysical s with
  | zero => exact ends_throw (Kept.refl s)
  | succ depth ih =>
    refine ends_get_bind ?_
    cases hk : s.kernelHeap with
    | true =>
      have F := kernelHost_frame fun x t => getPageWith_kept (fun n u => ih n true true u) x t
      refine ends_bind (F.heapAlloc size align s) fun new t ht => ends_modify_bind ?_
      have htook : Kept s (t.tookBlock new size) := ht.trans
        ⟨rfl, fun _ => rfl, rfl, rfl, rfl, rfl, rfl, rfl, rfl, rfl, fun _ _ => rfl,
          SameBounds.refl _, rfl⟩
      cases wantPhysical with
      | true =>
        refine ends_bind ((physicalOf_kept new (t.tookBlock new size)).mono
          (fun _ u hu => hu ▸ htook) fun u hu => hu ▸ htook) fun physical u hu => ends_pure hu
      | false => exact ends_pure htook
    | false =>
      refine ends_modify_bind (ends_pure ⟨rfl, fun h => ?_, rfl, rfl, rfl, rfl, rfl, rfl, rfl, rfl,
        fun _ _ => rfl, SameBounds.refl _, rfl⟩)
      rw [hk] at h
      cases h

end Evos
