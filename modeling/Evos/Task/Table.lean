import Evos.Panic

/-! # The task table of `task/task.c`

`tasks` is read at every index: from `MAX_NUM_TASKS` on, the fields are what memory behind the array
holds, and nothing in the kernel writes them. -/

namespace Evos
set_option autoImplicit false

def maxNumTasks : ℕ := 256
def taskImageBase : ℕ := 0x10000000
def taskKernelStackBottom : ℕ := 0x20000000
def taskUserStackBottom : ℕ := 0xF0000000

/-- `(pid_t) -1`. -/
def noPid : ℕ := 0xFFFFFFFF

/-- `registers_t`. -/
structure Registers where
  ds : ℕ
  edi : ℕ
  esi : ℕ
  ebp : ℕ
  esp : ℕ
  ebx : ℕ
  edx : ℕ
  ecx : ℕ
  eax : ℕ
  intNo : ℕ
  errCode : ℕ
  eip : ℕ
  cs : ℕ
  eflags : ℕ
  useresp : ℕ
  ss : ℕ
  deriving DecidableEq

/-- All bytes zero. -/
def Registers.zero : Registers := ⟨0, 0, 0, 0, 0, 0, 0, 0, 0, 0, 0, 0, 0, 0, 0, 0⟩

/-- `task_t`. -/
structure Task where
  pid : ℕ
  alive : Bool
  pageDirectory : ℕ
  savedState : Registers
  deriving DecidableEq

/-- All bytes zero. -/
def Task.zero : Task := ⟨0, false, 0, Registers.zero⟩

/-! ## Looking for a task -/

/-- `find_available_task`; `none` is its panic. -/
def findAvailableTask (alive : ℕ → Bool) : Option ℕ :=
  (List.range maxNumTasks).find? fun i => !alive i

/-- The loop of `find_next_task` with `n` rounds to go. -/
def nextFrom (alive : ℕ → Bool) : ℕ → ℕ → ℕ
  | 0, _ => noPid
  | n + 1, next => if alive next then next else nextFrom alive n (u32 (next + 1) % maxNumTasks)

/-- `find_next_task`: round robin from the slot after `current_task`. -/
def findNextTask (alive : ℕ → Bool) (currentTask : ℕ) : ℕ :=
  nextFrom alive maxNumTasks (u32 (currentTask + 1))

/-! ## What they find -/

section Find
variable {alive : ℕ → Bool} {k n next : ℕ}

theorem findAvailableTask_some {i : ℕ} (h : findAvailableTask alive = some i) :
    i < maxNumTasks ∧ alive i = false ∧ ∀ j < i, alive j = true := by
  obtain ⟨hi, as, bs, hsplit, hbefore⟩ := List.find?_eq_some_iff_append.mp h
  have hlen : as.length = i := by
    have hget : (List.range maxNumTasks)[as.length]? = some i := by
      rw [hsplit]
      simp
    obtain ⟨hlt, he⟩ := List.getElem?_eq_some_iff.mp hget
    rw [List.getElem_range] at he
    exact he
  refine ⟨?_, by simpa using hi, fun j hj => ?_⟩
  · have hmem : i ∈ List.range maxNumTasks := by
      rw [hsplit]
      simp
    exact List.mem_range.mp hmem
  · have hget : (List.range maxNumTasks)[j]? = as[j]? := by
      rw [hsplit, List.getElem?_append_left (by omega)]
    have hjlt : j < as.length := by omega
    have hjm : j < maxNumTasks := by
      have := congrArg List.length hsplit
      rw [List.length_range, List.length_append] at this
      omega
    rw [List.getElem?_range hjm, List.getElem?_eq_getElem hjlt] at hget
    have hmem : j ∈ as := by
      have := List.getElem_mem hjlt
      rw [← Option.some.inj hget] at this
      exact this
    simpa using hbefore j hmem

theorem nextFrom_alive (h : alive next = true) (hn : 0 < n) : nextFrom alive n next = next := by
  obtain ⟨n, rfl⟩ := Nat.exists_eq_succ_of_ne_zero (by omega : n ≠ 0)
  rw [nextFrom, if_pos h]

theorem nextFrom_lt (h : nextFrom alive n next < maxNumTasks) :
    alive (nextFrom alive n next) = true := by
  induction n generalizing next with
  | zero => exact absurd h (show ¬noPid < maxNumTasks by decide)
  | succ n ih =>
    rw [nextFrom] at h ⊢
    by_cases ha : alive next = true
    · rw [if_pos ha]
      exact ha
    · rw [if_neg ha] at h ⊢
      exact ih h

/-- The round robin passes over dead slots up to the end of the table and starts again at 0. -/
theorem nextFrom_wrap (hdead : ∀ i, next ≤ i → i < maxNumTasks → alive i = false)
    (hlt : next < maxNumTasks) (hn : maxNumTasks - next ≤ n) :
    nextFrom alive n next = nextFrom alive (n - (maxNumTasks - next)) 0 := by
  induction n generalizing next with
  | zero => omega
  | succ n ih =>
    have hd : ¬ alive next = true := by simp [hdead next (Nat.le_refl _) hlt]
    have hlt32 : next + 1 < 2 ^ 32 := by
      unfold maxNumTasks at hlt
      omega
    rw [nextFrom, if_neg hd, u32_of_lt hlt32]
    by_cases hlast : next + 1 < maxNumTasks
    · rw [Nat.mod_eq_of_lt hlast, ih (fun i hi => hdead i (by omega)) hlast (by omega)]
      congr 1
      omega
    · have he : next + 1 = maxNumTasks := by omega
      rw [he, Nat.mod_self]
      congr 1
      omega

end Find

end Evos
