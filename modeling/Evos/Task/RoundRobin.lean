import Evos.Task.Task
import Mathlib.Data.List.Rotate

/-! # Round robin

Which slot `find_next_task` chooses, which slots it reads on the way, and what a whole round of
`task_switch` dispatches. The loop reduces the slot number modulo `MAX_NUM_TASKS` from its second
round on, but not in its first. -/

namespace Evos
open ByteMemory Outcome
set_option autoImplicit false

/-! ## What is read and what is chosen -/

section Definitions
variable (alive : ℕ → Bool)

/-- The slots that `nextFrom` reads. -/
def nextReads : ℕ → ℕ → List ℕ
  | 0, _ => []
  | n + 1, next => next :: if alive next then [] else nextReads n (u32 (next + 1) % maxNumTasks)

/-- The slots that `find_next_task` reads. -/
def findNextReads (currentTask : ℕ) : List ℕ := nextReads alive maxNumTasks (u32 (currentTask + 1))

/-- The slots from the one after `current_task` on, up to `current_task` itself. -/
def cycle (currentTask : ℕ) : List ℕ := (List.range maxNumTasks).rotate (u32 (currentTask + 1))

/-- The first alive slot of the cycle, or -1. -/
def firstInCycle (currentTask : ℕ) : ℕ := ((cycle currentTask).find? alive).getD noPid

/-- The slots that `n` calls of `task_switch` dispatch. -/
def dispatches : ℕ → ℕ → List ℕ
  | 0, _ => []
  | n + 1, currentTask =>
    findNextTask alive currentTask :: dispatches n (findNextTask alive currentTask)

/-- The alive slots. -/
def liveSlots : List ℕ := (List.range maxNumTasks).filter alive

/-- `find_next_task` stays in the table and chooses the first alive slot of the cycle, and as many
calls of `task_switch` as slots are alive dispatch each of them once. -/
structure RoundRobin (currentTask : ℕ) : Prop where
  reads : ∀ i ∈ findNextReads alive currentTask, i < maxNumTasks
  choice : findNextTask alive currentTask = firstInCycle alive currentTask
  fair : (dispatches alive (liveSlots alive).length currentTask).Perm (liveSlots alive)

/-- A round does not go on behind slot 255, or the slot it leaves out is not alive and the word behind
the table does not read as an alive slot. -/
def RoundInTable (currentTask : ℕ) : Prop :=
  alive 255 = true →
    (∀ i < u32 (currentTask + 1), alive i = false) ∨ (alive 0 = false ∧ alive 256 = false)

end Definitions

variable {alive : ℕ → Bool} {c n s x : ℕ}

/-! ## The loop -/

theorem nextFrom_eq (hs : s < maxNumTasks) : nextFrom alive n s =
    (((List.range n).map fun k => (s + k) % maxNumTasks).find? alive).getD noPid := by
  induction n generalizing s with
  | zero => rfl
  | succ n ih =>
    have hmax : maxNumTasks = 256 := rfl
    have hnext : u32 (s + 1) % maxNumTasks = (s + 1) % maxNumTasks := by
      rw [u32_of_lt (by omega)]
    have hlt : (s + 1) % maxNumTasks < maxNumTasks := Nat.mod_lt _ (by decide)
    have hshift : (fun k => ((s + 1) % maxNumTasks + k) % maxNumTasks) =
        (fun k => (s + k) % maxNumTasks) ∘ Nat.succ := by
      funext k
      change ((s + 1) % maxNumTasks + k) % maxNumTasks = (s + (k + 1)) % maxNumTasks
      rw [Nat.mod_add_mod]
      congr 1
      omega
    have hself : (s + 0) % maxNumTasks = s := Nat.mod_eq_of_lt hs
    rw [nextFrom, hnext, ih hlt, hshift, List.range_succ_eq_map, List.map_cons, List.map_map, hself,
      List.find?_cons]
    by_cases ha : alive s = true
    · rw [if_pos ha, ha]
      rfl
    · rw [if_neg ha, Bool.eq_false_iff.mpr ha]

theorem length_cycle : (cycle c).length = maxNumTasks := by
  rw [cycle, List.length_rotate, List.length_range]

theorem getElem_cycle {i : ℕ} (h : i < (cycle c).length) :
    (cycle c)[i] = (u32 (c + 1) + i) % maxNumTasks := by
  refine (List.getElem_rotate (List.range maxNumTasks) (u32 (c + 1)) i h).trans ?_
  rw [List.getElem_range, List.length_range, Nat.add_comm]

theorem cycle_eq_map (c : ℕ) :
    cycle c = (List.range maxNumTasks).map fun k => (u32 (c + 1) + k) % maxNumTasks := by
  refine List.ext_getElem ?_ fun i h1 h2 => ?_
  · rw [length_cycle, List.length_map, List.length_range]
  · rw [getElem_cycle, List.getElem_map, List.getElem_range]

theorem findNextTask_eq (hs : u32 (c + 1) < maxNumTasks) :
    findNextTask alive c = firstInCycle alive c := by
  unfold findNextTask firstInCycle
  rw [nextFrom_eq hs, cycle_eq_map]

theorem nextReads_lt (hs : s < maxNumTasks) : ∀ i ∈ nextReads alive n s, i < maxNumTasks := by
  induction n generalizing s with
  | zero => exact fun i hi => absurd hi List.not_mem_nil
  | succ n ih =>
    intro i hi
    rw [nextReads] at hi
    rcases List.mem_cons.mp hi with rfl | hi
    · exact hs
    · by_cases ha : alive s = true
      · rw [if_pos ha] at hi
        exact absurd hi List.not_mem_nil
      · rw [if_neg ha] at hi
        exact ih (Nat.mod_lt _ (by decide)) i hi

theorem findNextReads_last : 256 ∈ findNextReads alive 255 := List.mem_cons_self

/-! ## The cycle -/

theorem start_le (hc : c = noPid ∨ c < maxNumTasks) (hne : c ≠ 255) : u32 (c + 1) ≤ 255 := by
  rcases hc with rfl | hlt
  · decide
  · have hmax : maxNumTasks = 256 := rfl
    rw [u32_of_lt (by omega)]
    omega

theorem cycle_eq (hs : u32 (c + 1) ≤ 255) :
    cycle c = (List.range 255).drop (u32 (c + 1)) ++ 255 :: List.range (u32 (c + 1)) := by
  have hlen : (List.range maxNumTasks).length = 256 := List.length_range
  have hrange : List.range maxNumTasks = List.range 255 ++ [255] := List.range_succ
  unfold cycle
  rw [List.rotate_eq_drop_append_take (by rw [hlen]; omega), hrange,
    List.drop_append_of_le_length (by rw [List.length_range]; exact hs),
    List.take_append_of_le_length (by rw [List.length_range]; exact hs), List.take_range,
    Nat.min_eq_left hs, List.append_assoc]
  rfl

theorem cycle_of_mem {as bs : List ℕ} (h : cycle c = as ++ x :: bs) :
    cycle x = bs ++ (as ++ [x]) := by
  have hlen : (List.range maxNumTasks).length = maxNumTasks := List.length_range
  have hin : as.length < (cycle c).length := by
    rw [h, List.length_append, List.length_cons]
    omega
  have hx : (u32 (c + 1) + as.length) % maxNumTasks = x := by
    have hget : (cycle c)[as.length] = x := by
      simp only [h, List.getElem_append_right (Nat.le_refl _), Nat.sub_self, List.getElem_cons_zero]
    rw [getElem_cycle] at hget
    exact hget
  have hlt : x < maxNumTasks := hx ▸ Nat.mod_lt _ (by decide)
  have hmax : maxNumTasks = 256 := rfl
  have hturn : (cycle c).rotate (as ++ [x]).length = cycle x := by
    have hu : u32 (x + 1) = x + 1 := u32_of_lt (by omega)
    unfold cycle
    rw [List.rotate_rotate, hu, ← List.rotate_mod, hlen, ← List.rotate_mod _ (x + 1), hlen]
    congr 1
    rw [List.length_append, List.length_singleton, ← Nat.add_assoc, ← hx, Nat.mod_add_mod]
  have hsplit : cycle c = (as ++ [x]) ++ bs := by
    rw [h, List.append_assoc]
    rfl
  rw [← hturn, hsplit, List.rotate_append_length_eq]

theorem filter_cycle_first {xs : List ℕ} (h : (cycle c).filter alive = x :: xs) :
    (cycle x).filter alive = xs ++ [x] := by
  obtain ⟨as, bs, hsplit, hdead, hx, hrest⟩ := List.filter_eq_cons_iff.mp h
  have hnone : as.filter alive = [] := List.filter_eq_nil_iff.mpr hdead
  rw [cycle_of_mem hsplit, List.filter_append, List.filter_append, hnone, hrest, List.nil_append,
    List.filter_cons_of_pos hx]
  rfl

/-! ## A round -/

/-- The slots dispatched, as long as the choice is the first of the cycle. -/
theorem dispatches_eq_take {live : List ℕ} (h : (cycle c).filter alive = live) (hn : n ≤ live.length)
    (hfirst : findNextTask alive c = firstInCycle alive c)
    (hnext : ∀ x ∈ live.take (n - 1), findNextTask alive x = firstInCycle alive x) :
    dispatches alive n c = live.take n := by
  induction n generalizing c live with
  | zero => rfl
  | succ n ih =>
    cases live with
    | nil => exact absurd hn (Nat.not_succ_le_zero n)
    | cons x xs =>
      have hhead : findNextTask alive c = x := by
        rw [hfirst, firstInCycle, ← List.head?_filter, h]
        rfl
      rw [dispatches, hhead, List.take_succ_cons]
      congr 1
      cases n with
      | zero => rfl
      | succ n =>
        have hlen : n + 1 ≤ xs.length := Nat.le_of_succ_le_succ hn
        have htake : ∀ m, m ≤ xs.length → (xs ++ [x]).take m = xs.take m := fun m hm =>
          List.take_append_of_le_length hm
        have hround := ih (filter_cycle_first h) (by rw [List.length_append]; omega)
          (hnext x List.mem_cons_self) fun y hy => hnext y ?_
        · rw [hround, htake _ hlen]
        · rw [Nat.add_sub_cancel, htake _ (by omega)] at hy
          exact List.mem_cons_of_mem _ hy

theorem length_filter_cycle : ((cycle c).filter alive).length = (liveSlots alive).length :=
  ((List.rotate_perm _ _).filter _).length_eq

theorem fair_of_first (hfirst : findNextTask alive c = firstInCycle alive c)
    (hnext : ∀ x ∈ ((cycle c).filter alive).dropLast, findNextTask alive x = firstInCycle alive x) :
    (dispatches alive (liveSlots alive).length c).Perm (liveSlots alive) := by
  rw [List.dropLast_eq_take, length_filter_cycle] at hnext
  rw [dispatches_eq_take rfl length_filter_cycle.ge hfirst hnext, ← length_filter_cycle (c := c),
    List.take_length]
  exact (List.rotate_perm _ _).filter _

/-! ## Slot 255 -/

theorem filter_cycle (hs : u32 (c + 1) ≤ 255) (h255 : alive 255 = true) :
    (cycle c).filter alive = ((List.range 255).drop (u32 (c + 1))).filter alive ++
      255 :: (List.range (u32 (c + 1))).filter alive := by
  rw [cycle_eq hs, List.filter_append, List.filter_cons_of_pos h255]

theorem mem_front {i : ℕ} (h : i ∈ ((List.range 255).drop s).filter alive) : s ≤ i ∧ i < 255 := by
  obtain ⟨j, hj, rfl⟩ := List.mem_iff_getElem.mp (List.mem_filter.mp h).1
  rw [List.getElem_drop, List.getElem_range]
  rw [List.length_drop, List.length_range] at hj
  omega

/-- Behind slot 255 the loop goes on with the word behind the table, and then with slot 1. -/
theorem findNextTask_last (h256 : alive 256 = false) :
    findNextTask alive 255 = (((List.range 255).map (1 + ·)).find? alive).getD noPid := by
  have hstart : findNextTask alive 255 = nextFrom alive (255 + 1) 256 := rfl
  have hnext : u32 (256 + 1) % maxNumTasks = 1 := by decide
  have hmod : ∀ k ∈ List.range 255, (1 + k) % maxNumTasks = 1 + k := by
    intro k hk
    have hlt := List.mem_range.mp hk
    exact Nat.mod_eq_of_lt (show 1 + k < 256 by omega)
  rw [hstart, nextFrom, h256, if_neg (by decide), hnext, nextFrom_eq (by decide),
    List.map_congr_left hmod]

theorem findNextTask_last_eq (h0 : alive 0 = false) (h256 : alive 256 = false) :
    findNextTask alive 255 = firstInCycle alive 255 := by
  have hcycle : cycle 255 = 0 :: (List.range 255).map (1 + ·) := by
    have hstart : u32 (255 + 1) = (List.range maxNumTasks).length := by
      rw [List.length_range]
      rfl
    have hsucc : (1 + · : ℕ → ℕ) = Nat.succ := by
      funext k
      exact Nat.add_comm 1 k
    rw [cycle, hstart, List.rotate_length, hsucc]
    exact List.range_succ_eq_map
  rw [findNextTask_last h256, firstInCycle, hcycle, List.find?_cons, h0]

theorem findNextTask_range (h255 : alive 255 = true) (h256 : alive 256 = false) (hc : c ≤ 255) :
    0 < findNextTask alive c ∧ findNextTask alive c ≤ 255 := by
  by_cases hlast : c = 255
  · rw [hlast, findNextTask_last h256]
    cases hf : ((List.range 255).map (1 + ·)).find? alive with
    | none =>
      have hmem : 255 ∈ (List.range 255).map (1 + ·) :=
        List.mem_map.mpr ⟨254, List.mem_range.mpr (by decide), rfl⟩
      exact absurd h255 (List.find?_eq_none.mp hf 255 hmem)
    | some x =>
      obtain ⟨k, hk, rfl⟩ := List.mem_map.mp (List.mem_of_find?_eq_some hf)
      have hlt := List.mem_range.mp hk
      exact ⟨show 0 < 1 + k by omega, show 1 + k ≤ 255 by omega⟩
  · have hu : u32 (c + 1) = c + 1 := u32_of_lt (by omega)
    have hs : u32 (c + 1) ≤ 255 := by omega
    rw [findNextTask_eq (Nat.lt_of_le_of_lt hs (by decide)), firstInCycle, ← List.head?_filter,
      filter_cycle hs h255]
    cases hfront : ((List.range 255).drop (u32 (c + 1))).filter alive with
    | nil => exact ⟨show 0 < 255 by decide, show 255 ≤ 255 by decide⟩
    | cons x xs =>
      have hx := mem_front (hfront ▸ List.mem_cons_self : x ∈ _)
      exact ⟨show 0 < x by omega, show x ≤ 255 by omega⟩

theorem dispatches_range (h255 : alive 255 = true) (h256 : alive 256 = false) (hc : c ≤ 255) :
    ∀ x ∈ dispatches alive n c, 0 < x := by
  induction n generalizing c with
  | zero => exact fun x hx => absurd hx List.not_mem_nil
  | succ n ih =>
    obtain ⟨hpos, hle⟩ := findNextTask_range h255 h256 hc
    intro x hx
    rcases List.mem_cons.mp hx with rfl | hx
    · exact hpos
    · exact ih hle x hx

theorem dispatches_add {m k : ℕ} {front : List ℕ} (h : dispatches alive n c = front ++ [x])
    (hk : k = n + m) : dispatches alive k c = front ++ x :: dispatches alive m x := by
  subst hk
  induction n generalizing c front with
  | zero => exact absurd h.symm (List.append_ne_nil_of_right_ne_nil _ (List.cons_ne_nil _ _))
  | succ n ih =>
    rw [Nat.add_right_comm]
    rw [dispatches] at h ⊢
    cases front with
    | nil =>
      obtain ⟨hx, hnil⟩ := List.cons.inj h
      cases n with
      | zero =>
        rw [hx, Nat.zero_add]
        rfl
      | succ n => exact absurd hnil (List.cons_ne_nil _ _)
    | cons y front =>
      obtain ⟨hy, hrest⟩ := List.cons.inj h
      rw [List.cons_append, ← hy, ih hrest]

/-- A fair round reads the word behind the table only where this does no harm. -/
theorem roundInTable_of_fair (hs : u32 (c + 1) ≤ 255)
    (hfair : (dispatches alive (liveSlots alive).length c).Perm (liveSlots alive)) :
    RoundInTable alive c := by
  intro h255
  by_contra hnot
  rw [not_or] at hnot
  obtain ⟨hbelow, hlast⟩ := hnot
  obtain ⟨i, hi, halive⟩ : ∃ i, i < u32 (c + 1) ∧ alive i = true := by
    by_contra hnone
    refine hbelow fun i hi => ?_
    by_contra ha
    exact hnone ⟨i, hi, Bool.not_eq_false _ ▸ ha⟩
  -- the round: the slots behind `current_task`, slot 255, and at least one more
  have hsplit := filter_cycle hs h255
  have hlen : ((cycle c).filter alive).length = (liveSlots alive).length := length_filter_cycle
  have hi' : i ∈ (List.range (u32 (c + 1))).filter alive :=
    List.mem_filter.mpr ⟨List.mem_range.mpr hi, halive⟩
  have hmore := List.length_pos_of_mem hi'
  generalize hfront : ((List.range 255).drop (u32 (c + 1))).filter alive = front at hsplit
  generalize (List.range (u32 (c + 1))).filter alive = back at hsplit hmore
  rw [hsplit, List.length_append, List.length_cons] at hlen
  have hmem : ∀ x ∈ front, u32 (c + 1) ≤ x ∧ x < 255 := fun x hx => mem_front (hfront ▸ hx)
  have htake : (front ++ 255 :: back).take (front.length + 1) = front ++ [255] := by
    rw [List.take_append, List.take_of_length_le (Nat.le_succ _), Nat.add_sub_cancel_left]
    rfl
  have hhead : dispatches alive (front.length + 1) c = front ++ [255] := by
    rw [dispatches_eq_take hsplit (by rw [List.length_append, List.length_cons]; omega)
      (findNextTask_eq (Nat.lt_of_le_of_lt hs (by decide))) fun x hx => ?_, htake]
    rw [Nat.add_sub_cancel, List.take_left] at hx
    have hlt := (hmem x hx).2
    exact findNextTask_eq (by rw [u32_of_lt (by omega)]; exact Nat.succ_lt_succ hlt)
  obtain ⟨m, hm⟩ : ∃ m, back.length = m + 1 := Nat.exists_eq_succ_of_ne_zero (by omega)
  have hround := dispatches_add hhead (m := m + 1) (k := (liveSlots alive).length) (by omega)
  have hlive : ∀ x ∈ dispatches alive (liveSlots alive).length c, x < 256 := fun x hx =>
    List.mem_range.mp (List.mem_filter.mp (hfair.mem_iff.mp hx)).1
  have h256 : alive 256 = false := by
    by_contra ha
    have hwild : findNextTask alive 255 = 256 :=
      nextFrom_alive (Bool.not_eq_false _ ▸ ha) (by decide)
    have hin : 256 ∈ dispatches alive (liveSlots alive).length c := by
      rw [hround, dispatches, hwild]
      simp
    exact absurd (hlive 256 hin) (by decide)
  refine hlast ⟨?_, h256⟩
  by_contra h0
  have hzero : 0 ∈ liveSlots alive :=
    List.mem_filter.mpr ⟨List.mem_range.mpr (by decide), Bool.not_eq_false _ ▸ h0⟩
  have hin := hfair.mem_iff.mpr hzero
  rw [hround] at hin
  rcases List.mem_append.mp hin with hin | hin
  · have hle := (hmem 0 hin).1
    omega
  · rcases List.mem_cons.mp hin with hin | hin
    · cases hin
    · exact absurd (dispatches_range h255 h256 (Nat.le_refl 255) 0 hin) (Nat.lt_irrefl 0)

/-- A round that does not go on behind slot 255 makes the right choices. -/
theorem first_of_roundInTable (hs : u32 (c + 1) ≤ 255) (h : RoundInTable alive c) :
    ∀ x ∈ ((cycle c).filter alive).dropLast, findNextTask alive x = firstInCycle alive x := by
  intro x hx
  have hmem := List.mem_filter.mp (List.mem_of_mem_dropLast hx)
  have hmax : maxNumTasks = 256 := rfl
  by_cases hlast : x = 255
  · rw [hlast] at hmem hx ⊢
    rcases h hmem.2 with hbelow | ⟨h0, h256⟩
    · have hnone : (List.range (u32 (c + 1))).filter alive = [] :=
        List.filter_eq_nil_iff.mpr fun i hi => by
          rw [hbelow i (List.mem_range.mp hi)]
          decide
      rw [filter_cycle hs hmem.2, hnone, List.dropLast_concat] at hx
      exact absurd (mem_front hx).2 (Nat.lt_irrefl 255)
    · exact findNextTask_last_eq h0 h256
  · have hlt : x < maxNumTasks := List.mem_range.mp ((List.mem_rotate).mp hmem.1)
    exact findNextTask_eq (by rw [u32_of_lt (by omega)]; omega)

/-! ## `task_switch` -/

/-- `n` calls of `task_switch`, and the slots they dispatch. -/
def taskSwitches : ℕ → KM (List ℕ)
  | 0 => return []
  | n + 1 => do
    taskSwitch
    let pid := (← get).currentTask
    let pids ← taskSwitches n
    return pid :: pids

/-- The table stays, and the slot chosen is the current one. -/
structure Dispatched (pid : ℕ) (s t : Kernel) : Prop where
  tasks : t.tasks = s.tasks
  currentTask : t.currentTask = pid

theorem mmMemcpyPhysical_dispatched {pid : ℕ} {s t : Kernel} (h : Dispatched pid s t)
    (dest : ℕ) (src : ℕ → UInt8) (size : ℕ) :
    Ends (mmMemcpyPhysical dest src size t) (fun _ u => Dispatched pid s u) fun _ => True := by
  unfold mmMemcpyPhysical
  by_cases hsize : dest % 4096 + size > 0x1000
  · rw [if_pos hsize]
    exact ends_throw trivial
  · rw [if_neg hsize]
    refine ends_modify_bind (ends_get_bind (ends_get_bind ?_))
    cases (t.pointCloningPage (dest / 4096)).spaces.translate
        (t.pointCloningPage (dest / 4096)).cr3 pageCloningBuffer with
    | none => exact ends_throw trivial
    | some frame => exact ends_modify ⟨h.tasks, h.currentTask⟩

theorem taskSwitch_dispatched (s : Kernel) :
    Ends (taskSwitch s) (fun _ t => Dispatched (findNextTask s.alive s.currentTask) s t)
      fun _ => True := by
  refine ends_get_bind (ends_get_bind ?_)
  by_cases hwild : findNextTask s.alive s.currentTask ≥ maxNumTasks
  · rw [if_pos hwild]
    exact ends_throw trivial
  · rw [if_neg hwild]
    refine ends_modify_bind (ends_get_bind (ends_get_bind ?_))
    refine ends_bind ((pageAddress_ends _ _).mono (fun _ _ h => h) fun _ _ => trivial) ?_
    rintro frame _ rfl
    refine ends_bind (mmMemcpyPhysical_dispatched ⟨rfl, rfl⟩ _ _ _) fun _ u hu => ?_
    exact ends_modify ⟨hu.tasks, hu.currentTask⟩

/-- The calls that return dispatch the slots that `find_next_task` chooses one after the other. -/
theorem taskSwitches_dispatches {s t : Kernel} {pids : List ℕ} (h : taskSwitches n s = .ok pids t) :
    pids = dispatches s.alive n s.currentTask := by
  induction n generalizing s t pids with
  | zero =>
    cases h
    rfl
  | succ n ih =>
    obtain ⟨_, u, hu, h⟩ := bind_ok h
    have hd := (taskSwitch_dispatched s).ok hu
    obtain ⟨rest, v, hv, h⟩ := bind_ok (show (taskSwitches n >>= fun pids =>
      pure (u.currentTask :: pids) : KM (List ℕ)) u = .ok pids t from h)
    have halive : u.alive = s.alive := by
      funext i
      unfold Kernel.alive
      rw [hd.tasks]
    cases h
    rw [dispatches, ih hv, halive, hd.currentTask]

/-! ## The whole -/

/-- `find_next_task` is a round robin exactly if slot 255 was not the last one dispatched and the round
does not go on behind it, or goes on without harm. -/
theorem roundRobin_iff (alive : ℕ → Bool) (c : ℕ) (hc : c = noPid ∨ c < maxNumTasks) :
    RoundRobin alive c ↔ c ≠ 255 ∧ RoundInTable alive c := by
  constructor
  · intro h
    have hne : c ≠ 255 := by
      rintro rfl
      exact absurd (h.reads 256 findNextReads_last) (by decide)
    exact ⟨hne, roundInTable_of_fair (start_le hc hne) h.fair⟩
  · rintro ⟨hne, hround⟩
    have hs := start_le hc hne
    have hlt : u32 (c + 1) < maxNumTasks := Nat.lt_of_le_of_lt hs (by decide)
    exact ⟨nextReads_lt hlt, findNextTask_eq hlt,
      fair_of_first (findNextTask_eq hlt) (first_of_roundInTable hs hround)⟩

theorem roundRobin_two_tasks : RoundRobin (fun i => decide (i < 2)) noPid :=
  (roundRobin_iff _ noPid (Or.inl rfl)).mpr ⟨by decide, fun h => absurd h (by decide)⟩

/-- With the first and the last slot alive, a task in the last one keeps the processor: the loop reads
the word behind the table and then slots 1 to 255. -/
theorem not_roundRobin_at_255 :
    ¬∀ (alive : ℕ → Bool) (c : ℕ), c = noPid ∨ c < maxNumTasks → RoundRobin alive c := by
  intro hall
  have h := hall (fun i => decide (i = 0 ∨ i = 255)) 255 (Or.inr (by decide))
  exact absurd (h.reads 256 findNextReads_last) (by decide)

end Evos
