import Evos.Task.Boot

/-! # Which slots the scheduler dispatches

The alive slots are always the first `k`, and all but the last of them hold finished tasks. -/

namespace Evos
open Runs
set_option autoImplicit false

/-! ## The invariant -/

/-- What the boot thread, or its absence, says about the table. -/
def ThreadOK (s : Machine) (k : ℕ) : Thread → Prop
  | .testing => k = 0 ∧ s.currentTask = 0
  | .ready => s.currentTask = noPid ∧ ∀ i < k, Built i (s.slots i)
  | .creating pid rest => s.currentTask = noPid ∧ pid < maxNumTasks ∧
      k = (if s.alive pid then pid + 1 else pid) ∧ (∀ i < pid, Built i (s.slots i)) ∧
      Progress pid rest (s.slots pid)
  | .user pid => s.currentTask = pid ∧ pid < k ∧ Built pid (s.slots pid)

/-- The first `k` slots are alive, and all but the last of them are finished. -/
structure BootInv (s : Machine) (k : ℕ) : Prop where
  le : k ≤ maxNumTasks
  alive : ∀ i < maxNumTasks, s.alive i = decide (i < k)
  built : ∀ i, i + 1 < k → Built i (s.slots i)
  thread : ThreadOK s k s.thread

theorem Booted.inv {s : Machine} (h : Booted s) : BootInv s 0 := by
  refine ⟨Nat.zero_le _, fun i hi => ?_, fun i hi => by omega, ?_⟩
  · unfold Machine.alive
    rw [h.slots i hi]
    rfl
  · rw [h.thread]
    exact ⟨rfl, h.currentTask⟩

section Slots
variable {s : Machine} {i j : ℕ} {x : Slot}

theorem Machine.setSlot_self : (s.setSlot i x).slots i = x := if_pos rfl

theorem Machine.setSlot_of_ne (h : j ≠ i) : (s.setSlot i x).slots j = s.slots j := if_neg h

theorem Machine.alive_setSlot_of_ne (h : j ≠ i) : (s.setSlot i x).alive j = s.alive j := by
  unfold Machine.alive
  rw [Machine.setSlot_of_ne h]

end Slots

/-! ## What is picked -/

section Pick
variable {s : Machine} {k : ℕ}

theorem BootInv.currentTask (h : BootInv s k) (hk : 0 < k) :
    s.currentTask = noPid ∨ (s.currentTask < k ∧ Built s.currentTask (s.slots s.currentTask)) := by
  have ht := h.thread
  cases hth : s.thread with
  | testing =>
    rw [hth] at ht
    have := ht.1
    omega
  | ready =>
    rw [hth] at ht
    exact Or.inl ht.1
  | creating pid rest =>
    rw [hth] at ht
    exact Or.inl ht.1
  | user pid =>
    rw [hth] at ht
    obtain ⟨hc, hp, hb⟩ := ht
    rw [hc]
    exact Or.inr ⟨hp, hb⟩

theorem BootInv.start_le (h : BootInv s k) : u32 (s.currentTask + 1) ≤ maxNumTasks := by
  by_cases hk : 0 < k
  · have hle := h.le
    unfold maxNumTasks at *
    rcases h.currentTask hk with hc | ⟨hc, -⟩
    · rw [hc]
      decide
    · unfold u32
      omega
  · have ht := h.thread
    cases hth : s.thread with
    | testing =>
      rw [hth] at ht
      rw [ht.2]
      decide
    | ready =>
      rw [hth] at ht
      rw [ht.1]
      decide
    | creating pid rest =>
      rw [hth] at ht
      rw [ht.1]
      decide
    | user pid =>
      rw [hth] at ht
      have := ht.2.1
      omega

/-- A dead slot after the last dispatched one: the round robin goes on at the first slot. -/
theorem BootInv.findNextTask_wrap (h : BootInv s k)
    (hdead : s.alive (u32 (s.currentTask + 1)) = false) (h0 : s.alive 0 = true)
    (hlt : u32 (s.currentTask + 1) < maxNumTasks) : findNextTask s.alive s.currentTask = 0 := by
  have hge : k ≤ u32 (s.currentTask + 1) := by
    rw [h.alive _ hlt] at hdead
    exact Nat.not_lt.mp (of_decide_eq_false hdead)
  have hpos : 0 < u32 (s.currentTask + 1) := by
    rw [h.alive 0 (by decide)] at h0
    have := of_decide_eq_true h0
    omega
  unfold findNextTask
  rw [nextFrom_wrap (fun i hi him => by
      rw [h.alive i him]
      exact decide_eq_false (by omega)) hlt (by omega)]
  exact nextFrom_alive h0 (by omega)

/-- Behind slot 255, with 0 in the word behind the table: the round robin goes on at slot 1. -/
theorem findNextTask_past_end (hc : s.currentTask = 255) (hdead : s.alive 256 = false)
    (h1 : s.alive 1 = true) : findNextTask s.alive s.currentTask = 1 := by
  have hfrom : nextFrom s.alive 256 256 = nextFrom s.alive 255 1 := by
    rw [nextFrom, if_neg (by simp [hdead])]
    rfl
  unfold findNextTask
  rw [hc]
  exact hfrom.trans (nextFrom_alive h1 (by decide))

theorem BootInv.picksTask (h : BootInv s k) (ht : TimelyTick s) : PicksTask s := by
  have h0 := ht.alive
  have hk : 0 < k := by
    rw [h.alive 0 (by decide)] at h0
    exact of_decide_eq_true h0
  have hstart := h.start_le
  cases hn : s.alive (u32 (s.currentTask + 1)) with
  | true =>
    have hpick : findNextTask s.alive s.currentTask = u32 (s.currentTask + 1) :=
      nextFrom_alive hn (by decide)
    have hlt : u32 (s.currentTask + 1) < maxNumTasks := by
      by_contra hge
      have he : u32 (s.currentTask + 1) = 256 := by
        unfold maxNumTasks at *
        omega
      rcases h.currentTask hk with hc | ⟨hc, -⟩
      · rw [hc] at he
        exact absurd he (by decide)
      · have hle := h.le
        have hc255 : s.currentTask = 255 := by
          unfold u32 at he
          unfold maxNumTasks at hle
          omega
        rw [he, ht.inTable hc255] at hn
        cases hn
    unfold PicksTask
    rw [hpick]
    exact ⟨hlt, ht.finished hn⟩
  | false =>
    by_cases hlt : u32 (s.currentTask + 1) < maxNumTasks
    · have hpick := h.findNextTask_wrap hn h0 hlt
      have hbuilt : Built 0 (s.slots 0) := by
        by_cases hk1 : 1 < k
        · exact h.built 0 hk1
        · rcases h.currentTask hk with hc | ⟨hc, hb⟩
          · rw [hc, show u32 (noPid + 1) = 0 from rfl, h0] at hn
            cases hn
          · have he : s.currentTask = 0 := by omega
            rw [he] at hb
            exact hb
      unfold PicksTask
      rw [hpick]
      exact ⟨by decide, hbuilt⟩
    · have he : u32 (s.currentTask + 1) = 256 := by
        unfold maxNumTasks at *
        omega
      rcases h.currentTask hk with hc | ⟨hc, -⟩
      · rw [hc] at he
        exact absurd he (by decide)
      · have hle := h.le
        unfold maxNumTasks at hle
        have hc255 : s.currentTask = 255 := by
          unfold u32 at he
          omega
        have h1 : s.alive 1 = true := by
          rw [h.alive 1 (by decide)]
          exact decide_eq_true (by omega)
        rw [he] at hn
        unfold PicksTask
        rw [findNextTask_past_end hc255 hn h1]
        exact ⟨by decide, h.built 1 (by omega)⟩

theorem BootInv.timelyTick (h : BootInv s k) (hp : PicksTask s) : TimelyTick s := by
  have hstart := h.start_le
  have hnext : s.alive (u32 (s.currentTask + 1)) = true →
      findNextTask s.alive s.currentTask = u32 (s.currentTask + 1) :=
    fun hn => nextFrom_alive hn (by decide)
  refine ⟨?_, fun hn => ?_, fun hc => ?_⟩
  · by_contra hdead
    have hk : k = 0 := by
      rw [h.alive 0 (by decide)] at hdead
      simpa using hdead
    have hall : ∀ i < maxNumTasks, s.alive i = false := by
      intro i hi
      rw [h.alive i hi]
      exact decide_eq_false (by omega)
    have hb := hp.2.alive
    change s.alive _ = true at hb
    rw [hall _ hp.1] at hb
    cases hb
  · have hb := hp.2
    rw [hnext hn] at hb
    exact hb
  · cases hn : s.alive 256 with
    | false => rfl
    | true =>
      have he : u32 (s.currentTask + 1) = 256 := by
        rw [hc]
        decide
      rw [← he] at hn
      have hlt := hp.1
      rw [hnext hn, he] at hlt
      exact absurd hlt (by decide)

end Pick

/-! ## Steps -/

section Steps
variable {s t : Machine} {k : ℕ}

theorem BootInv.initTasking (h : BootInv s k) (ht : s.thread = .testing) :
    BootInv { s with currentTask := noPid, thread := .ready } 0 := by
  have hth := h.thread
  rw [ht] at hth
  obtain ⟨hk, -⟩ := hth
  subst hk
  exact ⟨h.le, h.alive, h.built, rfl, fun i hi => by omega⟩

theorem BootInv.create (h : BootInv s k) (ht : s.thread = .ready) {pid : ℕ}
    (hp : findAvailableTask s.alive = some pid) :
    BootInv { s with thread := .creating pid taskCreateWrites } k := by
  have hth := h.thread
  rw [ht] at hth
  obtain ⟨hc, hbuilt⟩ := hth
  obtain ⟨hlt, hdead, hbelow⟩ := findAvailableTask_some hp
  have hge : k ≤ pid := by
    rw [h.alive pid hlt] at hdead
    exact Nat.not_lt.mp (of_decide_eq_false hdead)
  have hle : pid ≤ k := by
    by_contra hgt
    have ha := hbelow k (by omega)
    rw [h.alive k (by omega)] at ha
    have := of_decide_eq_true ha
    omega
  refine ⟨h.le, h.alive, h.built, hc, hlt, ?_, fun i hi => hbuilt i (by omega),
    Progress.start pid _⟩
  change k = if s.alive pid = true then pid + 1 else pid
  rw [hdead, if_neg (by decide)]
  omega

theorem BootInv.write (h : BootInv s k) {pid directory : ℕ} {w : Write} {rest : List Write}
    (ht : s.thread = .creating pid (w :: rest)) (hd : directory ≠ 0) :
    ∃ k', BootInv { s.setSlot pid (w.apply pid directory (s.slots pid)) with
      thread := .creating pid rest } k' := by
  have hth := h.thread
  rw [ht] at hth
  obtain ⟨hc, hlt, hk, hbelow, hp⟩ := hth
  let t := s.setSlot pid (w.apply pid directory (s.slots pid))
  have hslot : t.slots pid = w.apply pid directory (s.slots pid) := Machine.setSlot_self
  have hother : ∀ i, i ≠ pid → t.slots i = s.slots i := fun i hi => Machine.setSlot_of_ne hi
  refine ⟨if t.alive pid then pid + 1 else pid, ?_, fun i hi => ?_, fun i hi => ?_, hc, hlt, rfl,
    fun i hi => ?_, ?_⟩
  · by_cases ha : t.alive pid = true
    · rw [if_pos ha]
      exact hlt
    · rw [if_neg ha]
      exact Nat.le_of_lt hlt
  · change t.alive i = _
    by_cases hip : i = pid
    · subst hip
      cases ha : t.alive i <;> simp
    · have hsame : t.alive i = s.alive i := Machine.alive_setSlot_of_ne hip
      rw [hsame, h.alive i hi]
      refine decide_eq_decide.mpr ?_
      rw [hk]
      by_cases ha : s.alive pid = true
      · by_cases hb : t.alive pid = true
        · rw [if_pos ha, if_pos hb]
        · rw [if_pos ha, if_neg hb]
          omega
      · by_cases hb : t.alive pid = true
        · rw [if_neg ha, if_pos hb]
          omega
        · rw [if_neg ha, if_neg hb]
  · have hip : i < pid := by
      by_cases ha : t.alive pid = true
      · rw [if_pos ha] at hi
        omega
      · rw [if_neg ha] at hi
        omega
    change Built i (t.slots i)
    rw [hother i (by omega)]
    exact hbelow i hip
  · change Built i (t.slots i)
    rw [hother i (by omega)]
    exact hbelow i hi
  · change Progress pid rest (t.slots pid)
    rw [hslot]
    exact hp.next hd

theorem BootInv.ret (h : BootInv s k) {pid : ℕ} (ht : s.thread = .creating pid []) :
    BootInv { s with thread := .ready } k := by
  have hth := h.thread
  rw [ht] at hth
  obtain ⟨hc, -, hk, hbelow, hp⟩ := hth
  have hpid := hp.built
  have halive : s.alive pid = true := hpid.alive
  rw [if_pos halive] at hk
  refine ⟨h.le, h.alive, h.built, hc, fun i hi => ?_⟩
  by_cases hip : i = pid
  · subst hip
    exact hpid
  · exact hbelow i (by omega)

theorem BootInv.tick (h : BootInv s k) (hp : PicksTask s) :
    BootInv { s with
      currentTask := findNextTask s.alive s.currentTask
      thread := .user (findNextTask s.alive s.currentTask) } k := by
  obtain ⟨hlt, hbuilt⟩ := hp
  refine ⟨h.le, h.alive, h.built, rfl, ?_, hbuilt⟩
  have ha : s.alive (findNextTask s.alive s.currentTask) = true := hbuilt.alive
  rw [h.alive _ hlt] at ha
  exact of_decide_eq_true ha

/-- Every step whose tick, if it is one, is timely keeps the invariant. -/
theorem BootInv.step (h : BootInv s k) {op : BootOp} (hok : op = .tick → TimelyTick s)
    (hs : machineStep op s = some t) : ∃ k', BootInv t k' := by
  cases op with
  | testKmalloc =>
    cases hth : s.thread with
    | testing =>
      simp only [machineStep, hth, Option.some.injEq] at hs
      subst hs
      exact ⟨k, h⟩
    | _ => simp [machineStep, hth] at hs
  | initTasking =>
    cases hth : s.thread with
    | testing =>
      simp only [machineStep, hth, Option.some.injEq] at hs
      subst hs
      exact ⟨0, h.initTasking hth⟩
    | _ => simp [machineStep, hth] at hs
  | create =>
    cases hth : s.thread with
    | ready =>
      simp only [machineStep, hth] at hs
      obtain ⟨pid, hp, rfl⟩ := Option.map_eq_some_iff.mp hs
      exact ⟨k, h.create hth hp⟩
    | _ => simp [machineStep, hth] at hs
  | write directory =>
    cases hth : s.thread with
    | creating pid rest =>
      cases rest with
      | nil => simp [machineStep, hth] at hs
      | cons w rest =>
        by_cases hd : directory = 0
        · simp [machineStep, hth, hd] at hs
        · simp only [machineStep, hth, if_neg hd, Option.some.injEq] at hs
          subst hs
          exact h.write hth hd
    | _ => simp [machineStep, hth] at hs
  | ret =>
    cases hth : s.thread with
    | creating pid rest =>
      cases rest with
      | nil =>
        simp only [machineStep, hth, Option.some.injEq] at hs
        subst hs
        exact ⟨k, h.ret hth⟩
      | cons w rest => simp [machineStep, hth] at hs
    | _ => simp [machineStep, hth] at hs
  | tick =>
    have hp := h.picksTask (hok rfl)
    simp only [machineStep, if_pos hp.1, Option.some.injEq] at hs
    subst hs
    exact ⟨k, h.tick hp⟩

end Steps

/-! ## Runs -/

/-- In every interleaving whose ticks so far were timely, the next tick picks a finished task exactly
when it is timely as well. -/
theorem picksTask_iff_of_run {start s : Machine} (h : Booted start)
    (r : Run machineStep (fun op s => op = .tick → TimelyTick s) start s) :
    PicksTask s ↔ TimelyTick s := by
  obtain ⟨k, hk⟩ := r.invariant (I := fun s => ∃ k, BootInv s k) ⟨0, h.inv⟩
    fun op x y hx hok hs => by
      obtain ⟨k, hk⟩ := hx
      exact hk.step hok hs
  exact ⟨hk.timelyTick, hk.picksTask⟩

/-- The machine after `sti`, with zero memory behind the table. -/
def afterSti : Machine := ⟨fun _ => Slot.zero, 0, .testing⟩

theorem afterSti_booted : Booted afterSti := ⟨fun _ _ => rfl, rfl, rfl⟩

/-- `init_tasking`, and `task_create` up to its last write. -/
def firstCreate : List BootOp :=
  [.testKmalloc, .initTasking, .create] ++ List.replicate 14 (.write 0x0f00f000)

set_option maxRecDepth 10000 in
theorem picksTask_iff_of_run_afterSti :
    ∃ s, trace machineStep (fun op s => op = .tick → TimelyTick s)
      (firstCreate ++ [.ret, .create, .write 0x0f012000, .tick]) afterSti = some s ∧
      (PicksTask s ↔ TimelyTick s) := by
  obtain ⟨s, hs⟩ := Option.isSome_iff_exists.mp (show (trace machineStep
    (fun op s => op = .tick → TimelyTick s)
    (firstCreate ++ [.ret, .create, .write 0x0f012000, .tick]) afterSti).isSome = true by
      decide +kernel)
  exact ⟨s, hs, picksTask_iff_of_run afterSti_booted (Run.of_trace hs)⟩

set_option maxRecDepth 10000 in
/-- A tick right after `sti` finds no task, and one in the middle of the first `task_create` finds a
slot that is alive and not set up. -/
theorem not_picksTask_of_early_tick :
    (¬∀ s, Run machineStep (fun _ _ => True) afterSti s → PicksTask s) ∧
      ∃ s, Run machineStep (fun _ _ => True) afterSti s ∧ s.alive 0 = true ∧ ¬PicksTask s := by
  refine ⟨fun h => absurd (h afterSti (Run.refl _)) (by decide +kernel), ?_⟩
  obtain ⟨s, hs⟩ := Option.isSome_iff_exists.mp (show (trace machineStep (fun _ _ => True)
    (firstCreate.take 5) afterSti).isSome = true by decide +kernel)
  have he : (trace machineStep (fun _ _ => True) (firstCreate.take 5) afterSti).all
      (fun s => s.alive 0 && !decide (PicksTask s)) = true := by decide +kernel
  rw [hs, Option.all_some, Bool.and_eq_true] at he
  exact ⟨s, Run.of_trace hs, he.1, by simpa using he.2⟩

end Evos
