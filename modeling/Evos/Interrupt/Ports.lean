import Evos.Foundations.InterruptController
import Evos.Foundations.IntervalTimer
import Evos.Interrupt.Idt
import Evos.Monitor.Printk
import Evos.Panic

/-! # The devices behind the ports

`remap_pic` and `init_timer` program two controllers and a timer by writes to their ports. Whatever
these were at before, they are left in a known state. -/

namespace Evos
open InterruptController IntervalTimer
set_option autoImplicit false

structure Devices where
  pic : Pair
  timer : Channel
  monitor : Monitor

/-- Devices nothing has been written to. -/
def Devices.off : Devices where
  pic :=
    ⟨⟨fun _ => false, fun _ => false, fun _ => false, 0, 0, false, .ready⟩,
      ⟨fun _ => false, fun _ => false, fun _ => false, 0, 0, false, .ready⟩⟩
  timer := ⟨.both, 0, none, none⟩
  monitor := ⟨fun _ => 0, 0, 0, 0, 0⟩

/-- `outb`, for the ports of the controllers and of the timer. -/
def outb (port : ℕ) (value : BitVec 8) (d : Devices) : Devices :=
  if port = 0x20 then { d with pic := { d.pic with master := d.pic.master.command value } }
  else if port = 0x21 then { d with pic := { d.pic with master := d.pic.master.data value } }
  else if port = 0xA0 then { d with pic := { d.pic with slave := d.pic.slave.command value } }
  else if port = 0xA1 then { d with pic := { d.pic with slave := d.pic.slave.data value } }
  else if port = 0x40 then { d with timer := d.timer.write value }
  else if port = 0x43 then { d with timer := d.timer.control value }
  else d

/-! ## The controllers -/

def remapPic (d : Devices) : Devices :=
  let d := outb 0x20 0x11 d
  let d := outb 0xA0 0x11 d
  let d := outb 0x21 (BitVec.ofNat 8 picMasterLowInt) d
  let d := outb 0xA1 (BitVec.ofNat 8 picSlaveLowInt) d
  let d := outb 0x21 0x04 d
  let d := outb 0xA1 0x02 d
  let d := outb 0x21 0x01 d
  let d := outb 0xA1 0x01 d
  let d := outb 0x21 0x0 d
  outb 0xA1 0x0 d

/-- The writes that initialize one controller. -/
def Controller.initialized (base cascade : BitVec 8) (p : Controller) : Controller :=
  ((((p.command 0x11).data base).data cascade).data 0x01).data 0x0

theorem initialized_eq (base cascade : BitVec 8) (p : Controller) :
    Controller.initialized base cascade p =
      ⟨fun _ => false, fun _ => false, fun _ => false, (base &&& 0xF8).toNat, cascade, false, .ready⟩ := by
  have hcommand : p.command 0x11 = { p with
      irr := fun _ => false, isr := fun _ => false, imr := fun _ => false, autoEoi := false
      init := .word2 false true } := rfl
  have hopen : (fun i => (0x0 : BitVec 8).getLsbD i) = fun _ => false := by
    funext i
    exact BitVec.getLsbD_zero
  unfold Controller.initialized
  rw [hcommand]
  show Controller.mk _ _ (fun i => (0x0 : BitVec 8).getLsbD i) _ _ _ _ = _
  rw [hopen]
  rfl

theorem remapPic_eq (d : Devices) :
    remapPic d = { d with pic :=
      ⟨Controller.initialized (BitVec.ofNat 8 picMasterLowInt) 0x04 d.pic.master,
        Controller.initialized (BitVec.ofNat 8 picSlaveLowInt) 0x02 d.pic.slave⟩ } := rfl

/-- Whatever the controllers were at, they are between interrupts behind `remap_pic`, with the vectors
of the lines where `init_idt` has its gates. -/
theorem remapPic_quiet (d : Devices) :
    (remapPic d).pic.Quiet picMasterLowInt picSlaveLowInt := by
  rw [remapPic_eq, initialized_eq, initialized_eq]
  exact ⟨⟨rfl, rfl, rfl, rfl, rfl, rfl⟩, ⟨rfl, rfl, rfl, rfl, rfl, rfl⟩, rfl⟩

/-- What `irq_common_handler` writes. -/
def irqEoi (intNo : ℕ) (d : Devices) : Devices :=
  let d := if picSlaveLowInt ≤ intNo then outb 0xA0 0x20 d else d
  outb 0x20 0x20 d

/-- What `task_switch` writes. -/
def taskSwitchEoi (d : Devices) : Devices := outb 0xA0 0x20 (outb 0x20 0x20 d)

theorem irqEoi_eq (intNo : ℕ) (d : Devices) :
    irqEoi intNo d = { d with pic := d.pic.eoi (decide (picSlaveLowInt ≤ intNo)) } := by
  unfold irqEoi Pair.eoi
  by_cases h : picSlaveLowInt ≤ intNo
  · rw [if_pos h, decide_eq_true h]
    rfl
  · rw [if_neg h, decide_eq_false h]
    rfl

theorem taskSwitchEoi_eq (d : Devices) : taskSwitchEoi d = { d with pic := d.pic.eoi true } := rfl

/-! ## The timer -/

def pitClockFreq : BitVec 32 := 1193180

/-- `divisor` of `init_timer`; a division by 0 is an exception of the processor. -/
def timerDivisor (freq : BitVec 32) : Option (BitVec 32) :=
  if freq = 0 then none
  else
    let divisor := pitClockFreq / freq
    some (if divisor &&& ~~~0xFFFF#32 ≠ 0 then 0xFFFF else divisor)

/-- The writes of `init_timer`. -/
def programTimer (divisor : BitVec 32) (d : Devices) : Devices :=
  let d := outb 0x43 0x36 d
  let d := outb 0x40 ((divisor &&& 0xFF).setWidth 8) d
  outb 0x40 ((divisor >>> 8 &&& 0xFF).setWidth 8) d

/-- `init_timer` on the devices; the warning is printed before the writes. -/
def initTimer (freq : BitVec 32) (d : Devices) : Option Devices :=
  (timerDivisor freq).map fun divisor => programTimer divisor d

/-- The timer counts down from this again and again, as a square wave. -/
def TicksEvery (count : ℕ) (d : Devices) : Prop :=
  d.timer.mode = 3 ∧ d.timer.pendingLow = none ∧ d.timer.reload = some count

theorem programTimer_timer {divisor : BitVec 32} (h : divisor.toNat < 65536) (d : Devices) :
    TicksEvery (counted divisor.toNat) (programTimer divisor d) := by
  have hlow : ((divisor &&& 0xFF).setWidth 8).toNat = divisor.toNat % 2 ^ 8 :=
    toNat_setWidth_mask divisor (by decide)
  have hhigh : ((divisor >>> 8 &&& 0xFF).setWidth 8).toNat = divisor.toNat / 2 ^ 8 % 2 ^ 8 :=
    toNat_setWidth_shift divisor 8 (by decide)
  have hcontrol : d.timer.control 0x36 = ⟨.both, 3, none, none⟩ := rfl
  have htimer : (programTimer divisor d).timer =
      ((d.timer.control 0x36).write ((divisor &&& 0xFF).setWidth 8)).write
        ((divisor >>> 8 &&& 0xFF).setWidth 8) := rfl
  have hsum : divisor.toNat / 2 ^ 8 % 2 ^ 8 * 256 + divisor.toNat % 2 ^ 8 = divisor.toNat := by omega
  unfold TicksEvery
  rw [htimer, hcontrol, write_both rfl rfl, hlow, hhigh, hsum]
  exact ⟨rfl, rfl, rfl⟩

theorem and_not_0xFFFF (x : BitVec 32) : x &&& ~~~0xFFFF#32 = (x >>> 16) <<< 16 := by
  have hmask : ∀ i < 32, (~~~0xFFFF#32).getLsbD i = decide (16 ≤ i) := by decide
  apply BitVec.eq_of_getLsbD_eq
  intro i hi
  rw [BitVec.getLsbD_and, BitVec.getLsbD_shiftLeft, BitVec.getLsbD_ushiftRight]
  show (x.getLsbD i && (~~~0xFFFF#32).getLsbD i) = _
  rw [hmask i hi]
  by_cases hle : 16 ≤ i
  · rw [Nat.add_sub_cancel' hle]
    simp [hi, hle]
  · simp [hle]

theorem and_not_0xFFFF_ne_zero_iff (x : BitVec 32) : x &&& ~~~0xFFFF#32 ≠ 0 ↔ 65536 ≤ x.toNat := by
  have hlt := x.isLt
  have hvalue : (x &&& ~~~0xFFFF#32).toNat = x.toNat / 65536 * 65536 := by
    rw [and_not_0xFFFF, BitVec.toNat_shiftLeft, BitVec.toNat_ushiftRight, Nat.shiftRight_eq_div_pow,
      Nat.shiftLeft_eq]
    omega
  have hzero : x &&& ~~~0xFFFF#32 = 0 ↔ (x &&& ~~~0xFFFF#32).toNat = 0 :=
    ⟨fun h => by rw [h]; rfl, fun h => BitVec.eq_of_toNat_eq h⟩
  rw [Ne, hzero, hvalue]
  omega

/-- The count is at most a word: a quotient that is more is cut, and `1193180 / freq` is 0 for what is
faster than the clock, which the timer takes for 65536. -/
theorem timerDivisor_toNat {freq divisor : BitVec 32} (h : timerDivisor freq = some divisor) :
    divisor.toNat = min (1193180 / freq.toNat) 65535 := by
  have hquotient : (pitClockFreq / freq).toNat = 1193180 / freq.toNat := BitVec.toNat_udiv
  unfold timerDivisor at h
  by_cases hzero : freq = 0
  · rw [if_pos hzero] at h
    exact nomatch h
  · rw [if_neg hzero] at h
    by_cases hlong : pitClockFreq / freq &&& ~~~0xFFFF#32 ≠ 0
    · have hle := (and_not_0xFFFF_ne_zero_iff _).mp hlong
      rw [hquotient] at hle
      dsimp only at h
      rw [if_pos hlong] at h
      cases h
      show 0xFFFF = _
      omega
    · have hlt := mt (and_not_0xFFFF_ne_zero_iff _).mpr hlong
      rw [hquotient] at hlt
      dsimp only at h
      rw [if_neg hlong] at h
      cases h
      rw [hquotient]
      omega

/-- What the timer counts down from for a frequency that is not 0. -/
def timerCount (freq : ℕ) : ℕ :=
  if freq < 19 then 0xFFFF else if freq ≤ 1193180 then 1193180 / freq else 65536

theorem counted_min {freq : ℕ} (hfreq : freq ≠ 0) :
    counted (min (1193180 / freq) 65535) = timerCount freq := by
  unfold timerCount
  by_cases hlow : freq < 19
  · have hbig : 66287 ≤ 1193180 / freq := (Nat.le_div_iff_mul_le (by omega)).mpr (by omega)
    rw [if_pos hlow, Nat.min_eq_right (by omega)]
    rfl
  · rw [if_neg hlow]
    by_cases hhigh : freq ≤ 1193180
    · have hpos : 0 < 1193180 / freq := Nat.div_pos hhigh (by omega)
      have hle : 1193180 / freq ≤ 1193180 / 19 := Nat.div_le_div_left (by omega) (by decide)
      have hclock : 1193180 / 19 = 62798 := by decide
      rw [if_pos hhigh, Nat.min_eq_left (by omega)]
      exact if_neg (by omega)
    · have hzero : 1193180 / freq = 0 := Nat.div_eq_of_lt (by omega)
      rw [if_neg hhigh, hzero]
      rfl

theorem initTimer_ticks {freq : BitVec 32} (hfreq : freq.toNat ≠ 0) (d : Devices) :
    ∃ d', initTimer freq d = some d' ∧ TicksEvery (timerCount freq.toNat) d' := by
  have hne : freq ≠ 0 := fun h => hfreq (by rw [h]; rfl)
  obtain ⟨divisor, hdivisor⟩ : ∃ divisor, timerDivisor freq = some divisor := by
    unfold timerDivisor
    rw [if_neg hne]
    exact ⟨_, rfl⟩
  have hvalue := timerDivisor_toNat hdivisor
  have hticks := programTimer_timer (show divisor.toNat < 65536 by omega) d
  rw [hvalue, counted_min hfreq] at hticks
  exact ⟨programTimer divisor d, by rw [initTimer, hdivisor]; rfl, hticks⟩

/-- The timer is set to the frequency asked for exactly if this is at least 19 and no more than the
clock itself. Below that the divisor is cut to a word, above it is 0, which the timer takes for 65536,
and 0 itself is a division by zero. -/
theorem initTimer_iff (freq : BitVec 32) (d : Devices) :
    ((∃ d', initTimer freq d = some d' ∧ TicksEvery (1193180 / freq.toNat) d') ↔
      19 ≤ freq.toNat ∧ freq.toNat ≤ 1193180) ∧
    (freq.toNat = 0 ∧ initTimer freq d = none ∨
      ∃ d', initTimer freq d = some d' ∧
        (0 < freq.toNat ∧ freq.toNat < 19 ∧ TicksEvery 0xFFFF d' ∨
          19 ≤ freq.toNat ∧ freq.toNat ≤ 1193180 ∧ TicksEvery (1193180 / freq.toNat) d' ∨
          1193180 < freq.toNat ∧ TicksEvery 65536 d')) := by
  by_cases hzero : freq.toNat = 0
  · have hnone : initTimer freq d = none := by
      have hfreq : freq = 0 := BitVec.eq_of_toNat_eq hzero
      rw [hfreq]
      rfl
    refine ⟨⟨?_, fun h => absurd h.1 (by omega)⟩, Or.inl ⟨hzero, hnone⟩⟩
    rintro ⟨d', hd', -⟩
    rw [hnone] at hd'
    exact nomatch hd'
  · obtain ⟨d', hd', hticks⟩ := initTimer_ticks hzero d
    have hiff : TicksEvery (1193180 / freq.toNat) d' ↔ 1193180 / freq.toNat = timerCount freq.toNat := by
      refine ⟨fun h => ?_, fun h => h ▸ hticks⟩
      exact Option.some.inj (h.2.2.symm.trans hticks.2.2)
    have hsame : (∃ t, initTimer freq d = some t ∧ TicksEvery (1193180 / freq.toNat) t) ↔
        TicksEvery (1193180 / freq.toNat) d' := by
      rw [hd']
      refine ⟨?_, fun h => ⟨d', rfl, h⟩⟩
      rintro ⟨t, ht, h⟩
      exact Option.some.inj ht ▸ h
    rw [hsame, hiff]
    unfold timerCount at hticks ⊢
    by_cases hlow : freq.toNat < 19
    · have hbig : 66287 ≤ 1193180 / freq.toNat := (Nat.le_div_iff_mul_le (by omega)).mpr (by omega)
      rw [if_pos hlow] at hticks ⊢
      exact ⟨by omega, Or.inr ⟨d', hd', Or.inl ⟨by omega, hlow, hticks⟩⟩⟩
    · rw [if_neg hlow] at hticks ⊢
      by_cases hhigh : freq.toNat ≤ 1193180
      · rw [if_pos hhigh] at hticks ⊢
        exact ⟨⟨fun _ => ⟨by omega, hhigh⟩, fun _ => rfl⟩,
          Or.inr ⟨d', hd', Or.inr (Or.inl ⟨by omega, hhigh, hticks⟩)⟩⟩
      · have hquotient : 1193180 / freq.toNat = 0 := Nat.div_eq_of_lt (by omega)
        rw [if_neg hhigh] at hticks ⊢
        exact ⟨by omega, Or.inr ⟨d', hd', Or.inr (Or.inr ⟨by omega, hticks⟩)⟩⟩

end Evos
