import Evos.Mm.Init
import Evos.Mm.Kept
import Evos.Task.RoundRobin

/-! # The jump of `task_switch`

`task_switch` copies eight registers to the stack of the task, pushes five words for `iret` below
its saved `esp`, goes 32 bytes further down and pops the registers. The copy ends 8 bytes below
`esp`, and what `popa` reads ends 20 bytes below it. -/

namespace Evos
open ByteMemory Outcome
set_option autoImplicit false

/-! ## Memory through the loaded directory -/

/-- The four bytes of a word, least significant first. -/
def bytesOf (v : ℕ) : List UInt8 := (List.range 4).map fun i => UInt8.ofNat (v / 256 ^ i)

def storeByte (address : ℕ) (b : UInt8) : KM Unit := do
  match (← get).spaces.translate (← get).cr3 address with
  | none => throw (.pageFault address)
  | some frame => modify (·.writeRam frame (address % 4096) 1 fun _ => b)

def storeBytes : ℕ → List UInt8 → KM Unit
  | _, [] => return ()
  | address, b :: bs => do
    storeByte address b
    storeBytes (u32 (address + 1)) bs

def loadByte (address : ℕ) : KM ℕ := do
  match (← get).spaces.translate (← get).cr3 address with
  | none => throw (.pageFault address)
  | some frame => return ((← get).ram frame (address % 4096)).toNat

def loadWord (address : ℕ) : KM ℕ := do
  let b0 ← loadByte address
  let b1 ← loadByte (u32 (address + 1))
  let b2 ← loadByte (u32 (address + 2))
  let b3 ← loadByte (u32 (address + 3))
  return b0 + 256 * b1 + 65536 * b2 + 16777216 * b3

/-- `n` words from an address on. -/
def loadWords : ℕ → ℕ → KM (List ℕ)
  | 0, _ => return []
  | n + 1, address => do
    let w ← loadWord address
    let ws ← loadWords n (u32 (address + 4))
    return w :: ws

/-! ## The assembly -/

/-- `pushl`; the result is `esp` behind it. -/
def push (v esp : ℕ) : KM ℕ := do
  storeBytes (sub32 esp 4) (bytesOf v)
  return sub32 esp 4

/-- The eight words that `popa` reads, and the five that `iret` does. -/
structure Popped where
  general : List ℕ
  frame : List ℕ
  deriving DecidableEq

/-- The assembly of `task_switch` once CR3 is set; `flags` is what `pushf` pushes. -/
def jump (r : Registers) (flags : ℕ) : KM Popped := do
  let esp ← push 0x23 r.esp
  let esp ← push r.esp esp
  let esp ← push flags esp
  let esp ← push 0x1b esp
  let esp ← push r.eip esp
  let general ← loadWords 8 (sub32 esp 32)
  let frame ← loadWords 5 esp
  return ⟨general, frame⟩

/-- `task_switch` with the jump. -/
def taskSwitchJump (flags : ℕ) : KM Popped := do
  taskSwitch
  let s ← get
  jump (s.tasks s.currentTask).savedState flags

/-- `popa` reads the saved registers, but for `esp` which it skips, and `iret` the frame of the
task. -/
structure Restores (r : Registers) (flags : ℕ) (p : Popped) : Prop where
  general : p.general.eraseIdx 3 = r.general.eraseIdx 3
  frame : p.frame = [r.eip, 0x1b, flags, r.esp, 0x23]

/-! ## The stack page -/

/-- The page of the user stack is mapped to a frame. -/
def StackPage (s : Kernel) (frame : ℕ) : Prop :=
  ∀ o < 4096, s.spaces.translate s.cr3 (taskUserStackBottom + o) = some frame

/-- Replace the bytes of one frame. -/
def Kernel.setFrame (frame : ℕ) (m : Mem) (s : Kernel) : Kernel :=
  { s with ram := fun f => if f = frame then m else s.ram f }

theorem Kernel.setFrame_ram (s : Kernel) (frame : ℕ) (m : Mem) : (s.setFrame frame m).ram frame = m :=
  if_pos rfl

theorem Kernel.setFrame_setFrame (s : Kernel) (frame : ℕ) (m m' : Mem) :
    (s.setFrame frame m).setFrame frame m' = s.setFrame frame m' := by
  unfold Kernel.setFrame
  congr 1
  funext f
  dsimp only
  by_cases hf : f = frame
  · rw [if_pos hf, if_pos hf]
  · rw [if_neg hf, if_neg hf, if_neg hf]

section Stack
variable {s : Kernel} {frame o : ℕ}

theorem StackPage.writeRam (h : StackPage s frame) (f x n : ℕ) (src : ℕ → UInt8) :
    StackPage (s.writeRam f x n src) frame := h

theorem taskUserStackBottom_eq : taskUserStackBottom = 0xF0000000 := rfl

theorem stack_mod (h : o < 4096) : (taskUserStackBottom + o) % 4096 = o := by
  rw [taskUserStackBottom_eq]
  omega

theorem storeByte_stack (h : StackPage s frame) (ho : o < 4096) (b : UInt8) :
    storeByte (taskUserStackBottom + o) b s = .ok () (s.writeRam frame o 1 fun _ => b) := by
  have hget : (get : KM Kernel) s = .ok s s := rfl
  unfold storeByte
  rw [bind_of_ok hget, bind_of_ok hget, h o ho]
  dsimp only
  rw [stack_mod ho]
  rfl

theorem storeBytes_stack (h : StackPage s frame) (bs : List UInt8) (ho : o + bs.length ≤ 4096) :
    storeBytes (taskUserStackBottom + o) bs s =
      .ok () (s.writeRam frame o bs.length fun i => bs.getD i 0) := by
  induction bs generalizing o s with
  | nil =>
    have hsame : s.writeRam frame o 0 (fun i => ([] : List UInt8).getD i 0) = s := by
      have hram : (fun f x => if f = frame ∧ o ≤ x ∧ x < o + 0 then
          ([] : List UInt8).getD (x - o) 0 else s.ram f x) = s.ram := by
        funext f x
        exact if_neg (by omega)
      unfold Kernel.writeRam
      rw [hram]
    rw [List.length_nil, hsame]
    rfl
  | cons b bs ih =>
    rw [List.length_cons] at ho
    have hnext : u32 (taskUserStackBottom + o + 1) = taskUserStackBottom + (o + 1) := by
      rw [taskUserStackBottom_eq, u32_of_lt (by omega)]
      omega
    unfold storeBytes
    rw [bind_of_ok (storeByte_stack h (by omega) b), hnext, ih (h.writeRam _ _ _ _) (by omega)]
    congr 1
    unfold Kernel.writeRam
    dsimp only
    congr 1
    funext f x
    rw [List.length_cons]
    by_cases hx : f = frame ∧ o ≤ x ∧ x < o + (bs.length + 1)
    · rw [if_pos hx]
      by_cases hfirst : x = o
      · rw [if_neg (by omega), if_pos (by omega), hfirst, Nat.sub_self]
        rfl
      · have hstep : x - o = x - (o + 1) + 1 := by omega
        rw [if_pos (by omega), hstep]
        rfl
    · rw [if_neg hx, if_neg (by omega), if_neg (by omega)]

theorem length_bytesOf (v : ℕ) : (bytesOf v).length = 4 := by
  rw [bytesOf, List.length_map, List.length_range]

theorem getD_bytesOf (v : ℕ) {i : ℕ} (hi : i < 4) :
    (bytesOf v).getD i 0 = UInt8.ofNat (v / 256 ^ i) := by
  unfold bytesOf
  rw [List.getD_eq_getElem?_getD, List.getElem?_map, List.getElem?_range hi]
  rfl

theorem writeRam_bytesOf (s : Kernel) (frame o v : ℕ) :
    (s.writeRam frame o 4 fun i => (bytesOf v).getD i 0) =
      s.setFrame frame (store32 (s.ram frame) o v) := by
  unfold Kernel.writeRam Kernel.setFrame
  congr 1
  funext f x
  by_cases hf : f = frame
  · rw [if_pos hf]
    unfold store32
    by_cases hx : o ≤ x ∧ x < o + 4
    · rw [if_pos ⟨hf, hx⟩, if_pos hx]
      exact getD_bytesOf v (by omega)
    · rw [if_neg fun hall => hx hall.2, if_neg hx, hf]
  · rw [if_neg hf, if_neg fun hall => hf hall.1]

theorem StackPage.setFrame (h : StackPage s frame) (f : ℕ) (m : Mem) :
    StackPage (s.setFrame f m) frame := h

theorem push_stack (h : StackPage s frame) {esp down : ℕ} (hdown : down = taskUserStackBottom + o)
    (hesp : esp = down + 4) (ho : o + 4 ≤ 4096) (v : ℕ) :
    push v esp s = .ok down (s.setFrame frame (store32 (s.ram frame) o v)) := by
  have hbottom := taskUserStackBottom_eq
  have hsub : sub32 esp 4 = down := by
    rw [hesp, sub32_of_le (by omega) (by omega)]
    omega
  have hlen := length_bytesOf v
  have hstore := storeBytes_stack (o := o) h (bytesOf v) (by rw [hlen]; exact ho)
  rw [hlen, writeRam_bytesOf, ← hdown] at hstore
  unfold push
  rw [hsub, bind_of_ok hstore]
  rfl

theorem loadByte_stack (h : StackPage s frame) (ho : o < 4096) :
    loadByte (taskUserStackBottom + o) s = .ok (s.ram frame o).toNat s := by
  have hget : (get : KM Kernel) s = .ok s s := rfl
  unfold loadByte
  rw [bind_of_ok hget, bind_of_ok hget, h o ho]
  dsimp only
  rw [bind_of_ok hget, stack_mod ho]
  rfl

theorem loadWord_stack (h : StackPage s frame) (ho : o + 4 ≤ 4096) :
    loadWord (taskUserStackBottom + o) s = .ok (load32 (s.ram frame) o) s := by
  have hnext : ∀ k < 4, u32 (taskUserStackBottom + o + k) = taskUserStackBottom + (o + k) := by
    intro k hk
    rw [taskUserStackBottom_eq, u32_of_lt (by omega)]
    omega
  unfold loadWord
  rw [hnext 1 (by omega), hnext 2 (by omega), hnext 3 (by omega),
    bind_of_ok (loadByte_stack h (by omega)), bind_of_ok (loadByte_stack h (by omega)),
    bind_of_ok (loadByte_stack h (by omega)), bind_of_ok (loadByte_stack h (by omega))]
  rfl

theorem loadWords_stack (h : StackPage s frame) {n : ℕ} (ho : o + 4 * n ≤ 4096) :
    loadWords n (taskUserStackBottom + o) s =
      .ok ((List.range n).map fun k => load32 (s.ram frame) (o + 4 * k)) s := by
  induction n generalizing o with
  | zero => rfl
  | succ n ih =>
    have hnext : u32 (taskUserStackBottom + o + 4) = taskUserStackBottom + (o + 4) := by
      rw [taskUserStackBottom_eq, u32_of_lt (by omega)]
      omega
    have hshift : ((fun k => load32 (s.ram frame) (o + 4 * k)) ∘ Nat.succ) =
        fun k => load32 (s.ram frame) (o + 4 + 4 * k) := by
      funext k
      change load32 (s.ram frame) (o + 4 * (k + 1)) = _
      congr 1
      omega
    unfold loadWords
    rw [bind_of_ok (loadWord_stack h (by omega)), hnext, bind_of_ok (ih (by omega)),
      List.range_succ_eq_map, List.map_cons, List.map_map, hshift]
    rfl

/-! ## The jump -/

/-- The frame behind the five pushes, the last of them at `o`. -/
def pushed (m : Mem) (o eip flags esp : ℕ) : Mem :=
  store32 (store32 (store32 (store32 (store32 m (o + 16) 0x23) (o + 12) esp) (o + 8) flags)
    (o + 4) 0x1b) o eip

theorem load32_pushed_below {m : Mem} {a eip flags esp : ℕ} (ha : a + 4 ≤ o) :
    load32 (pushed m o eip flags esp) a = load32 m a := by
  unfold pushed
  rw [load32_store32_of_disjoint _ _ _ _ (by omega), load32_store32_of_disjoint _ _ _ _ (by omega),
    load32_store32_of_disjoint _ _ _ _ (by omega), load32_store32_of_disjoint _ _ _ _ (by omega),
    load32_store32_of_disjoint _ _ _ _ (by omega)]

theorem load32_pushed {m : Mem} {eip flags esp : ℕ} (heip : eip < 2 ^ 32) (hflags : flags < 2 ^ 32)
    (hesp : esp < 2 ^ 32) :
    ((List.range 5).map fun k => load32 (pushed m o eip flags esp) (o + 4 * k)) =
      [eip, 0x1b, flags, esp, 0x23] := by
  have h0 : load32 (pushed m o eip flags esp) (o + 4 * 0) = eip :=
    load32_store32_self _ _ _ heip
  have h1 : load32 (pushed m o eip flags esp) (o + 4 * 1) = 0x1b :=
    (load32_store32_of_disjoint _ _ _ _ (by omega)).trans (load32_store32_self _ _ _ (by decide))
  have h2 : load32 (pushed m o eip flags esp) (o + 4 * 2) = flags := by
    unfold pushed
    rw [load32_store32_of_disjoint _ _ _ _ (by omega), load32_store32_of_disjoint _ _ _ _ (by omega)]
    exact load32_store32_self _ _ _ hflags
  have h3 : load32 (pushed m o eip flags esp) (o + 4 * 3) = esp := by
    unfold pushed
    rw [load32_store32_of_disjoint _ _ _ _ (by omega), load32_store32_of_disjoint _ _ _ _ (by omega),
      load32_store32_of_disjoint _ _ _ _ (by omega)]
    exact load32_store32_self _ _ _ hesp
  have h4 : load32 (pushed m o eip flags esp) (o + 4 * 4) = 0x23 := by
    unfold pushed
    rw [load32_store32_of_disjoint _ _ _ _ (by omega), load32_store32_of_disjoint _ _ _ _ (by omega),
      load32_store32_of_disjoint _ _ _ _ (by omega), load32_store32_of_disjoint _ _ _ _ (by omega)]
    exact load32_store32_self _ _ _ (by decide)
  change [load32 _ _, load32 _ _, load32 _ _, load32 _ _, load32 _ _] = _
  rw [h0, h1, h2, h3, h4]

/-- The jump of a task whose `esp` is 52 bytes or more above the start of its stack page. -/
theorem jump_stack {r : Registers} {flags q : ℕ} (h : StackPage s frame)
    (hesp : r.esp = taskUserStackBottom + (q + 52)) (hq : q + 52 ≤ 4096) (heip : r.eip < 2 ^ 32)
    (hflags : flags < 2 ^ 32) :
    jump r flags s =
      .ok ⟨(List.range 8).map fun k => load32 (s.ram frame) (q + 4 * k),
        [r.eip, 0x1b, flags, r.esp, 0x23]⟩
        (s.setFrame frame (pushed (s.ram frame) (q + 32) r.eip flags r.esp)) := by
  have hbottom := taskUserStackBottom_eq
  have hlt : r.esp < 2 ^ 32 := by omega
  obtain ⟨e1, he1⟩ : ∃ e, e = taskUserStackBottom + (q + 48) := ⟨_, rfl⟩
  obtain ⟨e2, he2⟩ : ∃ e, e = taskUserStackBottom + (q + 44) := ⟨_, rfl⟩
  obtain ⟨e3, he3⟩ : ∃ e, e = taskUserStackBottom + (q + 40) := ⟨_, rfl⟩
  obtain ⟨e4, he4⟩ : ∃ e, e = taskUserStackBottom + (q + 36) := ⟨_, rfl⟩
  obtain ⟨e5, he5⟩ : ∃ e, e = taskUserStackBottom + (q + 32) := ⟨_, rfl⟩
  have hdown : sub32 e5 32 = taskUserStackBottom + q := by
    rw [he5, hbottom, sub32_of_le (by omega) (by omega)]
    omega
  have h1 : r.esp = e1 + 4 := by omega
  have h2 : e1 = e2 + 4 := by omega
  have h3 : e2 = e3 + 4 := by omega
  have h4 : e3 = e4 + 4 := by omega
  have h5 : e4 = e5 + 4 := by omega
  have hpush (m : Mem) {esp down o : ℕ} (hd : down = taskUserStackBottom + o) (he : esp = down + 4)
      (ho : o + 4 ≤ 4096) (v : ℕ) :
      push v esp (s.setFrame frame m) = .ok down (s.setFrame frame (store32 m o v)) := by
    have hv := push_stack (h.setFrame frame m) hd he ho v
    rw [Kernel.setFrame_setFrame, Kernel.setFrame_ram] at hv
    exact hv
  have p1 := push_stack h he1 h1 (by omega) 0x23
  have p2 (m : Mem) := hpush m he2 h2 (by omega) r.esp
  have p3 (m : Mem) := hpush m he3 h3 (by omega) flags
  have p4 (m : Mem) := hpush m he4 h4 (by omega) 0x1b
  have p5 (m : Mem) := hpush m he5 h5 (by omega) r.eip
  obtain ⟨s5, hs5⟩ : ∃ t, t = s.setFrame frame (pushed (s.ram frame) (q + 32) r.eip flags r.esp) :=
    ⟨_, rfl⟩
  have hstack : StackPage s5 frame := hs5 ▸ h.setFrame _ _
  have hram : s5.ram frame = pushed (s.ram frame) (q + 32) r.eip flags r.esp := by
    rw [hs5, Kernel.setFrame_ram]
  have hgeneral := loadWords_stack (n := 8) (o := q) hstack (by omega)
  have hframe := loadWords_stack (n := 5) (o := q + 32) hstack (by omega)
  have hbelow : ((List.range 8).map fun k => load32 (s5.ram frame) (q + 4 * k)) =
      (List.range 8).map fun k => load32 (s.ram frame) (q + 4 * k) := by
    refine List.map_congr_left fun k hk => ?_
    have hk' := List.mem_range.mp hk
    rw [hram, load32_pushed_below (by omega)]
  rw [hbelow] at hgeneral
  rw [hram, load32_pushed heip hflags hlt, ← he5] at hframe
  rw [hs5] at hgeneral hframe
  unfold jump
  rw [bind_of_ok p1, bind_of_ok (p2 _), bind_of_ok (p3 _), bind_of_ok (p4 _), bind_of_ok (p5 _), hdown]
  exact (bind_of_ok hgeneral _).trans (bind_of_ok hframe _)

end Stack

/-! ## The copy -/

/-- Every register has 32 bits. -/
structure Registers.Words (r : Registers) : Prop where
  general : ∀ w ∈ r.general, w < 2 ^ 32
  eip : r.eip < 2 ^ 32

/-- `find_next_task` finds `pid`, whose directory maps its stack page to `frame`, and the loaded
directory has the cloning page. -/
structure Switchable (s : Kernel) (pid frame : ℕ) : Prop where
  next : findNextTask s.alive s.currentTask = pid
  inTable : pid < maxNumTasks
  stack : s.spaces.translate (s.tasks pid).pageDirectory taskUserStackBottom = some frame
  frameLt : frame < 2 ^ 20
  cloning : (s.spaces.dirs s.cr3).tables 960 = s.cloningBufferPage.1
  cloningNe : s.cloningBufferPage.1 ≠ 0
  cloningIndex : s.cloningBufferPage.2 = 0

/-- Eight words copied into a frame. -/
def copied (m : Mem) (o : ℕ) (ws : List ℕ) : Mem := fun x =>
  if o ≤ x ∧ x < o + 8 * 4 then wordBytes ws (x - o) else m x

section Copy
variable {s : Kernel} {pid frame o : ℕ} {m : Mem} {ws : List ℕ}

theorem load32_copied_outside {a : ℕ} (ha : a + 4 ≤ o) : load32 (copied m o ws) a = load32 m a :=
  load32_congr fun x _ _ => if_neg (by omega)

theorem load32_copied {j : ℕ} (hj : j < 8) (hw : ws.getD j 0 < 2 ^ 32) :
    load32 (copied m o ws) (o + 4 * j) = ws.getD j 0 := by
  have hbyte : ∀ i < 4, copied m o ws (o + 4 * j + i) = UInt8.ofNat (ws.getD j 0 / 256 ^ i) := by
    intro i hi
    have hsub : o + 4 * j + i - o = 4 * j + i := by omega
    have hdiv : (4 * j + i) / 4 = j := by omega
    have hmod : (4 * j + i) % 4 = i := by omega
    unfold copied wordBytes
    rw [if_pos (by omega), hsub, hdiv, hmod]
  have h0 := hbyte 0 (by omega)
  rw [Nat.add_zero] at h0
  unfold load32
  rw [h0, hbyte 1 (by omega), hbyte 2 (by omega), hbyte 3 (by omega)]
  simp only [UInt8.toNat_ofNat']
  omega

theorem translate_stack {d : ℕ} (ho : o < 4096) :
    s.spaces.translate d (taskUserStackBottom + o) = s.spaces.translate d taskUserStackBottom := by
  have hpage : (taskUserStackBottom + o) / 4096 = taskUserStackBottom / 4096 := by
    rw [taskUserStackBottom_eq]
    omega
  unfold Spaces.translate tableIndex pageIndex
  rw [hpage]

/-- The stack page stays where it is when the cloning page is pointed at its frame: the two may be
the same page. -/
theorem Switchable.pointed (h : Switchable s pid frame) :
    (s.pointCloningPage frame).spaces.translate (s.tasks pid).pageDirectory taskUserStackBottom =
        some frame ∧
      (s.pointCloningPage frame).spaces.translate s.cr3 pageCloningBuffer = some frame := by
  have hmod : frame % 2 ^ 20 = frame := Nat.mod_eq_of_lt h.frameLt
  have htable : tableIndex taskUserStackBottom = 960 := by decide
  have hpage : pageIndex taskUserStackBottom = 0 := by decide
  have hsame : pageCloningBuffer = taskUserStackBottom := rfl
  have hself : (s.pointCloningPage frame).spaces.tables s.cloningBufferPage.1 0 =
      { s.spaces.tables s.cloningBufferPage.1 0 with address := frame, present := true } := by
    unfold Kernel.pointCloningPage
    rw [Kernel.setPage_self, if_pos h.cloningIndex.symm, h.cloningIndex, hmod]
  have hdirs : (s.pointCloningPage frame).spaces.dirs = s.spaces.dirs := rfl
  have hstack := h.stack
  rw [hsame]
  unfold Spaces.translate at hstack ⊢
  dsimp only at hstack ⊢
  rw [htable, hpage] at hstack ⊢
  rw [hdirs]
  constructor
  · by_cases hnull : (s.spaces.dirs (s.tasks pid).pageDirectory).tables 960 = 0
    · rw [if_pos hnull] at hstack
      cases hstack
    · rw [if_neg hnull] at hstack ⊢
      by_cases hcloning : (s.spaces.dirs (s.tasks pid).pageDirectory).tables 960 =
          s.cloningBufferPage.1
      · rw [hcloning, hself, if_pos rfl]
      · have hother : (s.pointCloningPage frame).spaces.tables
            ((s.spaces.dirs (s.tasks pid).pageDirectory).tables 960) =
            s.spaces.tables ((s.spaces.dirs (s.tasks pid).pageDirectory).tables 960) :=
          Kernel.setPage_of_ne hcloning
        rw [hother]
        exact hstack
  · rw [h.cloning, if_neg h.cloningNe, hself, if_pos rfl]

theorem Switchable.pageAddress (h : Switchable s pid frame) {t : Kernel} (ht : t.spaces = s.spaces) :
    pageAddress (t.findPage taskUserStackBottom (s.tasks pid).pageDirectory) t = .ok frame t := by
  have hstack := h.stack
  unfold Kernel.findPage
  rw [ht]
  unfold Spaces.translate at hstack
  dsimp only at hstack
  by_cases hnull : (s.spaces.dirs (s.tasks pid).pageDirectory).tables
      (tableIndex taskUserStackBottom) = 0
  · rw [if_pos hnull] at hstack
    cases hstack
  · rw [if_neg hnull] at hstack
    rw [if_pos hnull]
    unfold Evos.pageAddress
    have hget : (get : KM Kernel) t = .ok t t := rfl
    dsimp only
    rw [bind_of_ok hget, ht]
    split at hstack
    · cases hstack
      rfl
    · cases hstack

/-- `task_switch` copies the registers to the stack, 40 bytes below its saved `esp`. -/
theorem Switchable.taskSwitch {q : ℕ} (h : Switchable s pid frame)
    (hesp : (s.tasks pid).savedState.esp = taskUserStackBottom + (q + 52)) (hq : q + 52 ≤ 4096) :
    ∃ t, taskSwitch s = .ok () t ∧ StackPage t frame ∧ t.tasks = s.tasks ∧ t.currentTask = pid ∧
      t.ram frame = copied (s.ram frame) (q + 12) (s.tasks pid).savedState.general := by
  have hbottom := taskUserStackBottom_eq
  have hlt := h.frameLt
  have hinner : sub32 (s.tasks pid).savedState.esp taskUserStackBottom = q + 52 := by
    rw [hesp, sub32_of_le (by omega) (by omega)]
    omega
  have hoffset : sub32 (q + 52) (8 * 5) = q + 12 := by
    rw [sub32_of_le (by omega) (by omega)]
    omega
  have hdest : u32 (u32 (frame * 0x1000) + (q + 12)) = frame * 0x1000 + (q + 12) := by
    rw [u32_of_lt (show frame * 0x1000 < 2 ^ 32 by omega), u32_of_lt (by omega)]
  have hdiv : (frame * 0x1000 + (q + 12)) / 4096 = frame := by omega
  have hmod : (frame * 0x1000 + (q + 12)) % 4096 = q + 12 := by omega
  obtain ⟨hstack, hcloning⟩ := h.pointed
  have hget : ∀ t : Kernel, (get : KM Kernel) t = .ok t t := fun _ => rfl
  have hinTable : ¬pid ≥ maxNumTasks := Nat.not_le.mpr h.inTable
  obtain ⟨u, hu⟩ : ∃ u, u = { s with currentTask := pid } := ⟨_, rfl⟩
  have husp : u.spaces = s.spaces := by rw [hu]
  have hutasks : u.tasks = s.tasks := by rw [hu]
  obtain ⟨v, hv⟩ : ∃ v, v = u.pointCloningPage frame := ⟨_, rfl⟩
  have hvsp : v.spaces = (s.pointCloningPage frame).spaces := by rw [hv, hu]; rfl
  have hvcr3 : v.cr3 = s.cr3 := by rw [hv, hu]; rfl
  have hmem : mmMemcpyPhysical (frame * 0x1000 + (q + 12))
      (wordBytes (s.tasks pid).savedState.general) (8 * 4) u =
      .ok () (v.writeRam frame (q + 12) (8 * 4) (wordBytes (s.tasks pid).savedState.general)) := by
    have hfit : ¬q + 12 + 8 * 4 > 0x1000 := by omega
    have hpoint : (modify (Kernel.pointCloningPage frame) : KM Unit) u = .ok () v := by
      rw [hv]
      rfl
    unfold mmMemcpyPhysical
    rw [hdiv, hmod, if_neg hfit, bind_of_ok hpoint]
    unfold writeCloningPage
    rw [bind_of_ok (hget v), bind_of_ok (hget v), hvsp, hvcr3, hcloning]
    rfl
  have hcurrent : (modify fun s : Kernel => { s with currentTask := pid } : KM Unit) s = .ok () u := by
    rw [hu]
    rfl
  refine ⟨{ v.writeRam frame (q + 12) (8 * 4) (wordBytes (s.tasks pid).savedState.general) with
    cr3 := (s.tasks pid).pageDirectory }, ?_, ?_, ?_, ?_, ?_⟩
  · unfold Evos.taskSwitch
    rw [bind_of_ok (hget s), bind_of_ok (hget s), h.next, if_neg hinTable, bind_of_ok hcurrent,
      bind_of_ok (hget u), hutasks, bind_of_ok (hget u), bind_of_ok (h.pageAddress husp), hinner,
      hoffset, hdest, bind_of_ok hmem]
    rfl
  · intro o ho
    refine (translate_stack ho).trans ?_
    change v.spaces.translate (s.tasks pid).pageDirectory taskUserStackBottom = some frame
    rw [hvsp]
    exact hstack
  · change v.tasks = s.tasks
    rw [hv, hu]
    rfl
  · change v.currentTask = pid
    rw [hv, hu]
    rfl
  · have hram : v.ram = s.ram := by
      rw [hv, hu]
      rfl
    change (v.writeRam frame (q + 12) (8 * 4) _).ram frame = _
    unfold Kernel.writeRam copied
    dsimp only
    rw [hram]
    funext x
    by_cases hx : q + 12 ≤ x ∧ x < q + 12 + 8 * 4
    · rw [if_pos ⟨rfl, hx⟩, if_pos hx]
    · rw [if_neg fun hall => hx hall.2, if_neg hx]

end Copy

/-! ## What is restored -/

section Restored
variable {s : Kernel} {pid frame q flags : ℕ}

/-- What `popa` reads: three words of the stack as they were, and the first five registers of the
copy. -/
def stalePopped (m : Mem) (q : ℕ) (r : Registers) : List ℕ :=
  [load32 m q, load32 m (q + 4), load32 m (q + 8), r.edi, r.esi, r.ebp, r.esp, r.ebx]

theorem popped_eq {m : Mem} {r : Registers} (hr : r.Words) :
    ((List.range 8).map fun k => load32 (copied m (q + 12) r.general) (q + 4 * k)) =
      stalePopped m q r := by
  have hword : ∀ j < 8, r.general.getD j 0 < 2 ^ 32 := by
    intro j hj
    have hlen : j < r.general.length := hj
    rw [List.getD_eq_getElem _ _ hlen]
    exact hr.general _ (List.getElem_mem hlen)
  have hcopy : ∀ j < 5, load32 (copied m (q + 12) r.general) (q + 4 * (j + 3)) =
      r.general.getD j 0 := by
    intro j hj
    have haddr : q + 4 * (j + 3) = q + 12 + 4 * j := by omega
    rw [haddr]
    exact load32_copied (by omega) (hword j (by omega))
  have hold : ∀ k < 3, load32 (copied m (q + 12) r.general) (q + 4 * k) = load32 m (q + 4 * k) :=
    fun k hk => load32_copied_outside (by omega)
  change [load32 _ (q + 4 * 0), load32 _ (q + 4 * 1), load32 _ (q + 4 * 2), load32 _ (q + 4 * (0 + 3)),
    load32 _ (q + 4 * (1 + 3)), load32 _ (q + 4 * (2 + 3)), load32 _ (q + 4 * (3 + 3)),
    load32 _ (q + 4 * (4 + 3))] = _
  rw [hold 0 (by omega), hold 1 (by omega), hold 2 (by omega), hcopy 0 (by omega),
    hcopy 1 (by omega), hcopy 2 (by omega), hcopy 3 (by omega), hcopy 4 (by omega)]
  rfl

/-- The three words on the stack are the first registers, and the registers from `ebx` on have the
values of those that the copy has 12 bytes below. -/
structure StaleMatches (m : Mem) (q : ℕ) (r : Registers) : Prop where
  edi : load32 m q = r.edi
  esi : load32 m (q + 4) = r.esi
  ebp : load32 m (q + 8) = r.ebp
  ebx : r.esi = r.ebx
  edx : r.ebp = r.edx
  ecx : r.esp = r.ecx
  eax : r.ebx = r.eax

theorem taskSwitchJump_eq (h : Switchable s pid frame) (hr : (s.tasks pid).savedState.Words)
    (hesp : (s.tasks pid).savedState.esp = taskUserStackBottom + (q + 52)) (hq : q + 52 ≤ 4096)
    (hflags : flags < 2 ^ 32) :
    ∃ u, taskSwitchJump flags s = .ok ⟨stalePopped (s.ram frame) q (s.tasks pid).savedState,
      [(s.tasks pid).savedState.eip, 0x1b, flags, (s.tasks pid).savedState.esp, 0x23]⟩ u := by
  obtain ⟨t, hswitch, hstack, htasks, hcurrent, hram⟩ := h.taskSwitch hesp hq
  have hjump := jump_stack hstack hesp hq hr.eip hflags
  rw [hram, popped_eq hr] at hjump
  have hget : (get : KM Kernel) t = .ok t t := rfl
  have hrun : taskSwitchJump flags s = jump (s.tasks pid).savedState flags t := by
    unfold taskSwitchJump
    rw [bind_of_ok hswitch, bind_of_ok hget, hcurrent, htasks]
  exact ⟨_, hrun.trans hjump⟩

/-- `task_switch` with its jump restores the registers of the task exactly if the stack happens to
hold three of them already and the others repeat their neighbours. -/
theorem restores_iff (h : Switchable s pid frame) (hr : (s.tasks pid).savedState.Words)
    (hesp : (s.tasks pid).savedState.esp = taskUserStackBottom + (q + 52)) (hq : q + 52 ≤ 4096)
    (hflags : flags < 2 ^ 32) :
    (∃ p t, taskSwitchJump flags s = .ok p t ∧ Restores (s.tasks pid).savedState flags p) ↔
      StaleMatches (s.ram frame) q (s.tasks pid).savedState := by
  obtain ⟨u, hrun⟩ := taskSwitchJump_eq h hr hesp hq hflags
  generalize (s.tasks pid).savedState = r at *
  rw [hrun]
  constructor
  · rintro ⟨p, v, hp, hrestores⟩
    cases hp
    have hgeneral := hrestores.general
    unfold stalePopped Registers.general at hgeneral
    simp only [List.eraseIdx_cons_succ, List.eraseIdx_cons_zero, List.cons.injEq, and_true]
      at hgeneral
    obtain ⟨h1, h2, h3, h4, h5, h6, h7⟩ := hgeneral
    exact ⟨h1, h2, h3, h4, h5, h6, h7⟩
  · intro hm
    refine ⟨_, u, rfl, ?_, rfl⟩
    unfold stalePopped Registers.general
    rw [hm.edi, hm.esi, hm.ebp, ← hm.ebx, ← hm.edx, ← hm.ecx, ← hm.eax, hm.ebx]
    rfl

end Restored

/-! ## One task -/

/-- A directory at 1 with the table of the cloning page at 2, and one task with these registers. -/
def oneTaskKernel (r : Registers) : Kernel :=
  { afterInitFrames (fun _ => 0) ⟨0, 0, 0⟩ with
    spaces := ⟨fun _ => ⟨fun i => if i = 960 then 2 else 0, fun _ => 0, 0⟩,
      fun _ _ => ⟨true, true, true, 5⟩⟩
    cr3 := 1
    cloningBufferPage := (2, 0)
    tasks := fun i => if i = 0 then ⟨0, true, 1, r⟩ else Task.zero
    currentTask := noPid }

theorem oneTaskKernel_switchable (r : Registers) : Switchable (oneTaskKernel r) 0 5 where
  next := by
    have hstart : u32 (noPid + 1) = 0 := by decide
    change nextFrom (oneTaskKernel r).alive maxNumTasks (u32 (noPid + 1)) = 0
    rw [hstart]
    exact nextFrom_alive rfl (by decide)
  inTable := by decide
  stack := rfl
  frameLt := by decide
  cloning := rfl
  cloningNe := Nat.succ_ne_zero 1
  cloningIndex := rfl

theorem words_iff {r : Registers} :
    r.Words ↔ (∀ w ∈ r.general, w < 2 ^ 32) ∧ r.eip < 2 ^ 32 :=
  ⟨fun h => ⟨h.general, h.eip⟩, fun h => ⟨h.1, h.2⟩⟩

/-- A task whose registers are zero, but for `ecx` which repeats `esp`, on an empty stack. -/
theorem restores_repeated :
    ∃ p t, taskSwitchJump 0x202
        (oneTaskKernel { initialRegisters with ecx := taskUserStackBottom + 0x0FFC }) = .ok p t ∧
      Restores { initialRegisters with ecx := taskUserStackBottom + 0x0FFC } 0x202 p :=
  (restores_iff (q := 4040) (oneTaskKernel_switchable _) (words_iff.mpr (by decide)) rfl (by decide)
    (by decide)).mpr ⟨rfl, rfl, rfl, rfl, rfl, rfl, rfl⟩

/-- The registers of a new task are not restored: `popa` reads its `esp` as `ecx`. -/
theorem not_restores_initial :
    ¬∀ (s : Kernel) (pid frame q flags : ℕ), Switchable s pid frame →
      (s.tasks pid).savedState.Words →
      (s.tasks pid).savedState.esp = taskUserStackBottom + (q + 52) → q + 52 ≤ 4096 →
      flags < 2 ^ 32 →
      ∃ p t, taskSwitchJump flags s = .ok p t ∧ Restores (s.tasks pid).savedState flags p := by
  intro hall
  have hswitch := oneTaskKernel_switchable initialRegisters
  have hr : ((oneTaskKernel initialRegisters).tasks 0).savedState.Words := words_iff.mpr (by decide)
  obtain ⟨p, t, hrun, hrestores⟩ := hall _ 0 5 4040 0x202 hswitch hr rfl (by decide) (by decide)
  obtain ⟨u, hpopped⟩ := taskSwitchJump_eq (q := 4040) hswitch hr rfl (by decide)
    (show 0x202 < 2 ^ 32 by decide)
  rw [hpopped] at hrun
  cases hrun
  have hecx : (some 0xF0000FFC : Option ℕ) = some 0 :=
    congrArg (fun ws : List ℕ => ws[5]?) hrestores.general
  cases hecx

end Evos
