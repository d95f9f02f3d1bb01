import Evos.Mm.Paging

/-! # `task_create` and `task_switch`

The two calls on the whole kernel, with the address spaces they set up. -/

namespace Evos
open ByteMemory Outcome
set_option autoImplicit false

def Kernel.setTask (pid : ℕ) (f : Task → Task) (s : Kernel) : Kernel :=
  { s with tasks := fun i => if i = pid then f (s.tasks pid) else s.tasks i }

/-- The registers `task_create` sets, the others being zero. -/
def initialRegisters : Registers :=
  { Registers.zero with
    cs := 0x18 ||| 3
    eip := taskImageBase
    ds := 0x20 ||| 3
    ss := 0x20 ||| 3
    esp := taskUserStackBottom + 0x0FFC }

/-- The eight registers from `saved_state.edi` on, as `popa` reads them. -/
def Registers.general (r : Registers) : List ℕ :=
  [r.edi, r.esi, r.ebp, r.esp, r.ebx, r.edx, r.ecx, r.eax]

/-- Byte `o` of the words, least significant byte first. -/
def wordBytes (ws : List ℕ) (o : ℕ) : UInt8 := UInt8.ofNat (ws.getD (o / 4) 0 / 256 ^ (o % 4))

/-- The pages `task_create` sets up, in order. -/
def taskPages : List ℕ := [taskImageBase, taskUserStackBottom, taskKernelStackBottom]

section Depth
variable (depth : ℕ)

/-- A page of a directory, created and mapped. -/
def mapTaskPage (address dir : ℕ) : KM (Option (ℕ × ℕ)) := do
  let page ← getPage depth address dir
  pageAlloc page true
  return page

/-- `page->address`. -/
def pageAddress (page : Option (ℕ × ℕ)) : KM ℕ := do
  match page with
  | none => throw .nullPointer
  | some (t, i) => return ((← get).spaces.tables t i).address

/-- `task_create` for the slot found. -/
def createIn (pid : ℕ) (image : ℕ → UInt8) : KM ℕ := do
  modify (·.setTask pid fun _ => { Task.zero with
    pid := pid, alive := true, savedState := initialRegisters })
  let dir ← cloneDirectory depth (← get).currentDirectory
  modify (·.setTask pid fun task => { task with pageDirectory := dir })
  let imagePage ← mapTaskPage depth taskImageBase dir
  let _ ← mapTaskPage depth taskUserStackBottom dir
  let _ ← mapTaskPage depth taskKernelStackBottom dir
  let frame ← pageAddress imagePage
  mmMemcpyPhysical (u32 (frame * 0x1000)) image 0x1000
  return pid

def taskCreate (image : ℕ → UInt8) : KM ℕ := do
  match findAvailableTask (← get).alive with
  | none => throw (.message "No tasks available")
  | some pid => createIn depth pid image

end Depth

/-- `task_switch`, up to the jump to the task. -/
def taskSwitch : KM Unit := do
  let next := findNextTask (← get).alive (← get).currentTask
  if next ≥ maxNumTasks then throw .wildAccess
  else
    modify fun s => { s with currentTask := next }
    let task := (← get).tasks next
    let offset := sub32 (sub32 task.savedState.esp taskUserStackBottom) (8 * 5)
    let frame ← pageAddress ((← get).findPage taskUserStackBottom task.pageDirectory)
    mmMemcpyPhysical (u32 (u32 (frame * 0x1000) + offset)) (wordBytes task.savedState.general) (8 * 4)
    modify fun s => { s with cr3 := task.pageDirectory }

def initTasking : KM Unit := modify fun s => { s with currentTask := noPid }

theorem pageAddress_ends (page : Option (ℕ × ℕ)) (s : Kernel) :
    Ends (pageAddress page s) (fun _ t => t = s) fun t => t = s := by
  cases page with
  | none => exact ends_throw rfl
  | some page => exact ends_get_bind (ends_pure rfl)

end Evos
