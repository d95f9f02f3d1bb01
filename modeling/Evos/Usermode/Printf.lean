import Evos.Interrupt.Schedule

/-! # `usermode`: `printf` and `write`

A task formats into a buffer of its own and has it printed by a system call: the text goes through the
gate, the stub, `syscall_handler` and `tty_write`, one `printk` for each byte. -/

namespace Evos
open Processor ByteMemory
set_option autoImplicit false

/-! ## The functions -/

/-- A text stored at an address. -/
def storeText (m : Mem) (address : Word) (text : List (BitVec 8)) : Mem := fun x =>
  if address.toNat ≤ x ∧ x < address.toNat + text.length then
    UInt8.ofBitVec (text.getD (x - address.toNat) 0)
  else m x

/-- `write`, from the point where its three registers are loaded. -/
def write (t : Tables) (l : Labels) (left : Leftover) (data count : Word) (c : Cpu) (s : IrqState) :
    Except (Stop Halt) (Word × Cpu × IrqState) :=
  match softwareInt t l commonHandler left isrSyscall { c with eax := 1, ebx := data, ecx := count } s with
  | .error e => .error e
  | .ok (c, s) => .ok (c.eax, c, s)

/-- Why `printf` does not come to its end. -/
inductive PrintfStop where
  | print (p : PrintStop)
  | kernel (e : Stop Halt)

/-- `printf`, with `buf` at an address. What `vsprintf` returns counts the NUL at the end. The task's
own code leaves `own` below `top`, where its stack is at the call. -/
def printf (t : Tables) (l : Labels) (own left : Leftover) (top buf : Word)
    (strings : BitVec 32 → List (BitVec 8)) (fmt : List (BitVec 8)) (args : ℕ → BitVec 32) (c : Cpu)
    (s : IrqState) : Except PrintfStop (Word × Cpu × IrqState) :=
  match vsprintf strings fmt args with
  | .error f => .error (.print (.format f))
  | .ok text =>
    if text.length ≤ sizeofBuf then
      match write t l left buf (BitVec.ofNat 32 text.length)
          { c with mem := storeText (own.mem top.toNat c.mem) buf text } s with
      | .error e => .error (.kernel e)
      | .ok r => .ok r
    else .error (.print .bufOverrun)

/-! ## What is shown -/

variable {m : Mem} {buf : Word} {text : List (BitVec 8)}

theorem toNat_add_ofNat {a : Word} {i : ℕ} (h : a.toNat + i < 2 ^ 32) :
    (a + BitVec.ofNat 32 i).toNat = a.toNat + i := by
  rw [BitVec.toNat_add, BitVec.toNat_ofNat]
  omega

theorem userBytes_storeText (m : Mem) (hbuf : buf.toNat + text.length ≤ 2 ^ 32) :
    userBytes (storeText m buf text) text.length buf = text := by
  rw [userBytes_eq_map]
  refine List.ext_getElem ?_ fun i hi _ => ?_
  · rw [List.length_map, List.length_range]
  · rw [List.length_map, List.length_range] at hi
    rw [List.getElem_map, List.getElem_range, toNat_add_ofNat (by omega)]
    unfold storeText
    rw [if_pos (by omega), Nat.add_sub_cancel_left, List.getD_eq_getElem?_getD,
      List.getElem?_eq_getElem hi]
    rfl

section Task
variable {l : Labels} {left : Leftover} {c : Cpu} {g : Gdt} {tss kernelRelocatedStack : BitVec 32}
  {s : IrqState}

/-- `write` has the bytes shown but for NULs, and returns their number. -/
theorem write_of_task (hrun : Runnable (bootTables l tss kernelRelocatedStack g) c)
    (hring : c.cpl = 3) (hroom : StackRoom kernelRelocatedStack left.depth)
    (hregistered : s.interruptHandlers isrSyscall = some .syscallHandler) {data count : Word}
    (hmapped : ∀ i < count.toNat, s.reach.mapped (data + BitVec.ofNat 32 i) = true)
    (hdata : OffStack kernelRelocatedStack data count) :
    ∃ m', write (bootTables l tss kernelRelocatedStack g) l left data count c s =
        .ok (count, { c with
          eax := count, ebx := data, ecx := count, eip := c.eip + 2
          es := c.ds, fs := c.ds, gs := c.ds, mem := m' },
          s.showing (shown (userBytes c.mem count.toNat data))) ∧
      OnlyIn (kernelRelocatedStack.toNat - (64 + left.depth)) kernelRelocatedStack.toNat c.mem m' := by
  have hrun' : Runnable (bootTables l tss kernelRelocatedStack g)
      { c with eax := 1, ebx := data, ecx := count } := ⟨hrun.code, hrun.stack, hrun.data⟩
  obtain ⟨m', hreturn, honly⟩ := syscall_of_task hrun' hring hroom hregistered
    (Reach.unmapped_of_mapped 1 hmapped) fun _ => hdata
  unfold write
  rw [hreturn]
  exact ⟨m', rfl, honly⟩

/-- `printf` shows what its pieces print but for NULs, and returns one more than their length. Of the
memory of the task the text with its NUL is written, and its own stack below the call. -/
theorem printf_of_task (hrun : Runnable (bootTables l tss kernelRelocatedStack g) c)
    (hring : c.cpl = 3) (hroom : StackRoom kernelRelocatedStack left.depth)
    (hregistered : s.interruptHandlers isrSyscall = some .syscallHandler)
    (strings : BitVec 32 → List (BitVec 8)) (hstrings : ∀ x, (strings x).length < 2 ^ 31)
    {ps : List Piece} (hps : ∀ p ∈ ps, p.Ok) (args : ℕ → BitVec 32) (own : Leftover) (top : Word)
    (hfits : (printedText strings ps args).length < sizeofBuf)
    (hbuf : buf.toNat + sizeofBuf ≤ 2 ^ 32)
    (hmapped : ∀ i < sizeofBuf, s.reach.mapped (buf + BitVec.ofNat 32 i) = true)
    (hoff : buf.toNat + sizeofBuf ≤ kernelRelocatedStack.toNat - 64 ∨
      kernelRelocatedStack.toNat ≤ buf.toNat) :
    ∃ m' count, count.toNat = (printedText strings ps args).length + 1 ∧
      printf (bootTables l tss kernelRelocatedStack g) l own left top buf strings (formatOf ps) args c
          s =
        .ok (count, { c with
          eax := count, ebx := buf, ecx := count, eip := c.eip + 2
          es := c.ds, fs := c.ds, gs := c.ds, mem := m' },
          s.showing (shown (printedText strings ps args))) ∧
      OnlyIn (kernelRelocatedStack.toNat - (64 + left.depth)) kernelRelocatedStack.toNat
        (storeText (own.mem top.toNat c.mem) buf (printedText strings ps args ++ [0])) m' := by
  have hlength : (printedText strings ps args ++ [0]).length =
      (printedText strings ps args).length + 1 := by
    rw [List.length_append, List.length_singleton]
  have hsize : sizeofBuf = 4096 := rfl
  have hcount : (BitVec.ofNat 32 (printedText strings ps args ++ [0]).length).toNat =
      (printedText strings ps args ++ [0]).length := by
    rw [BitVec.toNat_ofNat]
    omega
  have hdata : OffStack kernelRelocatedStack buf
      (BitVec.ofNat 32 (printedText strings ps args ++ [0]).length) := by
    intro i hi
    rw [hcount] at hi
    rw [toNat_add_ofNat (by omega)]
    omega
  have hrun' : Runnable (bootTables l tss kernelRelocatedStack g) { c with
      mem := storeText (own.mem top.toNat c.mem) buf (printedText strings ps args ++ [0]) } :=
    ⟨hrun.code, hrun.stack, hrun.data⟩
  obtain ⟨m', hwrite, honly⟩ := write_of_task hrun' hring hroom hregistered
    (fun i hi => hmapped i (by rw [hcount] at hi; omega)) hdata
  have hbytes : userBytes
      (storeText (own.mem top.toNat c.mem) buf (printedText strings ps args ++ [0]))
      (printedText strings ps args ++ [0]).length buf = printedText strings ps args ++ [0] :=
    userBytes_storeText _ (by omega)
  have hnul : shown (printedText strings ps args ++ [0]) = shown (printedText strings ps args) := by
    unfold shown
    rw [List.filter_append]
    exact List.append_nil _
  dsimp only at hwrite
  rw [hcount, hbytes, hnul] at hwrite
  refine ⟨m', _, hcount.trans hlength, ?_, honly⟩
  unfold printf
  rw [vsprintf_pieces strings ps hps hstrings args]
  dsimp only
  rw [if_pos (by omega), hwrite]

/-- `"pid=%d %s\n"`. -/
def pidPieces : List Piece :=
  [.text (literal "pid="), .number [] 0 (ch 'd'), .text (literal " "), .string [] 0,
    .text (literal "\n")]

def pidArgs : List PrintArg := [.word 7, .str (literal "up")]

theorem printedText_pid :
    printedText (argStrings pidArgs) pidPieces (argWords pidArgs) = literal "pid=7 up\n" := by
  decide +kernel

theorem length_argStrings_pid (x : BitVec 32) : (argStrings pidArgs x).length < 2 ^ 31 := by
  refine (length_argStrings_le (n := 2) (fun str hstr => ?_) x).1.trans_lt (by decide)
  simp only [pidArgs, List.mem_cons, List.not_mem_nil, or_false, reduceCtorEq, false_or,
    PrintArg.str.injEq] at hstr
  rw [hstr]
  decide

/-- A task prints its number. -/
theorem printf_of_task_pid :
    ∃ m' count, count.toNat = (literal "pid=7 up\n").length + 1 ∧
      printf (bootTables stubsInRow 0 0xD0010000 Gdt.zero) stubsInRow
          ⟨0, 0, 0, 0, 600, fun _ => 9⟩ ⟨1, 2, 3, 4, 100, fun _ => 5⟩ 0xF0000FF0 0x10002000
          (argStrings pidArgs) (formatOf pidPieces) (argWords pidArgs) freshTask restingIrq =
        .ok (count, { freshTask with
          eax := count, ebx := 0x10002000, ecx := count, eip := freshTask.eip + 2
          es := freshTask.ds, fs := freshTask.ds, gs := freshTask.ds, mem := m' },
          restingIrq.showing (shown (literal "pid=7 up\n"))) ∧
      OnlyIn ((0xD0010000 : Word).toNat - (64 + 100)) (0xD0010000 : Word).toNat
        (storeText (Leftover.mem ⟨0, 0, 0, 0, 600, fun _ => 9⟩ (0xF0000FF0 : Word).toNat freshTask.mem)
          0x10002000 (literal "pid=7 up\n" ++ [0])) m' := by
  have hfits : (printedText (argStrings pidArgs) pidPieces (argWords pidArgs)).length < sizeofBuf := by
    rw [printedText_pid]
    decide
  have hroom : StackRoom 0xD0010000 100 := ⟨by decide, by decide⟩
  have hbuf : (0x10002000 : Word).toNat + sizeofBuf ≤ 2 ^ 32 := by decide
  have hoff : (0x10002000 : Word).toNat + sizeofBuf ≤ (0xD0010000 : Word).toNat - 64 := by decide
  have hmapped : ∀ i < sizeofBuf, taskReach.mapped (0x10002000 + BitVec.ofNat 32 i) = true := by
    intro i hi
    have hpage : (0x10002000 + BitVec.ofNat 32 i : Word) >>> 12 = 0x10002 := by
      have hsize : sizeofBuf = 4096 := rfl
      have hbase : (0x10002000 : Word).toNat = 0x10002000 := rfl
      have hpage' : (0x10002 : Word).toNat = 0x10002 := rfl
      apply BitVec.eq_of_toNat_eq
      rw [BitVec.toNat_ushiftRight, toNat_add_ofNat (by omega), Nat.shiftRight_eq_div_pow, hbase, hpage']
      omega
    unfold taskReach
    dsimp only
    rw [hpage]
    decide
  rw [← printedText_pid]
  exact printf_of_task (runnable_of_task stubsInRow Gdt.zero 0 0xD0010000 rfl rfl rfl) rfl hroom rfl _
    length_argStrings_pid (by decide) _ _ _ hfits hbuf hmapped (Or.inl hoff)

end Task

end Evos
