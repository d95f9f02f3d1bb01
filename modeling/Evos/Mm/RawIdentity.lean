import Evos.Mm.RawBoot

/-! # The identity mapping over the bytes of memory

Before page `n` the frames below `n` are marked, and the rest of memory is what the page directory and
its tables leave of it. The bits of those frames do not reach the second word of the directory: its
first word, the address of a table, has a bit that stops the loop. -/

namespace Evos
open ByteMemory Outcome
set_option autoImplicit false

/-! ## The bits in memory -/

section Bits
variable {base n size : ℕ} {m m' : Mem}

theorem isSet_of_marked (h : Marked base n m m') {f : ℕ} (hf : base + f / 8 < 2 ^ 32) :
    isSet (Words.atBase base) m' f = (isSet (Words.atBase base) m f || decide (f < n)) := by
  rw [isSet_atBase m' hf, isSet_atBase m hf, h _ _ (by omega)]
  congr 2
  exact propext (by omega)

theorem marked_bitsetSet (h : Marked base n m m') (hn : outerIndex n < size)
    (hroom : base + n / 8 < 2 ^ 32) :
    Marked base (n + 1) m (bitsetSet (Words.atBase base) size m' n) := by
  have haddress : wordAddress base (n / 32) = base + 4 * (n / 32) := u32_of_lt (by omega)
  have hset : Evos.bitsetSet (Words.atBase base) size m' n =
      store32 m' (wordAddress base (n / 32))
        (load32 m' (wordAddress base (n / 32)) ||| 1 <<< (n % 32)) := if_neg (by omega)
  rw [hset, haddress]
  exact h.succ

end Bits

/-! ## `get_page` -/

section GetPage
variable {s : RawKernel} {address dir a : ℕ}

theorem wordAddress_of_lt {base k : ℕ} (h : base + 4 * k < 2 ^ 32) :
    wordAddress base k = base + 4 * k := u32_of_lt h

/-- The state behind a new table at `base + 4 * a`. -/
def RawKernel.addTable (dir j a : ℕ) (s : RawKernel) : RawKernel :=
  { s with
    mem := store32 (fill (store32 s.mem (dir + 4 * j) (dir + 4 * a)) (dir + 4 * a) 0 4096)
      (dir + 4 * (1024 + j)) ((dir + 4 * a) ||| 7)
    memFirstUnused := dir + 4 * a + 4096 }

theorem rawGetPage_old {entry : ℕ} (hentry : wordAddress dir (tableIndex address) = entry)
    (h : load32 s.mem entry ≠ 0) :
    rawGetPage address dir s = .ok (wordAddress (load32 s.mem entry) (pageIndex address)) s := by
  subst hentry
  unfold rawGetPage
  rw [rawLoad_bind, if_pos h, rawLoad_bind]
  rfl

theorem rawGetPage_new (hj : tableIndex address < 1024) (ha : 2048 ≤ a)
    (hroom : dir + 4 * a + 4096 < 2 ^ 32) (hfirst : roundUp s.memFirstUnused = dir + 4 * a)
    (h : load32 s.mem (dir + 4 * tableIndex address) = 0) :
    rawGetPage address dir s = .ok (dir + 4 * a + 4 * pageIndex address)
      (s.addTable dir (tableIndex address) a) := by
  have hindex : pageIndex address < 1024 := Nat.mod_lt _ (by decide)
  have hsize : pageTableSize = 4096 := rfl
  have hentry : wordAddress dir (tableIndex address) = dir + 4 * tableIndex address :=
    wordAddress_of_lt (by omega)
  have hphysical : wordAddress dir (1024 + tableIndex address) =
      dir + 4 * (1024 + tableIndex address) := wordAddress_of_lt (by omega)
  have hpage : wordAddress (dir + 4 * a) (pageIndex address) = dir + 4 * a + 4 * pageIndex address :=
    wordAddress_of_lt (by omega)
  have hblock : linearKmalloc pageTableSize true s.memFirstUnused =
      (dir + 4 * a, dir + 4 * a + 4096) := by
    rw [linearKmalloc_align (by omega), hfirst, hsize]
  have hstored : load32 (store32 s.mem (dir + 4 * tableIndex address) (dir + 4 * a))
      (dir + 4 * tableIndex address) = dir + 4 * a := load32_store32_self _ _ _ (by omega)
  have hcleared : load32 (fill (store32 s.mem (dir + 4 * tableIndex address) (dir + 4 * a))
      (dir + 4 * a) 0 4096) (dir + 4 * tableIndex address) = dir + 4 * a :=
    (load32_congr fun _ _ _ => fill_of_outside _ _ _ _ _ (by omega)).trans hstored
  have hkept := (load32_store32_of_disjoint (fill (store32 s.mem (dir + 4 * tableIndex address)
    (dir + 4 * a)) (dir + 4 * a) 0 4096) (dir + 4 * (1024 + tableIndex address))
    (dir + 4 * tableIndex address) ((dir + 4 * a) ||| 7) (by omega)).trans hcleared
  unfold rawGetPage
  rw [hentry, hphysical, rawLoad_bind, if_neg (not_not.mpr h), rawKmallocAp_bind, hblock]
  dsimp only
  rw [rawStore_bind, rawLoad_bind]
  dsimp only
  rw [hstored, hsize, rawClear_bind, rawStore_bind, rawLoad_bind]
  dsimp only
  rw [hkept, hpage]
  rfl

end GetPage

/-! ## The invariant -/

/-- Where the page directory is put. -/
def RawKernel.bootBase (o : RawKernel) : ℕ := roundUp o.memFirstUnused

/-- The kernel as `init_frames` leaves it. -/
structure RawKernel.Ready (o : RawKernel) : Prop where
  first : o.memFirstUnused = o.frames.base + o.frames.size
  room : o.memFirstUnused ≤ 2 ^ 32 - 15 * 2 ^ 20
  words : o.frames.size ≤ 2 ^ 15
  large : o.frames.size = 0 ∨ 128 ≤ o.frames.size

/-- Memory under the page directory and its tables. -/
def RawKernel.image (o : RawKernel) (c n : ℕ) : Mem :=
  overlay o.mem o.bootBase (identityWord o.bootBase c n)

/-- The loop stands before page `n`, with tables for the pages below `c`. -/
structure RawBooting (o : RawKernel) (c n : ℕ) (s : RawKernel) : Prop where
  frames : s.frames = o.frames
  directory : s.kernelDirectory = o.bootBase
  first : s.memFirstUnused = o.bootBase + 0x4000 + 4096 * tablesBelow c
  mem : Marked o.frames.base n (o.image c n) s.mem
  inside : n ≤ 32 * o.frames.size
  short : ∀ k, (tableAddress o.bootBase 0).testBit k = true → n ≤ 8 * (o.bootBase - o.frames.base) + k

/-- The bits of the frames to be mapped lie in front of the directory, and are clear. -/
def RawKernel.Clear (o : RawKernel) : Prop :=
  ∀ f, ¬BehindIdentity o.bootBase f → f < 32 * o.frames.size ∧
    f < 8 * (o.bootBase - o.frames.base) ∧ isSet (Words.atBase o.frames.base) o.mem f = false

section Invariant
variable {o s t : RawKernel} {c n j : ℕ}

theorem RawKernel.Ready.bounds (ho : o.Ready) : o.frames.base + o.frames.size ≤ o.bootBase ∧
    o.bootBase < o.frames.base + o.frames.size + 4096 ∧ o.bootBase ≤ 2 ^ 32 - 15 * 2 ^ 20 ∧
    o.bootBase % 4096 = 0 := by
  have hfirst := ho.first
  have hroom := ho.room
  unfold RawKernel.bootBase roundUp
  omega

theorem RawKernel.Ready.bit_lt (ho : o.Ready) {k : ℕ}
    (hk : (tableAddress o.bootBase 0).testBit k = true) : k < 32 := by
  by_contra hge
  have hlt := tableAddress_lt ho.bounds.2.2.1 (show 0 < 1024 by decide)
  have hword : tableAddress o.bootBase 0 < 2 ^ 32 := by omega
  rw [Nat.testBit_eq_false_of_lt (hword.trans_le
    (Nat.pow_le_pow_right (by decide) (Nat.not_lt.mp hge)))] at hk
  cases hk

theorem RawBooting.lt_short (h : RawBooting o c n s) (ho : o.Ready) :
    n < 8 * (o.bootBase - o.frames.base) + 32 := by
  have hne : tableAddress o.bootBase 0 ≠ 0 := by
    have hle := le_tableAddress o.bootBase 0
    omega
  obtain ⟨k, hk⟩ := Nat.exists_testBit_of_ne_zero hne
  have hlt := ho.bit_lt hk
  have hshort := h.short k hk
  omega

theorem RawBooting.front (h : RawBooting o c n s) (ho : o.Ready) :
    n ≤ 8 * (o.bootBase + 4 * (n / 1024) - o.frames.base) := by
  obtain ⟨hle, _, _, _⟩ := ho.bounds
  have hlt := h.lt_short ho
  have hinside := h.inside
  rcases ho.large with hzero | hlarge
  · omega
  · omega

theorem RawBooting.load_entry (h : RawBooting o c n s) (ho : o.Ready) (hj : n / 1024 < 1024) :
    load32 s.mem (o.bootBase + 4 * (n / 1024)) =
      if HasTable c (n / 1024) then tableAddress o.bootBase (n / 1024) else 0 := by
  have hlt := tableAddress_lt ho.bounds.2.2.1 hj
  rw [h.mem.load32 (h.front ho)]
  refine load32_overlay (identityWord_entry _ _ _ hj) ?_
  split <;> omega

/-! ## One round -/

theorem RawBooting.oldTable (h : RawBooting o n n s) (hold : HasTable n (n / 1024)) :
    RawBooting o (n + 1) n s := by
  have hhas : ∀ i, HasTable (n + 1) i ↔ HasTable n i := by
    intro i
    unfold HasTable at *
    omega
  have hsame := tablesBelow_succ_of_old hold
  have himage : o.image (n + 1) n = o.image n n := by
    funext x
    refine overlay_congr fun _ => identityWord_congr (fun i _ => hhas i) (fun _ => ?_) fun _ => Iff.rfl
    rw [hsame]
  refine { h with first := ?_, mem := ?_ }
  · rw [hsame]
    exact h.first
  · rw [himage]
    exact h.mem

theorem RawBooting.addTable (h : RawBooting o n n s) (ho : o.Ready) (hlt : n / 1024 < 1024)
    (hnew : ¬HasTable n (n / 1024)) :
    RawBooting o (n + 1) n (s.addTable o.bootBase (n / 1024) (4096 + 1024 * tablesBelow n)) := by
  have hmod : n % 1024 = 0 := by
    unfold HasTable at hnew
    omega
  have hheap : n / 1024 ≠ 60 := fun hj => hnew (Or.inl hj)
  have hn : 1024 * (n / 1024) = n := by omega
  have haddress : tableAddress o.bootBase (n / 1024) =
      o.bootBase + 4 * (4096 + 1024 * tablesBelow n) := by
    rw [tableAddress_eq hheap, hn]
  have hhas : HasTable (n + 1) (n / 1024) := Or.inr (by omega)
  have hptr := identityWord_entry o.bootBase (n + 1) n hlt
  have hphysical := identityWord_physical o.bootBase (n + 1) n hlt
  rw [if_pos hhas, haddress] at hptr hphysical
  obtain ⟨hzero, hother⟩ := identityWord_newTable o.bootBase hmod hheap
  have hfront := h.front ho
  have hmoved := ((h.mem.store32 hfront (o.bootBase + 4 * (4096 + 1024 * tablesBelow n))).fill
    (a := o.bootBase + 4 * (4096 + 1024 * tablesBelow n)) (by omega) 0 4096).store32
    (a := o.bootBase + 4 * (1024 + n / 1024)) (by omega)
    ((o.bootBase + 4 * (4096 + 1024 * tablesBelow n)) ||| 7)
  refine { h with first := ?_, mem := ?_ }
  · have hsucc := tablesBelow_succ_of_new hmod hheap
    change o.bootBase + 4 * (4096 + 1024 * tablesBelow n) + 4096 = _
    omega
  · unfold RawKernel.image at hmoved
    rw [overlay_addTable hlt (by omega) hptr hphysical hzero hother] at hmoved
    exact hmoved

theorem RawBooting.getPage (h : RawBooting o n n s) (ho : o.Ready) (hlt : n / 1024 < 1024) :
    ∃ t, rawGetPage (4096 * n) s.kernelDirectory s =
        .ok (tableAddress o.bootBase (n / 1024) + 4 * (n % 1024)) t ∧ RawBooting o (n + 1) n t := by
  obtain ⟨_, _, hbase, hbase4⟩ := ho.bounds
  have htable : tableIndex (4096 * n) = n / 1024 := by
    unfold tableIndex
    omega
  have hpage : pageIndex (4096 * n) = n % 1024 := by
    unfold pageIndex
    omega
  have hentry := h.load_entry ho hlt
  have hend := tableAddress_lt hbase hlt
  rw [h.directory]
  by_cases hold : HasTable n (n / 1024)
  · rw [if_pos hold] at hentry
    have hle := le_tableAddress o.bootBase (n / 1024)
    have hword : wordAddress o.bootBase (tableIndex (4096 * n)) = o.bootBase + 4 * (n / 1024) := by
      rw [htable]
      exact wordAddress_of_lt (by omega)
    refine ⟨s, ?_, h.oldTable hold⟩
    rw [rawGetPage_old hword (by omega), hentry, hpage, wordAddress_of_lt (by omega)]
  · rw [if_neg hold] at hentry
    have hfirst := h.first
    have hround : roundUp s.memFirstUnused = o.bootBase + 4 * (4096 + 1024 * tablesBelow n) := by
      rw [roundUp_of_mod (by omega), hfirst]
      omega
    have haddress : tableAddress o.bootBase (n / 1024) =
        o.bootBase + 4 * (4096 + 1024 * tablesBelow n) := by
      have hn : 1024 * (n / 1024) = n := by
        unfold HasTable at hold
        omega
      rw [tableAddress_eq fun hj => hold (Or.inl hj), hn]
    refine ⟨_, ?_, h.addTable ho hlt hold⟩
    have hlt' : tableIndex (4096 * n) < 1024 := by omega
    rw [rawGetPage_new hlt' (by omega) (by omega) hround (by rw [htable, hentry]), htable, hpage,
      haddress]

theorem RawBooting.le_frame (h : RawBooting o c n s) (ho : o.Ready) {f : ℕ} {m : Mem}
    (hf : frameAlloc (Words.atBase s.frames.base) s.frames.size s.mem = .ok (f, m)) : n ≤ f := by
  obtain ⟨hin, hclear, _, _⟩ := frameAlloc_ok hf
  have hlt := outerIndex_lt_iff.mp hin
  have hwords := ho.words
  have hroom := ho.room
  have hfirst := ho.first
  rw [h.frames] at hclear hlt
  rw [isSet_of_marked h.mem (by omega), Bool.or_eq_false_iff, decide_eq_false_iff_not] at hclear
  omega

/-- Frame `n` is the next one: the bits of its address tell that none of those in the first word of
the directory is reached. -/
theorem RawBooting.mapped (h : RawBooting o (n + 1) n s) (ho : o.Ready) {m : Mem}
    (hf : frameAlloc (Words.atBase s.frames.base) s.frames.size s.mem = .ok (n, m)) :
    RawBooting o (n + 1) (n + 1) { s with
      mem := store32 m (tableAddress o.bootBase (n / 1024) + 4 * (n % 1024))
        (pageWord (load32 m (tableAddress o.bootBase (n / 1024) + 4 * (n % 1024))) true n) } := by
  obtain ⟨hbitmap, _, hbase, _⟩ := ho.bounds
  obtain ⟨hin, hclear, _, rfl⟩ := frameAlloc_ok hf
  have hwords := ho.words
  have hroom := ho.room
  have hfirst := ho.first
  have hshort := h.lt_short ho
  have hbit := outerIndex_lt_iff.mp hin
  rw [h.frames] at hbit hclear ⊢
  have hhas : HasTable (n + 1) (n / 1024) := Or.inr (by omega)
  obtain ⟨k, hk, hword⟩ := identityWord_page o.bootBase hhas
  have hle := le_tableAddress o.bootBase (n / 1024)
  have hmarked := marked_bitsetSet h.mem (outerIndex_lt_iff.mpr hbit) (by omega)
  have hnone : ¬n < n := Nat.lt_irrefl n
  have hold : load32 (o.image (n + 1) n) (o.bootBase + 4 * k) = 0 :=
    load32_overlay ((hword n).trans (by rw [if_neg hnone])) (by decide)
  have hload : load32 _ (o.bootBase + 4 * k) = _ := hmarked.load32 (by omega)
  have hpage : pageWord 0 true n = 4096 * n + 7 := by
    change 4096 * (n % 2 ^ 20) + 0 + 7 = _
    rw [Nat.mod_eq_of_lt (by omega), Nat.add_zero]
  have himage : store32 (o.image (n + 1) n) (o.bootBase + 4 * k) (4096 * n + 7) =
      o.image (n + 1) (n + 1) := by
    refine store32_overlay ((hword (n + 1)).trans (by rw [if_pos (Nat.lt_succ_self n)])) fun i hi => ?_
    exact identityWord_mapped (by omega)
  rw [hk, hload, hold, hpage]
  refine ⟨rfl, h.directory, h.first, ?_, hbit, fun i hi => ?_⟩
  · rw [← himage]
    exact hmarked.store32 (by omega) _
  · have hnext := h.short i hi
    by_contra hgt
    have hi32 := ho.bit_lt hi
    have hentry : load32 (o.image (n + 1) n) (o.bootBase + 4 * 0) = tableAddress o.bootBase 0 := by
      have hsmall := tableAddress_lt hbase (show 0 < 1024 by decide)
      have hfirst : HasTable (n + 1) 0 := Or.inr (Nat.succ_pos n)
      refine load32_overlay ((identityWord_entry _ _ _ (by decide)).trans ?_) (by omega)
      rw [if_pos hfirst]
    have hbyte := testBit_load32 (o.image (n + 1) n) o.bootBase (Nat.mod_lt i (by decide))
      (show i / 8 < 4 by omega)
    simp only [Nat.mul_zero, Nat.add_zero] at hentry
    rw [hentry, Nat.div_add_mod, hi] at hbyte
    rw [isSet_of_marked h.mem (by omega), isSet_atBase _ (by omega),
      show o.frames.base + n / 8 = o.bootBase + i / 8 by omega, show n % 8 = i % 8 by omega,
      ← hbyte] at hclear
    cases hclear

theorem RawBooting.next (h : RawBooting o c n s) (ho : o.Ready) (hn : n < 32 * o.frames.size)
    (hfront : n < 8 * (o.bootBase - o.frames.base))
    (hclear : isSet (Words.atBase o.frames.base) o.mem n = false) :
    ∃ m, frameAlloc (Words.atBase s.frames.base) s.frames.size s.mem = .ok (n, m) := by
  have hwords := ho.words
  have hroom := ho.room
  have hfirst := ho.first
  have hbelow : o.image c n (o.frames.base + n / 8) = o.mem (o.frames.base + n / 8) :=
    overlay_below (by omega)
  have hfree : isSet (Words.atBase s.frames.base) s.mem n = false := by
    rw [h.frames, isSet_of_marked h.mem (by omega), isSet_atBase _ (by omega), hbelow,
      ← isSet_atBase _ (by omega), hclear, decide_eq_false (Nat.lt_irrefl n)]
    rfl
  have hin : outerIndex n < s.frames.size := by
    rw [h.frames]
    exact outerIndex_lt_iff.mpr hn
  obtain ⟨f, m, hf⟩ := frameAlloc_total hin hfree
  obtain ⟨_, _, hmin, _⟩ := frameAlloc_ok hf
  have hle := h.le_frame ho hf
  have hge : f ≤ n := by
    by_contra hlt
    rw [hmin n (Nat.not_le.mp hlt)] at hfree
    cases hfree
  rw [show n = f by omega]
  exact ⟨m, hf⟩

theorem pageWord_lt (word frame : ℕ) : pageWord word true frame < 2 ^ 32 ∧
    pageWord word true frame / 4096 = frame % 2 ^ 20 := by
  change 4096 * (frame % 2 ^ 20) + 8 * (word % 4096 / 8) + 7 < 2 ^ 32 ∧
    (4096 * (frame % 2 ^ 20) + 8 * (word % 4096 / 8) + 7) / 4096 = frame % 2 ^ 20
  omega

/-- `page_alloc` on page `n`: unless the next frame is `n`, the assertion fires. -/
theorem RawBooting.pageAlloc (h : RawBooting o (n + 1) n s) (ho : o.Ready) (hlt : n / 1024 < 1024)
    (hbehind : ¬BehindIdentity o.bootBase n) :
    Ends (rawPageAlloc (tableAddress o.bootBase (n / 1024) + 4 * (n % 1024)) true s)
      (fun _ t =>
        (load32 t.mem (tableAddress o.bootBase (n / 1024) + 4 * (n % 1024)) / 4096 = n →
          RawBooting o (n + 1) (n + 1) t) ∧
        (o.Clear → load32 t.mem (tableAddress o.bootBase (n / 1024) + 4 * (n % 1024)) / 4096 = n))
      (fun _ => ¬o.Clear) := by
  have hwords := ho.words
  have hshort := h.lt_short ho
  obtain ⟨hbitmap, _, _, _⟩ := ho.bounds
  obtain ⟨k, hk, hword⟩ := identityWord_page o.bootBase (c := n + 1) (v := n) (Or.inr (by omega))
  have hle := le_tableAddress o.bootBase (n / 1024)
  have hload : load32 s.mem (tableAddress o.bootBase (n / 1024) + 4 * (n % 1024)) = 0 := by
    rw [h.mem.load32 (by omega), hk]
    exact load32_overlay ((hword n).trans (by rw [if_neg (Nat.lt_irrefl n)])) (by decide)
  have hclear : o.Clear → ∃ m,
      frameAlloc (Words.atBase s.frames.base) s.frames.size s.mem = .ok (n, m) := by
    intro hc
    obtain ⟨hn, hfront, hfree⟩ := hc n hbehind
    exact h.next ho hn hfront hfree
  unfold rawPageAlloc
  rw [rawLoad_bind, hload, if_neg (by decide)]
  cases hf : frameAlloc (Words.atBase s.frames.base) s.frames.size s.mem with
  | error e =>
    have hrun : rawAllocFrame s = .error e s := by
      unfold rawAllocFrame
      rw [hf]
    rw [bind_of_error hrun]
    refine ends_error fun hc => ?_
    obtain ⟨m, hok⟩ := hclear hc
    rw [hf] at hok
    cases hok
  | ok r =>
    obtain ⟨f, m⟩ := r
    have hrun : rawAllocFrame s = .ok f { s with mem := m } := by
      unfold rawAllocFrame
      rw [hf]
    rw [bind_of_ok hrun, rawLoad_bind]
    obtain ⟨hsmall, hdiv⟩ := pageWord_lt
      (load32 m (tableAddress o.bootBase (n / 1024) + 4 * (n % 1024))) f
    have hstored := load32_store32_self m (tableAddress o.bootBase (n / 1024) + 4 * (n % 1024)) _ hsmall
    have hframe : f < 2 ^ 20 := by
      have hin := outerIndex_lt_iff.mp (frameAlloc_ok hf).1
      rw [h.frames] at hin
      omega
    refine ends_modify ?_
    dsimp only
    rw [hstored, hdiv, Nat.mod_eq_of_lt hframe]
    refine ⟨?_, fun hc => ?_⟩
    · rintro rfl
      exact h.mapped ho hf
    · obtain ⟨m', hok⟩ := hclear hc
      rw [hf] at hok
      cases hok
      rfl

theorem RawBooting.load_page (h : RawBooting o n n s) (ho : o.Ready) {v : ℕ} (hv : v < n) :
    load32 s.mem (tableAddress o.bootBase (v / 1024) + 4 * (v % 1024)) = 4096 * v + 7 := by
  have hwords := ho.words
  have hinside := h.inside
  have hshort := h.lt_short ho
  obtain ⟨hbitmap, _, _, _⟩ := ho.bounds
  have hhas : HasTable n (v / 1024) := Or.inr (by omega)
  obtain ⟨k, hk, hword⟩ := identityWord_page o.bootBase hhas
  have hle := le_tableAddress o.bootBase (v / 1024)
  rw [h.mem.load32 (by omega), hk]
  exact load32_overlay ((hword n).trans (by rw [if_pos hv])) (by omega)

/-! ## The loop -/

theorem rawIdentityMap_ends (fuel : ℕ) (ho : o.Ready) (h : RawBooting o n n s)
    (hn : 4096 * n ≤ s.memFirstUnused + 0x4000) (hbefore : ∀ v < n, ¬BehindIdentity o.bootBase v)
    (hfuel : 2 ^ 20 ≤ fuel + n) :
    Ends (rawIdentityMap fuel (4096 * n) s)
      (fun _ t => ∃ m, RawBooting o m m t ∧ ∀ v, BehindIdentity o.bootBase v ↔ m ≤ v)
      (fun _ => ¬o.Clear) := by
  obtain ⟨_, _, hbase, hbase4⟩ := ho.bounds
  have hfirst := h.first
  have htables : tablesBelow n ≤ (n + 1023) / 1024 := by
    unfold tablesBelow
    split <;> omega
  induction fuel generalizing n s with
  | zero => omega
  | succ fuel ih =>
    have hbound : u32 (s.memFirstUnused + 4096 * 4) = s.memFirstUnused + 0x4000 :=
      u32_of_lt (by omega)
    refine ends_get_bind ?_
    rw [hbound]
    by_cases hi : 4096 * n < s.memFirstUnused + 0x4000
    · rw [if_pos hi]
      have hbehind : ¬BehindIdentity o.bootBase n := by
        unfold BehindIdentity
        omega
      obtain ⟨t, hpage, hstep⟩ := h.getPage ho (by omega)
      refine ends_get_bind (ends_bind_of_ok hpage (ends_bind
        (hstep.pageAlloc ho (by omega) hbehind) ?_))
      rintro ⟨⟩ u ⟨hnext, hclear⟩
      rw [rawLoad_bind, show 4096 * n / 4096 = n by omega]
      by_cases haddr : load32 u.mem (tableAddress o.bootBase (n / 1024) + 4 * (n % 1024)) / 4096 = n
      · have hi' : u32 (4096 * n + 4096) = 4096 * (n + 1) := by
          rw [u32_of_lt (by omega)]
          omega
        have hmore : tablesBelow n ≤ tablesBelow (n + 1) ∧
            tablesBelow (n + 1) ≤ (n + 1 + 1023) / 1024 := by
          unfold tablesBelow
          split <;> split <;> omega
        have hfirst' := (hnext haddr).first
        rw [if_pos haddr, hi']
        refine ih (hnext haddr) (by omega) (fun v hv => ?_) (by omega) hfirst' hmore.2
        by_cases hvn : v = n
        · rw [hvn]
          exact hbehind
        · exact hbefore v (by omega)
      · rw [if_neg haddr]
        exact ends_throw fun hc => haddr (hclear hc)
    · rw [if_neg hi]
      refine ends_pure ⟨n, h, fun v => ⟨fun hv => ?_, fun hle => ?_⟩⟩
      · by_contra hlt
        exact hbefore v (Nat.lt_of_not_le hlt) hv
      · have hstop : BehindIdentity o.bootBase n := by
          unfold BehindIdentity
          omega
        exact hstop.mono hle

/-! ## From `init_frames` on -/

theorem rawKernelDirectory_eq (ho : o.Ready) :
    rawKernelDirectory o = .ok () { o with
      mem := overlay o.mem o.bootBase (directoryWord o.bootBase)
      memFirstUnused := o.bootBase + 8196
      kernelDirectory := o.bootBase } := by
  have hbase := ho.bounds.2.2.1
  have hblock : linearKmalloc pageDirectorySize true o.memFirstUnused =
      (o.bootBase, o.bootBase + 8196) :=
    linearKmalloc_align (show o.bootBase + 8196 < 2 ^ 32 by omega)
  have hmeta : wordAddress o.bootBase 2048 = o.bootBase + 4 * 2048 := wordAddress_of_lt (by omega)
  have hphysical : u32 (o.bootBase + 4096) = o.bootBase + 4096 := u32_of_lt (by omega)
  let zeroed : ℕ → Option ℕ := fun k => if k < 2049 then some 0 else none
  have hfill : fill o.mem o.bootBase 0 8196 = overlay o.mem o.bootBase zeroed := by
    have hrun : fill (overlay o.mem o.bootBase fun _ => none) (o.bootBase + 4 * 0) 0 (4 * 2049) =
        overlay o.mem o.bootBase zeroed :=
      fill_overlay (fun i _ hi => if_pos (by omega)) fun i hi => if_neg (by omega)
    rw [overlay_nothing, Nat.mul_zero, Nat.add_zero] at hrun
    exact hrun
  have hstore : store32 (overlay o.mem o.bootBase zeroed) (o.bootBase + 4 * 2048) (o.bootBase + 4096) =
      overlay o.mem o.bootBase (directoryWord o.bootBase) := by
    refine store32_overlay rfl fun i hi => ?_
    unfold directoryWord
    change _ = if i < 2049 then some 0 else none
    by_cases hlt : i < 2048
    · rw [if_pos hlt, if_pos (by omega)]
    · rw [if_neg hlt, if_neg hi, if_neg (by omega)]
  unfold rawKernelDirectory
  rw [rawKmallocAp_bind, hblock]
  change EStateM.Result.ok () { o with
    mem := store32 (fill o.mem o.bootBase 0 8196) (wordAddress o.bootBase 2048)
      (u32 (o.bootBase + 4096))
    memFirstUnused := o.bootBase + 8196
    kernelDirectory := o.bootBase } = _
  rw [hmeta, hphysical, hfill, hstore]

/-- The other pages of the heap find the table that the first one makes. -/
theorem rawHeapPages_old {i : ℕ} (hi : kheapStart ≤ i) (hend : i + 4096 * n ≤ kheapStart + 0x400000)
    (hroom : s.kernelDirectory + 4 * 60 < 2 ^ 32)
    (hne : load32 s.mem (s.kernelDirectory + 4 * 60) ≠ 0) : rawHeapPages i n s = .ok () s := by
  induction n generalizing i with
  | zero => rfl
  | succ n ih =>
    have hstart : kheapStart = 0xf000000 := rfl
    have htable : wordAddress s.kernelDirectory (tableIndex i) = s.kernelDirectory + 4 * 60 := by
      have hindex : tableIndex i = 60 := by
        unfold tableIndex
        omega
      rw [hindex]
      exact wordAddress_of_lt hroom
    refine (bind_of_ok (rawGetPage_old htable hne) _).trans ?_
    exact ih (by omega) (by omega)

theorem rawHeapPages_ok (ho : o.Ready) :
    ∃ s, RawBooting o 0 0 s ∧
      rawHeapPages kheapStart (kheapInitialSize / 4096) { o with
        mem := overlay o.mem o.bootBase (directoryWord o.bootBase)
        memFirstUnused := o.bootBase + 8196
        kernelDirectory := o.bootBase } = .ok () s := by
  obtain ⟨_, _, hbase, hbase4⟩ := ho.bounds
  obtain ⟨hzero, hother⟩ := identityWord_heap o.bootBase
  have hround : roundUp (o.bootBase + 8196) = o.bootBase + 4 * 3072 := by
    unfold roundUp
    omega
  have hempty : load32 (overlay o.mem o.bootBase (directoryWord o.bootBase))
      (o.bootBase + 4 * tableIndex kheapStart) = 0 := load32_overlay rfl (by decide)
  let made := RawKernel.addTable o.bootBase 60 3072 { o with
    mem := overlay o.mem o.bootBase (directoryWord o.bootBase)
    memFirstUnused := o.bootBase + 8196
    kernelDirectory := o.bootBase }
  have haddress : tableAddress o.bootBase 60 = o.bootBase + 4 * 3072 := if_pos rfl
  have hheap : HasTable 0 60 := Or.inl rfl
  have hptr := identityWord_entry o.bootBase 0 0 (show 60 < 1024 by decide)
  have hphysical := identityWord_physical o.bootBase 0 0 (show 60 < 1024 by decide)
  rw [if_pos hheap, haddress] at hptr hphysical
  have himage : made.mem = o.image 0 0 :=
    overlay_addTable (by decide) (by decide) hptr hphysical hzero hother
  have hboot : RawBooting o 0 0 made := by
    refine ⟨rfl, rfl, ?_, ?_, Nat.zero_le _, fun k _ => Nat.zero_le _⟩
    · have hnone : tablesBelow 0 = 0 := rfl
      change o.bootBase + 4 * 3072 + 4096 = _
      omega
    · rw [himage]
      exact marked_zero _ _
  have hentry : load32 made.mem (o.bootBase + 4 * 60) = tableAddress o.bootBase 60 := by
    have hlt := tableAddress_lt hbase (show 60 < 1024 by decide)
    rw [himage]
    exact load32_overlay (hptr.trans (congrArg some haddress.symm)) (by omega)
  have hle := le_tableAddress o.bootBase 60
  have hdir : made.kernelDirectory = o.bootBase := rfl
  have hothers : rawHeapPages (kheapStart + 4096) 15 made = .ok () made := by
    refine rawHeapPages_old (by decide) (by decide) ?_ ?_
    · rw [hdir]
      omega
    · rw [hdir, hentry]
      omega
  have hfirst : rawGetPage kheapStart o.bootBase { o with
      mem := overlay o.mem o.bootBase (directoryWord o.bootBase)
      memFirstUnused := o.bootBase + 8196
      kernelDirectory := o.bootBase } =
      .ok (o.bootBase + 4 * 3072 + 4 * pageIndex kheapStart) made :=
    rawGetPage_new (by decide) (by decide) (by omega) hround hempty
  exact ⟨made, hboot, (bind_of_ok hfirst _).trans hothers⟩

/-- `init_paging` up to the end of the identity mapping: it goes on behind the frames mapped, or one of
their bits was not clear in front of the directory. -/
theorem rawInitIdentity_ends (ho : o.Ready) :
    Ends (rawInitIdentity o)
      (fun _ t => ∃ m, RawBooting o m m t ∧ ∀ v, BehindIdentity o.bootBase v ↔ m ≤ v)
      (fun _ => ¬o.Clear) := by
  obtain ⟨s, hboot, hpages⟩ := rawHeapPages_ok ho
  have hloop := rawIdentityMap_ends (2 ^ 20 + 1) ho hboot (Nat.zero_le _)
    (fun v hv => absurd hv (Nat.not_lt_zero v)) (by omega)
  exact ends_bind_of_ok (rawKernelDirectory_eq ho) (ends_bind_of_ok hpages hloop)

end Invariant

end Evos
