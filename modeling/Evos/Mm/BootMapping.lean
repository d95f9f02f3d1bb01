import Evos.Mm.LinearStage

/-! # The identity mapping of `init_paging`

The loop maps memory up to four pages behind `mem_first_unused`, and each table it needs moves
`mem_first_unused`. The tables are as many as the mapped pages need, less the one the heap already
has, so the loop ends; with a clear bitmap page `i` gets frame `i`, and the four pages hold what is
allocated until the heap is there. -/

namespace Evos
open ByteMemory Outcome Bump
set_option autoImplicit false

/-! ## The invariant of the loop -/

/-- The page tables that the loop has created for the pages below `c`. Table 60 is the heap's. -/
def tablesBelow (c : ℕ) : ℕ := if (c + 1023) / 1024 ≤ 60 then (c + 1023) / 1024 else (c + 1023) / 1024 - 1

/-- Page `v` lies behind what the loop maps for a page directory at `base`: the directory and the table
of the heap, the tables for the pages below `v`, and four pages more. -/
def BehindIdentity (base v : ℕ) : Prop := base + 0x8000 + 4096 * tablesBelow v ≤ 4096 * v

/-- `init_mem` leaves more than 15 MiB from `mem_first_unused` on. -/
def Kernel.HasRoom (o : Kernel) : Prop := o.memFirstUnused ≤ 2 ^ 32 - 15 * 2 ^ 20

/-- The bitmap is clear, and has a bit for the frames of these 15 MiB. -/
structure Kernel.Clear (o : Kernel) : Prop where
  words : ∀ w ∈ o.frames, w = 0
  large : o.memFirstUnused + 15 * 2 ^ 20 ≤ 4096 * (32 * o.frames.length)

/-- The frames below `m` are taken and no other. -/
structure FramesBelow (o : Kernel) (m : ℕ) (ws : List ℕ) : Prop where
  length : ws.length = o.frames.length
  word : ∀ w ∈ ws, w < 2 ^ 32
  taken : TakenBelow Words.list o.frames.length m ws

/-- The words of the bitmap, as many as 2^32 bytes of memory need at most. -/
structure Kernel.Bitmap (o : Kernel) : Prop where
  length : o.frames.length ≤ 2 ^ 15
  word : ∀ w ∈ o.frames, w < 2 ^ 32

/-- The frames below `m` were free and are taken, the others are as before. -/
structure FramesSince (o : Kernel) (m : ℕ) (ws : List ℕ) : Prop where
  length : ws.length = o.frames.length
  word : ∀ w ∈ ws, w < 2 ^ 32
  bits : ∀ i, outerIndex i < o.frames.length →
    isSet Words.list ws i = (isSet Words.list o.frames i || decide (i < m))
  free : ∀ i < m, outerIndex i < o.frames.length ∧ isSet Words.list o.frames i = false

/-- The loop stands before page `n`, with tables for the pages below `c`. -/
structure Booting (o : Kernel) (c n : ℕ) (s : Kernel) : Prop extends Staged o n s where
  first : s.memFirstUnused = o.bootBase + 0x4000 + 4096 * tablesBelow c
  tables : ∀ j, s.tableAt j ≠ 0 ↔ j = 60 ∨ 1024 * j < c
  fresh : ∀ v, n ≤ v → s.tableAt (v / 1024) ≠ 0 → (s.pageAt v).address = 0
  frames : o.Clear → FramesBelow o n s.frames
  since : o.Bitmap → FramesSince o n s.frames

/-- What holds wherever `init_paging` stops. -/
structure Stopped (o s : Kernel) : Prop where
  heap : s.heap = o.heap
  linear : LinearSince o s
  first : s.memFirstUnused ≤ o.bootBase + 0x410000

theorem BehindIdentity.mono {base v w : ℕ} (h : BehindIdentity base v) (hw : v ≤ w) :
    BehindIdentity base w := by
  have hstep : tablesBelow w ≤ tablesBelow v + (w - v) := by
    unfold tablesBelow
    split <;> split <;> omega
  unfold BehindIdentity at *
  omega

variable {o s : Kernel} {n : ℕ}

theorem bootBase_mod (o : Kernel) : o.bootBase % 4096 = 0 := roundUp_mod _

theorem Kernel.HasRoom.bootBase (ho : o.HasRoom) : o.bootBase ≤ 2 ^ 32 - 15 * 2 ^ 20 := by
  unfold HasRoom at ho
  unfold Kernel.bootBase roundUp
  omega

/-- The pages mapped and the tables for them are far below the end of memory. -/
theorem Booting.bound (h : Booting o n n s) (ho : o.HasRoom)
    (hn : 4096 * n ≤ s.memFirstUnused + 0x4000) :
    n + 2048 < 2 ^ 20 ∧ tablesBelow n ≤ 1024 ∧ 4096 * n ≤ o.bootBase + 0x408000 := by
  have hfirst := h.first
  have hbase := ho.bootBase
  have htables : tablesBelow n ≤ (n + 1023) / 1024 := by
    unfold tablesBelow
    split <;> omega
  omega

theorem Booting.stopped {c : ℕ} (h : Booting o c n s) (hc : tablesBelow c ≤ 1025) : Stopped o s := by
  refine ⟨h.heap, h.linear, ?_⟩
  have hfirst := h.first
  omega

/-! ## One round -/

theorem tablesBelow_succ_of_new (hmod : n % 1024 = 0) (hheap : n / 1024 ≠ 60) :
    tablesBelow (n + 1) = tablesBelow n + 1 := by
  unfold tablesBelow
  split <;> split <;> omega

theorem tablesBelow_succ_of_old (h : n / 1024 = 60 ∨ 1024 * (n / 1024) < n) :
    tablesBelow (n + 1) = tablesBelow n := by
  unfold tablesBelow
  split <;> split <;> omega

/-- `get_page` makes the table of page `n`, unless it is there. -/
theorem Booting.withTable (h : Booting o n n s) (hroom : s.memFirstUnused + 4096 < 2 ^ 32) :
    Booting o (n + 1) n (s.withTable (n / 1024)) := by
  have hbase := bootBase_mod o
  have hfirst := h.first
  by_cases hold : s.tableAt (n / 1024) ≠ 0
  · have hwhy := (h.tables _).mp hold
    rw [Kernel.withTable_of_ne hold]
    refine { toStaged := h.toStaged, first := ?_, tables := ?_, fresh := h.fresh
             frames := h.frames, since := h.since }
    · rw [hfirst, tablesBelow_succ_of_old hwhy]
    · intro j
      rw [h.tables j]
      omega
  · have hnone : s.tableAt (n / 1024) = 0 := Decidable.not_not.mp hold
    have hwhy := mt (h.tables (n / 1024)).mpr hold
    have hround : roundUp s.memFirstUnused = s.memFirstUnused := roundUp_of_mod (by omega)
    have hroom' : roundUp s.memFirstUnused + pageTableSize < 2 ^ 32 := by
      rw [hround]
      exact hroom
    have hstaged := h.toStaged.withTable (by omega) hroom' hnone
    have hframes := Kernel.withTable_frames (s := s) (n / 1024)
    have htableAt := Kernel.withTable_tableAt hnone hroom'
    have htables := Kernel.withTable_tables hnone hroom'
    have hmoved := Kernel.withTable_memFirstUnused hnone hroom'
    have hsucc := tablesBelow_succ_of_new (n := n) (by omega) (by omega)
    have hsize : pageTableSize = 4096 := rfl
    rw [hround] at htableAt htables hmoved
    refine { toStaged := hstaged, first := ?_, tables := ?_, fresh := ?_
             frames := hframes ▸ h.frames, since := hframes ▸ h.since }
    · rw [hmoved, hsucc]
      omega
    · intro j
      have hj := h.tables j
      rw [htableAt]
      by_cases hjn : j = n / 1024
      · rw [if_pos hjn]
        omega
      · rw [if_neg hjn, hj]
        omega
    · intro v hv hne
      have hbelow := h.below (v / 1024)
      unfold Kernel.pageAt
      rw [htableAt] at hne ⊢
      by_cases hvn : v / 1024 = n / 1024
      · rw [if_pos hvn, htables, if_pos rfl]
        rfl
      · rw [if_neg hvn] at hne ⊢
        rw [htables, if_neg (Nat.ne_of_lt hbelow)]
        exact h.fresh v hv hne

theorem FramesBelow.alloc {m : ℕ} {ws : List ℕ} (h : FramesBelow o m ws)
    (hm : m < 32 * o.frames.length) :
    ∃ ws', frameAlloc Words.list ws.length ws = .ok (m, ws') ∧ FramesBelow o (m + 1) ws' := by
  obtain ⟨ws', hok, ⟨hlength, hword⟩, htaken⟩ := h.taken.next (Words.list_lawful o.frames.length)
    ⟨h.length, h.word⟩ hm
  refine ⟨ws', ?_, hlength, hword, htaken⟩
  rw [h.length]
  exact hok

theorem FramesSince.alloc {m : ℕ} {ws ws' : List ℕ} (h : FramesSince o m ws)
    (hf : frameAlloc Words.list ws.length ws = .ok (m, ws')) : FramesSince o (m + 1) ws' := by
  have hlength := h.length
  rw [hlength] at hf
  have L := Words.list_lawful o.frames.length
  obtain ⟨hin, hclear, _, _⟩ := frameAlloc_ok hf
  obtain ⟨hlength', hword'⟩ := frameAlloc_valid L ⟨hlength, h.word⟩ hf
  refine ⟨hlength', hword', ?_, ?_⟩
  · intro i hi
    rw [isSet_frameAlloc L ⟨hlength, h.word⟩ hf hi, h.bits i hi, Bool.or_assoc, ← Bool.decide_or]
    congr 2
    exact propext (by omega)
  · intro i hi
    by_cases him : i < m
    · exact h.free i him
    · have heq : i = m := by omega
      have hbits := h.bits m hin
      rw [hclear, Nat.lt_irrefl m |> decide_eq_false, Bool.or_false] at hbits
      rw [heq]
      exact ⟨hin, hbits.symm⟩

theorem FramesSince.lt {m f : ℕ} {ws ws' : List ℕ} (h : FramesSince o m ws) (hb : o.Bitmap)
    (hf : frameAlloc Words.list ws.length ws = .ok (f, ws')) : f < 2 ^ 20 := by
  have hlt := outerIndex_lt_iff.mp (frameAlloc_ok hf).1
  have hlength := hb.length
  rw [h.length] at hlt
  omega

theorem Booting.setPage (h : Booting o (n + 1) n s) {ws : List ℕ}
    (hne : s.tableAt (n / 1024) ≠ 0)
    (hframes : o.Clear → FramesBelow o (n + 1) ws)
    (hsince : o.Bitmap → FramesSince o (n + 1) ws) :
    Booting o (n + 1) (n + 1)
      ({ s with frames := ws }.setPage (s.tableAt (n / 1024)) (n % 1024) ⟨true, true, true, n⟩) := by
  have hout : ∀ v < n, v / 1024 = n / 1024 → v % 1024 ≠ n % 1024 := by
    intro v hv
    omega
  have hstaged := (h.toStaged.withFrames ws).setPage (j := n / 1024) ⟨true, true, true, n⟩ hout
  have hself : (({ s with frames := ws }).setPage (s.tableAt (n / 1024)) (n % 1024)
      ⟨true, true, true, n⟩).pageAt n = ⟨true, true, true, n⟩ := by
    change (({ s with frames := ws }).setPage (s.tableAt (n / 1024)) _ _).spaces.tables
      (s.tableAt (n / 1024)) (n % 1024) = _
    rw [Kernel.setPage_self, if_pos rfl]
  have hother : ∀ v, v ≠ n → s.tableAt (v / 1024) ≠ 0 →
      (({ s with frames := ws }).setPage (s.tableAt (n / 1024)) (n % 1024)
        ⟨true, true, true, n⟩).pageAt v = s.pageAt v := by
    intro v hv htable
    change (({ s with frames := ws }).setPage (s.tableAt (n / 1024)) _ _).spaces.tables
      (s.tableAt (v / 1024)) (v % 1024) = _
    by_cases hsame : v / 1024 = n / 1024
    · have hindex : v % 1024 ≠ n % 1024 := by omega
      rw [hsame, Kernel.setPage_self, if_neg hindex, ← hsame]
      rfl
    · rw [Kernel.setPage_of_ne fun heq => hsame (h.apart _ _ heq htable)]
      rfl
  refine { toStaged := ?_, first := h.first, tables := h.tables, fresh := ?_
           frames := hframes, since := hsince }
  · refine ⟨hstaged.noHeap, hstaged.heap, hstaged.below, hstaged.apart, ?_, hstaged.linear,
      hstaged.recorded⟩
    intro v hv
    by_cases hvn : v = n
    · rw [hvn, hself]
      exact ⟨hne, rfl, rfl⟩
    · exact hstaged.mapped v (by omega)
  · intro v hv htable
    rw [hother v (by omega) htable]
    exact h.fresh v (by omega) htable

/-- `page_alloc` on page `n`: the frame is the lowest free one, and unless it is `n` the assertion
fires. -/
theorem Booting.pageAlloc (h : Booting o (n + 1) n s) (hne : s.tableAt (n / 1024) ≠ 0)
    (hn : n < 2 ^ 20) (hlarge : o.Clear → n < 32 * o.frames.length) (hstop : Stopped o s) :
    Ends (pageAlloc (some (s.tableAt (n / 1024), n % 1024)) true s)
      (fun _ t => Stopped o t ∧ t.memFirstUnused = s.memFirstUnused ∧
        ((t.spaces.tables (s.tableAt (n / 1024)) (n % 1024)).address = n →
          Booting o (n + 1) (n + 1) t) ∧
        (o.Clear → (t.spaces.tables (s.tableAt (n / 1024)) (n % 1024)).address = n))
      (fun t => Stopped o t ∧ ¬o.Clear) := by
  refine ends_pageAlloc ?_ ?_ ?_
  · intro hskip
    exact absurd (h.fresh n (Nat.le_refl n) hne) hskip
  · intro f ws _ hf
    have haddress : ((({ s with frames := ws }).setPage (s.tableAt (n / 1024)) (n % 1024)
        ⟨true, true, true, f % 2 ^ 20⟩).spaces.tables (s.tableAt (n / 1024)) (n % 1024)).address =
        f % 2 ^ 20 := by
      rw [Kernel.setPage_self, if_pos rfl]
    have hclear : o.Clear → f = n ∧ FramesBelow o (n + 1) ws := by
      intro hc
      obtain ⟨ws', hok, hbelow⟩ := (h.frames hc).alloc (hlarge hc)
      rw [hf] at hok
      cases hok
      exact ⟨rfl, hbelow⟩
    refine ⟨⟨hstop.heap, hstop.linear, hstop.first⟩, rfl, ?_, ?_⟩
    · rw [haddress]
      intro hfn
      rw [hfn]
      refine h.setPage hne (fun hc => (hclear hc).2) fun hb => ?_
      have hlt := (h.since hb).lt hb hf
      rw [Nat.mod_eq_of_lt hlt] at hfn
      rw [hfn] at hf
      exact (h.since hb).alloc hf
    · rw [haddress]
      intro hc
      rw [(hclear hc).1]
      exact Nat.mod_eq_of_lt hn
  · intro e _ hf
    refine ⟨hstop, fun hc => ?_⟩
    obtain ⟨ws, hok, _⟩ := (h.frames hc).alloc (hlarge hc)
    rw [hf] at hok
    cases hok

/-! ## The loop -/

theorem Kernel.Clear.lt (hc : o.Clear) {m : ℕ} (hm : 4096 * m ≤ o.bootBase + 0x500000) :
    m < 32 * o.frames.length := by
  have hlarge := hc.large
  have hbase : o.bootBase ≤ o.memFirstUnused + 4095 := by
    unfold Kernel.bootBase roundUp
    omega
  omega

theorem findPage_of_page (hne : s.tableAt (n / 1024) ≠ 0) :
    s.findPage (4096 * n) s.kernelDirectory = some (s.tableAt (n / 1024), n % 1024) := by
  have htable : tableIndex (4096 * n) = n / 1024 := by
    unfold tableIndex
    omega
  have hpage : pageIndex (4096 * n) = n % 1024 := by
    unfold pageIndex
    omega
  have hne' : (s.spaces.dirs s.kernelDirectory).tables (n / 1024) ≠ 0 := hne
  unfold Kernel.findPage
  rw [htable, hpage, if_pos hne']
  rfl

/-- The loop ends, four pages behind the memory it used; with a clear bitmap it does not stop before. -/
theorem identityMap_ends (depth : ℕ) {fuel : ℕ} (ho : o.HasRoom) (h : Booting o n n s)
    (hn : 4096 * n ≤ s.memFirstUnused + 0x4000) (hbefore : ∀ v < n, ¬BehindIdentity o.bootBase v)
    (hfuel : 2 ^ 20 ≤ fuel + n) :
    Ends (identityMap (depth + 1) fuel (4096 * n) s)
      (fun _ t => ∃ m, Booting o m m t ∧ 4096 * m = t.memFirstUnused + 0x4000 ∧
        ∀ v < m, ¬BehindIdentity o.bootBase v)
      (fun t => Stopped o t ∧ ¬o.Clear) := by
  induction fuel generalizing n s with
  | zero =>
    obtain ⟨hlt, _⟩ := h.bound ho hn
    omega
  | succ fuel ih =>
    obtain ⟨hlt, htables, hend⟩ := h.bound ho hn
    have hbase := ho.bootBase
    have hbase4 := bootBase_mod o
    have hfirst := h.first
    have hbound : u32 (s.memFirstUnused + 4096 * 4) = s.memFirstUnused + 0x4000 :=
      u32_of_lt (by omega)
    refine ends_get_bind ?_
    rw [hbound]
    by_cases hi : 4096 * n < s.memFirstUnused + 0x4000
    · rw [if_pos hi]
      have htable : tableIndex (4096 * n) = n / 1024 := by
        unfold tableIndex
        omega
      have hstep := h.withTable (by omega)
      have hfirst' := hstep.first
      have hkept : tablesBelow (n + 1) ≤ tablesBelow n + 1 := by
        unfold tablesBelow
        split <;> split <;> omega
      have hgrew : s.memFirstUnused ≤ (s.withTable (n / 1024)).memFirstUnused := by
        have hmore : tablesBelow n ≤ tablesBelow (n + 1) := by
          unfold tablesBelow
          split <;> split <;> omega
        omega
      have hne : (s.withTable (n / 1024)).tableAt (n / 1024) ≠ 0 := (hstep.tables _).mpr (by omega)
      have hpage := findPage_of_page hne
      rw [Kernel.withTable_kernelDirectory] at hpage
      refine ends_get_bind (ends_bind_of_ok (getPage_linear depth h.noHeap _) ?_)
      rw [htable, hpage]
      refine ends_bind (hstep.pageAlloc hne (by omega) (fun hc => hc.lt (by omega))
        (hstep.stopped (by omega))) ?_
      rintro ⟨⟩ t ⟨hstop, hsame, hnext, hclear⟩
      refine ends_get_bind ?_
      have hdiv : 4096 * n / 4096 = n := by omega
      dsimp only
      rw [hdiv]
      by_cases haddr : (t.spaces.tables ((s.withTable (n / 1024)).tableAt (n / 1024))
          (n % 1024)).address = n
      · have hi' : u32 (4096 * n + 4096) = 4096 * (n + 1) := by
          rw [u32_of_lt (by omega)]
          omega
        rw [if_pos haddr, hi']
        refine ih (hnext haddr) (by omega) (fun v hv => ?_) (by omega)
        by_cases hvn : v = n
        · unfold BehindIdentity
          rw [hvn]
          omega
        · exact hbefore v (by omega)
      · rw [if_neg haddr]
        exact ends_throw ⟨hstop, fun hc => haddr (hclear hc)⟩
    · rw [if_neg hi]
      exact ends_pure ⟨n, h, by omega, hbefore⟩

end Evos
