import Evos.Mm.Invariant

/-! # Copying a page table

`clone_table` gives each page of the source that has a frame a frame of its own, and copies the bytes
through the cloning page, whose entry is the only one of the old tables that changes. -/

namespace Evos
open Outcome
set_option autoImplicit false

/-! ## What is kept -/

/-- The bit of a frame. -/
def Kernel.used (s : Kernel) (f : ℕ) : Bool := isSet Words.list s.frames f

theorem outerIndex_of_used {s : Kernel} {f : ℕ} (h : s.used f = true) :
    outerIndex f < s.frames.length := by
  by_contra hge
  have hword : Words.list.read s.frames (outerIndex f) = 0 :=
    List.getD_eq_default _ _ (Nat.not_lt.mp hge)
  unfold Kernel.used isSet at h
  rw [hword, Nat.zero_testBit] at h
  exact nomatch h

/-- The number of frames left. -/
def Kernel.free (s : Kernel) : ℕ := freeFrames Words.list s.frames.length s.frames

/-- The blocks handed out. -/
def Kernel.blocks (s : Kernel) : List (ℕ × ℕ) := s.heap.live ++ s.linear

/-- Used frames stay used and keep their bytes. -/
structure FramesKept (s t : Kernel) : Prop where
  length : t.frames.length = s.frames.length
  used : ∀ f, s.used f = true → t.used f = true
  ram : ∀ f, s.used f = true → t.ram f = s.ram f

theorem FramesKept.refl (s : Kernel) : FramesKept s s := ⟨rfl, fun _ h => h, fun _ _ => rfl⟩

theorem FramesKept.trans {s t u : Kernel} (h : FramesKept s t) (h' : FramesKept t u) :
    FramesKept s u :=
  ⟨h'.length.trans h.length, fun f hf => h'.used f (h.used f hf),
    fun f hf => (h'.ram f (h.used f hf)).trans (h.ram f hf)⟩

theorem FramesKept.free {s t : Kernel} (h : FramesKept s t) {f : ℕ} (hf : t.used f = false) :
    s.used f = false := by
  by_contra hs
  rw [h.used f (Bool.not_eq_false _ ▸ hs)] at hf
  exact nomatch hf

/-- What copying into the table `d` keeps. -/
structure Copying (d : ℕ) (s t : Kernel) : Prop where
  cr3 : t.cr3 = s.cr3
  kernelDirectory : t.kernelDirectory = s.kernelDirectory
  cloningBufferPage : t.cloningBufferPage = s.cloningBufferPage
  dirs : t.spaces.dirs = s.spaces.dirs
  blocks : ∀ x ∈ s.blocks, x ∈ t.blocks
  page : ∀ v, v ≠ d → ∀ j, (v, j) ≠ s.cloningBufferPage →
    t.spaces.tables v j = s.spaces.tables v j
  frames : FramesKept s t

theorem Copying.refl (d : ℕ) (s : Kernel) : Copying d s s :=
  ⟨rfl, rfl, rfl, rfl, fun _ h => h, fun _ _ _ _ => rfl, FramesKept.refl s⟩

theorem Copying.trans {d : ℕ} {s t u : Kernel} (h : Copying d s t) (h' : Copying d t u) :
    Copying d s u where
  cr3 := h'.cr3.trans h.cr3
  kernelDirectory := h'.kernelDirectory.trans h.kernelDirectory
  cloningBufferPage := h'.cloningBufferPage.trans h.cloningBufferPage
  dirs := h'.dirs.trans h.dirs
  blocks x hx := h'.blocks x (h.blocks x hx)
  page v hv j hj := (h'.page v hv j (by rw [h.cloningBufferPage]; exact hj)).trans (h.page v hv j hj)
  frames := h.frames.trans h'.frames

/-! ## What a copy is -/

/-- The page `q` is a copy of the page `p`, in a frame that was free. -/
structure PageCopied (s t : Kernel) (p q : Page) : Prop where
  present : q.present = decide (p.address ≠ 0)
  writeable : p.address ≠ 0 → q.writeable = p.writeable
  free : p.address ≠ 0 → s.used q.address = false
  used : p.address ≠ 0 → t.used q.address = true
  bytes : p.address ≠ 0 → ∀ o < 4096, t.ram q.address o = s.ram p.address o

section PageCopied
variable {s t u : Kernel} {p q : Page}

theorem PageCopied.after (h : PageCopied s t p q) (hk : FramesKept t u) : PageCopied s u p q where
  present := h.present
  writeable := h.writeable
  free := h.free
  used hp := hk.used _ (h.used hp)
  bytes hp o ho := by
    rw [hk.ram _ (h.used hp)]
    exact h.bytes hp o ho

theorem PageCopied.before (h : PageCopied t u p q) (hk : FramesKept s t)
    (hp : p.address ≠ 0 → s.used p.address = true) : PageCopied s u p q where
  present := h.present
  writeable := h.writeable
  free hp := hk.free (h.free hp)
  used := h.used
  bytes hne o ho := by
    rw [← hk.ram _ (hp hne)]
    exact h.bytes hne o ho

end PageCopied

/-! ## One page -/

/-- The body of the loop of `clone_table`. -/
def clonePage (index src dest i : ℕ) : KM Unit := do
  let page := (← get).spaces.tables src i
  if page.address ≠ 0 then
    pageAlloc (some (dest, i)) page.writeable
    clonePageToPhysical ((index * 1024 + i) * 4096) (((← get).spaces.tables dest i).address * 4096)

theorem clonePages_succ (index src dest i n : ℕ) :
    clonePages index src dest i (n + 1) =
      (clonePage index src dest i >>= fun _ => clonePages index src dest (i + 1) n) := by
  unfold clonePage
  rw [clonePages, bind_assoc]
  refine bind_congr fun s => ?_
  dsimp only
  by_cases h : (s.spaces.tables src i).address ≠ 0
  · rw [if_pos h, if_pos h, bind_assoc, bind_congr fun _ => bind_assoc ..]
  · rw [if_neg h, if_neg h, pure_bind]

/-- The table `v` is entry `i` of the loaded directory, which maps the cloning page, too. -/
structure Loaded (i v : ℕ) (s : Kernel) : Prop where
  entry : (s.spaces.dirs s.cr3).tables i = v
  ne : v ≠ 0
  cloning : s.cloningBufferPage = ((s.spaces.dirs s.cr3).tables 960, 0)
  cloningNe : (s.spaces.dirs s.cr3).tables 960 ≠ 0
  apart : v ≠ s.cloningBufferPage.1

/-- A table of the loaded directory whose frames are used. -/
structure Source (i v : ℕ) (s : Kernel) : Prop extends Loaded i v s where
  frames : FramesOK s.frames
  used : ∀ j < 1024, (s.spaces.tables v j).address ≠ 0 →
    s.used (s.spaces.tables v j).address = true

theorem Loaded.page {i v d : ℕ} {s t : Kernel} (h : Loaded i v s) (hc : Copying d s t)
    (hd : d ≠ v) (j : ℕ) : t.spaces.tables v j = s.spaces.tables v j :=
  hc.page v hd.symm j fun he => h.apart (congrArg Prod.fst he)

theorem Source.copying {i v d : ℕ} {s t : Kernel} (h : Source i v s) (hc : Copying d s t)
    (hd : d ≠ v) (hf : FramesOK t.frames) : Source i v t := by
  have hpage := h.page hc hd
  refine ⟨⟨?_, h.ne, ?_, ?_, ?_⟩, hf, fun j hj hne => ?_⟩
  · rw [hc.dirs, hc.cr3]
    exact h.entry
  · rw [hc.cloningBufferPage, hc.dirs, hc.cr3]
    exact h.cloning
  · rw [hc.dirs, hc.cr3]
    exact h.cloningNe
  · rw [hc.cloningBufferPage]
    exact h.apart
  · rw [hpage] at hne ⊢
    exact hc.frames.used _ (h.used j hj hne)

section Page
variable {i v d j f : ℕ} {s : Kernel}

theorem tableIndex_page (hj : j < 1024) : tableIndex ((i * 1024 + j) * 4096) = i := by
  unfold tableIndex
  omega

theorem pageIndex_page (hj : j < 1024) : pageIndex ((i * 1024 + j) * 4096) = j := by
  unfold pageIndex
  omega

theorem tableIndex_cloning : tableIndex pageCloningBuffer = 960 := by decide

theorem pointCloningPage_cloning (hf : f < 2 ^ 20) :
    ∃ q, q.present = true ∧ q.address = f ∧ (s.pointCloningPage f).spaces.tables
      s.cloningBufferPage.1 s.cloningBufferPage.2 = q := by
  refine ⟨_, ?_, ?_, rfl⟩ <;> unfold Kernel.pointCloningPage <;> dsimp only <;>
    rw [Kernel.setPage_self, if_pos rfl]
  exact Nat.mod_eq_of_lt hf

theorem pointCloningPage_page {k : ℕ} (h : (v, k) ≠ s.cloningBufferPage) :
    (s.pointCloningPage f).spaces.tables v k = s.spaces.tables v k := by
  unfold Kernel.pointCloningPage
  dsimp only
  by_cases hv : v = s.cloningBufferPage.1
  · rw [hv, Kernel.setPage_self, if_neg fun hk => h (Prod.ext hv hk)]
  · rw [Kernel.setPage_of_ne hv]

theorem clonePageToPhysical_ends {Q : Unit → Kernel → Prop} {E : Kernel → Prop}
    (h : Loaded i v s) (hj : j < 1024) (hf : f < 2 ^ 20)
    (hq : (s.spaces.tables v j).present = true →
      Q () ((s.pointCloningPage f).writeRam f 0 4096 (s.ram (s.spaces.tables v j).address)))
    (he : (s.spaces.tables v j).present = false → E (s.pointCloningPage f)) :
    Ends (clonePageToPhysical ((i * 1024 + j) * 4096) (f * 4096) s) Q E := by
  refine ends_modify_bind ?_
  rw [Nat.mul_div_cancel f (by decide)]
  refine ends_get_bind (ends_get_bind ?_)
  have hentry : ((s.pointCloningPage f).spaces.dirs (s.pointCloningPage f).cr3).tables
      (tableIndex ((i * 1024 + j) * 4096)) = v := by
    rw [tableIndex_page hj]
    exact h.entry
  have hpage : (s.pointCloningPage f).spaces.tables v (pageIndex ((i * 1024 + j) * 4096)) =
      s.spaces.tables v j := by
    rw [pageIndex_page hj]
    exact pointCloningPage_page fun heq => h.apart (congrArg Prod.fst heq)
  cases hp : (s.spaces.tables v j).present with
  | false =>
    have hnone : (s.pointCloningPage f).spaces.translate (s.pointCloningPage f).cr3
        ((i * 1024 + j) * 4096) = none := by
      unfold Spaces.translate
      dsimp only
      rw [hentry, if_neg h.ne, hpage, if_neg (by simp [hp])]
    rw [hnone]
    exact ends_throw (he hp)
  | true =>
    have hsome := Spaces.translate_of_table hentry h.ne (by rw [hpage]; exact hp)
    rw [hpage] at hsome
    rw [hsome]
    refine ends_get_bind (ends_get_bind (ends_get_bind ?_))
    obtain ⟨q, hqp, hqf, hcloning⟩ := @pointCloningPage_cloning f s hf
    have hto : (s.pointCloningPage f).spaces.translate (s.pointCloningPage f).cr3
        pageCloningBuffer = some f := by
      rw [h.cloning] at hcloning
      have hat : (s.pointCloningPage f).spaces.tables ((s.spaces.dirs s.cr3).tables 960)
          (pageIndex pageCloningBuffer) = q := hcloning
      have h960 : ((s.pointCloningPage f).spaces.dirs (s.pointCloningPage f).cr3).tables
          (tableIndex pageCloningBuffer) = (s.spaces.dirs s.cr3).tables 960 := by
        rw [tableIndex_cloning]
        rfl
      have htranslate := Spaces.translate_of_table h960 h.cloningNe (by rw [hat]; exact hqp)
      rw [hat, hqf] at htranslate
      exact htranslate
    rw [hto]
    exact ends_modify (hq hp)

/-- Where a copy of a page can stop. -/
structure PageStops (v j : ℕ) (s : Kernel) : Prop where
  mapped : (s.spaces.tables v j).address ≠ 0
  cause : (s.spaces.tables v j).present = false ∨ s.free = 0

/-- The frames that the copies of `n` pages from page `j` on take. -/
def pagesNeeded (s : Kernel) (v j n : ℕ) : ℕ :=
  (List.range' j n).countP fun k => decide ((s.spaces.tables v k).address ≠ 0)

/-- What the copy of page `j` does to page `j` of the table `d`. -/
structure PageDone (v d j : ℕ) (s t : Kernel) : Prop where
  copying : Copying d s t
  frames : FramesOK t.frames
  copied : PageCopied s t (s.spaces.tables v j) (t.spaces.tables d j)
  others : ∀ k, k ≠ j → t.spaces.tables d k = s.spaces.tables d k
  free : t.free + pagesNeeded s v j 1 = s.free

/-- The state after a page got the frame `f` and was copied to it. -/
def Kernel.copied (s : Kernel) (ws : List ℕ) (v d j f : ℕ) : Kernel :=
  (({ s with frames := ws }.setPage d j
    ⟨true, (s.spaces.tables v j).writeable, true, f⟩).pointCloningPage f).writeRam f 0 4096
      (s.ram (s.spaces.tables v j).address)

section Copied
variable (s : Kernel) (ws : List ℕ) (v d j f : ℕ)

theorem Kernel.copied_page {k w : ℕ} (h : (w, k) ≠ s.cloningBufferPage) (hn : (w, k) ≠ (d, j)) :
    (s.copied ws v d j f).spaces.tables w k = s.spaces.tables w k := by
  have hpoint : (s.copied ws v d j f).spaces.tables w k = ({ s with frames := ws }.setPage d j
      ⟨true, (s.spaces.tables v j).writeable, true, f⟩).spaces.tables w k :=
    pointCloningPage_page h
  rw [hpoint]
  by_cases hw : w = d
  · rw [hw, Kernel.setPage_self, if_neg fun hk => hn (Prod.ext hw hk)]
  · rw [Kernel.setPage_of_ne hw]

theorem Kernel.copied_new (h : (d, j) ≠ s.cloningBufferPage) :
    (s.copied ws v d j f).spaces.tables d j =
      ⟨true, (s.spaces.tables v j).writeable, true, f⟩ := by
  have hpoint : (s.copied ws v d j f).spaces.tables d j = ({ s with frames := ws }.setPage d j
      ⟨true, (s.spaces.tables v j).writeable, true, f⟩).spaces.tables d j :=
    pointCloningPage_page h
  rw [hpoint, Kernel.setPage_self, if_pos rfl]

theorem Kernel.copied_ram_of_ne {g : ℕ} (h : g ≠ f) : (s.copied ws v d j f).ram g = s.ram g := by
  funext o
  exact if_neg fun he => h he.1

theorem Kernel.copied_ram {o : ℕ} (h : o < 4096) :
    (s.copied ws v d j f).ram f o = s.ram (s.spaces.tables v j).address o :=
  if_pos ⟨rfl, Nat.zero_le o, by omega⟩

end Copied

theorem pageDone_copied {ws : List ℕ} (h : FramesOK s.frames) (hdc : d ≠ s.cloningBufferPage.1)
    (hne : (s.spaces.tables v j).address ≠ 0)
    (hf : frameAlloc Words.list s.frames.length s.frames = .ok (f, ws)) :
    PageDone v d j s (s.copied ws v d j f) := by
  obtain ⟨hok, _, _⟩ := h.alloc hf
  obtain ⟨hfo, hclear, _, _⟩ := frameAlloc_ok hf
  have hlen : ws.length = s.frames.length := frameAlloc_length hf
  have hused : ∀ g, outerIndex g < s.frames.length →
      (s.copied ws v d j f).used g = (s.used g || decide (g = f)) := fun g hg =>
    isSet_frameAlloc (Words.list_lawful s.frames.length) ⟨rfl, h.word⟩ hf hg
  have hcb : ∀ k, (d, k) ≠ s.cloningBufferPage := fun k he => hdc (congrArg Prod.fst he)
  have hneed : pagesNeeded s v j 1 = 1 := by
    unfold pagesNeeded
    rw [List.range'_one, List.countP_singleton, decide_eq_true hne]
    rfl
  have hsf : s.used f = false := hclear
  have hkept : FramesKept s (s.copied ws v d j f) := by
    refine ⟨hlen, fun g hg => ?_, fun g hg => s.copied_ram_of_ne ws v d j f fun he => ?_⟩
    · rw [hused g (outerIndex_of_used hg), hg, Bool.true_or]
    · rw [he, hsf] at hg
      exact nomatch hg
  have hnew := s.copied_new ws v d j f (hcb j)
  refine ⟨⟨rfl, rfl, rfl, rfl, fun _ hx => hx, fun w hw k hk => s.copied_page ws v d j f hk fun he =>
    hw (congrArg Prod.fst he), hkept⟩, hok, ?_, fun k hk => s.copied_page ws v d j f (hcb k) fun he =>
    hk (congrArg Prod.snd he), ?_⟩
  · rw [hnew]
    refine ⟨(decide_eq_true hne).symm, fun _ => rfl, fun _ => hsf, fun _ => ?_, fun _ o ho =>
      s.copied_ram ws v d j f ho⟩
    rw [hused f hfo, decide_eq_true rfl, Bool.or_true]
  · have hfree : freeFrames Words.list s.frames.length ws + 1 =
        freeFrames Words.list s.frames.length s.frames :=
      freeFrames_alloc (Words.list_lawful s.frames.length) ⟨rfl, h.word⟩ hf
    rw [hneed]
    show freeFrames Words.list ws.length ws + 1 = _
    rw [hlen]
    exact hfree

theorem clonePage_ends (h : Source i v s) (hd : d ≠ v) (hdc : d ≠ s.cloningBufferPage.1)
    (hj : j < 1024) (hzero : s.spaces.tables d j = Page.zero) :
    Ends (clonePage i v d j s) (fun _ t => PageDone v d j s t) fun _ => PageStops v j s := by
  refine ends_get_bind ?_
  by_cases hne : (s.spaces.tables v j).address ≠ 0
  · have hda : (s.spaces.tables d j).address = 0 := by
      rw [hzero]
      rfl
    rw [if_pos hne]
    refine ends_bind (Q := fun _ u => ∃ f ws, f < 2 ^ 20 ∧
      frameAlloc Words.list s.frames.length s.frames = .ok (f, ws) ∧
        u = { s with frames := ws }.setPage d j ⟨true, (s.spaces.tables v j).writeable, true, f⟩)
      ?_ ?_
    · refine ends_pageAlloc (fun ha => absurd hda ha) (fun f ws _ hf => ?_) fun e _ he => ?_
      · obtain ⟨_, _, hlt⟩ := h.frames.alloc hf
        rw [Nat.mod_eq_of_lt hlt]
        exact ⟨f, ws, hlt, hf, rfl⟩
      · exact ⟨hne, Or.inr (freeFrames_of_error he)⟩
    · rintro ⟨⟩ u ⟨f, ws, hlt, hf, rfl⟩
      have hloaded : Loaded i v ({ s with frames := ws }.setPage d j
          ⟨true, (s.spaces.tables v j).writeable, true, f⟩) :=
        ⟨h.entry, h.ne, h.cloning, h.cloningNe, h.apart⟩
      have hsame : ({ s with frames := ws }.setPage d j
          ⟨true, (s.spaces.tables v j).writeable, true, f⟩).spaces.tables v j =
            s.spaces.tables v j := by
        rw [Kernel.setPage_of_ne hd.symm]
      refine ends_get_bind ?_
      rw [Kernel.setPage_self, if_pos rfl]
      refine clonePageToPhysical_ends hloaded hj hlt (fun _ => ?_) fun hp => ?_
      · rw [hsame]
        exact pageDone_copied h.frames hdc hne hf
      · rw [hsame] at hp
        exact ⟨hne, Or.inl hp⟩
  · rw [if_neg hne]
    refine ends_pure ⟨Copying.refl d s, h.frames, ?_, fun _ _ => rfl, ?_⟩
    · rw [hzero]
      exact ⟨(decide_eq_false hne).symm, fun hp => absurd hp hne, fun hp => absurd hp hne,
        fun hp => absurd hp hne, fun hp => absurd hp hne⟩
    · unfold pagesNeeded
      rw [List.range'_one, List.countP_singleton, decide_eq_false hne]
      rfl

end Page

/-! ## The loop over the pages -/

/-- What the copies of `n` pages from page `j` on do. -/
structure PagesDone (v d j n : ℕ) (s t : Kernel) : Prop where
  copying : Copying d s t
  frames : FramesOK t.frames
  copied : ∀ k, j ≤ k → k < j + n → PageCopied s t (s.spaces.tables v k) (t.spaces.tables d k)
  apart : ∀ k l, j ≤ k → k < l → l < j + n → (s.spaces.tables v k).address ≠ 0 →
    (s.spaces.tables v l).address ≠ 0 →
      (t.spaces.tables d k).address ≠ (t.spaces.tables d l).address
  others : ∀ k, k < j ∨ j + n ≤ k → t.spaces.tables d k = s.spaces.tables d k
  free : t.free + pagesNeeded s v j n = s.free

/-- Where these copies can stop: at a page that is not present, or for lack of frames. -/
def PagesStop (v j n : ℕ) (s : Kernel) : Prop :=
  (∃ k, j ≤ k ∧ k < j + n ∧ (s.spaces.tables v k).address ≠ 0 ∧
    (s.spaces.tables v k).present = false) ∨ s.free < pagesNeeded s v j n

section Pages
variable {i v d j n : ℕ} {s t u : Kernel}

theorem pagesNeeded_succ (s : Kernel) (v j n : ℕ) :
    pagesNeeded s v j (n + 1) = pagesNeeded s v j 1 + pagesNeeded s v (j + 1) n := by
  unfold pagesNeeded
  rw [List.range'_succ, List.range'_one, List.countP_cons, List.countP_singleton, Nat.add_comm]

theorem pagesNeeded_congr (h : ∀ k, t.spaces.tables v k = s.spaces.tables v k) (j n : ℕ) :
    pagesNeeded t v j n = pagesNeeded s v j n := by
  unfold pagesNeeded
  simp only [h]

theorem pagesDone_zero (h : FramesOK s.frames) (v d j : ℕ) : PagesDone v d j 0 s s :=
  ⟨Copying.refl d s, h, fun k h1 h2 => absurd h2 (by omega), fun k l h1 h2 h3 => absurd h3 (by omega),
    fun _ _ => rfl, rfl⟩

theorem PageDone.pages (h : PageDone v d j s u) (hr : PagesDone v d (j + 1) n u t)
    (hsame : ∀ k, u.spaces.tables v k = s.spaces.tables v k)
    (hused : ∀ k < j + (n + 1), (s.spaces.tables v k).address ≠ 0 →
      s.used (s.spaces.tables v k).address = true) : PagesDone v d j (n + 1) s t := by
  have hkept : FramesKept s u := h.copying.frames
  have hfirst : t.spaces.tables d j = u.spaces.tables d j := hr.others j (Or.inl (by omega))
  have hrest : ∀ k, j + 1 ≤ k → k < j + (n + 1) →
      PageCopied u t (s.spaces.tables v k) (t.spaces.tables d k) := by
    intro k h1 h2
    rw [← hsame]
    exact hr.copied k h1 (by omega)
  refine ⟨h.copying.trans hr.copying, hr.frames, ?_, ?_, ?_, ?_⟩
  · intro k h1 h2
    by_cases hk : k = j
    · rw [hk, hfirst]
      exact h.copied.after hr.copying.frames
    · exact (hrest k (by omega) h2).before hkept (hused k h2)
  · intro k l h1 h2 h3 hk hl
    by_cases hkj : k = j
    · subst hkj
      rw [hfirst]
      intro he
      have h1 := h.copied.used hk
      rw [he, (hrest l (by omega) h3).free hl] at h1
      exact nomatch h1
    · rw [← hsame] at hk hl
      exact hr.apart k l (by omega) h2 (by omega) hk hl
  · intro k hk
    rw [hr.others k (by omega)]
    exact h.others k (by omega)
  · have h1 := h.free
    have h2 := hr.free
    rw [pagesNeeded_congr hsame] at h2
    rw [pagesNeeded_succ]
    omega

theorem PageStops.pages (h : PageStops v j s) (n : ℕ) : PagesStop v j (n + 1) s := by
  rcases h.cause with hp | hfree
  · exact Or.inl ⟨j, Nat.le_refl j, by omega, h.mapped, hp⟩
  · right
    have hone : pagesNeeded s v j 1 = 1 := by
      unfold pagesNeeded
      rw [List.range'_one, List.countP_singleton, decide_eq_true h.mapped]
      rfl
    rw [pagesNeeded_succ, hone, hfree]
    omega

theorem PagesStop.pages (h : PageDone v d j s u) (hr : PagesStop v (j + 1) n u)
    (hsame : ∀ k, u.spaces.tables v k = s.spaces.tables v k) : PagesStop v j (n + 1) s := by
  rcases hr with ⟨k, h1, h2, hk, hp⟩ | hlt
  · rw [hsame] at hk hp
    exact Or.inl ⟨k, by omega, by omega, hk, hp⟩
  · have h1 := h.free
    rw [pagesNeeded_congr hsame] at hlt
    right
    rw [pagesNeeded_succ]
    omega

theorem clonePages_ends (h : Source i v s) (hd : d ≠ v) (hdc : d ≠ s.cloningBufferPage.1)
    (hn : j + n ≤ 1024) (hzero : ∀ k, j ≤ k → s.spaces.tables d k = Page.zero) :
    Ends (clonePages i v d j n s) (fun _ t => PagesDone v d j n s t) fun _ => PagesStop v j n s := by
  induction n generalizing j s with
  | zero => exact ends_pure (pagesDone_zero h.frames v d j)
  | succ n ih =>
    rw [clonePages_succ]
    refine ends_bind ((clonePage_ends h hd hdc (by omega) (hzero j (Nat.le_refl j))).mono
      (fun _ _ hu => hu) fun _ hstop => hstop.pages n) fun _ u hu => ?_
    have hsame := h.page hu.copying hd
    have hdc' : d ≠ u.cloningBufferPage.1 := by
      rw [hu.copying.cloningBufferPage]
      exact hdc
    have hzero' : ∀ k, j + 1 ≤ k → u.spaces.tables d k = Page.zero := by
      intro k hk
      rw [hu.others k (by omega)]
      exact hzero k (by omega)
    exact (ih (h.copying hu.copying hd hu.frames) hdc' (by omega) hzero').mono
      (fun _ t ht => hu.pages ht hsame fun k hk => h.used k (by omega))
      fun _ hstop => hstop.pages hu hsame

end Pages

end Evos
