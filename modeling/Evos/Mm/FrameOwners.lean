import Evos.Foundations.Holding
import Evos.Mm.BootInvariant

/-! # Which page has a frame?

A page gets its frame from `frame_alloc`, and no other page gets it before `page_free` gives it back.
Only the cloning page is pointed at the frames of others. This needs nothing of the heap, and holds
however a call ends. -/

namespace Evos
open ByteMemory Outcome Holding
set_option autoImplicit false

/-! ## The invariant -/

/-- The page, a table and an index, has the frame; frame 0 stands for no frame. -/
def Kernel.HasFrame (s : Kernel) (spare : ℕ × ℕ → Prop) (page : ℕ × ℕ) (f : ℕ) : Prop :=
  ¬spare page ∧ f ≠ 0 ∧ (s.spaces.tables page.1 page.2).address = f

/-- The pages but for some spare ones have frames of their own, which are marked in the bitmap. -/
structure FramesOwned (spare : ℕ × ℕ → Prop) (s : Kernel) : Prop where
  bitmap : s.Bitmap
  pages : Exclusive (s.HasFrame spare) fun f => s.used f = true

/-- The only spare page is the cloning page. -/
def Kernel.PagesOwn (s : Kernel) : Prop := FramesOwned (· = s.cloningBufferPage) s

section Changes
variable {s t : Kernel} {spare : ℕ × ℕ → Prop} {f : ℕ} {page : ℕ × ℕ} {ws : List ℕ} {w : Bool}

theorem FramesOwned.mono {spare' : ℕ × ℕ → Prop} (h : FramesOwned spare s)
    (hs : ∀ p, spare p → spare' p) : FramesOwned spare' s :=
  ⟨h.bitmap, h.pages.mono (fun _ _ hp => ⟨fun hsp => hp.1 (hs _ hsp), hp.2⟩) fun _ hu => hu⟩

theorem FramesOwned.keep (h : FramesOwned spare s) (hf : t.frames = s.frames)
    (hp : ∀ v i, ¬spare (v, i) → (t.spaces.tables v i).address ≠ 0 →
      (t.spaces.tables v i).address = (s.spaces.tables v i).address) : FramesOwned spare t := by
  refine ⟨⟨by rw [hf]; exact h.bitmap.length, by rw [hf]; exact h.bitmap.word⟩, ?_⟩
  refine h.pages.mono (fun page f ⟨hsp, hne, ha⟩ => ⟨hsp, hne, ?_⟩) fun f hu => ?_
  · rw [← hp _ _ hsp (ha ▸ hne)]
    exact ha
  · unfold Kernel.used
    rw [hf]
    exact hu

theorem FramesOwned.congr (h : FramesOwned spare s) (hf : t.frames = s.frames)
    (ht : t.spaces.tables = s.spaces.tables) : FramesOwned spare t :=
  h.keep hf fun _ _ _ _ => by rw [ht]

theorem FramesOwned.newTable (h : FramesOwned spare s) (p : ℕ) :
    FramesOwned spare (s.setTable p PageTable.zero) := by
  refine h.keep rfl fun v i _ hne => ?_
  by_cases hv : v = p
  · rw [hv, Kernel.setTable_self] at hne
    exact absurd rfl hne
  · rw [Kernel.setTable_of_ne hv]

theorem FramesOwned.addTable (h : FramesOwned spare s) (dir index p physical : ℕ) :
    FramesOwned spare (s.addTable dir index p physical) :=
  (h.newTable p).congr rfl rfl

theorem FramesOwned.alloc (h : FramesOwned spare s)
    (hf : frameAlloc Words.list s.frames.length s.frames = .ok (f, ws)) :
    FramesOwned spare ({ s with frames := ws }.setPage page.1 page.2 ⟨true, w, true, f % 2 ^ 20⟩) := by
  have L := Words.list_lawful s.frames.length
  have hv : (fun ws' : List ℕ => ws'.length = s.frames.length ∧ ∀ w ∈ ws', w < 2 ^ 32) s.frames :=
    ⟨rfl, h.bitmap.word⟩
  obtain ⟨ho, hclear, _, _⟩ := frameAlloc_ok hf
  obtain ⟨hlen, hword⟩ := frameAlloc_valid L hv hf
  have hlt : f < 32 * s.frames.length := outerIndex_lt_iff.mp ho
  have hbound := h.bitmap.length
  have hmod : f % 2 ^ 20 = f := Nat.mod_eq_of_lt (by omega)
  rw [hmod]
  have hset := fun g => isSet_frameAlloc (j := g) L hv hf
  refine ⟨⟨hlen.le.trans hbound, hword⟩, ?_⟩
  refine h.pages.take (r := f) (i := page) (fun hu => ?_) (fun p g ⟨hsp, hne, ha⟩ => ?_) (fun g hg => ?_) ?_
  · have hu' : isSet Words.list s.frames f = true := hu
    rw [hclear] at hu'
    cases hu'
  · by_cases hp : p = page
    · subst hp
      rw [Kernel.setPage_self, if_pos rfl] at ha
      exact Or.inr ⟨rfl, ha.symm⟩
    · refine Or.inl ⟨hsp, hne, ?_⟩
      by_cases ht : p.1 = page.1
      · rw [ht, Kernel.setPage_self, if_neg fun hi => hp (Prod.ext ht hi)] at ha
        rw [ht]
        exact ha
      · rw [Kernel.setPage_of_ne ht] at ha
        exact ha
  · have hg' : isSet Words.list s.frames g = true := hg
    change isSet Words.list ws g = true
    rw [hset g (outerIndex_of_used hg), hg']
    rfl
  · change isSet Words.list ws f = true
    rw [hset f ho, decide_eq_true rfl, Bool.or_true]

theorem FramesOwned.free (h : FramesOwned spare s) {v i : ℕ} (hsp : ¬spare (v, i)) :
    Ends (pageFree (some (v, i)) s) (fun _ t => FramesOwned spare t) fun _ => False := by
  have L := Words.list_lawful s.frames.length
  have hv : (fun ws' : List ℕ => ws'.length = s.frames.length ∧ ∀ w ∈ ws', w < 2 ^ 32) s.frames :=
    ⟨rfl, h.bitmap.word⟩
  refine ends_modify ?_
  dsimp only
  generalize hf : (s.spaces.tables v i).address = f
  unfold frameFree
  by_cases h0 : f = 0
  · rw [if_neg fun hne => hne h0]
    refine h.keep rfl fun u j _ hne => ?_
    by_cases hu : u = v
    · subst hu
      rw [Kernel.setPage_self] at hne ⊢
      by_cases hj : j = i
      · rw [if_pos hj] at hne
        exact absurd rfl hne
      · rw [if_neg hj]
    · rw [Kernel.setPage_of_ne hu]
  · rw [if_pos h0]
    obtain ⟨hlen, hword⟩ := valid_bitsetClear (i := f) L hv
    have hclear := fun g => isSet_bitsetClear (i := f) (j := g) L hv
    have hheld : s.HasFrame spare (v, i) f := ⟨hsp, h0, hf⟩
    refine ⟨⟨hlen.le.trans h.bitmap.length, hword⟩, h.pages.release hheld ?_ ?_⟩
    · rintro ⟨u, j⟩ g ⟨hsp', hne, ha⟩
      by_cases hu : u = v
      · subst hu
        rw [Kernel.setPage_self] at ha
        by_cases hj : j = i
        · rw [if_pos hj] at ha
          exact absurd ha.symm hne
        · rw [if_neg hj] at ha
          exact ⟨⟨hsp', hne, ha⟩, fun he => hj (congrArg Prod.snd he)⟩
      · rw [Kernel.setPage_of_ne hu] at ha
        exact ⟨⟨hsp', hne, ha⟩, fun he => hu (congrArg Prod.fst he)⟩
    · intro g hg hne
      have hg' : isSet Words.list s.frames g = true := hg
      have hfu : s.used f = true := h.pages.marked _ _ hheld
      change isSet Words.list (bitsetClear Words.list s.frames.length s.frames f) g = true
      rw [hclear g (outerIndex_of_used hfu) (outerIndex_of_used hg), hg', decide_eq_false hne]
      rfl

theorem FramesOwned.pageAlloc (h : FramesOwned spare s) (page : Option (ℕ × ℕ)) (w : Bool) :
    Ends (pageAlloc page w s) (fun _ t => FramesOwned spare t) (FramesOwned spare) := by
  cases page with
  | none => exact ends_throw h
  | some page =>
    exact ends_pageAlloc (fun _ => h) (fun _ _ _ hf => h.alloc hf) fun _ _ _ => h

end Changes

/-! ## `kmalloc` -/

section Kmalloc
variable {s : Kernel} {spare : ℕ × ℕ → Prop}

theorem getPageWith_keeps {alloc : ℕ → KM (ℕ × ℕ)} {P : Kernel → Prop}
    (ha : ∀ n s, P s → Ends (alloc n s) (fun _ t => P t) P)
    (hadd : ∀ s dir index p physical, P s → P (s.addTable dir index p physical)) (h : P s)
    (address dir : ℕ) : Ends (getPageWith alloc address dir s) (fun _ t => P t) P := by
  refine ends_get_bind ?_
  by_cases hne : (s.spaces.dirs dir).tables (tableIndex address) ≠ 0
  · rw [if_pos hne]
    exact ends_get_bind (ends_pure h)
  · rw [if_neg hne]
    refine ends_bind (ha pageTableSize s h) fun block t ht => ends_modify_bind (ends_get_bind
      (ends_pure ?_))
    exact hadd _ _ _ _ _ ht

theorem kernelHost_owned {gp : ℕ → ℕ → KM (Option (ℕ × ℕ))}
    (hg : ∀ x d s, FramesOwned spare s →
      Ends (gp x d s) (fun _ t => FramesOwned spare t) (FramesOwned spare)) :
    HostFrame (kernelHost gp) fun s t => FramesOwned spare s → FramesOwned spare t where
  refl _ h := h
  trans h h' hs := h' (h hs)
  arena s a _ h := h.congr rfl rfl
  mapPage s x := ends_imp fun hs => by
    refine ends_get_bind (ends_bind (hg x _ s hs) fun page t ht => ends_get_bind ?_)
    exact ht.pageAlloc page _
  enterPages s x y := ends_imp fun hs => by
    have hlog : FramesOwned spare { s with midpoints := s.midpoint :: s.midpoints } :=
      hs.congr rfl rfl
    refine ends_modify_bind (ends_bind (Q := fun _ t => FramesOwned spare t)
      (ends_touch (fun _ => hlog) fun _ => hlog) fun _ t ht => ?_)
    exact ends_touch (fun _ => ht) fun _ => ht

theorem kmallocAt_owned (depth size : ℕ) (align wantPhysical : Bool) (h : FramesOwned spare s) :
    Ends (kmallocAt depth size align wantPhysical s) (fun _ t => FramesOwned spare t)
      (FramesOwned spare) := by
  induction depth generalizing size align wantPhysical s with
  | zero => exact ends_throw h
  | succ depth ih =>
    refine ends_get_bind ?_
    cases hk : s.kernelHeap with
    | true =>
      have hget : ∀ x d t, FramesOwned spare t → Ends (getPageWith (fun n => kmallocAt depth n true true)
          x d t) (fun _ u => FramesOwned spare u) (FramesOwned spare) := fun x d t ht =>
        getPageWith_keeps (fun n u hu => ih n true true hu) (fun _ _ _ _ _ hu => hu.addTable _ _ _ _)
          ht x d
      have F := kernelHost_owned hget
      refine ends_bind ((F.heapAlloc size align s).mono (fun _ _ hu => hu h) fun _ hu => hu h)
        fun new t ht => ends_modify_bind ?_
      have htook : FramesOwned spare (t.tookBlock new size) := ht.congr rfl rfl
      cases wantPhysical with
      | true =>
        refine ends_bind ((physicalOf_kept new (t.tookBlock new size)).mono
          (fun _ u hu => hu ▸ htook) fun u hu => hu ▸ htook) fun physical u hu => ends_pure hu
      | false => exact ends_pure htook
    | false => exact ends_modify_bind (ends_pure (h.congr rfl rfl))

end Kmalloc

/-! ## The boot -/

section Boot
variable {s : Kernel} {spare : ℕ × ℕ → Prop}

end Boot

/-! ## With the cloning page -/

section Cloning
variable {s t : Kernel}

theorem FramesOwned.pagesOwn (h : FramesOwned (· = s.cloningBufferPage) t)
    (hc : t.cloningBufferPage = s.cloningBufferPage) : t.PagesOwn := by
  unfold Kernel.PagesOwn
  rw [hc]
  exact h

theorem Kernel.PagesOwn.congr (h : s.PagesOwn) (hc : t.cloningBufferPage = s.cloningBufferPage)
    (hf : t.frames = s.frames) (ht : t.spaces.tables = s.spaces.tables) : t.PagesOwn :=
  (FramesOwned.congr h hf ht).pagesOwn hc

theorem Kernel.PagesOwn.pointCloningPage (h : s.PagesOwn) (frame : ℕ) :
    (s.pointCloningPage frame).PagesOwn := by
  refine FramesOwned.pagesOwn (s := s) (FramesOwned.keep h rfl fun v i hsp _ => ?_) rfl
  unfold Kernel.pointCloningPage
  by_cases hv : v = s.cloningBufferPage.1
  · subst hv
    rw [Kernel.setPage_self, if_neg]
    rintro rfl
    exact hsp rfl
  · rw [Kernel.setPage_of_ne hv]

theorem Kernel.PagesOwn.newTable (h : s.PagesOwn) (p : ℕ) : (s.newTable p).PagesOwn := by
  have hnew : FramesOwned (· = s.cloningBufferPage) (s.newTable p) :=
    (FramesOwned.newTable h p).congr rfl rfl
  exact hnew.pagesOwn rfl

theorem Kernel.PagesOwn.addTable (h : s.PagesOwn) (dir index p physical : ℕ) :
    (s.addTable dir index p physical).PagesOwn := by
  have hnew : FramesOwned (· = s.cloningBufferPage) (s.addTable dir index p physical) :=
    FramesOwned.addTable h dir index p physical
  exact hnew.pagesOwn rfl

theorem Kernel.PagesOwn.kmallocAt (depth size : ℕ) (align wantPhysical : Bool) (h : s.PagesOwn) :
    Ends (Evos.kmallocAt depth size align wantPhysical s) (fun _ t => t.PagesOwn) Kernel.PagesOwn :=
  ((kmallocAt_owned depth size align wantPhysical h).and
    (kmallocAt_kept depth size align wantPhysical s)).mono
      (fun _ _ ht => ht.1.pagesOwn ht.2.cloningBufferPage)
      fun _ ht => ht.1.pagesOwn ht.2.cloningBufferPage

theorem Kernel.PagesOwn.pageAlloc (h : s.PagesOwn) (page : Option (ℕ × ℕ)) (w : Bool) :
    Ends (Evos.pageAlloc page w s) (fun _ t => t.PagesOwn) Kernel.PagesOwn :=
  ((FramesOwned.pageAlloc h page w).and (pageAlloc_kept page w s)).mono
    (fun _ _ ht => ht.1.pagesOwn ht.2.cloningBufferPage)
    fun _ ht => ht.1.pagesOwn ht.2.cloningBufferPage

theorem Kernel.PagesOwn.getPage (depth address dir : ℕ) (h : s.PagesOwn) :
    Ends (Evos.getPage depth address dir s) (fun _ t => t.PagesOwn) Kernel.PagesOwn :=
  getPageWith_keeps (P := Kernel.PagesOwn) (fun n _ hu => hu.kmallocAt depth n true true)
    (fun _ _ _ _ _ hu => hu.addTable _ _ _ _) h address dir

theorem Kernel.PagesOwn.writeCloningPage (h : s.PagesOwn) (offset size : ℕ) (src : ℕ → UInt8) :
    Ends (Evos.writeCloningPage offset size src s) (fun _ t => t.PagesOwn) Kernel.PagesOwn := by
  refine ends_get_bind (ends_get_bind ?_)
  cases s.spaces.translate s.cr3 pageCloningBuffer with
  | none => exact ends_throw h
  | some frame => exact ends_modify (h.congr rfl rfl rfl)

theorem Kernel.PagesOwn.mmMemcpyPhysical (h : s.PagesOwn) (destPhysical : ℕ) (src : ℕ → UInt8)
    (size : ℕ) :
    Ends (Evos.mmMemcpyPhysical destPhysical src size s) (fun _ t => t.PagesOwn) Kernel.PagesOwn := by
  unfold Evos.mmMemcpyPhysical
  split
  · exact ends_throw h
  · exact ends_modify_bind ((h.pointCloningPage _).writeCloningPage _ size src)

theorem Kernel.PagesOwn.clonePageToPhysical (h : s.PagesOwn) (srcVirtual destPhysical : ℕ) :
    Ends (Evos.clonePageToPhysical srcVirtual destPhysical s) (fun _ t => t.PagesOwn)
      Kernel.PagesOwn := by
  have hpoint := h.pointCloningPage (destPhysical / 4096)
  refine ends_modify_bind (ends_get_bind (ends_get_bind ?_))
  cases (s.pointCloningPage (destPhysical / 4096)).spaces.translate
      (s.pointCloningPage (destPhysical / 4096)).cr3 srcVirtual with
  | none => exact ends_throw hpoint
  | some frame => exact ends_get_bind (hpoint.writeCloningPage 0 4096 _)

theorem Kernel.PagesOwn.clonePages (h : s.PagesOwn) (index src dest i n : ℕ) :
    Ends (Evos.clonePages index src dest i n s) (fun _ t => t.PagesOwn) Kernel.PagesOwn := by
  induction n generalizing i s with
  | zero => exact ends_pure h
  | succ n ih =>
    rw [clonePages_succ]
    refine ends_bind (Q := fun _ t => t.PagesOwn) (ends_get_bind ?_) fun _ t ht => ih ht (i + 1)
    by_cases hne : (s.spaces.tables src i).address ≠ 0
    · rw [if_pos hne]
      exact ends_bind (h.pageAlloc _ _) fun _ t ht => ends_get_bind (ht.clonePageToPhysical _ _)
    · rw [if_neg hne]
      exact ends_pure h

theorem Kernel.PagesOwn.cloneTable (depth index src : ℕ) (h : s.PagesOwn) :
    Ends (Evos.cloneTable depth index src s) (fun _ t => t.PagesOwn) Kernel.PagesOwn := by
  refine ends_bind (h.kmallocAt depth pageTableSize true true) fun block t ht => ends_modify_bind ?_
  exact ends_bind ((ht.newTable block.1).clonePages index src block.1 0 1024) fun _ _ hu =>
    ends_pure hu

theorem Kernel.PagesOwn.cloneEntries (depth src dir i n : ℕ) (h : s.PagesOwn) :
    Ends (Evos.cloneEntries depth src dir i n s) (fun _ t => t.PagesOwn) Kernel.PagesOwn := by
  induction n generalizing i s with
  | zero => exact ends_pure h
  | succ n ih =>
    refine ends_bind (Q := fun _ t => t.PagesOwn) (ends_get_bind ?_) fun _ t ht => ih (i + 1) ht
    by_cases hne : (s.spaces.dirs src).tables i ≠ 0
    · rw [if_pos hne]
      by_cases hshared : (s.spaces.dirs s.kernelDirectory).tables i = (s.spaces.dirs src).tables i
      · rw [if_pos hshared]
        exact ends_modify (h.congr rfl rfl rfl)
      · rw [if_neg hshared]
        exact ends_bind (h.cloneTable depth i _) fun _ _ ht => ends_modify (ht.congr rfl rfl rfl)
    · rw [if_neg hne]
      exact ends_pure h

theorem Kernel.PagesOwn.cloneDirectory (depth src : ℕ) (h : s.PagesOwn) :
    Ends (Evos.cloneDirectory depth src s) (fun _ t => t.PagesOwn) Kernel.PagesOwn := by
  refine ends_bind (h.kmallocAt depth pageDirectorySize true true) fun block t ht => ends_modify_bind ?_
  have hadded : (t.addDirectory block.1 block.2).PagesOwn := ht.congr rfl rfl rfl
  refine ends_bind (hadded.cloneEntries depth src block.1 0 1024) fun _ u hu => ends_modify_bind ?_
  exact ends_pure (hu.congr rfl rfl rfl)

end Cloning

/-! ## `init_paging` -/

section Init
variable {s : Kernel}

end Init

end Evos
