import Evos.Kheap.Alloc

/-! # Growing the heap

`heap_alloc` on the heap on its own: when no hole fits, `expand` moves the end up and the new space
becomes one more hole, which is then the only one that can fit. -/

namespace Evos
open ByteMemory Segments BubblePass Outcome
set_option autoImplicit false

/-! ## `expand` -/

/-- The next page boundary. -/
def roundUp (n : ℕ) : ℕ := (n + 4095) / 4096 * 4096

theorem pageRoundUp_eq {n : ℕ} (h : roundUp n < 2 ^ 32) : pageRoundUp n = roundUp n := by
  unfold pageRoundUp
  unfold roundUp at *
  split
  · have e : (n + 4095) / 4096 = n / 4096 + 1 := by omega
    rw [e] at h ⊢
    rw [Nat.add_mul, Nat.one_mul] at h ⊢
    exact u32_of_lt h
  · omega

theorem le_roundUp (n : ℕ) : n ≤ roundUp n := by
  unfold roundUp
  omega

theorem roundUp_mod (n : ℕ) : roundUp n % 4096 = 0 := by
  unfold roundUp
  omega

/-- The arena with the end of the heap moved. -/
def Arena.extended (a : Arena) (newEnd : ℕ) : Arena :=
  { a with heap := { a.heap with allocatedEnd := newEnd } }

section Host
variable {σ : Type} {H : Host σ} {s s' : σ}

theorem onArena_ok {α : Type} {f : Arena → Except Panic (α × Arena)} {x : α}
    (h : H.onArena f s = .ok x s') :
    ∃ a, f (H.arena s) = .ok (x, a) ∧ s' = H.setArena a s := by
  unfold Host.onArena at h
  split at h
  · rename_i y a he
    cases h
    exact ⟨a, he, rfl⟩
  · exact nomatch h

/-- A successful `expand` passes its two checks, maps the new pages and moves the end. -/
theorem expand_ok {newSize : ℕ} (h : expand H newSize s = .ok () s') :
    sub32 (H.arena s).heap.allocatedEnd (H.arena s).heap.allocatedStart < pageRoundUp newSize ∧
      u32 ((H.arena s).heap.allocatedStart + pageRoundUp newSize) ≤ (H.arena s).heap.maxAddr ∧
      ∃ s₁, mapPages H (H.arena s).heap.allocatedStart
          (sub32 (H.arena s).heap.allocatedEnd (H.arena s).heap.allocatedStart)
          ((pageRoundUp newSize -
            sub32 (H.arena s).heap.allocatedEnd (H.arena s).heap.allocatedStart + 4095) / 4096)
          (H.setArena (H.arena s) s) = .ok () s₁ ∧
        s' = H.setArena ((H.arena s₁).extended
          (u32 ((H.arena s₁).heap.allocatedStart + pageRoundUp newSize))) s₁ := by
  unfold expand at h
  obtain ⟨_, _, hs, h⟩ := bind_ok h
  cases hs
  obtain ⟨⟨⟩, _, hassert, h⟩ := bind_ok h
  obtain ⟨_, hchecks, rfl⟩ := onArena_ok hassert
  obtain ⟨_, hgt, hchecks⟩ := except_bind_ok hchecks
  obtain ⟨_, hle, hchecks⟩ := except_bind_ok hchecks
  cases hchecks
  obtain ⟨⟨⟩, s₁, hmap, h⟩ := bind_ok h
  obtain ⟨_, hend, rfl⟩ := onArena_ok h
  cases hend
  exact ⟨assert_ok hgt, assert_ok hle, s₁, hmap, rfl⟩

theorem growHeap_ok {newSize i : ℕ} {pageAlign : Bool}
    (h : growHeap H newSize pageAlign s = .ok i s') :
    ∃ s₁ s₂ a, expand H (u32 (sub32 (H.arena s).heap.allocatedEnd (H.arena s).heap.allocatedStart +
        newSize + 4096)) s = .ok () s₁ ∧
      H.enterPages (H.arena s).heap.allocatedEnd (H.arena s₁).heap.allocatedEnd s₁ = .ok () s₂ ∧
      addHole (H.arena s).heap.allocatedEnd
        (sub32 (H.arena s).heap.allocatedEnd (H.arena s).heap.allocatedStart) (H.arena s₂) =
          .ok ((), a) ∧
      s' = H.setArena a s₂ ∧ findHole (H.arena s') newSize pageAlign = some i := by
  unfold growHeap at h
  obtain ⟨_, _, hs, h⟩ := bind_ok h
  cases hs
  obtain ⟨⟨⟩, s₁, hexp, h⟩ := bind_ok h
  obtain ⟨_, _, hs, h⟩ := bind_ok h
  cases hs
  obtain ⟨⟨⟩, s₂, henter, h⟩ := bind_ok h
  obtain ⟨⟨⟩, s₃, hrun, h⟩ := bind_ok h
  obtain ⟨a, hadd, rfl⟩ := onArena_ok hrun
  obtain ⟨_, _, hs, h⟩ := bind_ok h
  cases hs
  refine ⟨s₁, s₂, a, hexp, henter, hadd, ?_⟩
  cases hf : findHole (H.arena (H.setArena a s₂)) newSize pageAlign with
  | some j =>
    simp only [hf] at h
    cases h
    exact ⟨rfl, hf⟩
  | none =>
    simp only [hf] at h
    exact nomatch h

theorem chooseHole_ok {newSize i : ℕ} {pageAlign : Bool}
    (h : chooseHole H newSize pageAlign s = .ok i s') :
    (findHole (H.arena s) newSize pageAlign = some i ∧ s' = s) ∨
    (findHole (H.arena s) newSize pageAlign = none ∧
      growHeap H newSize pageAlign s = .ok i s') := by
  unfold chooseHole at h
  obtain ⟨_, _, hs, h⟩ := bind_ok h
  cases hs
  cases hf : findHole (H.arena s) newSize pageAlign with
  | some j =>
    simp only [hf] at h
    cases h
    exact Or.inl ⟨rfl, rfl⟩
  | none =>
    simp only [hf] at h
    exact Or.inr ⟨rfl, h⟩

theorem heapAlloc_ok {size p : ℕ} {pageAlign : Bool}
    (h : heapAlloc H size pageAlign s = .ok p s') :
    ∃ i s₁ a, chooseHole H (u32 (size + 20)) pageAlign s = .ok i s₁ ∧
      carve i (u32 (size + 20)) pageAlign (H.arena s₁) = .ok (p, a) ∧ s' = H.setArena a s₁ := by
  unfold heapAlloc at h
  obtain ⟨i, s₁, hc, h⟩ := bind_ok h
  obtain ⟨a, hcarve, rfl⟩ := onArena_ok h
  exact ⟨i, s₁, a, hc, hcarve, rfl⟩

theorem onArena_of_ok {α : Type} {f : Arena → Except Panic (α × Arena)} {x : α} {a : Arena}
    (h : f (H.arena s) = .ok (x, a)) : H.onArena f s = .ok x (H.setArena a s) := by
  unfold Host.onArena
  rw [h]

/-- `expand` moves the end when its two checks pass and the pages are mapped. -/
theorem expand_of_checks {newSize : ℕ} {s₁ : σ}
    (hgt : sub32 (H.arena s).heap.allocatedEnd (H.arena s).heap.allocatedStart <
      pageRoundUp newSize)
    (hle : u32 ((H.arena s).heap.allocatedStart + pageRoundUp newSize) ≤ (H.arena s).heap.maxAddr)
    (hmap : mapPages H (H.arena s).heap.allocatedStart
      (sub32 (H.arena s).heap.allocatedEnd (H.arena s).heap.allocatedStart)
      ((pageRoundUp newSize -
        sub32 (H.arena s).heap.allocatedEnd (H.arena s).heap.allocatedStart + 4095) / 4096)
      (H.setArena (H.arena s) s) = .ok () s₁) :
    expand H newSize s = .ok () (H.setArena ((H.arena s₁).extended
      (u32 ((H.arena s₁).heap.allocatedStart + pageRoundUp newSize))) s₁) := by
  unfold expand
  rw [bind_of_ok (rfl : (get : EStateM Panic σ σ) s = .ok s s),
    bind_of_ok (onArena_of_ok (x := ()) (a := H.arena s) ?_), bind_of_ok hmap]
  · exact onArena_of_ok rfl
  · rw [assert_of hgt, assert_of hle]
    rfl

theorem growHeap_of_stages {newSize i : ℕ} {pageAlign : Bool} {s₁ s₂ : σ} {a : Arena}
    (hexp : expand H (u32 (sub32 (H.arena s).heap.allocatedEnd (H.arena s).heap.allocatedStart +
      newSize + 4096)) s = .ok () s₁)
    (henter : H.enterPages (H.arena s).heap.allocatedEnd (H.arena s₁).heap.allocatedEnd s₁ =
      .ok () s₂)
    (hadd : addHole (H.arena s).heap.allocatedEnd
      (sub32 (H.arena s).heap.allocatedEnd (H.arena s).heap.allocatedStart) (H.arena s₂) =
        .ok ((), a))
    (hf : findHole (H.arena (H.setArena a s₂)) newSize pageAlign = some i) :
    growHeap H newSize pageAlign s = .ok i (H.setArena a s₂) := by
  unfold growHeap
  rw [bind_of_ok (rfl : (get : EStateM Panic σ σ) s = .ok s s), bind_of_ok hexp,
    bind_of_ok (rfl : (get : EStateM Panic σ σ) s₁ = .ok s₁ s₁), bind_of_ok henter,
    bind_of_ok (onArena_of_ok hadd), bind_of_ok (rfl : (get : EStateM Panic σ σ) _ = .ok _ _), hf]
  rfl

theorem chooseHole_of_found {newSize i : ℕ} {pageAlign : Bool}
    (hf : findHole (H.arena s) newSize pageAlign = some i) :
    chooseHole H newSize pageAlign s = .ok i s := by
  unfold chooseHole
  rw [bind_of_ok (rfl : (get : EStateM Panic σ σ) s = .ok s s), hf]
  rfl

theorem chooseHole_of_none {newSize : ℕ} {pageAlign : Bool}
    (hf : findHole (H.arena s) newSize pageAlign = none) :
    chooseHole H newSize pageAlign s = growHeap H newSize pageAlign s := by
  unfold chooseHole
  rw [bind_of_ok (rfl : (get : EStateM Panic σ σ) s = .ok s s), hf]

theorem heapAlloc_of_choose {size p i : ℕ} {pageAlign : Bool} {a : Arena}
    (hchoose : chooseHole H (u32 (size + 20)) pageAlign s = .ok i s')
    (hc : carve i (u32 (size + 20)) pageAlign (H.arena s') = .ok (p, a)) :
    heapAlloc H size pageAlign s = .ok p (H.setArena a s') := by
  unfold heapAlloc
  rw [bind_of_ok hchoose]
  exact onArena_of_ok hc

end Host

theorem mapPages_host (start n i : ℕ) (a : Arena) : mapPages Arena.host start i n a = .ok () a := by
  induction n generalizing i with
  | zero => rfl
  | succ n ih => exact ih (i + 4096)

/-! ## The hole of the new space -/

/-- Where the heap ends after growing for a request. -/
def grownEnd (a : Arena) (size : ℕ) : ℕ :=
  a.heap.allocatedStart +
    roundUp (a.heap.allocatedEnd - a.heap.allocatedStart + (size + 20) + 4096)

theorem le_grownEnd {a : Arena} {ts : List Tile} {size : ℕ} (h : HeapInv a ts) :
    a.heap.allocatedEnd + (size + 20) + 4096 ≤ grownEnd a size := by
  have := h.tiles.le
  have := le_roundUp (a.heap.allocatedEnd - a.heap.allocatedStart + (size + 20) + 4096)
  unfold grownEnd
  omega

theorem u32_grownEnd {a : Arena} {size : ℕ} (h : grownEnd a size < 2 ^ 32) :
    u32 (a.heap.allocatedStart + pageRoundUp (u32 (a.heap.allocatedEnd - a.heap.allocatedStart +
      (size + 20) + 4096))) = grownEnd a size := by
  have hround := le_roundUp (a.heap.allocatedEnd - a.heap.allocatedStart + (size + 20) + 4096)
  unfold grownEnd at *
  rw [u32_of_lt (show a.heap.allocatedEnd - a.heap.allocatedStart + (size + 20) + 4096 < 2 ^ 32 by
    omega), pageRoundUp_eq (by omega), u32_of_lt h]

/-- What appending the hole `[end, newEnd)` does. -/
structure Grown (a a' : Arena) (ts : List Tile) (newEnd : ℕ) : Prop where
  inv : HeapInv a' (ts ++ [⟨a.heap.allocatedEnd, newEnd - a.heap.allocatedEnd, .free⟩])
  writes : OnlyIn a.heap.allocatedEnd newEnd a.mem a'.mem
  extent : SameExtent (a.extended newEnd).heap a'.heap
  sorted : IndexSorted a → IndexSorted a'

theorem Grown.max {a a' : Arena} {ts : List Tile} {newEnd : ℕ} (g : Grown a a' ts newEnd) :
    a'.heap.maxAddr = a.heap.maxAddr := g.extent.max

theorem Grown.room {a a' : Arena} {ts : List Tile} {newEnd : ℕ} (g : Grown a a' ts newEnd) :
    a'.heap.index.maxSize = a.heap.index.maxSize := g.extent.room

theorem HeapInv.addHole {a a' : Arena} {ts : List Tile} (h : HeapInv a ts) {newEnd : ℕ}
    (h20 : a.heap.allocatedEnd + 20 ≤ newEnd) (hnew : newEnd < 2 ^ 32)
    (hadd : addHole a.heap.allocatedEnd (a.heap.allocatedEnd - a.heap.allocatedStart)
      (a.extended newEnd) = .ok ((), a')) : Grown a a' ts newEnd := by
  have hle := h.tiles.le
  unfold Evos.addHole Arena.extended at hadd
  simp only [sub32_of_le (show a.heap.allocatedStart ≤ newEnd by omega) (by omega),
    sub32_of_le (show 8 ≤ newEnd by omega) (by omega),
    sub32_of_le (show a.heap.allocatedEnd - a.heap.allocatedStart ≤
      newEnd - a.heap.allocatedStart by omega) (by omega)] at hadd
  have hsub : newEnd - a.heap.allocatedStart - (a.heap.allocatedEnd - a.heap.allocatedStart) =
    newEnd - a.heap.allocatedEnd := by omega
  rw [hsub] at hadd
  obtain ⟨index, hi, hadd⟩ := except_bind_ok hadd
  obtain ⟨_, rfl⟩ := orderedArrayInsert_ok hi
  cases hadd
  have hstop : a.heap.allocatedEnd + (newEnd - a.heap.allocatedEnd) = newEnd := by omega
  have hw := onlyIn_writeTags a.mem (a := a.heap.allocatedEnd)
    (n := newEnd - a.heap.allocatedEnd) true (by omega)
  have hok := tileOK_write a.mem (a := a.heap.allocatedEnd) (n := newEnd - a.heap.allocatedEnd)
    (k := .free) (by omega) (by omega) (by simp) (by rintro k ⟨⟩)
  rw [hstop] at hw hok
  refine ⟨⟨⟨?_, h.start_ge, hnew, h.max_lt, ?_⟩, ?_⟩, hw, ⟨rfl, rfl, rfl, rfl⟩, fun hs => ?_⟩
  · exact tiles_append.mpr ⟨_, h.tiles, rfl, hstop⟩
  · intro t ht
    rcases List.mem_append.mp ht with ht | ht
    · exact (h.good t ht).congr (hw.sameOn (Or.inl (h.bounds ht).2))
    · rw [List.mem_singleton.mp ht]
      exact hok
  · rw [holes_append]
    exact (bubblePass_perm _ _).trans (h.index.append_right _)
  · refine sorted_insert (sorted_congr hs fun x hx => ?_) _
    obtain ⟨u, hu, _, rfl⟩ := h.tile_of_mem hx
    exact h.size_of_outside hw hu (Or.inl (h.bounds hu).2)

/-- When no hole fitted before, what fits after the growth is the new hole. -/
theorem Grown.findHole {a a' : Arena} {ts : List Tile} {newEnd : ℕ} (g : Grown a a' ts newEnd)
    (h : HeapInv a ts) {s i : ℕ} {pageAlign : Bool} (hnone : findHole a s pageAlign = none)
    (hf : findHole a' s pageAlign = some i) :
    a'.heap.index.array[i]? = some a.heap.allocatedEnd := by
  obtain ⟨hlt, hfit, _⟩ := List.findIdx?_eq_some_iff_getElem.mp hf
  rw [List.getElem?_eq_getElem hlt, Option.some_inj]
  have hmem := g.inv.index.subset (List.getElem_mem hlt)
  rw [holes_append] at hmem
  rcases List.mem_append.mp hmem with hold | hnew
  · obtain ⟨u, hu, _, he⟩ := mem_holes.mp hold
    have hsize := h.size_of_outside g.writes hu (Or.inl (h.bounds hu).2)
    rw [← he] at hfit
    unfold holeFits at hfit
    rw [hsize] at hfit
    have hno := List.findIdx?_eq_none_iff.mp hnone u.addr
      (h.index.symm.subset (mem_holes.mpr ⟨u, hu, ‹_›, rfl⟩))
    unfold holeFits at hno
    rw [hno] at hfit
    exact nomatch hfit
  · rw [holes_cons_hole _ rfl] at hnew
    exact List.mem_singleton.mp hnew

/-! ## `heap_alloc` -/

/-- Growing for this request, if it needs to, keeps the heap under `max_addr`. -/
def StaysUnderMax (a : Arena) (size : ℕ) (pageAlign : Bool) : Prop :=
  findHole a (size + 20) pageAlign = none →
    a.heap.allocatedStart + roundUp (a.heap.allocatedEnd - a.heap.allocatedStart + (size + 20) +
      4096) ≤ a.heap.maxAddr

/-- What a successful `heap_alloc` does: it carves the hole `t`, found in the tiling `ts` or appended
to it. -/
structure Allocated (a a' : Arena) (ts pre : List Tile) (t : Tile) (post : List Tile) (size : ℕ)
    (pageAlign : Bool) (p : ℕ) : Prop where
  source : (ts = pre ++ t :: post ∧ ∃ i, findHole a (size + 20) pageAlign = some i ∧
      a.heap.index.array[i]? = some t.addr) ∨
    (findHole a (size + 20) pageAlign = none ∧ ts = pre ∧ post = [] ∧
      t.addr = a.heap.allocatedEnd)
  hole : t.kind.isHole = true
  fits : leftOffset t.addr pageAlign + (size + 20) ≤ t.len
  result : p = t.addr + leftOffset t.addr pageAlign + 12
  inv : HeapInv a' (pre ++ carved t size pageAlign ++ post)
  start : a'.heap.allocatedStart = a.heap.allocatedStart
  grows : a.heap.allocatedEnd ≤ a'.heap.allocatedEnd
  max : a'.heap.maxAddr = a.heap.maxAddr
  room : a'.heap.index.maxSize = a.heap.index.maxSize
  writes : OnlyIn t.addr t.stop a.mem a'.mem
  sorted : IndexSorted a → IndexSorted a'

theorem Served.allocated {a a' : Arena} {pre : List Tile} {t : Tile} {post : List Tile} {size : ℕ}
    {pageAlign : Bool} {p i : ℕ} (s : Served a a' pre t post size pageAlign p)
    (hf : Evos.findHole a (size + 20) pageAlign = some i)
    (hi : a.heap.index.array[i]? = some t.addr) (hk : t.kind.isHole = true)
    (hfit : leftOffset t.addr pageAlign + (size + 20) ≤ t.len) :
    Allocated a a' (pre ++ t :: post) pre t post size pageAlign p where
  source := Or.inl ⟨rfl, i, hf, hi⟩
  hole := hk
  fits := hfit
  result := s.result
  inv := s.inv
  start := s.extent.start
  grows := Nat.le_of_eq s.extent.stop.symm
  max := s.extent.max
  room := s.extent.room
  writes := s.writes
  sorted := s.sorted

theorem HeapInv.serve {a a' : Arena} {ts : List Tile} (h : HeapInv a ts) {size i p : ℕ}
    {pageAlign : Bool} (hr : Request size pageAlign)
    (hf : Evos.findHole a (size + 20) pageAlign = some i)
    (hc : Evos.carve i (size + 20) pageAlign a = .ok (p, a')) :
    ∃ pre t post, Allocated a a' ts pre t post size pageAlign p := by
  obtain ⟨t, ht, hk, hn, hi, _, hfit⟩ := h.findHole hr hf
  obtain ⟨pre, post, rfl⟩ := List.append_of_mem ht
  exact ⟨pre, t, post, (h.carve hk hn hi hfit hc).allocated hf hi hk hfit⟩

theorem Grown.serve {a g a' : Arena} {ts : List Tile} {newEnd : ℕ} (hg : Grown a g ts newEnd)
    (h : HeapInv a ts) (h20 : a.heap.allocatedEnd + 20 ≤ newEnd) {size i p : ℕ} {pageAlign : Bool}
    (hr : Request size pageAlign) (hnone : Evos.findHole a (size + 20) pageAlign = none)
    (hf : Evos.findHole g (size + 20) pageAlign = some i)
    (hc : Evos.carve i (size + 20) pageAlign g = .ok (p, a')) :
    ∃ pre t post, Allocated a a' ts pre t post size pageAlign p := by
  obtain ⟨t, ht, hk, hn, hi, _, hfit⟩ := hg.inv.findHole hr hf
  have hi' := hg.findHole h hnone hf
  have hnew : (⟨a.heap.allocatedEnd, newEnd - a.heap.allocatedEnd, .free⟩ : Tile) ∈
    ts ++ [⟨a.heap.allocatedEnd, newEnd - a.heap.allocatedEnd, .free⟩] := by simp
  obtain rfl : t = ⟨a.heap.allocatedEnd, newEnd - a.heap.allocatedEnd, .free⟩ := by
    refine hg.inv.tiles.eq_of_addr hg.inv.len_pos ht hnew ?_
    rw [hi] at hi'
    exact Option.some_inj.mp hi'
  have s := hg.inv.carve hk hn hi hfit hc
  have hstop : a.heap.allocatedEnd + (newEnd - a.heap.allocatedEnd) = newEnd := by omega
  have hout : OnlyIn a.heap.allocatedEnd newEnd g.mem a'.mem := by
    have := s.writes
    rw [Seg.stop_eq, hstop] at this
    exact this
  refine ⟨ts, _, [], ⟨Or.inr ⟨hnone, rfl, rfl, rfl⟩, hk, hfit, s.result, s.inv,
    s.extent.start.trans hg.extent.start, ?_, s.extent.max.trans hg.extent.max,
    s.extent.room.trans hg.extent.room, ?_, fun hs => s.sorted (hg.sorted hs)⟩⟩
  · have h1 : g.heap.allocatedEnd = newEnd := hg.extent.stop
    rw [s.extent.stop, h1]
    omega
  · rw [Seg.stop_eq, hstop]
    exact hg.writes.trans hout

/-- On its own the heap grows to the next page boundary past the request. -/
theorem HeapInv.grow {a g : Arena} {ts : List Tile} (h : HeapInv a ts) {size i : ℕ}
    {pageAlign : Bool} (hw : grownEnd a size < 2 ^ 32)
    (hg : growHeap Arena.host (size + 20) pageAlign a = .ok i g) :
    Grown a g ts (grownEnd a size) ∧ Evos.findHole g (size + 20) pageAlign = some i := by
  have hle := h.tiles.le
  have hgrown : _ ≤ grownEnd a size := le_grownEnd h
  obtain ⟨s₁, s₂, a', hexp, henter, hadd, rfl, hf⟩ := growHeap_ok hg
  obtain ⟨_, _, s₃, hmap, rfl⟩ := expand_ok hexp
  rw [mapPages_host] at hmap
  cases hmap
  cases henter
  have hold : sub32 a.heap.allocatedEnd a.heap.allocatedStart =
      a.heap.allocatedEnd - a.heap.allocatedStart := sub32_of_le hle (by omega)
  change Evos.addHole a.heap.allocatedEnd (sub32 a.heap.allocatedEnd a.heap.allocatedStart)
    (a.extended (u32 (a.heap.allocatedStart + pageRoundUp (u32 (sub32 a.heap.allocatedEnd
      a.heap.allocatedStart + (size + 20) + 4096))))) = _ at hadd
  rw [hold, u32_grownEnd hw] at hadd
  exact ⟨h.addHole (by omega) hw hadd, hf⟩

theorem HeapInv.alloc {a a' : Arena} {ts : List Tile} (h : HeapInv a ts) {size p : ℕ}
    {pageAlign : Bool} (hr : Request size pageAlign) (hm : StaysUnderMax a size pageAlign)
    (ha : heapAlloc Arena.host size pageAlign a = .ok p a') :
    ∃ pre t post, Allocated a a' ts pre t post size pageAlign p := by
  obtain ⟨i, g, a₁, hc, hcarve, rfl⟩ := heapAlloc_ok ha
  rw [u32_of_lt hr.noWrap] at hc hcarve
  rcases chooseHole_ok hc with ⟨hf, rfl⟩ | ⟨hnone, hg⟩
  · exact h.serve hr hf hcarve
  · obtain ⟨hgrown, hf⟩ := h.grow (Nat.lt_of_le_of_lt (hm hnone) h.max_lt) hg
    have hend : _ ≤ grownEnd a size := le_grownEnd h
    exact hgrown.serve h (by omega) hr hnone hf hcarve

end Evos
