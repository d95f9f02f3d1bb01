import Evos.String.Vsprintf

/-! # The format string of `vsprintf`

A format is read as a list of directives, each with the number of its argument; a format that ends
inside a directive has no reading. -/

namespace Evos
open Outcome Numeral
set_option autoImplicit false

/-! ## Directives -/

/-- Where a format is read: in plain text, behind a `%` and flags, or in a field width. -/
inductive Place where
  | text
  | flags (flags : Flags)
  | width (flags : Flags) (width : ℕ)

/-- What to print, how, and which argument. -/
structure Directive where
  conversion : BitVec 8
  flags : Flags
  width : ℕ
  arg : ℕ

/-- The flags with one more, if the byte is a flag. -/
def addFlag (c : BitVec 8) (flags : Flags) : Option Flags :=
  if c = ch '-' then some { flags with leftAlign := true }
  else if c = ch '0' then some { flags with zeroPadded := true }
  else if c = ch '#' then some { flags with showPrefix := true }
  else none

/-- The value of a decimal digit. -/
def digitOf (c : BitVec 8) : ℕ := c.toNat - 48

instance decidableMemChars (c : BitVec 8) (cs : List (BitVec 8)) : Decidable (c ∈ cs) :=
  List.instDecidableMemOfLawfulBEq c cs

/-- The number of the argument behind a conversion. -/
def nextArg (c : BitVec 8) (arg : ℕ) : ℕ :=
  if c ∈ "dupxobcs".toList.map ch then arg + 1 else arg

/-- The directives of a format, read from a place in it; `none` if it ends inside one. -/
def directives : Place → ℕ → List (BitVec 8) → Option (List Directive)
  | .text, _, [] => some []
  | .flags _, _, [] => none
  | .width _ _, _, [] => none
  | .text, arg, c :: fmt =>
    if c = ch '%' then directives (.flags ⟨false, false, false, false⟩) arg fmt
    else directives .text arg fmt
  | .flags flags, arg, c :: fmt =>
    match addFlag c flags with
    | some flags => directives (.flags flags) arg fmt
    | none =>
      if isDigit c then directives (.width flags (digitOf c)) arg fmt
      else (directives .text (nextArg c arg) fmt).map (⟨c, flags, 0, arg⟩ :: ·)
  | .width flags width, arg, c :: fmt =>
    if isDigit c then directives (.width flags (width * 10 + digitOf c)) arg fmt
    else (directives .text (nextArg c arg) fmt).map (⟨c, flags, width, arg⟩ :: ·)

/-- Radix, flags and width a number is printed with. -/
def numberOf (c : BitVec 8) (flags : Flags) (width : ℤ) : Option (ℕ × Flags × ℤ) :=
  if c = ch 'd' then some (10, { flags with signed := true }, width)
  else if c = ch 'u' then some (10, flags, width)
  else if c = ch 'p' then
    some (16, { flags with zeroPadded := true, showPrefix := true }, if width = 0 then 8 else width)
  else if c = ch 'x' then some (16, flags, width)
  else if c = ch 'o' then some (8, flags, width)
  else if c = ch 'b' then some (2, flags, width)
  else none

/-- If the directive prints a number, it fits into the scratch buffer. -/
def Directive.Fits (args : ℕ → BitVec 32) (d : Directive) : Prop :=
  ∀ n ∈ numberOf d.conversion d.flags (i32 d.width), FitsBuf (args d.arg) n.1 n.2.1 n.2.2

/-- No directive is cut off by the end of the format, and the numbers printed fit into the scratch
buffer of `append_number`. -/
def Complete (args : ℕ → BitVec 32) (fmt : List (BitVec 8)) : Prop :=
  ∃ ds, directives .text 0 fmt = some ds ∧ ∀ d ∈ ds, d.Fits args

/-! ## One conversion -/

variable {c : BitVec 8} {flags : Flags} {width : ℤ} {args : ℕ → BitVec 32}
  {strings : BitVec 32 → List (BitVec 8)}

theorem convert_number {radix : ℕ} {flags' : Flags} {width' : ℤ}
    (h : numberOf c flags width = some (radix, flags', width')) :
    convert strings c flags width args = (do
      let text ← appendNumber (args 0) radix flags' width'
      return (text, fun k => args (k + 1))) := by
  unfold numberOf at h
  unfold convert
  generalize (if width = 0 then 8 else width) = wide at h ⊢
  split_ifs at h with h1 h2 h3 h4 h5 h6
  all_goals
    cases h
    subst c
    rfl

theorem nextArg_number {n : ℕ × Flags × ℤ} (h : numberOf c flags width = some n) (arg : ℕ) :
    nextArg c arg = arg + 1 := by
  unfold numberOf at h
  unfold nextArg
  split_ifs at h with h1 h2 h3 h4 h5 h6
  all_goals
    subst c
    rfl

theorem convert_plain (h : numberOf c flags width = none) :
    ∃ text, convert strings c flags width args = .ok (text, fun k => args (k + nextArg c 0)) := by
  unfold numberOf at h
  split_ifs at h with h1 h2 h3 h4 h5 h6
  unfold convert
  by_cases hc : c = ch 'c'
  · subst hc
    exact ⟨_, rfl⟩
  by_cases hs : c = ch 's'
  · subst hs
    exact ⟨_, rfl⟩
  have hnext : nextArg c 0 = 0 := by
    unfold nextArg
    refine if_neg ?_
    simp [h1, h2, h3, h4, h5, h6, hc, hs]
  rw [hnext]
  by_cases hp : c = ch '%'
  · subst hp
    exact ⟨_, rfl⟩
  · exact ⟨[c], by simp [h1, h2, h3, h4, h5, h6, hc, hs, hp]⟩

theorem radix_of_numberOf {n : ℕ × Flags × ℤ} (h : numberOf c flags width = some n) :
    2 ≤ n.1 ∧ n.1 ≤ 16 := by
  unfold numberOf at h
  split_ifs at h
  all_goals
    cases h
    dsimp only
    omega

theorem width_of_numberOf {n : ℕ × Flags × ℤ} (h : numberOf c flags width = some n)
    (hwidth : -2 ^ 31 ≤ width) : -2 ^ 31 ≤ n.2.2 := by
  unfold numberOf at h
  split_ifs at h
  all_goals
    cases h
    dsimp only
    omega

theorem nextArg_add (c : BitVec 8) (k arg : ℕ) : k + nextArg c 0 + arg = k + nextArg c arg := by
  unfold nextArg
  split <;> omega

theorem i32_zero : i32 (0 : ℕ) = 0 := by decide

theorem i32_ge (z : ℤ) : -2 ^ 31 ≤ i32 z := by
  unfold i32
  omega

/-- A conversion whose number fits leaves the words behind its argument. -/
theorem Directive.Fits.convert {d : Directive} (h : d.Fits args) :
    ∃ text, convert strings d.conversion d.flags (i32 d.width) (fun k => args (k + d.arg)) =
      .ok (text, fun k => args (k + nextArg d.conversion d.arg)) := by
  cases hn : numberOf d.conversion d.flags (i32 d.width) with
  | none =>
    obtain ⟨text, ht⟩ := @convert_plain _ _ _ (fun k => args (k + d.arg)) strings hn
    simp only [nextArg_add] at ht
    exact ⟨text, ht⟩
  | some n =>
    obtain ⟨h2, h16⟩ := radix_of_numberOf hn
    obtain ⟨text, ht⟩ := (h n hn).appendNumber h2 h16
    refine ⟨text, ?_⟩
    rw [convert_number hn, Nat.zero_add, except_bind_of_ok ht, nextArg_number hn]
    simp only [Nat.add_right_comm]
    rfl

theorem fits_of_convert {d : Directive} {r : List (BitVec 8) × (ℕ → BitVec 32)}
    (h : convert strings d.conversion d.flags (i32 d.width) (fun k => args (k + d.arg)) = .ok r) :
    d.Fits args := by
  intro n hn
  rw [convert_number hn, Nat.zero_add] at h
  obtain ⟨h2, h16⟩ := radix_of_numberOf hn
  obtain ⟨text, ht, _⟩ := except_bind_ok h
  exact fitsBuf_of_appendNumber ht h2 h16 (width_of_numberOf hn (i32_ge _))

/-! ## Reading a directive -/

/-- What the parser finds is what the reading says: the end of the format, or a directive and the
format behind it. -/
inductive ReadsAs (arg : ℕ) (fmt : List (BitVec 8)) :
    Except Fault (Flags × ℤ × List (BitVec 8)) → Option (List Directive) → Prop where
  | cut (flags : Flags) (width : ℤ) : ReadsAs arg fmt (.ok (flags, width, [0])) none
  | whole (d : Directive) (rest : List (BitVec 8)) (harg : d.arg = arg) (hc : d.conversion ≠ 0)
      (hrest : rest <:+ fmt) (hlen : rest.length < fmt.length) :
      ReadsAs arg fmt (.ok (d.flags, i32 d.width, d.conversion :: (rest ++ [0])))
        ((directives .text (nextArg d.conversion arg) rest).map (d :: ·))

theorem ReadsAs.cons {arg : ℕ} {fmt : List (BitVec 8)}
    {parsed : Except Fault (Flags × ℤ × List (BitVec 8))} {spec : Option (List Directive)}
    (h : ReadsAs arg fmt parsed spec) (c : BitVec 8) : ReadsAs arg (c :: fmt) parsed spec := by
  cases h with
  | cut flags width => exact .cut flags width
  | whole d rest harg hc hrest hlen =>
    exact .whole d rest harg hc (hrest.trans (List.suffix_cons _ _)) (Nat.lt_succ_of_lt hlen)

theorem toInt_digit (h : isDigit c = true) : c.toInt - (ch '0').toInt = digitOf c := by
  unfold isDigit at h
  obtain ⟨h0, h9⟩ := (Bool.and_eq_true _ _).mp h
  have hlow : (48 : ℤ) ≤ c.toInt := BitVec.sle_iff_toInt_le.mp h0
  have hhigh : c.toInt ≤ (57 : ℤ) := BitVec.sle_iff_toInt_le.mp h9
  have hnat := BitVec.toInt_eq_toNat_cond c
  have hch : (ch '0').toInt = 48 := rfl
  have hlt := c.isLt
  unfold digitOf
  rw [hch]
  split at hnat <;> omega

theorem skipAtoi_reads (flags : Flags) (arg width : ℕ) {fmt : List (BitVec 8)} (hfmt : 0 ∉ fmt) :
    ReadsAs arg fmt (skipAtoi (fmt ++ [0]) (i32 width) >>= fun r => .ok (flags, r.1, r.2))
      (directives (.width flags width) arg fmt) := by
  induction fmt generalizing width with
  | nil => exact .cut flags (i32 width)
  | cons c fmt ih =>
    have hc : c ≠ 0 := fun h => hfmt (h ▸ List.mem_cons_self)
    have hrest : 0 ∉ fmt := fun h => hfmt (List.mem_cons_of_mem c h)
    rw [List.cons_append]
    unfold skipAtoi directives
    by_cases hdigit : isDigit c = true
    · rw [if_pos hdigit, if_pos hdigit, toInt_digit hdigit]
      have hstep : i32 (i32 (i32 width * 10) + digitOf c) = i32 (width * 10 + digitOf c : ℕ) := by
        unfold i32
        omega
      rw [hstep]
      exact (ih _ hrest).cons c
    · rw [if_neg hdigit, if_neg hdigit]
      exact .whole ⟨c, flags, width, arg⟩ fmt rfl hc (List.suffix_cons _ _)
        (Nat.lt_succ_self _)

/-- What `parse_directive` does behind the flags. -/
def parseWidth (r : Flags × List (BitVec 8)) : Except Fault (Flags × ℤ × List (BitVec 8)) :=
  match r.2 with
  | [] => .error .pastFormat
  | c :: _ =>
    if isDigit c then skipAtoi r.2 0 >>= fun s => .ok (r.1, s.1, s.2)
    else .ok (r.1, 0, r.2)

theorem parseFlags_cons (c : BitVec 8) (fmt : List (BitVec 8)) (flags : Flags) :
    parseFlags (c :: fmt) flags =
      match addFlag c flags with
      | some flags => parseFlags fmt flags
      | none => .ok (flags, c :: fmt) := by
  unfold addFlag
  rw [parseFlags]
  split_ifs <;> rfl

theorem parseFlags_reads (flags : Flags) (arg : ℕ) {fmt : List (BitVec 8)} (hfmt : 0 ∉ fmt) :
    ReadsAs arg fmt (parseFlags (fmt ++ [0]) flags >>= parseWidth)
      (directives (.flags flags) arg fmt) := by
  induction fmt generalizing flags with
  | nil => exact .cut flags 0
  | cons c fmt ih =>
    have hc : c ≠ 0 := fun h => hfmt (h ▸ List.mem_cons_self)
    have hrest : 0 ∉ fmt := fun h => hfmt (List.mem_cons_of_mem c h)
    rw [List.cons_append, parseFlags_cons]
    unfold directives
    cases hflag : addFlag c flags with
    | some flags' => exact (ih flags' hrest).cons c
    | none =>
      show ReadsAs arg (c :: fmt) (if isDigit c = true then _ else _) _
      dsimp only
      by_cases hdigit : isDigit c = true
      · have hread := skipAtoi_reads flags arg 0 hfmt
        unfold directives at hread
        rw [if_pos hdigit, Nat.zero_mul, Nat.zero_add, i32_zero] at hread
        rw [if_pos hdigit, if_pos hdigit]
        exact hread
      · have hread : ReadsAs arg (c :: fmt) (.ok (flags, i32 (0 : ℕ), c :: (fmt ++ [0]))) _ :=
          .whole ⟨c, flags, 0, arg⟩ fmt rfl hc (List.suffix_cons _ _) (Nat.lt_succ_self _)
        rw [i32_zero] at hread
        rw [if_neg hdigit, if_neg hdigit]
        exact hread

theorem parseDirective_eq (fmt : List (BitVec 8)) :
    parseDirective fmt = parseFlags fmt ⟨false, false, false, false⟩ >>= parseWidth := by
  unfold parseDirective
  rfl

theorem parseDirective_reads (arg : ℕ) {fmt : List (BitVec 8)} (hfmt : 0 ∉ fmt) :
    ReadsAs arg fmt (parseDirective (fmt ++ [0]))
      (directives (.flags ⟨false, false, false, false⟩) arg fmt) := by
  rw [parseDirective_eq]
  exact parseFlags_reads _ arg hfmt

/-! ## The whole format -/

theorem vsprintfLoop_text (hc : c ≠ 0) (hpercent : c ≠ ch '%') (fmt : List (BitVec 8)) :
    vsprintfLoop strings (c :: fmt) args = (do
      let text ← vsprintfLoop strings fmt args
      return c :: text) := by
  rw [vsprintfLoop, if_neg hc, if_pos hpercent]

theorem vsprintfLoop_directive {fmt rest : List (BitVec 8)}
    (h : parseDirective fmt = .ok (flags, width, c :: rest)) :
    vsprintfLoop strings (ch '%' :: fmt) args = (do
      let (text, args) ← convert strings c flags width args
      let tail ← vsprintfLoop strings rest args
      return text ++ tail) := by
  rw [vsprintfLoop, if_neg (by decide), if_neg (not_not_intro rfl)]
  split <;> rename_i heq <;> rw [h] at heq <;> cases heq
  rfl

/-- From the text at any directive on, the loop returns exactly if the rest of the format is
complete. -/
theorem vsprintfLoop_iff (strings : BitVec 32 → List (BitVec 8)) (args : ℕ → BitVec 32) (arg : ℕ)
    {fmt : List (BitVec 8)} (hfmt : 0 ∉ fmt) :
    (∃ text, vsprintfLoop strings (fmt ++ [0]) (fun k => args (k + arg)) = .ok text) ↔
      ∃ ds, directives .text arg fmt = some ds ∧ ∀ d ∈ ds, d.Fits args := by
  induction hlen : fmt.length using Nat.strong_induction_on generalizing fmt arg with
  | _ n ih =>
  cases fmt with
  | nil =>
    have hend : vsprintfLoop strings [0] (fun k => args (k + arg)) = .ok [] := by
      rw [vsprintfLoop, if_pos rfl]
    exact ⟨fun _ => ⟨[], rfl, fun d hd => absurd hd List.not_mem_nil⟩, fun _ => ⟨[], hend⟩⟩
  | cons c fmt =>
    have hc : c ≠ 0 := fun h => hfmt (h ▸ List.mem_cons_self)
    have hrest : 0 ∉ fmt := fun h => hfmt (List.mem_cons_of_mem c h)
    rw [List.length_cons] at hlen
    rw [List.cons_append]
    unfold directives
    by_cases hpercent : c = ch '%'
    · subst hpercent
      rw [if_pos rfl]
      have hread := parseDirective_reads arg hrest
      generalize hparsed : parseDirective (fmt ++ [0]) = parsed at hread
      generalize directives (.flags ⟨false, false, false, false⟩) arg fmt = spec at hread
      cases hread with
      | cut flags width =>
        rw [vsprintfLoop_directive hparsed]
        have hzero : convert strings 0 flags width (fun k => args (k + arg)) =
            .ok ([0], fun k => args (k + arg)) := rfl
        rw [except_bind_of_ok hzero]
        have hpast : vsprintfLoop strings [] (fun k => args (k + arg)) = .error .pastFormat := by
          rw [vsprintfLoop]
        dsimp only
        rw [hpast]
        constructor
        · rintro ⟨_, h⟩
          cases h
        · rintro ⟨_, h, _⟩
          cases h
      | whole d rest harg hconv hsuffix hshort =>
        subst harg
        have hmem : 0 ∉ rest := fun h => hrest (hsuffix.subset h)
        have hih := ih rest.length (by omega) (nextArg d.conversion d.arg) hmem rfl
        rw [vsprintfLoop_directive hparsed]
        constructor
        · rintro ⟨text, h⟩
          obtain ⟨r, hconvert, h⟩ := except_bind_ok h
          have hfits := fits_of_convert hconvert
          obtain ⟨shown, hshown⟩ := @Directive.Fits.convert args strings d hfits
          rw [hshown] at hconvert
          cases hconvert
          obtain ⟨tail, htail, _⟩ := except_bind_ok h
          obtain ⟨ds, hds, hall⟩ := hih.mp ⟨tail, htail⟩
          exact ⟨d :: ds, by rw [hds]; rfl, List.forall_mem_cons.mpr ⟨hfits, hall⟩⟩
        · rintro ⟨ds, hds, hall⟩
          obtain ⟨ds', hds', rfl⟩ := Option.map_eq_some_iff.mp hds
          obtain ⟨hfits, hall⟩ := List.forall_mem_cons.mp hall
          obtain ⟨shown, hshown⟩ := @Directive.Fits.convert args strings d hfits
          obtain ⟨tail, htail⟩ := hih.mpr ⟨ds', hds', hall⟩
          refine ⟨shown ++ tail, ?_⟩
          rw [except_bind_of_ok hshown]
          dsimp only
          rw [except_bind_of_ok htail]
          rfl
    · rw [if_neg hpercent, vsprintfLoop_text hc hpercent, ← ih fmt.length (by omega) arg hrest rfl]
      constructor
      · rintro ⟨text, h⟩
        obtain ⟨tail, ht, _⟩ := except_bind_ok h
        exact ⟨tail, ht⟩
      · rintro ⟨tail, ht⟩
        exact ⟨c :: tail, by rw [except_bind_of_ok ht]; rfl⟩

/-- The run returns, and with that it has read no byte behind the terminating NUL. -/
def StaysInFormat (strings : BitVec 32 → List (BitVec 8)) (fmt : List (BitVec 8))
    (args : ℕ → BitVec 32) : Prop :=
  ∃ text, vsprintf strings fmt args = .ok text

/-- `vsprintf` stays in its format exactly if the format is complete: behind a directive that the
terminating NUL cuts off, the loop goes on. -/
theorem staysInFormat_iff (strings : BitVec 32 → List (BitVec 8)) {fmt : List (BitVec 8)}
    (hfmt : 0 ∉ fmt) (args : ℕ → BitVec 32) :
    StaysInFormat strings fmt args ↔ Complete args fmt := by
  have hloop := vsprintfLoop_iff strings args 0 hfmt
  simp only [Nat.add_zero] at hloop
  unfold StaysInFormat Complete
  rw [← hloop]
  constructor
  · rintro ⟨text, h⟩
    obtain ⟨tail, ht, _⟩ := except_bind_ok h
    exact ⟨tail, ht⟩
  · rintro ⟨tail, ht⟩
    exact ⟨tail ++ [0], by unfold vsprintf; rw [except_bind_of_ok ht]; rfl⟩

theorem staysInFormat_padded :
    StaysInFormat (fun _ => []) (['%', '-', '4', 'd', '%', '%'].map ch) (fun _ => 7) := by
  refine (staysInFormat_iff _ (by decide) _).mpr
    ⟨[⟨ch 'd', ⟨false, false, true, false⟩, 4, 0⟩, ⟨ch '%', ⟨false, false, false, false⟩, 0, 1⟩],
      rfl, List.forall_mem_cons.mpr ⟨?_, List.forall_mem_cons.mpr ⟨?_, List.forall_mem_nil _⟩⟩⟩
  · intro n hn
    cases hn
    exact Or.inl rfl
  · intro n hn
    exact nomatch hn

/-- The format ends where a conversion is due. -/
theorem not_staysInFormat_percent :
    ¬StaysInFormat (fun _ => []) (['1', '0', '0', '%'].map ch) (fun _ => 0) := by
  rintro ⟨text, h⟩
  obtain ⟨tail, ht, _⟩ := except_bind_ok h
  obtain ⟨ds, hds, _⟩ := (vsprintfLoop_iff _ (fun _ => 0) 0 (by decide)).mp ⟨tail, ht⟩
  exact nomatch hds

end Evos
