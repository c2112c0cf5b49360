/-
# SvgAssets.Proofs.Markup.LineBreaks -- tags and attributes with line breaks in them

An opening tag of the root element may be written on many lines. Where line breaks are dropped the
tag stays one, if its name stands on one line and more than line breaks stand between the name and
the attributes (`rootNameStands`, `first?_dropLineBreaks_of_rootNameStands`). An attribute keeps its
value if its name is not joined with a name in front and the value stands on one line
(`value?_dropLineBreaks`).
-/
import SvgAssets.Proofs.Markup.RootTag
import SvgAssets.Proofs.Markup.Tokens
import SvgAssets.Proofs.Text.Words

namespace SvgAssets

/-! ## The first token, step by step -/

namespace Pattern

variable {α β : Type} (p : Pattern α)

/-- A function of the first token is one of the token at the front, and else of the first token
behind. -/
theorem map_firstFrom_cons (f : α → β) (prev : Option Char) (c : Char) (s : Text) :
    (p.firstFrom prev (c :: s)).map (fun found => f found.2.1) =
      ((p.read prev (c :: s)).map fun found => f found.1).or
        ((p.firstFrom (some c) s).map fun found => f found.2.1) := by
  rw [firstFrom]
  cases p.read prev (c :: s) with
  | some found => rfl
  | none => cases p.firstFrom (some c) s <;> rfl

end Pattern

namespace Text

/-! ## Reading on behind line breaks -/

theorem after?_singleton_dropLineBreaks {x : Char} {s : Text}
    (hs : ∀ c ∈ s.head?, isLineBreak c = false) :
    after? [x] (dropLineBreaks s) = (after? [x] s).map dropLineBreaks := by
  cases s with
  | nil => rfl
  | cons c s =>
    rw [dropLineBreaks_cons_of_neg (hs c rfl)]
    by_cases hx : x = c <;> simp [after?, hx]

theorem one?_dropLineBreaks {q : Char → Bool} {s : Text}
    (hs : ∀ c ∈ s.head?, isLineBreak c = false) :
    one? q (dropLineBreaks s) = (one? q s).map fun found => (found.1, dropLineBreaks found.2) := by
  cases s with
  | nil => rfl
  | cons c s =>
    rw [dropLineBreaks_cons_of_neg (hs c rfl)]
    cases hq : q c <;> simp [one?, hq]

/-- A run ends no earlier with a second condition that all of its characters meet. -/
theorem run_and {q q' : Char → Bool} {s : Text} (h : ∀ c ∈ (run q s).1, q' c = true) :
    run (fun c => q c && q' c) s = run q s := by
  induction s with
  | nil => rfl
  | cons c s ih =>
    cases hc : q c with
    | false => simp [run, hc]
    | true =>
      simp only [run, List.takeWhile_cons_of_pos hc, List.forall_mem_cons] at h
      have hbehind := ih h.2
      simp only [run, Prod.mk.injEq] at hbehind ⊢
      simp [hc, h.1, hbehind]

/-- Where a character occurs it is read behind the run up to it. -/
theorem exists_after?_run {x : Char} {s : Text} (h : x ∈ s) :
    ∃ rest, after? [x] (run (· != x) s).2 = some rest := by
  induction s with
  | nil => cases h
  | cons c s ih =>
    by_cases hc : c = x
    · exact ⟨s, by simp [run, hc, after?]⟩
    · obtain ⟨rest, hrest⟩ := ih ((List.mem_cons.1 h).resolve_left (Ne.symm hc))
      exact ⟨rest, by simpa [run, hc] using hrest⟩

/-- A word that no line break stands in is read as before. -/
theorem after?_dropLineBreaks {p : Char → Bool} (hp : ∀ c, p c = true → isLineBreak c = false)
    {w s : Text} (hw : ∀ c ∈ w, p c = true) (hs : keepsWords p true s = true) :
    after? w (dropLineBreaks s) = (after? w s).map dropLineBreaks := by
  induction w generalizing s with
  | nil => simp [after?]
  | cons a w ih =>
    have ha := hw a (List.mem_cons_self ..)
    cases s with
    | nil => rfl
    | cons c s =>
      cases hc : isLineBreak c with
      | false =>
        rw [keepsWords_of_neg hc] at hs
        rw [dropLineBreaks_cons_of_neg hc]
        by_cases hac : a = c
        · subst hac
          rw [ha] at hs
          simpa [after?] using ih (fun d hd => hw d (List.mem_cons_of_mem _ hd)) hs
        · simp [after?, hac]
      | true =>
        -- Neither the line break nor what stands behind it goes on with the word.
        have hac : a ≠ c := by
          rintro rfl
          rw [hp a ha] at hc
          cases hc
        have hnext : (dropLineBreaks s).head?.any p = false := by
          simp only [keepsWords, hc, if_true, Bool.and_eq_true, Bool.true_and,
            Bool.not_eq_true'] at hs
          exact hs.1
        rw [dropLineBreaks_cons_of_pos hc]
        cases hd : dropLineBreaks s with
        | nil => simp [after?, hac]
        | cons d t =>
          have had : a ≠ d := by
            rintro rfl
            simp [hd, ha] at hnext
          simp [after?, hac, had]

end Text

namespace Markup

open Text

/-! ## Tags of the root element -/

/-- A text begins with a line break only if it still begins with white space without it. -/
def isSetOff (a : Text) : Bool :=
  a.head?.all (!isLineBreak ·) || (dropLineBreaks a).head?.any isBlank

/-- The name of the root element, if it stands here, stands on one line, and more than line breaks
separate it from what follows. -/
def rootNameStandsAt (s : Text) : Bool :=
  match keyword? rootName (dropLineBreaks s) with
  | none => true
  | some (form, _) =>
    match after? form s with
    | none => false
    | some behind => isSetOff (run (· != '>') behind).1

/-- So it is behind every `<`. -/
def rootNameStands : Text → Bool
  | [] => true
  | c :: s => (c != '<' || rootNameStandsAt s) && rootNameStands s

/-- A tag without its line breaks. -/
def OpenTag.onOneLine (t : OpenTag) : OpenTag :=
  ⟨dropLineBreaks t.name, dropLineBreaks t.attributes⟩

theorem OpenTag.text_onOneLine (t : OpenTag) : t.onOneLine.text = dropLineBreaks t.text := by
  have hopen := dropLineBreaks_cons_of_neg (show isLineBreak '<' = false from rfl)
  have hclose := dropLineBreaks_cons_of_neg (show isLineBreak '>' = false from rfl)
  simp [OpenTag.text, onOneLine, hopen, hclose, dropLineBreaks_append]

theorem isLineBreak_of_isForm {form : Text} (h : IsForm rootName form) :
    ∀ c ∈ form, isLineBreak c = false := by
  have hletters : rootName.all
      (fun letter => !sameLetter letter '\n' && !sameLetter letter '\r') = true := by
    decide
  intro c hc
  obtain ⟨letter, hmem, hsame⟩ := h.exists_letter hc
  have hletter := List.all_eq_true.1 hletters letter hmem
  rw [← Bool.not_eq_true, isLineBreak_iff]
  rintro (rfl | rfl) <;> simp [hsame] at hletter

/-- The name of a tag is read in the text without line breaks where it is read in the text. -/
theorem keyword?_dropLineBreaks {s : Text} (h : rootNameStandsAt s = true) :
    keyword? rootName (dropLineBreaks s) =
      (keyword? rootName s).map fun found => (found.1, dropLineBreaks found.2) := by
  cases hs : keyword? rootName s with
  | some found =>
    obtain ⟨form, behind⟩ := found
    obtain ⟨hform, rfl⟩ := keyword?_eq_some_iff.1 hs
    rw [dropLineBreaks_append, dropLineBreaks_eq_self (isLineBreak_of_isForm hform)]
    exact keyword?_eq_some_iff.2 ⟨hform, rfl⟩
  | none =>
    rw [Option.map_none, Option.eq_none_iff_forall_ne_some]
    rintro ⟨form, rest⟩ hdrop
    rw [rootNameStandsAt, hdrop] at h
    cases hafter : after? form s with
    | none => simp [hafter] at h
    | some behind =>
      have hread : keyword? rootName s = some (form, behind) :=
        keyword?_eq_some_iff.2 ⟨(keyword?_eq_some_iff.1 hdrop).1, after?_eq_some_iff.1 hafter⟩
      rw [hs] at hread
      cases hread

theorem isSetOff_of_keyword? {s form behind : Text} (h : rootNameStandsAt s = true)
    (hs : keyword? rootName s = some (form, behind)) :
    isSetOff (run (· != '>') behind).1 = true := by
  have hdrop := keyword?_dropLineBreaks h
  have hafter : after? form s = some behind := after?_eq_some_iff.2 (keyword?_eq_some_iff.1 hs).2
  rw [hs] at hdrop
  simpa [rootNameStandsAt, hdrop, hafter] using h

/-- Attributes that are set off do not come or go with the line breaks. -/
theorem admits_dropLineBreaks {a : Text} (h : isSetOff a = true) :
    Attributes.isPresent (dropLineBreaks a) = Attributes.isPresent a ∧
      Attributes.admitsAny (dropLineBreaks a) = Attributes.admitsAny a := by
  cases a with
  | nil => exact ⟨rfl, rfl⟩
  | cons c a =>
    cases hc : isLineBreak c with
    | false => simp [dropLineBreaks_cons_of_neg hc, Attributes.isPresent, Attributes.admitsAny]
    | true =>
      have hblank : isBlank c = true := isBlank_of_isLineBreak hc
      cases hd : dropLineBreaks (c :: a) with
      | nil => simp [isSetOff, hd, hc] at h
      | cons d t =>
        have hblank' : isBlank d = true := by simpa [isSetOff, hd, hc] using h
        simp [Attributes.isPresent, Attributes.admitsAny, hblank, hblank']

/-- Line breaks do not end a tag. -/
theorem ne_close_of_isLineBreak {c : Char} (h : isLineBreak c = true) : (c != '>') = true := by
  rcases isLineBreak_iff.1 h with rfl | rfl <;> rfl

/-- A tag is read in the text without line breaks where it is read in the text, and is that tag
without its line breaks. -/
theorem OpenTag.read_dropLineBreaks {admits : Text → Bool}
    (hadmits : ∀ a, isSetOff a = true → admits (dropLineBreaks a) = admits a)
    {c : Char} {s : Text} (h : c = '<' → rootNameStandsAt s = true) :
    OpenTag.read rootName admits (c :: dropLineBreaks s) =
      (OpenTag.read rootName admits (c :: s)).map
        fun found => (found.1.onOneLine, dropLineBreaks found.2) := by
  by_cases hopen : c = '<'
  swap
  · simp [OpenTag.read, after?, Ne.symm hopen]
  subst hopen
  have hname := keyword?_dropLineBreaks (h rfl)
  cases hs : keyword? rootName s with
  | none =>
    rw [hs] at hname
    simp [OpenTag.read, after?, hs, hname]
  | some found =>
    obtain ⟨form, behind⟩ := found
    rw [hs] at hname
    have hform := dropLineBreaks_eq_self (isLineBreak_of_isForm (keyword?_eq_some_iff.1 hs).1)
    have hattributes := hadmits _ (isSetOff_of_keyword? (h rfl) hs)
    have hrun := run_dropLineBreaks (q := (· != '>')) (fun _ => ne_close_of_isLineBreak) behind
    have hclose := after?_singleton_dropLineBreaks (x := '>')
      (isLineBreak_head?_run (q := (· != '>')) (fun _ => ne_close_of_isLineBreak) behind)
    simp only [OpenTag.read, after?, hs, hname, if_true, Option.bind_eq_bind, Option.bind_some,
      Option.map_some, hrun, hclose]
    cases after? ['>'] (run (· != '>') behind).2 with
    | none => rfl
    | some rest =>
      simp only [Option.map_some, Option.bind_some, hattributes]
      split
      · simp [onOneLine, hform]
      · rfl

/-- The first tag of the text without line breaks is the first tag of the text, without its line
breaks. -/
theorem OpenTag.first?_dropLineBreaks {admits : Text → Bool}
    (hadmits : ∀ a, isSetOff a = true → admits (dropLineBreaks a) = admits a) {s : Text}
    (h : rootNameStands s = true) :
    (OpenTag.pattern rootName admits).first? (dropLineBreaks s) =
      ((OpenTag.pattern rootName admits).first? s).map OpenTag.onOneLine := by
  suffices hfirst : ∀ prev prev' : Option Char,
      ((OpenTag.pattern rootName admits).firstFrom prev' (dropLineBreaks s)).map (·.2.1) =
        ((OpenTag.pattern rootName admits).firstFrom prev s).map (·.2.1.onOneLine) by
    simpa [Pattern.first?, Function.comp_def] using hfirst none none
  induction s with
  | nil => intro prev prev'; rfl
  | cons c s ih =>
    intro prev prev'
    simp only [rootNameStands, Bool.and_eq_true, Bool.or_eq_true, bne_iff_ne] at h
    obtain ⟨hat, hbehind⟩ := h
    rw [(OpenTag.pattern rootName admits).map_firstFrom_cons OpenTag.onOneLine]
    cases hc : isLineBreak c with
    | true =>
      -- No tag begins with a line break.
      have hnone : OpenTag.read rootName admits (c :: s) = none := by
        rcases isLineBreak_iff.1 hc with rfl | rfl <;> rfl
      rw [dropLineBreaks_cons_of_pos hc, ih hbehind (some c) prev']
      simp [OpenTag.pattern, hnone]
    | false =>
      have hread := OpenTag.read_dropLineBreaks hadmits (c := c) (s := s)
        (fun hopen => hat.resolve_left fun hne => hne hopen)
      have hfirst := (OpenTag.pattern rootName admits).map_firstFrom_cons (fun t => t) prev' c
        (dropLineBreaks s)
      rw [dropLineBreaks_cons_of_neg hc, hfirst, ih hbehind (some c) (some c)]
      simp [OpenTag.pattern, hread, Function.comp_def]

theorem hasSignature_dropLineBreaks {s : Text} (h : rootNameStands s = true) :
    hasSignature (dropLineBreaks s) = hasSignature s := by
  have hfirst := OpenTag.first?_dropLineBreaks (fun _ ha => (admits_dropLineBreaks ha).2) h
  simp [hasSignature, Pattern.occursIn, rootOpening, hfirst]

theorem rootTag?_dropLineBreaks {s : Text} (h : rootNameStands s = true) :
    rootTag? (dropLineBreaks s) = (rootTag? s).map dropLineBreaks := by
  have hfirst := OpenTag.first?_dropLineBreaks (fun _ ha => (admits_dropLineBreaks ha).1) h
  simp [rootTag?, hfirst, Function.comp_def, OpenTag.text_onOneLine]

/-! ## Attributes -/

/-- What stands between quotes behind a name, on however many lines. -/
def quotedBehind (name s : Text) : Option Text := do
  let s ← after? name s
  let s ← after? ['='] (run isBlank s).2
  let (quote, s) ← one? isQuote (run isBlank s).2
  let _ ← after? [quote] (run (· != quote) s).2
  some (run (· != quote) s).1

/-- The values of attributes named `name` stand on one line, where `prev` is the character in
front. -/
def valuesOnOneLine (name : Text) (prev : Option Char) : Text → Bool
  | [] => true
  | c :: s =>
    (!atNameStart prev || (quotedBehind name (c :: s)).all (·.all (!isLineBreak ·))) &&
      valuesOnOneLine name (some c) s

/-- A value that ends on its line ends where it does on many. -/
theorem after?_run_line {quote : Char} {s : Text}
    (h : ∀ rest, after? [quote] (run (· != quote) s).2 = some rest →
      '\n' ∉ (run (· != quote) s).1) :
    ((after? [quote] (run (fun c => c != quote && c != '\n') s).2).map
      fun _ => (run (fun c => c != quote && c != '\n') s).1) =
    (after? [quote] (run (· != quote) s).2).map fun _ => (run (· != quote) s).1 := by
  cases hmany : after? [quote] (run (· != quote) s).2 with
  | some rest =>
    have hline : ∀ c ∈ (run (· != quote) s).1, (c != '\n') = true := by
      intro c hc
      simpa using ne_of_mem_of_not_mem hc (h rest hmany)
    rw [run_and hline, hmany]
  | none =>
    rw [Option.map_none, Option.map_eq_none_iff, Option.eq_none_iff_forall_ne_some]
    intro rest hrest
    have hmem : quote ∈ s := by
      rw [← run_append (fun c => c != quote && c != '\n') s, after?_eq_some_iff.1 hrest]
      exact List.mem_append_right _ (List.mem_cons_self ..)
    obtain ⟨rest', hrest'⟩ := exists_after?_run hmem
    rw [hmany] at hrest'
    cases hrest'

/-- An attribute whose value stands on one line is read with all that stands between its quotes. -/
theorem Attribute.map_value_read {name s : Text} {prev : Option Char}
    (h : atNameStart prev = true → ∀ v ∈ quotedBehind name s, '\n' ∉ v) :
    (Attribute.read name prev s).map (·.1.value) =
      if atNameStart prev then quotedBehind name s else none := by
  cases hprev : atNameStart prev with
  | false => simp [Attribute.read, hprev]
  | true =>
    replace h := h hprev
    unfold quotedBehind at h ⊢
    simp only [Attribute.read, hprev, if_true, Option.bind_eq_bind]
    cases h₁ : after? name s with
    | none => rfl
    | some s₁ =>
      simp only [h₁, Option.bind_eq_bind, Option.bind_some] at h ⊢
      cases h₂ : after? ['='] (run isBlank s₁).2 with
      | none => rfl
      | some s₂ =>
        simp only [h₂, Option.bind_some] at h ⊢
        cases h₃ : one? isQuote (run isBlank s₂).2 with
        | none => rfl
        | some found =>
          obtain ⟨quote, s₃⟩ := found
          simp only [h₃, Option.bind_some] at h ⊢
          have hline := after?_run_line fun rest hrest => h _ (by rw [hrest]; rfl)
          rw [Option.map_eq_bind, Option.map_eq_bind] at hline
          rw [Option.map_bind]
          exact hline

/-- What stands between quotes behind a name, without the line breaks. -/
theorem quotedBehind_dropLineBreaks {p : Char → Bool}
    (hp : ∀ c, p c = true → isLineBreak c = false) {name s : Text} (hname : ∀ c ∈ name, p c = true)
    (hs : keepsWords p true s = true) :
    quotedBehind name (dropLineBreaks s) = (quotedBehind name s).map dropLineBreaks := by
  have hblank : ∀ c, isLineBreak c = true → isBlank c = true := fun _ => isBlank_of_isLineBreak
  unfold quotedBehind
  rw [after?_dropLineBreaks hp hname hs]
  cases after? name s with
  | none => rfl
  | some s₁ =>
    simp only [Option.bind_eq_bind, Option.bind_some, Option.map_some, run_dropLineBreaks hblank]
    rw [after?_singleton_dropLineBreaks (isLineBreak_head?_run hblank s₁)]
    cases after? ['='] (run isBlank s₁).2 with
    | none => rfl
    | some s₂ =>
      simp only [Option.bind_some, Option.map_some, run_dropLineBreaks hblank]
      rw [one?_dropLineBreaks (isLineBreak_head?_run hblank s₂)]
      cases hquote : one? isQuote (run isBlank s₂).2 with
      | none => rfl
      | some found =>
        obtain ⟨quote, s₃⟩ := found
        have hend : ∀ c, isLineBreak c = true → (c != quote) = true := by
          intro c hc
          rw [bne_iff_ne]
          rintro rfl
          have hq := (one?_eq_some_iff.1 hquote).2
          rw [not_isQuote_of_isBlank (hblank c hc)] at hq
          cases hq
        simp only [Option.bind_some, Option.map_some, run_dropLineBreaks hend]
        rw [after?_singleton_dropLineBreaks (isLineBreak_head?_run hend s₃)]
        cases after? [quote] (run (· != quote) s₃).2 <;> rfl

/-- A name is not read in front of a character that is in no name. -/
theorem quotedBehind_cons_of_neg {p : Char → Bool} {name : Text} (hne : name ≠ [])
    (hname : ∀ c ∈ name, p c = true) {c : Char} (hc : p c = false) (s : Text) :
    quotedBehind name (c :: s) = none := by
  cases name with
  | nil => exact absurd rfl hne
  | cons a name =>
    have hac : a ≠ c := by
      rintro rfl
      rw [hname a (List.mem_cons_self ..)] at hc
      cases hc
    simp [quotedBehind, after?, hac]

/-- No attribute begins with a line break. -/
theorem Attribute.read_eq_none_of_isLineBreak {name : Text} {c : Char} {s : Text}
    (hname : name ≠ []) (hchars : ∀ d ∈ name, isLineBreak d = false) (hc : isLineBreak c = true)
    (prev : Option Char) : Attribute.read name prev (c :: s) = none := by
  cases name with
  | nil => exact absurd rfl hname
  | cons a name =>
    have hac : a ≠ c := by
      rintro rfl
      rw [hchars a (List.mem_cons_self ..)] at hc
      cases hc
    simp [Attribute.read, after?, hac]

/-- The positions behind `prev` in a text and behind `prev'` in the text without its line breaks:
either the characters in front are the same, or only line breaks stand between them and no name is
joined. -/
def Alike (p : Char → Bool) (prev prev' : Option Char) (s : Text) : Prop :=
  prev' = prev ∨ prev.any isLineBreak = true ∧
    (prev'.any p = true → (dropLineBreaks s).head?.any p = false)

/-- At positions alike the same attribute is read. -/
theorem Attribute.read_dropLineBreaks {p : Char → Bool}
    (hp : ∀ c, p c = true → isLineBreak c = false)
    (hnames : ∀ c, isNameChar c = true → p c = true) {name : Text} (hne : name ≠ [])
    (hname : ∀ c ∈ name, isNameChar c = true) {c : Char} {s : Text} {prev prev' : Option Char}
    (hprev : Alike p prev prev' (c :: s)) (hc : isLineBreak c = false)
    (hs : keepsWords p (p c) s = true)
    (hvalue : atNameStart prev = true → ∀ v ∈ quotedBehind name (c :: s),
      ∀ d ∈ v, isLineBreak d = false) :
    (Attribute.read name prev' (c :: dropLineBreaks s)).map (·.1.value) =
      (Attribute.read name prev (c :: s)).map (·.1.value) := by
  have hword : ∀ c ∈ name, p c = true := fun c hc => hnames c (hname c hc)
  have hquoted : quotedBehind name (c :: dropLineBreaks s) =
      (quotedBehind name (c :: s)).map dropLineBreaks := by
    rw [← dropLineBreaks_cons_of_neg hc]
    exact quotedBehind_dropLineBreaks hp hword (by rwa [keepsWords_of_neg hc])
  have hsame (hstart : atNameStart prev = true) :
      (quotedBehind name (c :: s)).map dropLineBreaks = quotedBehind name (c :: s) := by
    cases hv : quotedBehind name (c :: s) with
    | none => rfl
    | some v => rw [Option.map_some, dropLineBreaks_eq_self (hvalue hstart v hv)]
  have hmany : atNameStart prev = true → ∀ v ∈ quotedBehind name (c :: s), '\n' ∉ v :=
    fun hstart v hv hmem => absurd (hvalue hstart v hv _ hmem) (by decide)
  have hone : ∀ v ∈ quotedBehind name (c :: dropLineBreaks s), '\n' ∉ v := by
    intro v hv
    rw [hquoted] at hv
    obtain ⟨w, -, rfl⟩ := Option.map_eq_some_iff.1 hv
    simp [dropLineBreaks, isLineBreak]
  rw [Attribute.map_value_read hmany, Attribute.map_value_read fun _ => hone, hquoted]
  rcases hprev with rfl | ⟨hbreak, hjoin⟩
  · split
    · rename_i hstart
      exact hsame hstart
    · rfl
  have hstart : atNameStart prev = true := by
    obtain ⟨d, rfl, hd⟩ := (Option.any_eq_true ..).1 hbreak
    have hmark : isMark d = true := isMark_of_isBlank (isBlank_of_isLineBreak hd)
    simpa [atNameStart] using not_isNameChar_of_isMark hmark
  rw [hsame hstart, if_pos hstart]
  split
  · rfl
  · rename_i hnot
    -- A name in front of the line breaks would go on behind them.
    obtain ⟨d, rfl, hd⟩ : ∃ d, prev' = some d ∧ isNameChar d = true := by
      cases prev' with
      | none => exact absurd rfl hnot
      | some d => exact ⟨d, rfl, by simpa [atNameStart] using hnot⟩
    have hpc : p c = false := by
      simpa [dropLineBreaks_cons_of_neg hc] using hjoin (hnames d hd)
    rw [quotedBehind_cons_of_neg hne hword hpc]

/-- The value of an attribute in the text without line breaks is the one in the text, if no name
goes on behind a line break and all values of the name stand on one line. -/
theorem Attribute.value?_dropLineBreaks {p : Char → Bool}
    (hp : ∀ c, p c = true → isLineBreak c = false)
    (hnames : ∀ c, isNameChar c = true → p c = true) {name s : Text} (hne : name ≠ [])
    (hname : ∀ c ∈ name, isNameChar c = true) (hs : keepsWords p false s = true)
    (hvalues : valuesOnOneLine name none s = true) :
    Attribute.value? name (dropLineBreaks s) = Attribute.value? name s := by
  suffices hfirst : ∀ prev prev' : Option Char, Alike p prev prev' s →
      keepsWords p (prev'.any p) s = true → valuesOnOneLine name prev s = true →
      ((Attribute.pattern name).firstFrom prev' (dropLineBreaks s)).map (·.2.1.value) =
        ((Attribute.pattern name).firstFrom prev s).map (·.2.1.value) by
    simpa [Attribute.value?, Pattern.first?, Function.comp_def] using
      hfirst none none (.inl rfl) hs hvalues
  clear hs hvalues
  induction s with
  | nil => intro prev prev' _ _ _; rfl
  | cons c s ih =>
    intro prev prev' hprev hs hvalues
    simp only [valuesOnOneLine, Bool.and_eq_true, Bool.or_eq_true, Bool.not_eq_true'] at hvalues
    obtain ⟨hvalue, hbehind⟩ := hvalues
    have hfirst := (Attribute.pattern name).map_firstFrom_cons Attribute.value
    cases hc : isLineBreak c with
    | true =>
      have hnone : (Attribute.pattern name).read prev (c :: s) = none :=
        Attribute.read_eq_none_of_isLineBreak hne (fun d hd => hp d (hnames d (hname d hd))) hc prev
      obtain ⟨hnext, hkeeps⟩ := (keepsWords_cons_of_pos hc).1 hs
      rw [dropLineBreaks_cons_of_pos hc, hfirst prev, hnone]
      exact ih (some c) prev' (.inr ⟨hc, hnext⟩) (keepsWords_of_head? hkeeps hnext) hbehind
    | false =>
      rw [keepsWords_of_neg hc] at hs
      have hread := Attribute.read_dropLineBreaks hp hnames hne hname hprev hc hs (by
        intro hstart v hv d hd
        rw [hv, hstart] at hvalue
        simpa using (List.all_eq_true.1 (hvalue.resolve_left (by decide))) d hd)
      rw [dropLineBreaks_cons_of_neg hc, hfirst prev, hfirst prev',
        ih (some c) (some c) (.inl rfl) hs hbehind]
      simpa only [Attribute.pattern] using congrArg (Option.or · _) hread

end Markup

end SvgAssets
