/-
# SvgAssets.Proofs.Markup.Tokens -- what is read as an attribute or a reference

Attributes and references are delimited by marks: white space, quotes, the hash, the equals sign and
parentheses. No character of a name is a mark. So a token that is written out can be read back
whatever follows it (`read_text_append`), and what has been read is of that form
(`isProper_of_read`).
-/
import SvgAssets.Markup.Identifier
import SvgAssets.Proofs.Text.CharacterClasses
import SvgAssets.Proofs.Text.Scanning

namespace SvgAssets.Markup

open Text

/-! ## Marks -/

/-- The characters that delimit identifiers. -/
def isMark (c : Char) : Bool :=
  isBlank c || isQuote c || c == '#' || c == '=' || c == '(' || c == ')'

theorem isMark_of_isBlank {c : Char} (h : isBlank c = true) : isMark c = true := by
  simp [isMark, h]

theorem isMark_of_isQuote {c : Char} (h : isQuote c = true) : isMark c = true := by
  simp [isMark, h]

/-- In ASCII, marks and name characters are told apart one by one. -/
theorem isMark_eq_false_of_lt {c : Char} (h : isNameChar c = true) (hlt : c.toNat < 0x80) :
    isMark c = false := by
  refine forall_ascii (P := fun c => isNameChar c = true → isMark c = false) ?_ hlt h
  decide +kernel

theorem isMark_eq_false_of_isNameChar {c : Char} (h : isNameChar c = true) :
    isMark c = false := by
  by_cases hlt : c.toNat < 0x80
  · exact isMark_eq_false_of_lt h hlt
  -- Beyond ASCII the only marks are blanks, and the only name characters letters and numbers.
  have hne : ∀ d : Char, d.toNat < 0x80 → c ≠ d := by
    rintro d hd rfl
    exact hlt hd
  have halpha : inRanges alphanumericRanges c.toNat = true := by
    simpa [isNameChar, isWordChar, isAlphanumeric, hlt, hne '_' (by decide), hne ':' (by decide),
      hne '-' (by decide)] using h
  have hdisjoint : bits alphanumericRanges &&& bits blankRanges = 0 := by decide +kernel
  have hblank : isBlank c = false := inRanges_eq_false_of_bits hdisjoint halpha
  simp [isMark, isQuote, hblank, hne '"' (by decide), hne '\'' (by decide), hne '#' (by decide),
    hne '=' (by decide), hne '(' (by decide), hne ')' (by decide)]

theorem isMark_eq_false_of_isWordChar {c : Char} (h : isWordChar c = true) : isMark c = false :=
  isMark_eq_false_of_isNameChar (by simp [isNameChar, h])

theorem not_isNameChar_of_isMark {c : Char} (h : isMark c = true) : isNameChar c = false := by
  rw [← Bool.not_eq_true]
  intro hname
  rw [isMark_eq_false_of_isNameChar hname] at h
  cases h

theorem not_isBlank_of_isQuote {c : Char} (h : isQuote c = true) : isBlank c = false := by
  simp only [isQuote, Bool.or_eq_true, beq_iff_eq] at h
  rcases h with rfl | rfl <;> decide

theorem not_isQuote_of_isBlank {c : Char} (h : isBlank c = true) : isQuote c = false := by
  rw [← Bool.not_eq_true]
  intro hquote
  rw [not_isBlank_of_isQuote hquote] at h
  cases h

/-! ## Attributes -/

namespace Attribute

/-- The gaps are white space, the value stands between two quotes of a kind and on one line. -/
structure IsProper (name : Text) (a : Attribute) : Prop where
  name_eq : a.name = name
  gapBefore_blank : ∀ c ∈ a.gapBefore, isBlank c = true
  gapAfter_blank : ∀ c ∈ a.gapAfter, isBlank c = true
  quote_isQuote : isQuote a.quote = true
  value_chars : ∀ c ∈ a.value, c ≠ a.quote ∧ c ≠ '\n'

theorem isProper_of_read {name s rest : Text} {prev : Option Char} {a : Attribute}
    (h : read name prev s = some (a, rest)) : a.IsProper name := by
  simp only [read, Option.bind_eq_bind, Option.bind_eq_some_iff, after?_eq_some_iff,
    Prod.exists, one?_eq_some_iff] at h
  obtain ⟨s₁, rfl, s₂, h₂, quote, s₃, ⟨h₃, hq⟩, s₄, h₄, h⟩ := h
  split at h
  · cases h
    refine ⟨rfl, ((run_eq_iff (q := isBlank)).1 rfl).2.1, ((run_eq_iff (q := isBlank)).1 rfl).2.1,
      hq, ?_⟩
    intro c hc
    have hv := ((run_eq_iff (q := fun c => c != quote && c != '\n') (s := s₃)).1 rfl).2.1 c hc
    simpa using hv
  · cases h

theorem read_text_append {name : Text} {a : Attribute} (h : a.IsProper name) {prev : Option Char}
    (hprev : atNameStart prev = true) (rest : Text) :
    read name prev (a.text ++ rest) = some (a, rest) := by
  obtain ⟨name', gapBefore, gapAfter, quote, value⟩ := a
  obtain rfl : name' = name := h.name_eq
  have hname : ∀ t : Text, after? name' (name' ++ t) = some t := fun t => after?_eq_some_iff.2 rfl
  have hbefore := run_append_cons (t := gapAfter ++ quote :: (value ++ quote :: rest))
    h.gapBefore_blank (show isBlank '=' = false from rfl)
  have hafter := run_append_cons (t := value ++ quote :: rest) h.gapAfter_blank
    (not_isBlank_of_isQuote h.quote_isQuote)
  have hvalue : run (fun c => c != quote && c != '\n') (value ++ quote :: rest) =
      (value, quote :: rest) :=
    run_append_cons (fun c hc => by simpa using h.value_chars c hc) (by simp)
  simp only at hbefore hafter
  simp [read, text, hname, hbefore, hafter, hvalue, hprev, h.quote_isQuote, after?, one?]

end Attribute

/-! ## References as attribute values -/

namespace QuotedReference

/-- The name and the target are not empty, the gaps are white space, and the target stands between
two quotes of a kind. -/
structure IsProper (q : QuotedReference) : Prop where
  name_ne_nil : q.name ≠ []
  name_chars : ∀ c ∈ q.name, isNameChar c = true
  gapBefore_blank : ∀ c ∈ q.gapBefore, isBlank c = true
  gapAfter_blank : ∀ c ∈ q.gapAfter, isBlank c = true
  quote_isQuote : isQuote q.quote = true
  target_ne_nil : q.target ≠ []
  target_chars : ∀ c ∈ q.target, isTargetChar c = true

theorem isProper_of_read {s rest : Text} {prev : Option Char} {q : QuotedReference}
    (h : read prev s = some (q, rest)) : q.IsProper ∧ atNameStart prev = true := by
  simp only [read, Option.bind_eq_bind, Option.bind_eq_some_iff, after?_eq_some_iff,
    Prod.exists, one?_eq_some_iff] at h
  obtain ⟨s₂, h₂, quote, s₃, ⟨h₃, hq⟩, s₄, rfl, s₅, h₅, h⟩ := h
  split at h
  · cases h
  · rename_i hne
    cases h
    simp only [Bool.or_eq_true, not_or, List.isEmpty_iff, Bool.not_eq_true'] at hne
    refine ⟨⟨hne.1.1, ?_, ?_, ?_, hq, hne.1.2, ?_⟩, by simpa using hne.2⟩
    · exact ((run_eq_iff (q := isNameChar)).1 rfl).2.1
    · exact ((run_eq_iff (q := isBlank)).1 rfl).2.1
    · exact ((run_eq_iff (q := isBlank)).1 rfl).2.1
    · exact ((run_eq_iff (q := isTargetChar)).1 rfl).2.1

theorem read_text_append {q : QuotedReference} (h : q.IsProper) {prev : Option Char}
    (hprev : atNameStart prev = true) (rest : Text) :
    read prev (q.text ++ rest) = some (q, rest) := by
  obtain ⟨name, gapBefore, gapAfter, quote, target⟩ := q
  have hname : run isNameChar (name ++ (gapBefore ++ '=' :: (gapAfter ++ quote :: '#' ::
      (target ++ quote :: rest)))) = (name, gapBefore ++ '=' :: (gapAfter ++ quote :: '#' ::
      (target ++ quote :: rest))) := by
    refine run_eq_iff.2 ⟨rfl, h.name_chars, ?_⟩
    intro c hc
    cases gapBefore with
    | nil =>
      cases hc
      rfl
    | cons _ g =>
      cases hc
      exact not_isNameChar_of_isMark (isMark_of_isBlank (h.gapBefore_blank c (by simp)))
  have hbefore := run_append_cons (t := gapAfter ++ quote :: '#' :: (target ++ quote :: rest))
    h.gapBefore_blank (show isBlank '=' = false from rfl)
  have hafter := run_append_cons (t := '#' :: (target ++ quote :: rest)) h.gapAfter_blank
    (not_isBlank_of_isQuote h.quote_isQuote)
  have htarget := run_append_cons (t := rest) h.target_chars
    (show isTargetChar quote = false by simp [isTargetChar, h.quote_isQuote])
  have hne := h.name_ne_nil
  have hne' := h.target_ne_nil
  have hq := h.quote_isQuote
  simp only at hname hbefore hafter htarget hne hne' hq
  simp [read, text, textTo, hname, hbefore, hafter, htarget, hne, hne', hq, hprev, after?, one?]

/-- A text without a hash has no references. -/
theorem silent_of_hash_notMem {s : Text} (h : '#' ∉ s) : pattern.Silent none s [] := by
  refine pattern.silent_of_forall_suffix ?_ none
  intro v _ hv prev
  rw [List.append_nil, Option.eq_none_iff_forall_ne_some]
  rintro ⟨q, rest⟩ hread
  have hmem : '#' ∈ v := by
    rw [pattern.exact hread]
    show '#' ∈ q.text ++ rest
    simp [text, textTo]
  exact h (hv.subset hmem)

end QuotedReference

/-! ## References as addresses -/

namespace UrlReference

/-- The gaps are white space, the target is not empty, and what stands around it is a quote on both
sides or none. -/
structure IsProper (u : UrlReference) : Prop where
  gapBefore_blank : ∀ c ∈ u.gapBefore, isBlank c = true
  quote_isQuote : ∀ c ∈ u.quote, isQuote c = true
  target_ne_nil : u.target ≠ []
  target_chars : ∀ c ∈ u.target, isTargetChar c = true
  gapAfter_blank : ∀ c ∈ u.gapAfter, isBlank c = true

theorem isQuote_of_readQuote {s rest : Text} {quote : Option Char}
    (h : readQuote s = (quote, rest)) : ∀ c ∈ quote, isQuote c = true := by
  rw [readQuote] at h
  split at h
  · rename_i q r hq
    cases h
    simpa using (one?_eq_some_iff.1 hq).2
  · cases h
    simp

theorem isProper_of_read {s rest : Text} {u : UrlReference} (h : read s = some (u, rest)) :
    u.IsProper := by
  simp only [read, Option.bind_eq_bind, Option.bind_eq_some_iff, after?_eq_some_iff] at h
  obtain ⟨s₁, rfl, s₂, h₂, s₃, h₃, s₄, h₄, h⟩ := h
  split at h
  · cases h
  · rename_i hne
    cases h
    refine ⟨?_, isQuote_of_readQuote rfl, by simpa using hne, ?_, ?_⟩
    · exact ((run_eq_iff (q := isBlank)).1 rfl).2.1
    · exact ((run_eq_iff (q := isTargetChar)).1 rfl).2.1
    · exact ((run_eq_iff (q := isBlank)).1 rfl).2.1

theorem readQuote_append {quote : Option Char} (h : ∀ c ∈ quote, isQuote c = true) (s : Text) :
    readQuote (quote.toList ++ '#' :: s) = (quote, '#' :: s) := by
  cases quote with
  | none => simp [readQuote, one?, isQuote]
  | some c => simp [readQuote, one?, h c rfl]

/-- The first character behind a target, which is a quote, white space or a parenthesis, does not
belong to the target. -/
theorem not_isTargetChar_behind {u : UrlReference} (h : u.IsProper) (rest : Text) :
    ∀ c ∈ (u.quote.toList ++ (u.gapAfter ++ ')' :: rest)).head?, isTargetChar c = false := by
  intro c hc
  cases hq : u.quote with
  | some _ =>
    rw [hq] at hc
    cases hc
    simp [isTargetChar, h.quote_isQuote c hq]
  | none =>
    rw [hq] at hc
    cases hg : u.gapAfter with
    | nil =>
      rw [hg] at hc
      cases hc
      rfl
    | cons _ g =>
      rw [hg] at hc
      cases hc
      simp [isTargetChar, h.gapAfter_blank c (by simp [hg])]

theorem read_text_append {u : UrlReference} (h : u.IsProper) (rest : Text) :
    read (u.text ++ rest) = some (u, rest) := by
  have htarget := run_eq_iff.2 ⟨rfl, h.target_chars, not_isTargetChar_behind h rest⟩
  obtain ⟨gapBefore, quote, target, gapAfter⟩ := u
  have hbefore : run isBlank (gapBefore ++ (quote.toList ++ '#' :: (target ++ (quote.toList ++
      (gapAfter ++ ')' :: rest))))) = (gapBefore, quote.toList ++ '#' :: (target ++
      (quote.toList ++ (gapAfter ++ ')' :: rest)))) := by
    refine run_eq_iff.2 ⟨rfl, h.gapBefore_blank, ?_⟩
    intro c hc
    cases quote with
    | none =>
      cases hc
      rfl
    | some _ =>
      cases hc
      exact not_isBlank_of_isQuote (h.quote_isQuote c rfl)
  have hquote := readQuote_append h.quote_isQuote (target ++ (quote.toList ++ (gapAfter ++
    ')' :: rest)))
  have hafter := run_append_cons (t := rest) h.gapAfter_blank (show isBlank ')' = false from rfl)
  have hne := h.target_ne_nil
  have hurl : ∀ t : Text, after? ['u', 'r', 'l', '('] ('u' :: 'r' :: 'l' :: '(' :: t) = some t :=
    fun t => after?_eq_some_iff.2 rfl
  have hclose : ∀ t : Text, after? quote.toList (quote.toList ++ t) = some t :=
    fun t => after?_eq_some_iff.2 rfl
  simp only at hbefore hquote hafter htarget hne
  simp [read, text, hurl, hbefore, hquote, htarget, hclose, hafter, hne, after?]

end UrlReference

end SvgAssets.Markup
