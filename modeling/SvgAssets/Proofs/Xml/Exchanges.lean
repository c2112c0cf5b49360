/-
# SvgAssets.Proofs.Xml.Exchanges -- stretches of markup that give way to others

A pass over markup finds a stretch by signs that it holds and puts another stretch in its place,
without regard to where in the document the stretch stands. Such an exchange does no harm
(`Exchange`) when text stays text and a tag stays a tag with the same attributes. Four kinds of it
are all that is needed: a stretch without quotes, which cannot leave the value that it stands in; a
quoted stretch; and white space in front of an equals sign or behind it. Values that bind prefixes
have to be free of what is looked for (`IsSettled`).
-/
import SvgAssets.Markup.Attribute
import SvgAssets.Proofs.Xml.Nesting
import SvgAssets.Proofs.Xml.Places

namespace SvgAssets.Xml

open Text

-- What is said of the characters in a list is decided by going through the list.
attribute [local instance (2000)] List.decidableBAll

/-! ## Signs and edges -/

/-- The signs by which stretches are found. -/
abbrev editSigns : Text := ['\x7b', '\x7d', '(', ')', '=', '"', '\'']

/-- Quotes. -/
abbrev quotes : Text := ['"', '\'']

/-- Quotes and angle brackets. -/
abbrev delimiters : Text := ['"', '\'', '<', '>']

/-- What a stretch may begin and end with. -/
def IsEdge (c : Char) : Prop := c ∈ editSigns ∨ isBlank c = true

theorem mem_signs_of_mem_editSigns {c : Char} (h : c ∈ editSigns) : c ∈ signs ∧ c ≠ '/' := by
  have hall : ∀ c ∈ editSigns, c ∈ signs ∧ c ≠ '/' := by decide
  exact hall c h

/-- In text, the second stretch may stand where the first one stands. -/
def KeepsData (x x' : Text) : Prop := ∀ a b, IsData (a ++ (x ++ b)) → IsData (a ++ (x' ++ b))

/-- A value that no exchange touches: it holds no sign by which stretches are found, is no
reference, and is none of the identifiers. -/
structure IsSettled (ids : List Text) (value : Text) : Prop where
  signs : ∀ c ∈ value, c ∉ editSigns
  hash : value.head? ≠ some '#'
  id : trim value ∉ ids

/-- The values that bind prefixes are settled. -/
def WrittenTag.IsSettled (ids : List Text) (t : WrittenTag) : Prop :=
  ∀ w ∈ t.attributes, boundPrefix? w.name ≠ none → Xml.IsSettled ids w.value

theorem exists_of_forall₂_of_mem {α β : Type} {R : α → β → Prop} {as : List α} {bs : List β}
    (h : List.Forall₂ R as bs) {b : β} (hb : b ∈ bs) : ∃ a ∈ as, R a b := by
  induction h with
  | nil => cases hb
  | @cons a b' as bs hab _ ih =>
    rcases List.mem_cons.1 hb with rfl | hb
    · exact ⟨a, List.mem_cons_self .., hab⟩
    · obtain ⟨a', ha', hR⟩ := ih hb
      exact ⟨a', List.mem_cons_of_mem _ ha', hR⟩

theorem WrittenTag.IsLike.isSettled {t t' : WrittenTag} {ids : List Text} (h : t.IsLike t')
    (ht : t.IsSettled ids) : t'.IsSettled ids := by
  intro w' hw' hbound
  obtain ⟨w, hw, hlike⟩ := exists_of_forall₂_of_mem h.attributes hw'
  rw [hlike.name_eq] at hbound
  rw [hlike.value_eq hbound]
  exact ht w hw hbound

/-- **A stretch that may give way to another one**, wherever it stands. -/
structure Exchange (ids : List Text) (x x' : Text) : Prop where
  sign : ∃ c ∈ x, c ∈ editSigns
  head : ∀ c ∈ x.head?, IsEdge c
  last : ∀ c ∈ x.getLast?, IsEdge c
  brackets : ∀ c ∈ x, c ≠ '<' ∧ c ≠ '>'
  brackets' : ∀ c ∈ x', c ≠ '<' ∧ c ≠ '>'
  data : KeepsData x x'
  tag : ∀ {t : WrittenTag} {a b : Text}, t.IsProper → t.IsSettled ids → t.inner = a ++ (x ++ b) →
    ∃ t' : WrittenTag, t.IsLike t' ∧ t'.IsProper ∧ t'.inner = a ++ (x' ++ b)

/-! ## Within a value -/

/-- A value may give way to another text that is character data and does not hold the quote. -/
theorem WrittenAttribute.IsProper.withValue {w : WrittenAttribute} (hw : w.IsProper) {v : Text}
    (hv : IsData v) (hquote : w.quote ∉ v) : IsProper { w with value := v } where
  toIsWritten := { hw.toIsWritten with
    value_chars := fun c hc =>
      ⟨ne_of_mem_of_not_mem hc hquote, (hv.not_bracket c hc).1, hv.isLegal c hc⟩ }
  value_isData := hv

section

variable {ids : List Text} {t : WrittenTag} {left right : Text} {w : WrittenAttribute}
  (h : t.IsAround left w right) (ht : t.IsProper) (hw : w.IsProper) (hsettled : t.IsSettled ids)

include h ht hw hsettled

/-- Within a value that binds nothing, a stretch is exchanged. -/
theorem WrittenTag.IsAround.exchange_value {u x x' v : Text} (hvalue : w.value = u ++ (x ++ v))
    (hsign : ∃ c ∈ x, c ∈ editSigns) (hdata : KeepsData x x') (hquote : w.quote ∉ x') :
    ∃ t' : WrittenTag, t.IsLike t' ∧ t'.IsProper ∧
      t'.inner = left ++ (w.front ++ w.quote :: (u ++ (x' ++ (v ++ w.quote :: right)))) := by
  have hnot := hw.quote_notMem
  rw [hvalue, List.mem_append, List.mem_append, not_or, not_or] at hnot
  have hproper := hw.withValue (v := u ++ (x' ++ v)) (hdata u v (hvalue ▸ hw.value_isData))
    (by rw [List.mem_append, List.mem_append, not_or, not_or]; exact ⟨hnot.1, hquote, hnot.2.2⟩)
  obtain ⟨t', hlike, ht', hinner⟩ := h.exchange ht hproper ⟨rfl, fun hbound => by
    obtain ⟨c, hc, hedit⟩ := hsign
    refine absurd hedit ((hsettled w h.mem hbound).signs c ?_)
    rw [hvalue]
    exact List.mem_append_right _ (List.mem_append_left _ hc)⟩
  refine ⟨t', hlike, ht', hinner.trans ?_⟩
  simp [WrittenAttribute.text, WrittenAttribute.front]

end

/-! ## Kinds of exchange -/

/-- Signs that stand in a tag only within values. -/
abbrev foreignSigns : Text := ['\x7b', '\x7d', '(', ')']

theorem WrittenAttribute.IsProper.quote_mem_delimiters {w : WrittenAttribute} (hw : w.IsProper) :
    w.quote ∈ delimiters ∧ w.quote ∉ foreignSigns ∧ w.quote ≠ '=' := by
  have hall : ∀ q ∈ ['"', '\''], q ∈ delimiters ∧ q ∉ foreignSigns ∧ q ≠ '=' := by decide
  exact hall _ hw.quote_mem

theorem ne_bracket_of_not_mem_delimiters {c : Char} (h : c ∉ delimiters) : c ≠ '<' ∧ c ≠ '>' := by
  simp only [List.mem_cons, not_or] at h
  exact ⟨h.2.2.1, h.2.2.2.1⟩

/-- What holds such a sign and no quote lies within a value as a whole. -/
theorem Exchange.foreign {ids : List Text} {x x' : Text} (hforeign : ∃ c ∈ x, c ∈ foreignSigns)
    (hx : ∀ c ∈ x, c ∉ delimiters) (hx' : ∀ c ∈ x', c ∉ delimiters)
    (head : ∀ c ∈ x.head?, IsEdge c) (last : ∀ c ∈ x.getLast?, IsEdge c) (data : KeepsData x x') :
    Exchange ids x x' := by
  have hsign : ∃ c ∈ x, c ∈ editSigns := by
    obtain ⟨c, hc, hmem⟩ := hforeign
    have hall : ∀ c ∈ foreignSigns, c ∈ editSigns := by decide
    exact ⟨c, hc, hall c hmem⟩
  refine ⟨hsign, head, last, fun c hc => ne_bracket_of_not_mem_delimiters (hx c hc),
    fun c hc => ne_bracket_of_not_mem_delimiters (hx' c hc), data, ?_⟩
  intro t a b ht hsettled hinner
  obtain ⟨c, hc, hmem⟩ := hforeign
  obtain ⟨x₁, x₂, rfl⟩ := List.append_of_mem hc
  have hall : ∀ c ∈ foreignSigns, c ∈ signs ∧ c ≠ '/' ∧ c ≠ '=' := by decide
  obtain ⟨hcsign, hslash, hequals⟩ := hall c hmem
  have hinner' : t.inner = (a ++ x₁) ++ c :: (x₂ ++ b) := by simp [hinner]
  obtain ⟨left, w, right, y, z, haround, hw, hplace, ha, hb⟩ :=
    ht.exists_place hcsign hslash hinner'
  obtain ⟨hdelimiter, hquote, -⟩ := hw.quote_mem_delimiters
  have hnot : w.quote ∉ x₁ ++ c :: x₂ := fun hmem => hx _ hmem hdelimiter
  rw [List.mem_append, List.mem_cons, not_or, not_or] at hnot
  cases hplace with
  | equals he => exact absurd he hequals
  | openingQuote he => exact absurd (he ▸ hmem) hquote
  | closingQuote he => exact absurd (he ▸ hmem) hquote
  | @value u v hvalue =>
    rw [← List.append_assoc] at ha
    obtain ⟨u', rfl, rfl⟩ : ∃ u', a = left ++ w.front ++ w.quote :: u' ∧ u = u' ++ x₁ :=
      (exists_of_append_eq_append_cons ha).resolve_left fun ⟨s, _, hs⟩ =>
        hnot.1 (by rw [hs]; simp)
    rw [List.append_assoc, List.singleton_append] at hb
    obtain ⟨v', rfl, rfl⟩ := exists_of_append_eq hnot.2.2 hb
    obtain ⟨t', hlike, ht', hinner'⟩ := haround.exchange_value ht hw hsettled
      (u := u') (x := x₁ ++ c :: x₂) (v := v') (by simp [hvalue]) hsign data
      fun hmem => hx' _ hmem hdelimiter
    exact ⟨t', hlike, ht', by simp [hinner']⟩

/-- What stands between two quotes of a kind lies within a value or is one, if it is a reference, or
an identifier without an equals sign. -/
theorem Exchange.quoted {ids : List Text} {q : Char} {m m' : Text} (hq : q ∈ quotes)
    (hm : ∀ c ∈ m, c ∉ delimiters) (hm' : ∀ c ∈ m', c ∉ delimiters)
    (hkind : m.head? = some '#' ∨ trim m ∈ ids ∧ '=' ∉ m) (hdata : IsData m → IsData m') :
    Exchange ids (q :: (m ++ [q])) (q :: (m' ++ [q])) := by
  have hall : ∀ q ∈ quotes, q ∈ editSigns ∧ q ∈ delimiters ∧ q ∈ signs ∧ q ≠ '/' ∧ q ≠ '=' ∧
      q ≠ '&' ∧ isReferenceChar q = false ∧ isDataChar q = true := by decide +kernel
  obtain ⟨hedit, hdelimiter, hsign, hslash, hequals, hamp, hreference, hqdata⟩ := hall q hq
  have hsigns : ∃ c ∈ q :: (m ++ [q]), c ∈ editSigns := ⟨q, List.mem_cons_self .., hedit⟩
  have hbracket : q ≠ '<' ∧ q ≠ '>' := by
    have hall : ∀ q ∈ quotes, q ≠ '<' ∧ q ≠ '>' := by decide
    exact hall q hq
  have hbrackets : ∀ {m : Text}, (∀ c ∈ m, c ∉ delimiters) →
      ∀ c ∈ q :: (m ++ [q]), c ≠ '<' ∧ c ≠ '>' := by
    intro m hm c hc
    rcases List.mem_cons.1 hc with rfl | hc
    · exact hbracket
    · rcases List.mem_append.1 hc with hc | hc
      · exact ne_bracket_of_not_mem_delimiters (hm c hc)
      · rw [List.mem_singleton.1 hc]
        exact hbracket
  have hkeeps : KeepsData (q :: (m ++ [q])) (q :: (m' ++ [q])) := by
    intro a b h
    have h' : IsData (a ++ q :: (m ++ q :: b)) := by simpa using h
    obtain ⟨ha, -, hrest⟩ := h'.of_append_cons hamp hreference
    obtain ⟨hm, -, hb⟩ := hrest.of_append_cons hamp hreference
    simpa using ha.append (.char hqdata ((hdata hm).append (.char hqdata hb)))
  refine ⟨hsigns, ?_, ?_, hbrackets hm, hbrackets hm', hkeeps, ?_⟩
  · rintro c ⟨⟩
    exact .inl hedit
  · rw [← List.cons_append, List.getLast?_concat]
    rintro c ⟨⟩
    exact .inl hedit
  intro t a b ht hsettled hinner
  have hinner' : t.inner = a ++ q :: (m ++ q :: b) := by simp [hinner]
  obtain ⟨left, w, right, y, z, haround, hw, hplace, rfl, hb⟩ :=
    ht.exists_place hsign hslash hinner'
  have hquote : ∀ {m : Text}, (∀ c ∈ m, c ∉ delimiters) → w.quote ∉ m :=
    fun hm hmem => hm _ hmem hw.quote_mem_delimiters.1
  cases hplace with
  | equals he => exact absurd he hequals
  | closingQuote he =>
    rw [List.nil_append] at hb
    rcases hkind with hhash | ⟨-, hno⟩
    · have hhead := haround.head?_right ht '#'
      rw [← hb, List.head?_append, hhash] at hhead
      exact absurd (hhead rfl) (by decide)
    · exact absurd (haround.equals_mem ht hq hb.symm) hno
  | openingQuote he =>
    subst he
    rw [List.append_assoc, List.singleton_append] at hb
    have hne : ∀ {m : Text}, w.quote ∉ m → ∀ c ∈ m, (c != w.quote) = true := by
      intro m hm c hc
      simpa using ne_of_mem_of_not_mem hc hm
    obtain ⟨rfl, -, rfl⟩ := eq_of_append_eq_append (hne (hquote hm)) (hne hw.quote_notMem)
      (by simp) (by simp) hb
    obtain ⟨t', hlike, ht', hinner'⟩ := haround.exchange ht
      (hw.withValue (hdata hw.value_isData) (hquote hm')) ⟨rfl, fun hbound => by
        have hvalue := hsettled w haround.mem hbound
        rcases hkind with hhash | ⟨hmem, -⟩
        · exact absurd hhash hvalue.hash
        · exact absurd hmem hvalue.id⟩
    exact ⟨t', hlike, ht', by simp [hinner', WrittenAttribute.text, WrittenAttribute.front]⟩
  | @value u v hvalue =>
    have hne : w.quote ≠ q := by
      rintro rfl
      exact hw.quote_notMem (by simp [hvalue])
    rw [List.append_assoc, List.singleton_append, ← List.singleton_append, ← List.append_assoc]
      at hb
    obtain ⟨v', rfl, rfl⟩ := exists_of_append_eq (x := m ++ [q]) (by
      rw [List.mem_append, List.mem_singleton, not_or]
      exact ⟨hquote hm, hne⟩) hb
    obtain ⟨t', hlike, ht', hinner'⟩ := haround.exchange_value ht hw hsettled
      (u := u) (x := q :: (m ++ [q])) (v := v') (by simp [hvalue]) hsigns hkeeps (by
        rw [List.mem_cons, List.mem_append, List.mem_singleton, not_or, not_or]
        exact ⟨hne, hquote hm', hne⟩)
    exact ⟨t', hlike, ht', by simp [hinner']⟩

/-- White space is neither a sign nor what an ampersand may be followed by. -/
theorem not_sign_of_isBlank {c : Char} (h : isBlank c = true) : c ∉ '&' :: delimiters := by
  have hall : ∀ c ∈ '&' :: delimiters, isBlank c = false := by decide
  intro hmem
  rw [hall c hmem] at h
  cases h

theorem WrittenAttribute.IsProper.quote_ne_of_isBlank {w : WrittenAttribute} (hw : w.IsProper)
    {c : Char} (h : isBlank c = true) : c ≠ w.quote := by
  rintro rfl
  exact not_sign_of_isBlank h (List.mem_cons_of_mem _ hw.quote_mem_delimiters.1)

theorem ne_bracket_of_isBlank {c : Char} (h : isBlank c = true) : c ≠ '<' ∧ c ≠ '>' :=
  ne_bracket_of_not_mem_delimiters fun hmem => not_sign_of_isBlank h (List.mem_cons_of_mem _ hmem)

/-- White space in front of an equals sign can go. -/
theorem Exchange.blankBefore {ids : List Text} {c : Char} (hc : isBlank c = true) :
    Exchange ids [c, '='] ['='] := by
  have hsigns : ∃ d ∈ [c, '='], d ∈ editSigns := ⟨'=', by simp, by decide⟩
  have hamp : c ≠ '&' := fun he => not_sign_of_isBlank hc (by simp [he])
  have hkeeps : KeepsData [c, '='] ['='] := by
    intro a b h
    obtain ⟨ha, -, hb⟩ := h.of_append_cons hamp (isReferenceChar_eq_false_of_isBlank hc)
    exact ha.append hb
  refine ⟨hsigns, ?_, ?_, by simpa using ne_bracket_of_isBlank hc, by decide, hkeeps, ?_⟩
  · rintro d ⟨⟩
    exact .inr hc
  · intro d hd
    obtain rfl : '=' = d := by simpa using hd
    exact .inl (by decide)
  intro t a b ht hsettled hinner
  have hinner' : t.inner = (a ++ [c]) ++ '=' :: b := by simp [hinner]
  obtain ⟨left, w, right, y, z, haround, hw, hplace, ha, rfl⟩ :=
    ht.exists_place (by decide) (by decide) hinner'
  cases hplace with
  | openingQuote he => exact absurd he.symm hw.quote_mem_delimiters.2.2
  | closingQuote he => exact absurd he.symm hw.quote_mem_delimiters.2.2
  | equals he =>
    rcases List.eq_nil_or_concat w.gapBefore with hgap | ⟨gap, d, hgap⟩
    · -- The name of the attribute does not end with white space.
      obtain ⟨n, hn, hname⟩ := hw.name.getLast?_text
      have hlast := congrArg List.getLast? ha
      rw [hgap, List.append_nil, ← List.append_assoc, List.getLast?_concat, List.getLast?_append,
        Option.mem_def.1 hn] at hlast
      obtain rfl : c = n := by simpa using hlast
      rw [not_isBlank_of_isNameChar hname] at hc
      cases hc
    · rw [hgap, List.concat_eq_append, ← List.append_assoc, ← List.append_assoc,
        ← List.append_assoc] at ha
      obtain ⟨rfl, -⟩ := List.append_inj' ha rfl
      have hproper : WrittenAttribute.IsProper { w with gapBefore := gap } :=
        { hw with gapBefore_space := fun d hd => hw.gapBefore_space d (by simp [hgap, hd]) }
      obtain ⟨t', hlike, ht', hinner'⟩ := haround.exchange ht hproper ⟨rfl, fun _ => rfl⟩
      exact ⟨t', hlike, ht', by simp [hinner', WrittenAttribute.text, WrittenAttribute.front]⟩
  | @value u v hvalue =>
    rcases List.eq_nil_or_concat u with rfl | ⟨u, d, rfl⟩
    · rw [← List.append_assoc] at ha
      exact absurd (List.cons.inj (List.append_inj' ha rfl).2).1 (hw.quote_ne_of_isBlank hc)
    · rw [List.concat_eq_append, ← List.cons_append, ← List.append_assoc, ← List.append_assoc] at ha
      obtain ⟨rfl, he⟩ := List.append_inj' ha rfl
      obtain rfl := (List.cons.inj he).1
      obtain ⟨t', hlike, ht', hinner'⟩ := haround.exchange_value ht hw hsettled
        (u := u) (x := [c, '=']) (v := v) (by simp [hvalue]) hsigns hkeeps
        (by simpa using hw.quote_mem_delimiters.2.2)
      exact ⟨t', hlike, ht', by simp [hinner']⟩

/-- White space behind an equals sign can go. -/
theorem Exchange.blankBehind {ids : List Text} {c : Char} (hc : isBlank c = true) :
    Exchange ids ['=', c] ['='] := by
  have hsigns : ∃ d ∈ ['=', c], d ∈ editSigns := ⟨'=', by simp, by decide⟩
  have hamp : c ≠ '&' := fun he => not_sign_of_isBlank hc (by simp [he])
  have hkeeps : KeepsData ['=', c] ['='] := by
    intro a b h
    have h' : IsData ((a ++ ['=']) ++ c :: b) := by simpa using h
    obtain ⟨ha, -, hb⟩ := h'.of_append_cons hamp (isReferenceChar_eq_false_of_isBlank hc)
    simpa using ha.append hb
  refine ⟨hsigns, ?_, ?_, by simpa using ne_bracket_of_isBlank hc, by decide, hkeeps, ?_⟩
  · rintro d ⟨⟩
    exact .inl (by decide)
  · rintro d ⟨⟩
    exact .inr hc
  intro t a b ht hsettled hinner
  have hinner' : t.inner = a ++ '=' :: (c :: b) := by simp [hinner]
  obtain ⟨left, w, right, y, z, haround, hw, hplace, rfl, hb⟩ :=
    ht.exists_place (by decide) (by decide) hinner'
  cases hplace with
  | openingQuote he => exact absurd he.symm hw.quote_mem_delimiters.2.2
  | closingQuote he => exact absurd he.symm hw.quote_mem_delimiters.2.2
  | equals he =>
    cases hgap : w.gapAfter with
    | nil =>
      rw [hgap] at hb
      exact absurd (List.cons.inj hb).1 (hw.quote_ne_of_isBlank hc)
    | cons d gap =>
      rw [hgap] at hb
      obtain ⟨-, rfl⟩ := List.cons.inj hb
      have hproper : WrittenAttribute.IsProper { w with gapAfter := gap } :=
        { hw with gapAfter_space := fun d hd => hw.gapAfter_space d (by simp [hgap, hd]) }
      obtain ⟨t', hlike, ht', hinner'⟩ := haround.exchange ht hproper ⟨rfl, fun _ => rfl⟩
      exact ⟨t', hlike, ht', by simp [hinner', WrittenAttribute.text, WrittenAttribute.front]⟩
  | @value u v hvalue =>
    cases v with
    | nil => exact absurd (List.cons.inj hb).1 (hw.quote_ne_of_isBlank hc)
    | cons d v =>
      obtain ⟨rfl, rfl⟩ := List.cons.inj hb
      obtain ⟨t', hlike, ht', hinner'⟩ := haround.exchange_value ht hw hsettled
        (u := u) (x := ['=', c]) (v := v) (by simp [hvalue]) hsigns hkeeps
        (by simpa using hw.quote_mem_delimiters.2.2)
      exact ⟨t', hlike, ht', by simp [hinner']⟩

end SvgAssets.Xml
