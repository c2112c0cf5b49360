/-
# SvgAssets.Proofs.Xml.WrittenTag -- tags as they are written

A tag is its name, its attributes, each with the white space around its parts, and what stands in
front of its end. Whatever has this form is read as a tag, with the name and the values that are
written (`exists_openTagReader`).
-/
import SvgAssets.Proofs.Xml.CharacterData

namespace SvgAssets.Xml

open Text

-- What is said of the characters in a list is decided by going through the list.
attribute [local instance (2000)] List.decidableBAll

/-! ## Names -/

/-- A name without a colon. -/
def IsName (n : Text) : Prop :=
  ∃ c cs, n = c :: cs ∧ isNameStart c = true ∧ ∀ d ∈ cs, isNameChar d = true

instance : DecidablePred IsName
  | [] => isFalse (by rintro ⟨c, cs, h, -⟩; cases h)
  | c :: cs => decidable_of_iff (isNameStart c = true ∧ ∀ d ∈ cs, isNameChar d = true)
      ⟨fun h => ⟨c, cs, rfl, h⟩, by rintro ⟨d, ds, ⟨⟩, h⟩; exact h⟩

theorem IsName.isNameChar {n : Text} (h : IsName n) : ∀ c ∈ n, isNameChar c = true := by
  obtain ⟨c, cs, rfl, hc, hcs⟩ := h
  exact List.forall_mem_cons.2 ⟨isNameChar_of_isNameStart hc, hcs⟩

theorem run_nameReader_eq_ok_iff {s n rest : Text} :
    nameReader.run s = .ok (n, rest) ↔
      s = n ++ rest ∧ IsName n ∧ ∀ c ∈ rest.head?, isNameChar c = false :=
  Reader.run_word_eq_ok_iff

namespace QualifiedName

/-- Both parts are names. -/
structure IsProper (n : QualifiedName) : Prop where
  qualifier : ∀ q, n.qualifier = some q → IsName q
  localName : IsName n.localName

/-- What a name with a prefix or without one is made of. -/
theorem IsProper.text_chars {n : QualifiedName} (h : n.IsProper) :
    ∀ c ∈ n.text, isNameChar c = true ∨ c = ':' := by
  obtain ⟨q, l⟩ := n
  have hl : ∀ c ∈ l, isNameChar c = true ∨ c = ':' := fun c hc => .inl (h.localName.isNameChar c hc)
  cases q with
  | none => exact hl
  | some q =>
    refine List.forall_mem_append.2 ⟨fun c hc => .inl ((h.qualifier q rfl).isNameChar c hc), ?_⟩
    exact List.forall_mem_cons.2 ⟨.inr rfl, hl⟩

theorem IsProper.exists_cons {n : QualifiedName} (h : n.IsProper) :
    ∃ c w, n.text = c :: w ∧ isNameStart c = true := by
  obtain ⟨q, l⟩ := n
  cases q with
  | none =>
    obtain ⟨c, cs, hl, hc, -⟩ := h.localName
    exact ⟨c, cs, hl, hc⟩
  | some q =>
    obtain ⟨c, cs, hq, hc, -⟩ := h.qualifier q rfl
    exact ⟨c, cs ++ ':' :: l, by rw [text, hq]; rfl, hc⟩

theorem IsProper.getLast?_text {n : QualifiedName} (h : n.IsProper) :
    ∃ c ∈ n.text.getLast?, isNameChar c = true := by
  have hlast : ∀ {m : Text}, IsName m → ∃ c ∈ m.getLast?, isNameChar c = true := by
    intro m hm
    have hne : m ≠ [] := by
      obtain ⟨c, cs, rfl, -, -⟩ := hm
      simp
    exact ⟨m.getLast hne, List.getLast?_eq_some_getLast hne, hm.isNameChar _ (List.getLast_mem hne)⟩
  obtain ⟨c, hc, hname⟩ := hlast h.localName
  refine ⟨c, ?_, hname⟩
  obtain ⟨q, l⟩ := n
  cases q with
  | none => exact hc
  | some q =>
    have hl : l.getLast? = some c := hc
    rw [text, List.getLast?_append, List.getLast?_cons, hl]
    rfl

end QualifiedName

theorem colon_not_isNameChar : isNameChar ':' = false := by decide +kernel

theorem run_qualifiedNameReader_eq_ok_iff {s rest : Text} {n : QualifiedName} :
    qualifiedNameReader.run s = .ok (n, rest) ↔ s = n.text ++ rest ∧ n.IsProper ∧
      (∀ c ∈ rest.head?, isNameChar c = false) ∧ (n.qualifier = none → rest.head? ≠ some ':') := by
  simp only [qualifiedNameReader, Reader.run_bind_eq_ok_iff, run_nameReader_eq_ok_iff]
  constructor
  · rintro ⟨first, t, ⟨rfl, hfirst, hstop⟩, h⟩
    by_cases hcolon : t.head? = some ':'
    · obtain ⟨u, rfl⟩ : ∃ u, t = ':' :: u := by
        cases t with
        | nil => cases hcolon
        | cons c u => exact ⟨u, by rw [Option.some.inj hcolon]⟩
      rw [show ':' :: u = [':'] ++ u from rfl, Reader.run_behind_append] at h
      simp only [Reader.run_bind_eq_ok_iff, run_nameReader_eq_ok_iff, Reader.run_pure,
        Except.ok.injEq, Prod.mk.injEq] at h
      obtain ⟨l, rest', ⟨rfl, hl, hrest⟩, rfl, rfl⟩ := h
      refine ⟨by simp [QualifiedName.text], ⟨?_, hl⟩, hrest, by rintro ⟨⟩⟩
      rintro q ⟨⟩
      exact hfirst
    · rw [Reader.run_behind_of_head?_ne hcolon, Reader.run_pure, Except.ok.injEq,
        Prod.mk.injEq] at h
      obtain ⟨rfl, rfl⟩ := h
      exact ⟨rfl, ⟨by rintro _ ⟨⟩, hfirst⟩, hstop, fun _ => hcolon⟩
  · rintro ⟨rfl, hn, hstop, hcolon⟩
    obtain ⟨q, l⟩ := n
    cases q with
    | none =>
      refine ⟨l, rest, ⟨rfl, hn.localName, hstop⟩, ?_⟩
      rw [Reader.run_behind_of_head?_ne (hcolon rfl)]
      rfl
    | some q =>
      refine ⟨q, ':' :: (l ++ rest), ⟨by simp [QualifiedName.text], hn.qualifier q rfl, ?_⟩, ?_⟩
      · simpa using colon_not_isNameChar
      · rw [show ':' :: (l ++ rest) = [':'] ++ (l ++ rest) from rfl, Reader.run_behind_append]
        simp only [Reader.run_bind_eq_ok_iff, run_nameReader_eq_ok_iff, Reader.run_pure]
        exact ⟨l, rest, ⟨rfl, hn.localName, hstop⟩, rfl⟩

/-! ## White space -/

theorem isBlank_of_isSpace {c : Char} (h : isSpace c = true) : isBlank c = true := by
  simp only [isSpace, Bool.or_eq_true, beq_iff_eq] at h
  rcases h with ((rfl | rfl) | rfl) | rfl <;> decide

theorem not_isNameChar_of_isSpace {c : Char} (h : isSpace c = true) : isNameChar c = false := by
  rw [← Bool.not_eq_true]
  intro hname
  have hblank := not_isBlank_of_isNameChar hname
  rw [isBlank_of_isSpace h] at hblank
  cases hblank

theorem not_isSpace_of_isNameChar {c : Char} (h : isNameChar c = true) : isSpace c = false := by
  rw [← Bool.not_eq_true]
  intro hspace
  rw [not_isNameChar_of_isSpace hspace] at h
  cases h

/-! ## Values -/

/-- Characters without a reference among them are read one by one. -/
theorem readValue_append {quote : Char} {w t : Text}
    (h : ∀ c ∈ w, c ≠ quote ∧ c ≠ '<' ∧ c ≠ '&' ∧ isLegal c = true) :
    readValue quote (w ++ t) = (readValue quote t).map fun (value, rest) => (w ++ value, rest) := by
  induction w with
  | nil =>
    rw [List.nil_append]
    cases readValue quote t <;> rfl
  | cons c w ih =>
    obtain ⟨⟨hquote, hopen, hamp, hlegal⟩, hw⟩ := List.forall_mem_cons.1 h
    rw [List.cons_append, readValue, if_neg hquote,
      if_neg (not_or.2 ⟨hopen, by rw [hlegal]; simp⟩), if_neg hamp, ih hw]
    cases readValue quote t <;> rfl

/-- Character data is read as the value that it is. -/
theorem readValue_of_isData {quote : Char} {v : Text} (h : IsData v) (hv : quote ∉ v)
    (rest : Text) : readValue quote (v ++ quote :: rest) = .ok (v, rest) := by
  induction h with
  | nil => simp [readValue]
  | @char c v hc _ ih =>
    rw [List.mem_cons, not_or] at hv
    simp only [isDataChar, Bool.and_eq_true, bne_iff_ne] at hc
    have hone : readValue quote ([c] ++ (v ++ quote :: rest)) = _ := readValue_append (by
      simpa using ⟨Ne.symm hv.1, hc.1.1.2, hc.2, hc.1.1.1⟩)
    rw [ih hv.2] at hone
    exact hone
  | @reference body v hbody _ ih =>
    rw [List.cons_append, List.mem_cons, List.mem_append, not_or, not_or] at hv
    obtain ⟨r, -, hreads⟩ := hbody.reads
    have hsign : ∀ c ∈ body, ∀ d ∈ signs, c ≠ d := by
      rintro c hc d hd rfl
      have hchar := hbody.chars c hc
      rw [isReferenceChar_eq_false_of_mem_signs hd] at hchar
      cases hchar
    have hmap : readValue quote (body ++ (v ++ quote :: rest)) = _ := readValue_append
      fun c hc => ⟨fun he => hv.2.1 (he ▸ hc), hsign c hc '<' (by decide),
        hsign c hc '&' (by decide), isLegal_of_isReferenceChar (hbody.chars c hc)⟩
    rw [ih hv.2.2] at hmap
    have hamp : '&' ≠ '<' ∧ isLegal '&' = true := by decide
    rw [List.cons_append, List.cons_append, List.append_assoc, readValue, if_neg (Ne.symm hv.1),
      if_neg (not_or.2 ⟨hamp.1, by rw [hamp.2]; simp⟩), if_pos rfl, hreads, hmap]
    rfl

/-! ## Attributes -/

/-- An attribute with the white space in front of it and around its equals sign. -/
structure WrittenAttribute where
  lead : Text
  name : QualifiedName
  gapBefore : Text
  gapAfter : Text
  quote : Char
  value : Text

namespace WrittenAttribute

/-- The attribute up to its value. -/
def front (w : WrittenAttribute) : Text :=
  w.lead ++ (w.name.text ++ (w.gapBefore ++ '=' :: w.gapAfter))

/-- The attribute as it stands in the tag. -/
def text (w : WrittenAttribute) : Text := w.front ++ (w.quote :: w.value ++ [w.quote])

/-- The parts of an attribute are what they should be; of its value it is only known what ends
it. -/
structure IsWritten (w : WrittenAttribute) : Prop where
  lead_ne_nil : w.lead ≠ []
  lead_space : ∀ c ∈ w.lead, isSpace c = true
  name : w.name.IsProper
  gapBefore_space : ∀ c ∈ w.gapBefore, isSpace c = true
  gapAfter_space : ∀ c ∈ w.gapAfter, isSpace c = true
  quote_mem : w.quote ∈ ['"', '\'']
  value_chars : ∀ c ∈ w.value, c ≠ w.quote ∧ c ≠ '<' ∧ isLegal c = true

/-- The attribute can be read, and its value needs no declaration. -/
structure IsProper (w : WrittenAttribute) : Prop extends w.IsWritten where
  value_isData : IsData w.value

theorem IsProper.quote_notMem {w : WrittenAttribute} (h : w.IsProper) : w.quote ∉ w.value :=
  fun hmem => (h.value_chars _ hmem).1 rfl

end WrittenAttribute

/-- The name and the value of an attribute are those that are written. -/
def Attribute.Matches (a : Attribute) (w : WrittenAttribute) : Prop :=
  a.name = w.name ∧ a.value = w.value

theorem exists_attributeReader {w : WrittenAttribute} (h : w.IsProper) (rest : Text) :
    ∃ a, attributeReader.run (w.name.text ++ (w.gapBefore ++ '=' :: (w.gapAfter ++
      w.quote :: (w.value ++ w.quote :: rest)))) = .ok (a, rest) ∧ a.Matches w := by
  have hgap : ∀ {gap : Text} (t : Text), (∀ c ∈ gap, isSpace c = true) → ∀ d,
      isSpace d = false → (Reader.many isSpace).run (gap ++ d :: t) = .ok (gap, d :: t) := by
    intro gap t hspace d hd
    exact Reader.run_many_eq_ok_iff.2 ⟨rfl, hspace, by simpa using hd⟩
  have hquote : isSpace w.quote = false := by
    have hall : ∀ c ∈ ['"', '\''], isSpace c = false := by decide
    exact hall _ h.quote_mem
  have hquote' : w.quote = '"' ∨ w.quote = '\'' := by simpa using h.quote_mem
  have hstop : ∀ c ∈ (w.gapBefore ++ '=' :: (w.gapAfter ++
      w.quote :: (w.value ++ w.quote :: rest))).head?, isNameChar c = false ∧ c ≠ ':' := by
    intro c hc
    cases hg : w.gapBefore with
    | nil =>
      rw [hg] at hc
      obtain rfl : '=' = c := by simpa using hc
      decide +kernel
    | cons d gap =>
      rw [hg] at hc
      obtain rfl : d = c := by simpa using hc
      have hd := h.gapBefore_space d (by rw [hg]; simp)
      refine ⟨not_isNameChar_of_isSpace hd, ?_⟩
      rintro rfl
      exact absurd hd (by decide)
  have hname := run_qualifiedNameReader_eq_ok_iff.2 ⟨rfl, h.name, fun c hc => (hstop c hc).1,
    fun _ hcolon => (hstop ':' hcolon).2 rfl⟩
  have hvalue := readValue_of_isData h.value_isData h.quote_notMem rest
  generalize hs : w.name.text ++ _ = s at hname ⊢
  refine ⟨⟨w.name, w.value, s, w.value ++ w.quote :: rest⟩, ?_, rfl, rfl⟩
  simp only [attributeReader, Reader.run_bind_eq_ok_iff, Reader.run_pure, Except.ok.injEq,
    Prod.mk.injEq, Prod.exists, Reader.rest]
  refine ⟨s, s, ⟨rfl, rfl⟩, _, _, hname, _, _, hgap _ h.gapBefore_space _ (by decide), _, _,
    Reader.run_one_eq_ok_iff.2 ⟨rfl, rfl⟩, _, _, hgap _ h.gapAfter_space _ hquote, w.value, _, rest,
    ?_, rfl, rfl⟩
  simp only [valueReader, if_pos hquote', hvalue]
  rfl

/-! ## Opening tags -/

/-- A tag as it stands between its angle brackets. -/
structure WrittenTag where
  name : QualifiedName
  attributes : List WrittenAttribute
  gap : Text
  isEmpty : Bool

namespace WrittenTag

/-- What stands in front of the end of a tag. -/
def slash (isEmpty : Bool) : Text := if isEmpty then ['/'] else []

/-- What stands between the name and the end of the tag. -/
def behindName (t : WrittenTag) : Text :=
  t.attributes.flatMap WrittenAttribute.text ++ (t.gap ++ slash t.isEmpty)

/-- What stands between the angle brackets. -/
def inner (t : WrittenTag) : Text := t.name.text ++ t.behindName

/-- The tag can be read, and its values need no declaration. -/
structure IsProper (t : WrittenTag) : Prop where
  name : t.name.IsProper
  attributes : ∀ w ∈ t.attributes, w.IsProper
  gap_space : ∀ c ∈ t.gap, isSpace c = true

end WrittenTag

open WrittenTag (slash)

theorem run_tagEndReader_eq_ok_iff {s rest : Text} {isEmpty : Bool} :
    tagEndReader.run s = .ok (isEmpty, rest) ↔ s = slash isEmpty ++ '>' :: rest := by
  unfold tagEndReader
  by_cases hslash : s.head? = some '/'
  · obtain ⟨u, rfl⟩ : ∃ u, s = '/' :: u := by
      cases s with
      | nil => cases hslash
      | cons c u => exact ⟨u, by rw [Option.some.inj hslash]⟩
    rw [show '/' :: u = ['/'] ++ u from rfl, Reader.run_behind_append]
    simp only [Reader.run_bind_eq_ok_iff, Reader.run_one_eq_ok_iff, Reader.run_pure,
      Except.ok.injEq, Prod.mk.injEq, beq_iff_eq]
    cases isEmpty <;> simp [slash]
  · rw [Reader.run_behind_of_head?_ne hslash]
    simp only [Reader.run_bind_eq_ok_iff, Reader.run_one_eq_ok_iff, Reader.run_pure,
      Except.ok.injEq, Prod.mk.injEq, beq_iff_eq]
    cases isEmpty with
    | false => simp [slash]
    | true =>
      constructor
      · rintro ⟨c, t, -, hfalse, -⟩
        cases hfalse
      · rintro rfl
        exact absurd rfl hslash

theorem readAttributes_of_end {s gap t : Text} {c : Char} (hrun : run isSpace s = (gap, c :: t))
    (hc : c = '/' ∨ c = '>') :
    readAttributes s =
      (tagEndReader.run (c :: t)).map fun (isEmpty, rest) => (([], isEmpty), rest) := by
  rw [readAttributes]
  split
  · rename_i h
    cases hrun.symm.trans h
    rfl
  · rename_i h
    cases hrun.symm.trans h
  · rename_i h
    cases hrun.symm.trans h
    rw [if_pos hc]

theorem readAttributes_of_attribute {s bs t rest : Text} {b c : Char} {a : Attribute}
    (hrun : run isSpace s = (b :: bs, c :: t)) (hc : ¬ (c = '/' ∨ c = '>'))
    (hread : attributeReader.run (c :: t) = .ok (a, rest)) :
    readAttributes s = (readAttributes rest).map
      fun ((others, isEmpty), rest) => ((a :: others, isEmpty), rest) := by
  rw [readAttributes]
  split
  · rename_i h
    cases hrun.symm.trans h
  · rename_i h
    cases hrun.symm.trans h
  · rename_i h
    cases hrun.symm.trans h
    rw [if_neg hc]
    split
    · rename_i h
      cases hread.symm.trans h
    · rename_i h
      cases hread.symm.trans h
      rfl

theorem exists_readAttributes {ws : List WrittenAttribute} (h : ∀ w ∈ ws, w.IsProper) {gap : Text}
    (hgap : ∀ c ∈ gap, isSpace c = true) (isEmpty : Bool) (rest : Text) :
    ∃ as, readAttributes (ws.flatMap WrittenAttribute.text ++ (gap ++ slash isEmpty) ++
        '>' :: rest) = .ok ((as, isEmpty), rest) ∧ List.Forall₂ Attribute.Matches as ws := by
  induction ws with
  | nil =>
    refine ⟨[], ?_, .nil⟩
    obtain ⟨c, t, htail, hc⟩ :
        ∃ c t, slash isEmpty ++ '>' :: rest = c :: t ∧ (c = '/' ∨ c = '>') := by
      cases isEmpty with
      | false => exact ⟨'>', rest, rfl, .inr rfl⟩
      | true => exact ⟨'/', '>' :: rest, rfl, .inl rfl⟩
    have hspace : isSpace c = false := by rcases hc with rfl | rfl <;> rfl
    have hend := run_tagEndReader_eq_ok_iff.2 htail.symm
    have hrun : run isSpace (gap ++ c :: t) = (gap, c :: t) := run_append_cons hgap hspace
    rw [List.flatMap_nil, List.nil_append, List.append_assoc, htail, readAttributes_of_end hrun hc,
      hend]
    rfl
  | cons w ws ih =>
    rw [List.forall_mem_cons] at h
    obtain ⟨as, hread, hmatches⟩ := ih h.2
    obtain ⟨a, hattribute, ha⟩ := exists_attributeReader h.1
      (ws.flatMap WrittenAttribute.text ++ (gap ++ slash isEmpty) ++ '>' :: rest)
    refine ⟨a :: as, ?_, .cons ha hmatches⟩
    obtain ⟨c, name, hname, hc⟩ := h.1.name.exists_cons
    obtain ⟨b, bs, hlead⟩ := List.exists_cons_of_ne_nil h.1.lead_ne_nil
    have hspace : isSpace c = false :=
      not_isSpace_of_isNameChar (isNameChar_of_isNameStart hc)
    have hne : ¬ (c = '/' ∨ c = '>') := by
      rintro (rfl | rfl)
      · exact absurd hc (by decide +kernel)
      · exact absurd hc (by decide +kernel)
    rw [hname, List.cons_append] at hattribute
    have hrun := run_append_cons (q := isSpace) (w := b :: bs)
      (by rw [← hlead]; exact h.1.lead_space) hspace
      (t := name ++ (w.gapBefore ++ '=' :: (w.gapAfter ++ w.quote :: (w.value ++ w.quote ::
        (ws.flatMap WrittenAttribute.text ++ (gap ++ slash isEmpty) ++ '>' :: rest)))))
    rw [List.flatMap_cons, WrittenAttribute.text, WrittenAttribute.front, hname, hlead]
    simp only [List.append_assoc, List.cons_append, List.nil_append] at hattribute hrun hread ⊢
    rw [readAttributes_of_attribute hrun hne hattribute, hread]
    rfl

/-- **What is written as a tag is read as one.** -/
theorem exists_openTagReader {t : WrittenTag} (h : t.IsProper) (rest : Text) :
    ∃ tag, openTagReader.run (t.inner ++ '>' :: rest) = .ok (tag, rest) ∧ tag.name = t.name ∧
      tag.isEmpty = t.isEmpty ∧ List.Forall₂ Attribute.Matches tag.attributes t.attributes := by
  obtain ⟨as, hread, hmatches⟩ := exists_readAttributes h.attributes h.gap_space t.isEmpty rest
  refine ⟨⟨t.name, as, t.isEmpty⟩, ?_, rfl, rfl, hmatches⟩
  have hstop : ∀ c ∈ (t.behindName ++ '>' :: rest).head?, isNameChar c = false ∧ c ≠ ':' := by
    have hsign : ∀ c, c = '/' ∨ c = '>' ∨ isSpace c = true → isNameChar c = false ∧ c ≠ ':' := by
      rintro c (rfl | rfl | hc)
      · decide +kernel
      · decide +kernel
      · refine ⟨not_isNameChar_of_isSpace hc, ?_⟩
        rintro rfl
        exact absurd hc (by decide)
    intro c hc
    apply hsign
    unfold WrittenTag.behindName at hc
    cases hws : t.attributes with
    | nil =>
      rw [hws, List.flatMap_nil, List.nil_append] at hc
      cases hgap : t.gap with
      | nil =>
        rw [hgap] at hc
        cases he : t.isEmpty with
        | false =>
          rw [he] at hc
          exact .inr (.inl (by simpa [slash] using hc.symm))
        | true =>
          rw [he] at hc
          exact .inl (by simpa [slash] using hc.symm)
      | cons d gap =>
        rw [hgap] at hc
        obtain rfl : d = c := by simpa using hc
        exact .inr (.inr (h.gap_space d (by rw [hgap]; simp)))
    | cons w ws =>
      have hw := h.attributes w (by rw [hws]; simp)
      obtain ⟨b, bs, hlead⟩ := List.exists_cons_of_ne_nil hw.lead_ne_nil
      rw [hws, List.flatMap_cons, WrittenAttribute.text, WrittenAttribute.front, hlead] at hc
      obtain rfl : b = c := by simpa using hc
      exact .inr (.inr (hw.lead_space b (by rw [hlead]; simp)))
  rw [WrittenTag.inner, List.append_assoc]
  simp only [openTagReader, Reader.run_bind_eq_ok_iff, run_qualifiedNameReader_eq_ok_iff,
    Reader.run_pure, Except.ok.injEq, Prod.mk.injEq, Prod.exists, attributesReader]
  exact ⟨t.name, _, ⟨rfl, h.name, fun c hc => (hstop c hc).1, fun _ hc => (hstop ':' hc).2 rfl⟩,
    as, t.isEmpty, rest, hread, rfl, rfl⟩

/-! ## Closing tags -/

/-- The name of a closing tag, which is only compared. -/
def IsClosingName (n : Text) : Prop :=
  ∃ c cs, n = c :: cs ∧ isNameStart c = true ∧ ∀ d ∈ cs, (isNameChar d || d == ':') = true

theorem QualifiedName.IsProper.isClosingName {n : QualifiedName} (h : n.IsProper) :
    IsClosingName n.text := by
  obtain ⟨c, w, hn, hc⟩ := h.exists_cons
  refine ⟨c, w, hn, hc, fun d hd => ?_⟩
  rcases h.text_chars d (by rw [hn]; exact List.mem_cons_of_mem c hd) with hd | rfl
  · simp [hd]
  · simp

theorem run_closeTagReader_eq_ok_iff {s n rest : Text} :
    closeTagReader.run s = .ok (n, rest) ↔
      ∃ gap, s = n ++ gap ++ '>' :: rest ∧ IsClosingName n ∧ ∀ c ∈ gap, isSpace c = true := by
  simp only [closeTagReader, Reader.run_bind_eq_ok_iff, Reader.run_word_eq_ok_iff,
    Reader.run_many_eq_ok_iff, Reader.run_one_eq_ok_iff, Reader.run_pure, Except.ok.injEq,
    Prod.mk.injEq, beq_iff_eq]
  constructor
  · rintro ⟨n', s₁, ⟨rfl, hn, -⟩, gap, s₂, ⟨rfl, hgap, -⟩, c, s₃, ⟨rfl, rfl⟩, rfl, rfl⟩
    exact ⟨gap, by simp, hn, hgap⟩
  · rintro ⟨gap, rfl, hn, hgap⟩
    refine ⟨n, gap ++ '>' :: rest, ⟨by simp, hn, fun d hd => ?_⟩, gap, '>' :: rest,
      ⟨rfl, hgap, fun d hd => ?_⟩, '>', rest, ⟨rfl, rfl⟩, rfl, rfl⟩
    · have hsign : ∀ c, c = '>' ∨ isSpace c = true → (isNameChar c || c == ':') = false := by
        rintro c (rfl | hc)
        · decide +kernel
        · rw [not_isNameChar_of_isSpace hc, Bool.false_or, beq_eq_false_iff_ne]
          rintro rfl
          exact absurd hc (by decide)
      apply hsign
      cases hg : gap with
      | nil =>
        rw [hg] at hd
        exact .inl (by simpa using hd.symm)
      | cons e gap' =>
        rw [hg] at hd
        obtain rfl : e = d := by simpa using hd
        exact .inr (hgap e (by rw [hg]; simp))
    · obtain rfl : '>' = d := by simpa using hd
      rfl

end SvgAssets.Xml
