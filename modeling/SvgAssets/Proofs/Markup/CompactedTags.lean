/-
# SvgAssets.Proofs.Markup.CompactedTags -- what compacting makes of tags

Compacting the inside of a tag leaves its name and its attributes, and of the white space one space
in front of each attribute (`compactTag_inner`). So the tag is still read as the same tag.
-/
import SvgAssets.Proofs.Markup.TagCompaction
import SvgAssets.Proofs.Xml.Versions

namespace SvgAssets.Xml

open Text

/-! ## Compacted tags -/

/-- The attribute with one space in front of it, and no white space inside. -/
def WrittenAttribute.compacted (w : WrittenAttribute) : WrittenAttribute :=
  { w with
    lead := [' ']
    gapBefore := []
    gapAfter := [] }

/-- The tag with its attributes compacted, and no white space in front of its end. -/
def WrittenTag.compacted (t : WrittenTag) : WrittenTag :=
  { t with
    attributes := t.attributes.map WrittenAttribute.compacted
    gap := [] }

theorem WrittenAttribute.IsProper.compacted {w : WrittenAttribute} (h : w.IsProper) :
    w.compacted.IsProper where
  lead_ne_nil := List.cons_ne_nil ' ' []
  lead_space := List.forall_mem_singleton.2 rfl
  name := h.name
  gapBefore_space := nofun
  gapAfter_space := nofun
  quote_mem := h.quote_mem
  value_chars := h.value_chars
  value_isData := h.value_isData

theorem WrittenTag.IsProper.compacted {t : WrittenTag} (h : t.IsProper) :
    t.compacted.IsProper where
  name := h.name
  attributes := by
    rw [WrittenTag.compacted, List.forall_mem_map]
    exact fun w hw => (h.attributes w hw).compacted
  gap_space := nofun

theorem WrittenTag.isLike_compacted (t : WrittenTag) : t.IsLike t.compacted where
  name_eq := rfl
  isEmpty_eq := rfl
  attributes := by
    rw [WrittenTag.compacted, List.forall₂_map_right_iff, List.forall₂_same]
    exact fun w _ => ⟨rfl, fun _ => rfl⟩

end SvgAssets.Xml

namespace SvgAssets.Markup

open Text Xml

/-! ## Between values -/

/-- Characters of names, which are kept as they are. -/
structure IsWordChar (c : Char) : Prop where
  not_blank : isBlank c = false
  not_quote : isQuote c = false
  ne_slash : c ≠ '/'
  ne_equals : c ≠ '='

theorem isWordChar_of_isNameChar {c : Char} (h : Xml.isNameChar c = true) : IsWordChar c := by
  have hsigns : ∀ d ∈ signs, c ≠ d := by
    rintro d hd rfl
    rw [isNameChar_eq_false_of_mem_signs hd] at h
    cases h
  exact ⟨not_isBlank_of_isNameChar h, by
    simp [isQuote, hsigns '"' (by decide), hsigns '\'' (by decide)],
    hsigns '/' (by decide), hsigns '=' (by decide)⟩

theorem isWordChar_of_text {n : QualifiedName} (h : n.IsProper) : ∀ c ∈ n.text, IsWordChar c := by
  intro c hc
  rcases h.text_chars c hc with hname | rfl
  · exact isWordChar_of_isNameChar hname
  · exact ⟨by decide, by decide, by decide, by decide⟩

theorem compactUnquoted_append {w : Text} (hw : ∀ c ∈ w, IsWordChar c) (s : Text) :
    compactUnquoted (w ++ s) = w ++ compactUnquoted s := by
  induction w with
  | nil => rfl
  | cons c w ih =>
    obtain ⟨⟨hblank, -, hslash, hequals⟩, hw⟩ := List.forall_mem_cons.1 hw
    have hspace : c ≠ ' ' := by
      rintro rfl
      cases hblank
    rw [List.cons_append, List.cons_append, ← ih hw]
    simp [compactUnquoted, squeezeBlanks, collapseRuns, tighten, hblank, hslash, hequals, hspace]

theorem squeezeBlanks_of_blank {gap : Text} (h : ∀ c ∈ gap, isBlank c = true) :
    squeezeBlanks gap = if gap = [] then [] else [' '] := by
  have hrun : ∀ gap : Text, (∀ c ∈ gap, isBlank c = true) →
      collapseRuns isBlank ' ' true gap = [] := by
    intro gap h
    induction gap with
    | nil => rfl
    | cons c gap ih =>
      rw [List.forall_mem_cons] at h
      rw [collapseRuns, if_pos h.1, if_pos rfl, ih h.2]
  cases gap with
  | nil => rfl
  | cons c gap =>
    rw [List.forall_mem_cons] at h
    rw [squeezeBlanks, collapseRuns, if_pos h.1, if_neg Bool.false_ne_true, hrun gap h.2,
      if_neg (List.cons_ne_nil c gap)]

/-- Around a sign that is neither a space nor a mark, runs are made single on either side. -/
theorem squeezeBlanks_append_cons {gap : Text} {c : Char} (hc : isBlank c = false) (s : Text) :
    squeezeBlanks (gap ++ c :: s) = squeezeBlanks gap ++ c :: squeezeBlanks s :=
  collapseRuns_append_cons hc s

section

variable {gap gap' : Text} (hgap : ∀ c ∈ gap, isBlank c = true)
  (hgap' : ∀ c ∈ gap', isBlank c = true)

include hgap

/-- Of the white space in front of a word one space is left. -/
theorem compactUnquoted_gap (hne : gap ≠ []) {c : Char} (hc : IsWordChar c) (s : Text) :
    compactUnquoted (gap ++ c :: s) = ' ' :: c :: compactUnquoted s := by
  have hspace : c ≠ ' ' := by
    rintro rfl
    cases hc.not_blank
  rw [compactUnquoted, squeezeBlanks_append_cons hc.not_blank, squeezeBlanks_of_blank hgap,
    if_neg hne]
  simp [compactUnquoted, tighten, leadsTo, hspace, hc.ne_slash, hc.ne_equals]

theorem compactUnquoted_blank : compactUnquoted gap = if gap = [] then [] else [' '] := by
  rw [compactUnquoted, squeezeBlanks_of_blank hgap]
  split <;> rfl

theorem compactUnquoted_slash : compactUnquoted (gap ++ ['/']) = ['/'] := by
  rw [compactUnquoted, squeezeBlanks_append_cons rfl, squeezeBlanks_of_blank hgap]
  split <;> rfl

include hgap' in
theorem compactUnquoted_equals : compactUnquoted (gap ++ '=' :: gap') = ['='] := by
  rw [compactUnquoted, squeezeBlanks_append_cons rfl, squeezeBlanks_of_blank hgap,
    squeezeBlanks_of_blank hgap']
  split <;> split <;> rfl

end

/-! ## Tags -/

theorem filter_eq_nil_of_space {gap : Text} (h : ∀ c ∈ gap, isSpace c = true) :
    gap.filter isQuote = [] := by
  rw [List.filter_eq_nil_iff]
  exact fun c hc => by simp [not_isQuote_of_isBlank (isBlank_of_isSpace (h c hc))]

theorem filter_eq_nil_of_word {w : Text} (h : ∀ c ∈ w, IsWordChar c) : w.filter isQuote = [] := by
  rw [List.filter_eq_nil_iff]
  exact fun c hc => by simp [(h c hc).not_quote]

theorem isBlank_of_space {gap : Text} (h : ∀ c ∈ gap, isSpace c = true) :
    ∀ c ∈ gap, isBlank c = true := fun c hc => isBlank_of_isSpace (h c hc)

section

variable {w : WrittenAttribute} (h : w.IsProper)

include h

theorem filter_front : w.front.filter isQuote = [] := by
  rw [WrittenAttribute.front, List.filter_append, filter_eq_nil_of_space h.lead_space,
    List.filter_append, filter_eq_nil_of_word (isWordChar_of_text h.name), List.filter_append,
    filter_eq_nil_of_space h.gapBefore_space, List.filter_cons_of_neg (by decide),
    filter_eq_nil_of_space h.gapAfter_space]
  rfl

theorem compactUnquoted_front : compactUnquoted w.front = w.compacted.front := by
  obtain ⟨c, cs, hname, -⟩ := h.name.exists_cons
  have hword := isWordChar_of_text h.name
  rw [hname, List.forall_mem_cons] at hword
  rw [WrittenAttribute.front, hname, List.cons_append,
    compactUnquoted_gap (isBlank_of_space h.lead_space) h.lead_ne_nil hword.1,
    compactUnquoted_append hword.2, compactUnquoted_equals (isBlank_of_space h.gapBefore_space)
      (isBlank_of_space h.gapAfter_space)]
  simp [WrittenAttribute.front, WrittenAttribute.compacted, hname]

end

theorem silent_of_filter_eq_nil {u s : Text} (h : u.filter isQuote = []) :
    QuotedValue.pattern.Silent none u s := by
  rw [QuotedValue.silent_iff_filter none none, h]
  trivial

/-- The values of a tag stay as they are, and between them there is a compacted tag. -/
theorem mapBetween_attributes {ws : List WrittenAttribute} (hws : ∀ w ∈ ws, w.IsProper)
    {front tail : Text} (hfront : ∀ c ∈ front, IsWordChar c) (htail : tail.filter isQuote = []) :
    QuotedValue.pattern.mapBetween compactUnquoted
        (front ++ (ws.flatMap WrittenAttribute.text ++ tail)) =
      front ++ ((ws.map WrittenAttribute.compacted).flatMap WrittenAttribute.text ++
        compactUnquoted tail) := by
  induction ws generalizing front with
  | nil =>
    rw [List.flatMap_nil, List.nil_append, Pattern.mapBetween_of_silent (silent_of_filter_eq_nil (by
      rw [List.filter_append, filter_eq_nil_of_word hfront, htail, List.append_nil])),
      compactUnquoted_append hfront]
    rfl
  | cons w ws ih =>
    obtain ⟨hw, hws⟩ := List.forall_mem_cons.1 hws
    have hread : QuotedValue.pattern.read none
        (QuotedValue.text ⟨w.quote, w.value⟩ ++ (ws.flatMap WrittenAttribute.text ++ tail)) =
          some (⟨w.quote, w.value⟩, ws.flatMap WrittenAttribute.text ++ tail) :=
      QuotedValue.read_text_append ⟨by simpa [isQuote] using hw.quote_mem, hw.quote_notMem⟩ _
    have hmap := Pattern.mapBetween_append (p := QuotedValue.pattern) (fun _ _ _ => rfl)
      compactUnquoted (u := front ++ w.front) (silent_of_filter_eq_nil (by
        rw [List.filter_append, filter_eq_nil_of_word hfront, filter_front hw, List.append_nil]))
      hread
    have hrest : QuotedValue.pattern.mapBetween compactUnquoted
        ([] ++ (ws.flatMap WrittenAttribute.text ++ tail)) = _ :=
      ih hws (List.forall_mem_nil _)
    rw [List.nil_append, List.nil_append] at hrest
    rw [compactUnquoted_append hfront, compactUnquoted_front hw, hrest] at hmap
    have htext : w.text = w.front ++ QuotedValue.text ⟨w.quote, w.value⟩ := rfl
    have hcompacted : w.compacted.text =
        w.compacted.front ++ QuotedValue.pattern.text ⟨w.quote, w.value⟩ := rfl
    rw [List.flatMap_cons, List.map_cons, List.flatMap_cons, htext, hcompacted]
    simpa only [List.append_assoc] using hmap

/-- No space stands at an end of a compacted tag. -/
theorem not_space_of_end {t : WrittenTag} (ht : t.IsProper) (hgap : t.gap = []) :
    (∀ c ∈ t.inner.head?, (c == ' ') = false) ∧ ∀ c ∈ t.inner.getLast?, (c == ' ') = false := by
  have hname : ∀ {c}, Xml.isNameChar c = true → (c == ' ') = false := by
    rintro c hc
    rw [beq_eq_false_iff_ne]
    rintro rfl
    exact absurd hc (by decide +kernel)
  constructor
  · obtain ⟨c, cs, hcons, hstart⟩ := ht.name.exists_cons
    rw [WrittenTag.inner, hcons]
    rintro d ⟨⟩
    exact hname (isNameChar_of_isNameStart hstart)
  · obtain ⟨c, hc, hkind⟩ := ht.exists_getLast?
    have hlast : (c == ' ') = false := by
      rcases hkind with hchar | hquote
      · exact hname hchar
      · rw [beq_eq_false_iff_ne]
        rintro rfl
        exact absurd hquote (by decide)
    rw [WrittenTag.inner, WrittenTag.behindName, hgap, List.nil_append, ← List.append_assoc,
      List.getLast?_append, Option.mem_def.1 hc]
    cases t.isEmpty with
    | false =>
      rintro d ⟨⟩
      exact hlast
    | true =>
      rintro d ⟨⟩
      rfl

/-- **The inside of a tag becomes the inside of the compacted tag.** -/
theorem compactTag_inner {t : WrittenTag} (ht : t.IsProper) :
    compactTag t.inner = t.compacted.inner := by
  have htail : (t.gap ++ WrittenTag.slash t.isEmpty).filter isQuote = [] := by
    rw [List.filter_append, filter_eq_nil_of_space ht.gap_space]
    cases t.isEmpty <;> rfl
  -- A space may be left in front of the end.
  obtain ⟨w, hw, hspace⟩ : ∃ w, compactUnquoted (t.gap ++ WrittenTag.slash t.isEmpty) =
      WrittenTag.slash t.isEmpty ++ w ∧ ∀ c ∈ w, (c == ' ') = true := by
    cases t.isEmpty with
    | true => exact ⟨[], compactUnquoted_slash (isBlank_of_space ht.gap_space),
        List.forall_mem_nil _⟩
    | false =>
      refine ⟨if t.gap = [] then [] else [' '], ?_, ?_⟩
      · rw [WrittenTag.slash, if_neg Bool.false_ne_true, List.append_nil,
          compactUnquoted_blank (isBlank_of_space ht.gap_space), List.nil_append]
      · split <;> simp
  obtain ⟨hhead, hlast⟩ := not_space_of_end ht.compacted rfl
  have hmap := mapBetween_attributes ht.attributes (isWordChar_of_text ht.name) htail
  have hinner : t.name.text ++ ((t.attributes.map WrittenAttribute.compacted).flatMap
      WrittenAttribute.text ++ (WrittenTag.slash t.isEmpty ++ w)) =
        [] ++ t.compacted.inner ++ w := by
    simp [WrittenTag.inner, WrittenTag.behindName, WrittenTag.compacted]
  rw [compactTag, WrittenTag.inner, WrittenTag.behindName, hmap, hw, hinner]
  exact dropAround_append (List.forall_mem_nil _) hspace hhead hlast

/-- A closing tag is left without its white space. -/
theorem compactTag_closing {name gap : Text} (hname : IsClosingName name)
    (hgap : ∀ c ∈ gap, isSpace c = true) : compactTag ('/' :: name ++ gap) = '/' :: name := by
  obtain ⟨c, cs, rfl, hc, hcs⟩ := hname
  have hfirst := isWordChar_of_isNameChar (isNameChar_of_isNameStart hc)
  have hword : ∀ d ∈ c :: cs, IsWordChar d := by
    refine List.forall_mem_cons.2 ⟨hfirst, fun d hd => ?_⟩
    rcases Bool.or_eq_true _ _ ▸ hcs d hd with hd | hd
    · exact isWordChar_of_isNameChar hd
    · rw [beq_iff_eq.1 hd]
      exact ⟨by decide, by decide, by decide, by decide⟩
  have hnot : ∀ d ∈ c :: cs, (d == ' ') = false := by
    intro d hd
    rw [beq_eq_false_iff_ne]
    rintro rfl
    cases (hword _ hd).not_blank
  have hsilent : ('/' :: (c :: cs) ++ gap).filter isQuote = [] := by
    rw [List.filter_append, List.filter_cons_of_neg (by decide), filter_eq_nil_of_word hword,
      filter_eq_nil_of_space hgap, List.append_nil]
  have hunquoted : compactUnquoted ('/' :: (c :: cs) ++ gap) =
      [] ++ ('/' :: (c :: cs)) ++ if gap = [] then [] else [' '] := by
    have hslash : compactUnquoted ('/' :: c :: (cs ++ gap)) =
        '/' :: c :: compactUnquoted (cs ++ gap) := by
      have hspace : c ≠ ' ' := by simpa using hnot c (List.mem_cons_self ..)
      have hblank : isBlank '/' = false := rfl
      simp [compactUnquoted, squeezeBlanks, collapseRuns, tighten, hblank, hfirst.not_blank,
        hfirst.ne_slash, hfirst.ne_equals, hspace]
    rw [List.cons_append, List.cons_append, hslash,
      compactUnquoted_append (List.forall_mem_cons.1 hword).2,
      compactUnquoted_blank (isBlank_of_space hgap)]
    rfl
  rw [compactTag, Pattern.mapBetween_of_silent (silent_of_filter_eq_nil hsilent), hunquoted]
  refine dropAround_append (List.forall_mem_nil _) (by split <;> simp) ?_ ?_
  · rintro d ⟨⟩
    rfl
  · intro d hd
    rw [List.getLast?_cons_cons] at hd
    exact hnot d (List.mem_of_getLast? hd)

end SvgAssets.Markup
