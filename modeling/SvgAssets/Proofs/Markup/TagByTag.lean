/-
# SvgAssets.Proofs.Markup.TagByTag -- compacting one tag after the other

Compacting makes five passes over flat text. In markup that is written as tags with texts between
them (`TaggedText`) angle brackets stand around tags only, and so no pass takes anything for a tag,
or for the room between two tags, that is not in the list. Then the five passes come to one pass
over the list (`TaggedText.compact_text`): each tag is compacted, and the text behind it is kept
unless it is white space in front of another tag.
-/
import SvgAssets.Proofs.Markup.Compaction
import SvgAssets.Proofs.Markup.ElementRemoval
import SvgAssets.Proofs.Text.Replacing

namespace SvgAssets.Markup

open Text

/-! ## White space between tags -/

/-- What is left of a text between two tags. -/
def joined (t : Text) : Text := if t.all isBlank then [] else t

theorem leadsTo_append {t : Text} (ht : '<' ∉ t) (s : Text) :
    leadsTo (· == '<') isBlank (t ++ '<' :: s) = t.all isBlank := by
  induction t with
  | nil => exact leadsTo_cons_of_not_space rfl
  | cons c t ih =>
    rw [List.mem_cons, not_or] at ht
    rw [List.cons_append, List.all_cons]
    cases hc : isBlank c with
    | true => rw [leadsTo_cons_of_space hc, ih ht.2, Bool.true_and]
    | false =>
      rw [leadsTo_cons_of_not_space hc, Bool.false_and, beq_eq_false_iff_ne]
      exact Ne.symm ht.1

/-- Behind a tag, a text of nothing but white space is dropped. -/
theorem joinTags_joined {t : Text} (ht : ∀ c ∈ t, c ≠ '<' ∧ c ≠ '>') (s : Text) :
    joinTags true (t ++ '<' :: s) = joined t ++ joinTags false ('<' :: s) := by
  induction t with
  | nil => rfl
  | cons c t ih =>
    obtain ⟨hc, ht⟩ := List.forall_mem_cons.1 ht
    rw [List.cons_append, joinTags, Bool.and_true, leadsTo_append fun hmem => (ht _ hmem).1 rfl,
      ← List.all_cons]
    split
    · rename_i hblank
      have hrest : t.all isBlank = true := by
        rw [List.all_cons, Bool.and_eq_true] at hblank
        exact hblank.2
      rw [ih ht, joined, joined, if_pos hblank, if_pos hrest]
    · rename_i hblank
      rw [beq_eq_false_iff_ne.2 hc.2, joinTags_append fun hmem => (ht _ hmem).2 rfl, joined,
        if_neg hblank, List.cons_append]

/-- Behind the last tag nothing is dropped. -/
theorem joinTags_eq_self {t : Text} (ht : ∀ c ∈ t, c ≠ '<' ∧ c ≠ '>') : joinTags true t = t := by
  cases t with
  | nil => rfl
  | cons c t =>
    obtain ⟨hc, ht⟩ := List.forall_mem_cons.1 ht
    have hleads : leadsTo (· == '<') isBlank t = false := by
      rw [leadsTo]
      split
      · rfl
      · rename_i d s hdrop
        rw [beq_eq_false_iff_ne]
        exact (ht d ((List.dropWhile_suffix isBlank).subset (hdrop ▸ List.mem_cons_self ..))).1
    have hkeep := joinTags_append (fun hmem => (ht _ hmem).2 rfl) []
    rw [List.append_nil] at hkeep
    rw [joinTags, hleads, Bool.and_false, if_neg Bool.false_ne_true, beq_eq_false_iff_ne.2 hc.2,
      hkeep]
    simp [joinTags]

/-! ## One step -/

/-- A tag is compacted, and nothing is joined within it. -/
theorem compactTags_tag_append {t : AnyTag} (ht : t.IsProper) (s : Text) :
    compactTags (joinTags false (t.text ++ s)) = t.compacted ++ compactTags (joinTags true s) := by
  have hclose : '>' ∉ '<' :: t.inner := by
    rw [List.mem_cons, not_or]
    exact ⟨by decide, ht.gt_notMem⟩
  have htext : ∀ s, t.text ++ s = ('<' :: t.inner) ++ '>' :: s := by simp [AnyTag.text]
  rw [htext, joinTags_append_closing hclose, ← htext, compactTags_text_append ht]

/-- Between two tags a text is kept, unless it is nothing but white space. -/
theorem compactTags_between {w : Text} (hw : ∀ c ∈ w, c ≠ '<' ∧ c ≠ '>') (s : Text) :
    compactTags (joinTags true (w ++ '<' :: s)) =
      joined w ++ compactTags (joinTags false ('<' :: s)) := by
  have hjoined : '<' ∉ joined w := by
    rw [joined]
    split
    · exact List.not_mem_nil
    · exact fun hmem => (hw _ hmem).1 rfl
  rw [joinTags_joined hw, compactTags_append hjoined]

/-- Behind the last tag a text is kept. -/
theorem compactTags_behind {w : Text} (hw : ∀ c ∈ w, c ≠ '<' ∧ c ≠ '>') :
    compactTags (joinTags true w) = w := by
  have hkeep := compactTags_append (fun hmem => (hw _ hmem).1 rfl) []
  rw [List.append_nil, compactTags_nil, List.append_nil] at hkeep
  rw [joinTags_eq_self hw, hkeep]

/-! ## Tags with texts between them -/

/-- What comments, document types and prologs begin with, behind the bracket. -/
inductive IsAsideStart : Text → Prop
  | comment : IsAsideStart ['!', '-', '-']
  | doctype {form : Text} : IsForm ['d', 'o', 'c', 't', 'y', 'p', 'e'] form →
      IsAsideStart ('!' :: form)
  | prolog {form : Text} : IsForm ['x', 'm', 'l'] form → IsAsideStart ('?' :: form)

theorem IsAsideStart.gt_notMem {w : Text} (h : IsAsideStart w) : '>' ∉ w := by
  have hform : ∀ {name form : Text}, IsTagName name → IsForm name form → '>' ∉ form :=
    fun hname hform hmem => (hname.form_chars hform _ hmem).1 (by decide)
  cases h with
  | comment => decide
  | doctype h =>
    rw [List.mem_cons, not_or]
    exact ⟨by decide, hform (isTagName_of_letters (forall_mem_of_all rfl)) h⟩
  | prolog h =>
    rw [List.mem_cons, not_or]
    exact ⟨by decide, hform (isTagName_of_letters (forall_mem_of_all rfl)) h⟩

theorem IsAsideStart.exists_head? {w s : Text} (h : IsAsideStart w) (hs : w <+: s) :
    ∃ c ∈ ['!', '?'], s.head? = some c := by
  obtain ⟨t, rfl⟩ := hs
  cases h with
  | comment => exact ⟨'!', by decide, rfl⟩
  | doctype _ => exact ⟨'!', by decide, rfl⟩
  | prolog _ => exact ⟨'?', by decide, rfl⟩

/-- A comment is read only where one begins. -/
theorem exists_start_of_comment {prev : Option Char} {s rest : Text} {content : Text}
    (h : comment.read prev s = some (content, rest)) :
    ∃ w t, IsAsideStart w ∧ s = '<' :: (w ++ t) := by
  refine ⟨['!', '-', '-'], content ++ (['-', '-', '>'] ++ rest), .comment, ?_⟩
  rw [comment.exact h]
  simp [comment, delimited]

theorem exists_start_of_doctype {prev : Option Char} {s rest : Text} {d : Doctype}
    (h : Doctype.pattern.read prev s = some (d, rest)) :
    ∃ w t, IsAsideStart w ∧ s = '<' :: (w ++ t) := by
  simp only [Doctype.pattern, Doctype.read, Option.bind_eq_bind, Option.bind_eq_some_iff,
    after?_eq_some_iff] at h
  obtain ⟨s₁, rfl, ⟨form, s₂⟩, hkeyword, -⟩ := h
  obtain ⟨hform, rfl⟩ := keyword?_eq_some_iff.1 hkeyword
  exact ⟨'!' :: form, s₂, .doctype hform, rfl⟩

theorem exists_start_of_prolog {prev : Option Char} {s rest : Text} {p : Prolog}
    (h : Prolog.pattern.read prev s = some (p, rest)) :
    ∃ w t, IsAsideStart w ∧ s = '<' :: (w ++ t) := by
  simp only [Prolog.pattern, Prolog.read, Option.bind_eq_bind, Option.bind_eq_some_iff,
    after?_eq_some_iff] at h
  obtain ⟨s₁, rfl, ⟨form, s₂⟩, hkeyword, -⟩ := h
  obtain ⟨hform, rfl⟩ := keyword?_eq_some_iff.1 hkeyword
  exact ⟨'?' :: form, s₂, .prolog hform, rfl⟩

/-- Markup as a text in front, and tags each with the text behind it up to the next tag. -/
structure TaggedText where
  lead : Text
  tags : List (AnyTag × Text)

namespace TaggedText

/-- The tags as they stand in the text. -/
def tagsText (tags : List (AnyTag × Text)) : Text := tags.flatMap fun x => x.1.text ++ x.2

/-- The whole text. -/
def text (m : TaggedText) : Text := m.lead ++ tagsText m.tags

/-- The tags compacted one by one. A text between two of them is left out if there is nothing but
white space in it, and the text behind the last one is not. -/
def compactedTags : List (AnyTag × Text) → Text
  | [] => []
  | [(t, behind)] => t.compacted ++ behind
  | (t, between) :: next :: tags => t.compacted ++ (joined between ++ compactedTags (next :: tags))

/-- The text with its tags compacted one by one. -/
def compacted (m : TaggedText) : Text := m.lead ++ compactedTags m.tags

/-- Angle brackets stand around tags only, and no tag begins as an aside does. -/
structure IsProper (m : TaggedText) : Prop where
  lead_chars : ∀ c ∈ m.lead, c ≠ '<' ∧ c ≠ '>'
  tag : ∀ x ∈ m.tags, x.1.IsProper
  not_aside : ∀ x ∈ m.tags, ∀ w, IsAsideStart w → ¬ w <+: x.1.inner
  behind_chars : ∀ x ∈ m.tags, ∀ c ∈ x.2, c ≠ '<' ∧ c ≠ '>'

theorem tagsText_cons (t : AnyTag) (behind : Text) (tags : List (AnyTag × Text)) :
    tagsText ((t, behind) :: tags) = t.text ++ (behind ++ tagsText tags) := by
  rw [tagsText, List.flatMap_cons, List.append_assoc]
  rfl

/-- **The passes over tags are one pass over their list.** -/
theorem compactTags_tagsText {tags : List (AnyTag × Text)} (htag : ∀ x ∈ tags, x.1.IsProper)
    (hbehind : ∀ x ∈ tags, ∀ c ∈ x.2, c ≠ '<' ∧ c ≠ '>') :
    compactTags (joinTags false (tagsText tags)) = compactedTags tags := by
  induction tags with
  | nil => exact compactTags_nil
  | cons x tags ih =>
    obtain ⟨t, behind⟩ := x
    obtain ⟨ht, htag⟩ := List.forall_mem_cons.1 htag
    obtain ⟨hchars, hbehind⟩ := List.forall_mem_cons.1 hbehind
    rw [tagsText_cons, compactTags_tag_append ht]
    cases tags with
    | nil =>
      have hnil : behind ++ tagsText [] = behind := List.append_nil behind
      rw [hnil, compactTags_behind hchars, compactedTags]
    | cons next tags =>
      -- The next tag begins with a bracket, which ends the text in front of it.
      obtain ⟨w, hw⟩ : ∃ w, tagsText (next :: tags) = '<' :: w :=
        ⟨_, tagsText_cons next.1 next.2 tags⟩
      have hrest := ih htag hbehind
      rw [hw] at hrest ⊢
      rw [compactTags_between hchars, hrest, compactedTags]

/-! ## Nothing to take out -/

/-- A bracket that opens begins one of the tags. -/
theorem exists_tag_of_suffix {tags : List (AnyTag × Text)} (htag : ∀ x ∈ tags, x.1.IsProper)
    (hbehind : ∀ x ∈ tags, ∀ c ∈ x.2, c ≠ '<' ∧ c ≠ '>') {u s : Text}
    (h : tagsText tags = u ++ '<' :: s) :
    ∃ x ∈ tags, ∃ rest, s = x.1.inner ++ '>' :: rest := by
  induction tags generalizing u with
  | nil => simp [tagsText] at h
  | cons x tags ih =>
    obtain ⟨t, behind⟩ := x
    obtain ⟨ht, htag⟩ := List.forall_mem_cons.1 htag
    obtain ⟨hchars, hbehind⟩ := List.forall_mem_cons.1 hbehind
    rw [tagsText_cons, AnyTag.text] at h
    cases u with
    | nil =>
      refine ⟨(t, behind), List.mem_cons_self .., behind ++ tagsText tags, ?_⟩
      simpa using (List.cons.inj h).2.symm
    | cons c u =>
      -- Neither within the tag nor in the text behind it does another bracket open.
      have hclean : '<' ∉ t.inner ++ '>' :: behind := by
        intro hmem
        rcases List.mem_append.1 hmem with hmem | hmem
        · exact absurd (ht.inner_chars _ hmem) (by decide)
        · rcases List.mem_cons.1 hmem with he | hmem
          · exact absurd he (by decide)
          · exact (hchars _ hmem).1 rfl
      have hrest : (t.inner ++ '>' :: behind) ++ tagsText tags = u ++ '<' :: s := by
        simpa using (List.cons.inj h).2
      obtain ⟨u', -, htags⟩ := exists_of_append_eq hclean hrest
      obtain ⟨x, hx, found⟩ := ih htag hbehind htags
      exact ⟨x, List.mem_cons_of_mem _ hx, found⟩

namespace IsProper

variable {m : TaggedText} (h : m.IsProper)

include h

/-- No aside begins anywhere in the text. -/
theorem tokens_eq_nil {α : Type} {p : Pattern α}
    (hread : ∀ {prev s a rest}, p.read prev s = some (a, rest) →
      ∃ w t, IsAsideStart w ∧ s = '<' :: (w ++ t)) :
    p.tokens m.text = [] := by
  refine p.tokens_of_silent (p.silent_of_forall_suffix (fun v _ hv prev => ?_) none)
  rw [List.append_nil, Option.eq_none_iff_forall_ne_some]
  rintro ⟨a, rest⟩ ha
  obtain ⟨w, t, hw, rfl⟩ := hread ha
  obtain ⟨u, hu⟩ := hv
  -- The bracket begins a tag, and the inside of the tag begins as the aside does.
  obtain ⟨u', -, htags⟩ := exists_of_append_eq (fun hmem => (h.lead_chars _ hmem).1 rfl) hu.symm
  obtain ⟨x, hx, rest', hrest⟩ := exists_tag_of_suffix h.tag h.behind_chars htags
  refine h.not_aside x hx w hw (prefix_of_prefix_append_cons (y := rest') hw.gt_notMem ?_)
  rw [← hrest]
  exact List.prefix_append w t

theorem isBare : IsBare m.text where
  comments := h.tokens_eq_nil exists_start_of_comment
  prologs := h.tokens_eq_nil exists_start_of_prolog
  doctypes := h.tokens_eq_nil exists_start_of_doctype

end IsProper

/-- **Compacting works tag by tag.** Of markup that is written as tags with texts between them each
tag is compacted on its own. A text between two tags is dropped if it is nothing but white space,
all other texts are kept, and white space at the two ends of the whole is cut off. -/
theorem compact_text {m : TaggedText} (h : m.IsProper) : compact m.text = trim m.compacted := by
  have hopen : '<' ∉ m.lead := fun hmem => (h.lead_chars _ hmem).1 rfl
  have hclose : '>' ∉ m.lead := fun hmem => (h.lead_chars _ hmem).2 rfl
  calc compact m.text
      = trim (compactTags (joinTags false m.text)) := by rw [compact_eq, h.isBare.stripped_eq]
    _ = trim (m.lead ++ compactTags (joinTags false (tagsText m.tags))) := by
        rw [text, joinTags_append hclose, compactTags_append hopen]
    _ = trim m.compacted := by rw [compactTags_tagsText h.tag h.behind_chars, compacted]

/-- An image with white space between its tags and within them. -/
def spacedImage : TaggedText :=
  ⟨"\n".toList,
    [(⟨"svg  a = '1  2'".toList⟩, "\n  ".toList), (⟨"g / ".toList⟩, " b ".toList),
      (⟨"/ svg\n".toList⟩, " ".toList)]⟩

theorem compact_text_spacedImage :
    spacedImage.IsProper ∧
      compact "\n<svg  a = '1  2'>\n  <g / > b </ svg\n> ".toList =
        "<svg a='1  2'><g/> b </svg>".toList := by
  have hproper : spacedImage.IsProper := by
    refine ⟨forall_mem_of_all rfl, ?_, ?_, ?_⟩
    · have hinner : ∀ x ∈ spacedImage.tags,
          x.1.inner ≠ [] ∧ (x.1.inner.all fun c => c != '<' && c != '>') = true := by
        decide +kernel
      exact fun x hx => ⟨(hinner x hx).1, List.all_eq_true.1 (hinner x hx).2⟩
    · have hhead : ∀ x ∈ spacedImage.tags,
          x.1.inner.head? ≠ some '!' ∧ x.1.inner.head? ≠ some '?' := by
        decide +kernel
      intro x hx w hw hprefix
      obtain ⟨c, hc, heq⟩ := hw.exists_head? hprefix
      rcases List.mem_pair.1 hc with rfl | rfl
      · exact (hhead x hx).1 heq
      · exact (hhead x hx).2 heq
    · have hbehind : ∀ x ∈ spacedImage.tags,
          (x.2.all fun c => decide (c ≠ '<' ∧ c ≠ '>')) = true := by
        decide +kernel
      exact fun x hx => forall_mem_of_all (hbehind x hx)
  refine ⟨hproper, ?_⟩
  have hcompact := compact_text hproper
  have htext : spacedImage.text = "\n<svg  a = '1  2'>\n  <g / > b </ svg\n> ".toList := by
    decide +kernel
  rw [htext] at hcompact
  rw [hcompact]
  decide +kernel

end TaggedText

end SvgAssets.Markup
