/-
# SvgAssets.Proofs.Markup.RootTag -- which tag is the root tag

The signature of a document is an opening tag of the root element, with attributes or without, and
unwrapping takes such a tag off. The geometry is taken from the first opening tag that has
attributes. The two are one tag exactly when the first opening tag has attributes
(`rootTag_starts_at_signature_iff`); behind a first tag without attributes the geometry is that of
an element inside (`nested_tag_is_rootTag`).
-/
import SvgAssets.Geometry.Inference
import SvgAssets.Proofs.Markup.Unwrapping

namespace SvgAssets

namespace Pattern

/-! ## Kinds of token among others -/

variable {α : Type} {p q : Pattern α} {keep : α → Bool}

/-- The tokens of `q` are those of `p` that are kept. -/
def Narrows (q p : Pattern α) (keep : α → Bool) : Prop :=
  ∀ prev s a rest, q.read prev s = some (a, rest) ↔ p.read prev s = some (a, rest) ∧ keep a = true

/-- A text with a token of the narrower kind has a first token of the wider kind. It is the first of
the narrower kind too if it is kept, and otherwise that one stands further behind. -/
theorem Narrows.exists_firstFrom (h : Narrows q p keep) {prev : Option Char} {s before rest : Text}
    {a : α} (hfirst : q.firstFrom prev s = some (before, a, rest)) :
    ∃ before' b rest', p.firstFrom prev s = some (before', b, rest') ∧
      (before = before' ↔ keep b = true) ∧ (keep b = true → a = b ∧ rest = rest') := by
  fun_induction firstFrom q prev s generalizing before with
  | case1 => cases hfirst
  | case2 prev c s b behind hread =>
    cases hfirst
    obtain ⟨hwide, hkeep⟩ := (h ..).1 hread
    exact ⟨[], a, rest, by rw [firstFrom, hwide], by simp [hkeep], fun _ => ⟨rfl, rfl⟩⟩
  | case3 prev c s hread ih =>
    obtain ⟨⟨before, found⟩, hfound, he⟩ := Option.map_eq_some_iff.1 hfirst
    cases he
    cases hwide : p.read prev (c :: s) with
    | some found =>
      obtain ⟨b, rest'⟩ := found
      -- What the narrower kind leaves out is not kept.
      have hdrop : keep b ≠ true := by
        intro hkeep
        rw [(h ..).2 ⟨hwide, hkeep⟩] at hread
        cases hread
      exact ⟨[], b, rest', by rw [firstFrom, hwide], by simp [hdrop],
        fun hkeep => absurd hkeep hdrop⟩
    | none =>
      obtain ⟨before', b, rest', hbehind, hiff, hsame⟩ := ih hfound
      exact ⟨c :: before', b, rest', by rw [firstFrom, hwide, hbehind]; rfl, by simp [hiff], hsame⟩

end Pattern

namespace Markup

open Text

/-- Opening tags of the root element that have attributes. -/
abbrev attributedOpening : Pattern OpenTag := OpenTag.pattern rootName Attributes.isPresent

theorem attributedOpening_narrows :
    Pattern.Narrows attributedOpening rootOpening fun t => Attributes.isPresent t.attributes := by
  intro prev s t rest
  have hattributed : attributedOpening.read prev s = some (t, rest) ↔ _ := OpenTag.read_eq_some_iff
  have hany : rootOpening.read prev s = some (t, rest) ↔ _ := OpenTag.read_eq_some_iff
  rw [hattributed, hany, Attributes.admitsAny]
  simp only [Bool.or_eq_true]
  tauto

/-- Attributes of an opening tag are there unless its text is empty. -/
theorem isPresent_iff_of_admitsAny {a : Text} (h : Attributes.admitsAny a = true) :
    Attributes.isPresent a = true ↔ a ≠ [] := by
  cases a with
  | nil => simp [Attributes.isPresent]
  | cons c a => simpa [Attributes.admitsAny] using h

/-- Unwrapping takes off the tag that is the signature, if only white space stands in front. -/
theorem unwrap_of_firstFrom {s before rest : Text} {first : OpenTag}
    (h : rootOpening.firstFrom none s = some (before, first, rest))
    (hbefore : ∀ c ∈ before, isBlank c = true) :
    unwrap s = trim (rootClosing.eraseLast rest) := by
  obtain ⟨prev, hread⟩ := rootOpening.exists_read_of_firstFrom h
  obtain ⟨hproper, hadmits, -⟩ := OpenTag.read_eq_some_iff.1 hread
  have hs : s = before ++ (first.text ++ rest) := by
    rw [rootOpening.firstFrom_eq_some h, List.append_assoc]
    rfl
  rw [hs]
  exact unwrap_append hbefore ⟨hproper, hadmits⟩ rest

/-- **Where the root tag starts.** The tag that the geometry is taken from starts where the
signature is found if and only if the first opening tag of the root element has attributes. Then the
two are the same tag. With nothing but white space in front, the tag of the signature is the one
that unwrapping takes off. -/
theorem rootTag_starts_at_signature_iff {s tagText : Text} (h : rootTag? s = some tagText) :
    ∃ before tag rest before' first rest',
      attributedOpening.firstFrom none s = some (before, tag, rest) ∧ tag.text = tagText ∧
      rootOpening.firstFrom none s = some (before', first, rest') ∧
      (before = before' ↔ first.attributes ≠ []) ∧
      (first.attributes ≠ [] → tag = first ∧ rest = rest') ∧
      ((∀ c ∈ before', isBlank c = true) → unwrap s = trim (rootClosing.eraseLast rest')) := by
  obtain ⟨tag, hfirst, htext⟩ := Option.map_eq_some_iff.1 h
  obtain ⟨⟨before, tag, rest⟩, hattributed, rfl⟩ := Option.map_eq_some_iff.1 hfirst
  obtain ⟨before', first, rest', hsignature, hiff, hsame⟩ :=
    attributedOpening_narrows.exists_firstFrom hattributed
  have hpresent : Attributes.isPresent first.attributes = true ↔ first.attributes ≠ [] := by
    obtain ⟨prev, hread⟩ := rootOpening.exists_read_of_firstFrom hsignature
    exact isPresent_iff_of_admitsAny (OpenTag.read_eq_some_iff.1 hread).2.1
  exact ⟨before, tag, rest, before', first, rest', hattributed, htext, hsignature,
    hiff.trans hpresent, fun hne => hsame (hpresent.2 hne), unwrap_of_firstFrom hsignature⟩

/-- An image of which the root element and the one inside have attributes. -/
def sizedOutside : Text := "<svg width=\"1\"><svg height=\"2\"/></svg>".toList

theorem rootTag_starts_at_signature_iff_nested :
    rootTag? sizedOutside = some "<svg width=\"1\">".toList ∧
      ∃ before tag rest before' first rest',
        attributedOpening.firstFrom none sizedOutside = some (before, tag, rest) ∧
        tag.text = "<svg width=\"1\">".toList ∧
        rootOpening.firstFrom none sizedOutside = some (before', first, rest') ∧
        (before = before' ↔ first.attributes ≠ []) ∧
        (first.attributes ≠ [] → tag = first ∧ rest = rest') ∧
        ((∀ c ∈ before', isBlank c = true) →
          unwrap sizedOutside = trim (rootClosing.eraseLast rest')) :=
  have h : rootTag? sizedOutside = some "<svg width=\"1\">".toList := by decide +kernel
  ⟨h, rootTag_starts_at_signature_iff h⟩

/-- An image of which only the element inside has attributes. -/
def sizedInside : Text := "<svg><svg width=\"1\" height=\"2\"/></svg>".toList

/-- **A nested tag may be taken for the root tag.** The root element has no attributes, and so the
size of the element inside of it is taken for that of the document. -/
theorem nested_tag_is_rootTag :
    (∃ before tag rest before' first rest',
      rootTag? sizedInside = some tag.text ∧
      attributedOpening.firstFrom none sizedInside = some (before, tag, rest) ∧
      rootOpening.firstFrom none sizedInside = some (before', first, rest') ∧ before ≠ before') ∧
    Geometry.infer sizedInside true =
      .ok (some ⟨some (.number (.int 1)), some (.number (.int 2)), none⟩) := by
  refine ⟨⟨"<svg>".toList, ⟨rootName, " width=\"1\" height=\"2\"/".toList⟩, "</svg>".toList, [],
    ⟨rootName, []⟩, "<svg width=\"1\" height=\"2\"/></svg>".toList, ?_, ?_, ?_, ?_⟩, ?_⟩
  all_goals decide +kernel

end Markup

end SvgAssets
