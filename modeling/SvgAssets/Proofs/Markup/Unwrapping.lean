/-
# SvgAssets.Proofs.Markup.Unwrapping -- which tags unwrapping takes off

Unwrapping takes off the opening tag of the root element that a markup begins with, and the last
closing tag of that name behind it. It does not look at what stands between the two, and so elements
of that name inside, whether they are closed or not, are kept with all of their tags
(`unwrap_wrap`): the last closing tag is the last one wherever closing tags and parts of them stand
in front of it, since no closing tag lies across the beginning of another one.
-/
import SvgAssets.Markup.Compact
import SvgAssets.Proofs.Markup.ElementRemoval
import SvgAssets.Proofs.Text.Cutting
import SvgAssets.Proofs.Text.Occurrences

namespace SvgAssets

/-! ## The last token -/

namespace Pattern

variable {α : Type} {p : Pattern α}

/-- A token that no other one follows is the last one. -/
theorem dropLastToken_append (pieces : List (Piece α)) (a : α) (s : Text) :
    dropLastToken (pieces ++ .token a :: s.map .plain) = pieces ++ s.map .plain := by
  induction pieces with
  | nil =>
    rw [List.nil_append, dropLastToken, if_neg]
    · rfl
    · rw [List.any_map, Bool.not_eq_true, List.any_eq_false]
      exact fun _ _ => Bool.false_ne_true
  | cons piece pieces ih =>
    cases piece with
    | plain c => rw [List.cons_append, dropLastToken, ih, List.cons_append]
    | token b => rw [List.cons_append, dropLastToken, if_pos (by simp), ih, List.cons_append]

/-- Where no token lies across the beginning of a token, and none stands behind it, that token is
taken out. -/
theorem eraseLast_append {u s : Text} {a : α} (hcut : p.CutsAt u (p.text a ++ s))
    (hread : ∀ prev, p.read prev (p.text a ++ s) = some (a, s))
    (hsilent : p.Silent (p.text a).getLast? s []) :
    p.eraseLast (u ++ (p.text a ++ s)) = u ++ s := by
  have hbehind : p.scanFrom (p.text a).getLast? s = s.map .plain := by
    have hscan := p.scanFrom_append_of_silent hsilent
    rwa [List.append_nil, scanFrom, List.append_nil] at hscan
  have hplain : (s.map Piece.plain).flatMap p.pieceText = s := by
    rw [List.flatMap_map]
    exact List.flatMap_singleton' s
  have hfront : (p.scanFrom none u).flatMap p.pieceText = u := p.text_scanFrom none u
  rw [eraseLast, scan, hcut.scanFrom_append, p.scanFrom_of_read (hread _), hbehind,
    dropLastToken_append, List.flatMap_append, hfront, hplain]

end Pattern

namespace Markup

open Text

/-! ## The closing tag -/

/-- No closing tag lies across the beginning of another tag. -/
theorem CloseTag.cutsAt {name : Text} (hname : IsTagName name) (u s : Text) :
    (CloseTag.pattern name).CutsAt u ('<' :: s) := by
  refine Pattern.cutsAt_of_exact (fun _ _ _ _ => CloseTag.read_eq_some_iff) ?_
  intro a w z ha htext hw hz _ hprefix
  obtain ⟨c, w, rfl⟩ := List.exists_cons_of_ne_nil hw
  obtain ⟨d, z, rfl⟩ := List.exists_cons_of_ne_nil hz
  obtain ⟨rfl, -⟩ := List.cons_prefix_cons.1 hprefix
  have hinside : ('/' :: (a.name ++ a.gap)) ++ ['>'] = w ++ '<' :: z := by
    have htail := congrArg List.tail htext
    simpa [CloseTag.pattern, CloseTag.text] using htail
  have hmem : '<' ∈ ('/' :: (a.name ++ a.gap)) ++ ['>'] := by
    rw [hinside]
    simp
  rcases List.mem_append.1 hmem with hmem | hmem
  · exact (ha.inside_chars hname _ hmem).1 (by decide)
  · exact absurd hmem (by decide)

/-- No closing tag of the root element stands in the text. -/
def HoldsNoClosing (s : Text) : Prop :=
  ∀ t : CloseTag, t.IsProper rootName → ¬ t.text <:+: s

theorem HoldsNoClosing.silent {s : Text} (h : HoldsNoClosing s) (prev : Option Char) :
    rootClosing.Silent prev s [] := by
  refine Pattern.silent_of_forall_suffix _ (fun v _ hv prev => ?_) prev
  rw [List.append_nil, Option.eq_none_iff_forall_ne_some]
  rintro ⟨t, rest⟩ hread
  obtain ⟨ht, rfl⟩ := CloseTag.read_eq_some_iff.1 hread
  have hwithin : t.text <:+: t.text ++ rest := (List.prefix_append t.text rest).isInfix
  exact h t ht (hwithin.trans hv.isInfix)

/-- The last closing tag is taken out, whatever stands in front of it. -/
theorem eraseLast_rootClosing {last : CloseTag} (hlast : last.IsProper rootName) {tail : Text}
    (htail : HoldsNoClosing tail) (inner : Text) :
    rootClosing.eraseLast (inner ++ (last.text ++ tail)) = inner ++ tail := by
  refine Pattern.eraseLast_append (a := last) ?_ (fun _ => ?_) (htail.silent _)
  · exact CloseTag.cutsAt isTagName_rootName inner _
  · exact CloseTag.read_eq_some_iff.2 ⟨hlast, rfl⟩

/-! ## The opening tag -/

/-- The tag opens a root element, with attributes or without. -/
structure OpenTag.IsRoot (t : OpenTag) : Prop extends t.IsProper rootName where
  admits : Attributes.admitsAny t.attributes = true

/-- With nothing but white space in front, the opening tag is taken off. -/
theorem unwrap_append {lead : Text} (hlead : ∀ c ∈ lead, isBlank c = true) {first : OpenTag}
    (hfirst : first.IsRoot) (s : Text) :
    unwrap (lead ++ (first.text ++ s)) = trim (rootClosing.eraseLast s) := by
  have htrim : trimStart (lead ++ (first.text ++ s)) = first.text ++ s := by
    rw [trimStart, List.dropWhile_append_of_pos hlead]
    rfl
  have hread : rootOpening.read none (first.text ++ s) = some (first, s) :=
    OpenTag.read_eq_some_iff.2 ⟨hfirst.toIsProper, hfirst.admits, rfl⟩
  rw [unwrap, htrim, hread]

/-- Markup that begins with no opening tag keeps all but the white space in front. -/
theorem unwrap_eq_trimStart {s : Text}
    (h : ∀ t : OpenTag, t.IsRoot → ¬ t.text <+: trimStart s) : unwrap s = trimStart s := by
  have hread : rootOpening.read none (trimStart s) = none := by
    rw [Option.eq_none_iff_forall_ne_some]
    rintro ⟨t, rest⟩ hread
    obtain ⟨ht, hadmits, hs⟩ := OpenTag.read_eq_some_iff.1 hread
    exact h t ⟨ht, hadmits⟩ ⟨rest, hs.symm⟩
  rw [unwrap, hread]

/-! ## Wrapped markup -/

/-- The tags of a root element, with the white space in front of them. -/
structure Wrapper where
  lead : Text
  first : OpenTag
  last : CloseTag

namespace Wrapper

/-- A text within the tags, and the text behind them. -/
def wrap (w : Wrapper) (inner tail : Text) : Text :=
  w.lead ++ (w.first.text ++ (inner ++ (w.last.text ++ tail)))

/-- The tags are an opening and a closing tag of a root element. -/
structure IsProper (w : Wrapper) : Prop where
  lead_blank : ∀ c ∈ w.lead, isBlank c = true
  first : w.first.IsRoot
  last : w.last.IsProper rootName

end Wrapper

/-- **Unwrapping takes off the wrapper and nothing else.** Whatever is wrapped, it is left with what
stands behind, if no closing tag stands there. Markup that is not wrapped, in that it does not begin
with an opening tag of a root element, keeps all but the white space in front. -/
theorem unwrap_wrap :
    (∀ w : Wrapper, w.IsProper → ∀ inner tail, HoldsNoClosing tail →
      unwrap (w.wrap inner tail) = trim (inner ++ tail)) ∧
    ∀ s, (∀ t : OpenTag, t.IsRoot → ¬ t.text <+: trimStart s) → unwrap s = trimStart s := by
  refine ⟨fun w hw inner tail htail => ?_, fun s hs => unwrap_eq_trimStart hs⟩
  rw [Wrapper.wrap, unwrap_append hw.lead_blank hw.first, eraseLast_rootClosing hw.last htail]

/-- A wrapper with white space in front and in the closing tag. -/
def spacedWrapper : Wrapper :=
  ⟨" \n".toList, ⟨"svg".toList, " id=\"a\"".toList⟩, ⟨"svg".toList, [' ']⟩⟩

theorem spacedWrapper_isProper : spacedWrapper.IsProper where
  lead_blank := forall_mem_of_all rfl
  first := ⟨⟨isTagName_rootName.isForm, by decide⟩, rfl⟩
  last := ⟨isTagName_rootName.isForm, forall_mem_of_all rfl⟩

/-- A nested element, one that is not closed, and a part of a closing tag are wrapped. -/
theorem unwrap_wrap_nested :
    (spacedWrapper.IsProper ∧ HoldsNoClosing " t ".toList ∧
      unwrap (spacedWrapper.wrap "<svg><svg/></svg><svg></svg".toList " t ".toList) =
        "<svg><svg/></svg><svg></svg t".toList) ∧
    (∀ t : OpenTag, t.IsRoot → ¬ t.text <+: trimStart " <g/> ".toList) ∧
      unwrap " <g/> ".toList = "<g/> ".toList := by
  have htail : HoldsNoClosing " t ".toList := by
    intro t _ hmem
    have hbracket : '<' ∈ " t ".toList := hmem.subset (by simp [CloseTag.text])
    exact absurd hbracket (by decide)
  have hstart : ∀ t : OpenTag, t.IsRoot → ¬ t.text <+: trimStart " <g/> ".toList := by
    rintro t ht ⟨rest, hrest⟩
    have hnone : rootOpening.read none (trimStart " <g/> ".toList) = none := by decide +kernel
    rw [← hrest] at hnone
    have hread : rootOpening.read none (t.text ++ rest) = some (t, rest) :=
      OpenTag.read_eq_some_iff.2 ⟨ht.toIsProper, ht.admits, rfl⟩
    rw [hread] at hnone
    cases hnone
  refine ⟨⟨spacedWrapper_isProper, htail, ?_⟩, hstart, ?_⟩
  · rw [unwrap_wrap.1 _ spacedWrapper_isProper _ _ htail]
    decide +kernel
  · rw [unwrap_wrap.2 _ hstart]
    decide +kernel

end Markup

end SvgAssets
