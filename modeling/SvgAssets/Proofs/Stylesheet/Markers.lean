/-
# SvgAssets.Proofs.Stylesheet.Markers -- what comes back for hidden braces

The markers that stand for the braces of placeholders are made of ordinary characters, and they are
found again by looking for their text. So a marker that the author wrote is taken for hidden braces,
and so is one that the end of a marker makes up together with the text beside it. A text with hidden
braces comes back as it was exactly when none of this can happen (`restore_hide_eq_iff`).

One direction is about pieces: with the first three characters of every marker looked at as part of
the text in front of it, no marker stands anywhere but where one was put (`restore_render`). For the
other one, a text and its hidden form are compared from left to right, and restoring is shown to go
on with the rest where both agree so far (`Hides.restore_cancel`).
-/
import SvgAssets.Proofs.Markup.TagCompaction
import SvgAssets.Proofs.Text.Replacing
import SvgAssets.Stylesheet.Marker

namespace SvgAssets

namespace Stylesheet

open Text

/-! ## Placeholders -/

namespace Placeholder

/-- No brace stands between the braces. -/
def IsProper (p : Placeholder) : Prop := ∀ c ∈ p.inner, isInnerChar c = true

theorem read_eq_some_iff {s rest : Text} {p : Placeholder} :
    read s = some (p, rest) ↔ p.IsProper ∧ s = p.text ++ rest := by
  constructor
  · intro h
    refine ⟨?_, text_of_read h⟩
    simp only [read, Option.bind_eq_bind, Option.bind_eq_some_iff, after?_eq_some_iff] at h
    obtain ⟨s₁, rfl, s₂, h₂, h⟩ := h
    cases h
    exact ((run_eq_iff (q := isInnerChar)).1 rfl).2.1
  · rintro ⟨h, rfl⟩
    obtain ⟨inner⟩ := p
    have hrun := run_append_cons (t := '\x7d' :: rest) h (show isInnerChar '\x7d' = false from rfl)
    simp only at hrun
    simp [read, text, hrun, after?]

/-- Within a placeholder no second one begins, as no two opening braces stand in it. -/
theorem text_append_ne {p q : Placeholder} (hq : q.IsProper) {c d : Char} {s w t rest : Text}
    (hw : q.text = c :: s ++ d :: w) : p.text ++ t ≠ d :: w ++ rest := by
  intro hrest
  simp only [text, List.cons_append, List.cons.injEq] at hw hrest
  obtain ⟨rfl, hw⟩ := hw
  obtain ⟨rfl, hrest⟩ := hrest
  cases s with
  | nil =>
    simp only [List.nil_append, List.cons.injEq, true_and] at hw
    rw [← hw] at hrest
    cases hinner : q.inner with
    | nil => simp [hinner] at hrest
    | cons e v =>
      simp only [hinner, List.cons_append, List.cons.injEq] at hrest
      exact absurd (hq e (by simp [hinner])) (by rw [← hrest.1]; decide)
  | cons e v =>
    simp only [List.cons_append, List.cons.injEq] at hw
    have hmem : '\x7b' ∈ q.inner ++ ['\x7d', '\x7d'] := by
      rw [hw.2]
      simp
    rcases List.mem_append.1 hmem with hmem | hmem
    · exact absurd (hq _ hmem) (by decide)
    · simp at hmem

/-- A text in front of a placeholder does not change what is read, and the placeholder does not
change what is read of the text in front of it. -/
theorem scanFrom_append_text {p : Placeholder} (h : p.IsProper) (prev : Option Char) (s t : Text) :
    pattern.scanFrom prev (s ++ (p.text ++ t)) =
      pattern.scanFrom prev s ++ .token p :: pattern.scan t := by
  have hcongr := pattern.scanFrom_congr fun _ _ _ => rfl
  fun_induction Pattern.scanFrom pattern prev s with
  | case1 prev =>
    have hread : pattern.read prev (p.text ++ t) = some (p, t) := read_eq_some_iff.2 ⟨h, rfl⟩
    rw [List.nil_append, pattern.scanFrom_of_read hread, hcongr _ none]
    rfl
  | case2 prev c s q rest hq ih =>
    obtain ⟨hproper, hs⟩ := read_eq_some_iff.1 hq
    have hread : pattern.read prev (c :: s ++ (p.text ++ t)) = some (q, rest ++ (p.text ++ t)) := by
      rw [hs, List.append_assoc]
      exact read_eq_some_iff.2 ⟨hproper, rfl⟩
    rw [pattern.scanFrom_of_read hread, ih, List.cons_append]
  | case3 prev c s hnone ih =>
    have hread : pattern.read prev (c :: (s ++ (p.text ++ t))) = none := by
      rw [Option.eq_none_iff_forall_ne_some]
      rintro ⟨q, rest⟩ hq
      obtain ⟨hproper, he⟩ := read_eq_some_iff.1 hq
      rw [← List.cons_append] at he
      rcases List.append_eq_append_iff.1 he with ⟨w, hw, hrest⟩ | ⟨w, hw, hrest⟩
      · -- It would end within the placeholder, whose first two characters are opening braces.
        cases w with
        | nil =>
          have htext : c :: s = q.text ++ [] := by simpa using hw.symm
          have hread := read_eq_some_iff.2 ⟨hproper, htext⟩
          rw [show pattern.read prev (c :: s) = read (c :: s) from rfl, hread] at hnone
          cases hnone
        | cons d w => exact text_append_ne hproper hw hrest
      · have hread := read_eq_some_iff.2 ⟨hproper, hw⟩
        rw [show pattern.read prev (c :: s) = read (c :: s) from rfl, hread] at hnone
        cases hnone
    rw [List.cons_append, pattern.scanFrom_of_none hread, ih, List.cons_append]

end Placeholder

/-- A placeholder is hidden wherever it stands. -/
theorem hide_append_text {p : Placeholder} (h : p.IsProper) (s t : Text) :
    hidePlaceholders (s ++ (p.text ++ t)) =
      hidePlaceholders s ++ (p.hidden ++ hidePlaceholders t) := by
  rw [hidePlaceholders, Pattern.replace, Pattern.scan, Placeholder.scanFrom_append_text h,
    List.flatMap_append, List.flatMap_cons]
  rfl

/-! ## Texts around placeholders -/

/-- The text of placeholders with the given texts for their braces, each with the text behind it. -/
def renderSpans (opening closing : Text) (spans : List (Placeholder × Text)) : Text :=
  spans.flatMap fun (p, behind) => opening ++ p.inner ++ closing ++ behind

/-- The spans of a text. -/
abbrev spans (s : Text) : Text × List (Placeholder × Text) :=
  Pattern.spansOf (Placeholder.pattern.scan s)

theorem renderSpans_cons (opening closing : Text) (p : Placeholder) (behind : Text)
    (rest : List (Placeholder × Text)) :
    renderSpans opening closing ((p, behind) :: rest) =
      opening ++ p.inner ++ closing ++ behind ++ renderSpans opening closing rest := by
  rw [renderSpans, List.flatMap_cons]
  rfl

theorem hide_eq_render (s : Text) :
    hidePlaceholders s = (spans s).1 ++ renderSpans openMarker closeMarker (spans s).2 :=
  Pattern.flatMap_replacement _ (Placeholder.pattern.scan s)

theorem eq_render (s : Text) :
    s = (spans s).1 ++ renderSpans ['\x7b', '\x7b'] ['\x7d', '\x7d'] (spans s).2 := by
  conv => lhs; rw [← Placeholder.pattern.replace_text s]
  exact Pattern.flatMap_replacement _ (Placeholder.pattern.scan s)

theorem isProper_of_mem_scan {s : Text} {p : Placeholder}
    (h : .token p ∈ Placeholder.pattern.scan s) : p.IsProper := by
  obtain ⟨prev, s', rest, hread⟩ := Placeholder.pattern.exists_read_of_mem_scanFrom h
  exact (Placeholder.read_eq_some_iff.1 hread).1

theorem isProper_of_mem_spans {s : Text} : ∀ x ∈ (spans s).2, x.1.IsProper := by
  have hpieces : ∀ pieces : List (Piece Placeholder), (∀ p, .token p ∈ pieces → p.IsProper) →
      ∀ x ∈ (Pattern.spansOf pieces).2, x.1.IsProper := by
    intro pieces
    induction pieces with
    | nil => exact fun _ x hx => absurd hx List.not_mem_nil
    | cons piece pieces ih =>
      intro h x hx
      have hrest := ih fun p hp => h p (List.mem_cons_of_mem _ hp)
      cases piece with
      | plain c => exact hrest x hx
      | token p =>
        rcases List.mem_cons.1 hx with rfl | hx
        · exact h p (List.mem_cons_self ..)
        · exact hrest x hx
  exact hpieces _ fun p => isProper_of_mem_scan

/-! ## Replacing markers -/

/-- A marker that stands at its place is found there. -/
theorem replaceAll_marker {x : Char} (hx : x ≠ '_') {w : Text}
    (h : ¬ ['_', x, x, '_'] <:+: w ++ ['_']) (new t : Text) :
    replaceAll '_' [x, x, '_'] new (w ++ ('_' :: x :: x :: '_' :: t)) =
      w ++ new ++ replaceAll '_' [x, x, '_'] new t := by
  rw [replaceAll_append (t := '_' :: x :: x :: '_' :: t), List.append_assoc]
  · exact congrArg (w ++ ·) (replaceAll_of_isPrefix t)
  · -- An earlier occurrence would lie in the text, or end where the marker begins.
    intro v hne hv hm
    refine h (List.IsInfix.trans ?_ (List.suffix_append_self_iff.2 hv : v ++ ['_'] <:+ _).isInfix)
    obtain ⟨u, hu⟩ := hm
    match v, hne with
    | [a], _ => simp_all
    | [a, b], _ => simp_all
    | a :: b :: c :: v, _ =>
      simp only [List.cons_append, List.cons.injEq, List.nil_append] at hu
      obtain ⟨rfl, rfl, rfl, hu⟩ := hu
      cases v with
      | nil => exact ⟨[], [], by simp⟩
      | cons d v =>
        simp only [List.cons_append, List.cons.injEq] at hu
        exact ⟨[], v ++ ['_'], by simp [← hu.1]⟩

/-- The text with the opening braces of its placeholders restored. -/
abbrev restoreOpening (s : Text) : Text := replaceAll '_' ['o', 'o', '_'] ['\x7b', '\x7b'] s

/-- The text with the closing braces of its placeholders restored. -/
abbrev restoreClosing (s : Text) : Text := replaceAll '_' ['O', 'O', '_'] ['\x7d', '\x7d'] s

theorem restoreOpening_render {w : Text} {spans : List (Placeholder × Text)}
    (h : ¬ openMarker <:+: w ++ renderSpans ['_', 'z'] closeMarker spans) :
    restoreOpening (w ++ renderSpans openMarker closeMarker spans) =
      w ++ renderSpans ['\x7b', '\x7b'] closeMarker spans := by
  induction spans generalizing w with
  | nil =>
    rw [renderSpans, List.flatMap_nil, List.append_nil] at h ⊢
    rw [renderSpans, List.flatMap_nil, List.append_nil]
    exact replaceAll_eq_self h
  | cons x rest ih =>
    obtain ⟨p, behind⟩ := x
    rw [renderSpans_cons, show w ++ (['_', 'z'] ++ p.inner ++ closeMarker ++ behind ++
      renderSpans ['_', 'z'] closeMarker rest) = (w ++ ['_']) ++ 'z' ::
        (p.inner ++ closeMarker ++ behind ++ renderSpans ['_', 'z'] closeMarker rest) by simp,
      infix_append_cons_iff (by decide), not_or] at h
    have hrest := ih h.2
    have hmarker := replaceAll_marker (x := 'o') (by decide) h.1 ['\x7b', '\x7b']
      (p.inner ++ closeMarker ++ behind ++ renderSpans openMarker closeMarker rest)
    rw [renderSpans_cons, renderSpans_cons]
    rw [restoreOpening] at hrest ⊢
    rw [hrest] at hmarker
    simpa [openMarker] using hmarker

theorem restoreClosing_render {w : Text} {spans : List (Placeholder × Text)}
    (h : ¬ closeMarker <:+: w ++ renderSpans ['z'] ['_', 'z'] spans) :
    restoreClosing (w ++ renderSpans ['\x7b', '\x7b'] closeMarker spans) =
      w ++ renderSpans ['\x7b', '\x7b'] ['\x7d', '\x7d'] spans := by
  induction spans generalizing w with
  | nil =>
    rw [renderSpans, List.flatMap_nil, List.append_nil] at h ⊢
    rw [renderSpans, List.flatMap_nil, List.append_nil]
    exact replaceAll_eq_self h
  | cons x rest ih =>
    obtain ⟨p, behind⟩ := x
    rw [renderSpans_cons, show w ++ (['z'] ++ p.inner ++ ['_', 'z'] ++ behind ++
      renderSpans ['z'] ['_', 'z'] rest) = w ++ 'z' :: ((p.inner ++ ['_']) ++ 'z' ::
        (behind ++ renderSpans ['z'] ['_', 'z'] rest)) by simp,
      infix_append_cons_iff (by decide), not_or, infix_append_cons_iff (by decide), not_or] at h
    have hclean : ¬ closeMarker <:+: (w ++ ['\x7b', '\x7b'] ++ p.inner) ++ ['_'] := by
      rw [show (w ++ ['\x7b', '\x7b'] ++ p.inner) ++ ['_'] =
        w ++ '\x7b' :: ([] ++ '\x7b' :: (p.inner ++ ['_'])) by simp,
        infix_append_cons_iff (by decide), infix_append_cons_iff (by decide)]
      exact not_or.2 ⟨h.1, not_or.2 ⟨by decide, h.2.1⟩⟩
    have hrest := ih h.2.2
    have hmarker := replaceAll_marker (x := 'O') (by decide) hclean ['\x7d', '\x7d']
      (behind ++ renderSpans ['\x7b', '\x7b'] closeMarker rest)
    rw [renderSpans_cons, renderSpans_cons]
    rw [restoreClosing] at hrest ⊢
    rw [hrest] at hmarker
    simpa [closeMarker] using hmarker

/-- Hidden placeholders are restored when no other marker can be read. -/
theorem restore_render {lead : Text} {spans : List (Placeholder × Text)}
    (hopen : ¬ openMarker <:+: lead ++ renderSpans ['_', 'z'] closeMarker spans)
    (hclose : ¬ closeMarker <:+: lead ++ renderSpans ['z'] ['_', 'z'] spans) :
    restorePlaceholders (lead ++ renderSpans openMarker closeMarker spans) =
      lead ++ renderSpans ['\x7b', '\x7b'] ['\x7d', '\x7d'] spans :=
  (congrArg restoreClosing (restoreOpening_render hopen)).trans
    (restoreClosing_render hclose)

/-! ## When a text comes back -/

/-- No marker stands in the text, and none is made up by the first three characters of one in front
of its last, or by the last character of one in front of the other three. -/
structure IsRestorable (s : Text) : Prop where
  no_open : ¬ openMarker <:+: s
  no_close : ¬ closeMarker <:+: s
  inner_open : ∀ p : Placeholder, p.IsProper → p.text <:+: s → ¬ ['_', 'o', 'o'] <:+ p.inner
  inner_close : ∀ p : Placeholder, p.IsProper → p.text <:+: s → ¬ ['_', 'O', 'O'] <:+ p.inner
  before : ∀ p : Placeholder, p.IsProper → ¬ ['_', 'o', 'o'] ++ p.text <:+: s
  behind : ∀ p : Placeholder, p.IsProper → ¬ p.text ++ ['o', 'o', '_'] <:+: s
  between : ∀ p q : Placeholder, p.IsProper → q.IsProper →
    ¬ p.text ++ (['o', 'o'] ++ q.text) <:+: s

theorem IsRestorable.of_isInfix {s t : Text} (h : IsRestorable t) (hs : s <:+: t) :
    IsRestorable s where
  no_open hm := h.no_open (hm.trans hs)
  no_close hm := h.no_close (hm.trans hs)
  inner_open p hp hm := h.inner_open p hp (hm.trans hs)
  inner_close p hp hm := h.inner_close p hp (hm.trans hs)
  before p hp hm := h.before p hp (hm.trans hs)
  behind p hp hm := h.behind p hp (hm.trans hs)
  between p q hp hq hm := h.between p q hp hq (hm.trans hs)

/-- The text with the given texts around it. -/
abbrev written (lead : Text) (spans : List (Placeholder × Text)) : Text :=
  lead ++ renderSpans ['\x7b', '\x7b'] ['\x7d', '\x7d'] spans

theorem written_cons (lead : Text) (p : Placeholder) (behind : Text)
    (rest : List (Placeholder × Text)) :
    written lead ((p, behind) :: rest) = lead ++ (p.text ++ written behind rest) := by
  simp [written, renderSpans_cons, Placeholder.text]

section

variable {lead : Text} {spans : List (Placeholder × Text)}

theorem inner_infix_written {p : Placeholder} {behind : Text} {rest : List (Placeholder × Text)} :
    p.inner <:+: written lead ((p, behind) :: rest) :=
  ⟨lead ++ ['\x7b', '\x7b'], ['\x7d', '\x7d'] ++ written behind rest, by
    simp [written_cons, Placeholder.text]⟩

theorem text_infix_written {p : Placeholder} {behind : Text} {rest : List (Placeholder × Text)} :
    p.text <:+: written lead ((p, behind) :: rest) :=
  ⟨lead, written behind rest, by simp [written_cons]⟩

theorem written_infix_written {p : Placeholder} {behind : Text}
    {rest : List (Placeholder × Text)} :
    written behind rest <:+: written lead ((p, behind) :: rest) :=
  ⟨lead ++ p.text, [], by simp [written_cons]⟩

theorem head?_renderSpans (opening closing : Text) (spans : List (Placeholder × Text)) :
    ∀ c ∈ (renderSpans ('_' :: opening) closing spans).head?, c = '_' := by
  cases spans with
  | nil => simp [renderSpans]
  | cons x rest => simp [renderSpans]

/-- The last character of a closing marker and the text behind it make up no opening marker. -/
theorem IsRestorable.not_prefix {p : Placeholder} {behind : Text}
    {rest : List (Placeholder × Text)} (hproper : ∀ x ∈ (p, behind) :: rest, x.1.IsProper)
    (h : IsRestorable (written lead ((p, behind) :: rest))) :
    ¬ ['o', 'o', '_'] <+: behind ++ renderSpans ['_', 'z'] closeMarker rest := by
  have hp := hproper _ (List.mem_cons_self ..)
  rw [written_cons] at h
  have hsuffix := h.of_isInfix (List.suffix_append lead _).isInfix
  have hhead := head?_renderSpans ['z'] closeMarker rest
  rintro ⟨t, ht⟩
  match behind with
  | [] => exact absurd (hhead 'o' (by rw [← ht.trans (List.nil_append _)]; rfl)) (by decide)
  | [c] =>
    have ht := (List.cons.inj ht).2
    exact absurd (hhead 'o' (by rw [← ht.trans (List.nil_append _)]; rfl)) (by decide)
  | [c, d] =>
    simp only [List.cons_append, List.cons.injEq, List.nil_append] at ht
    obtain ⟨rfl, rfl, ht⟩ := ht
    cases rest with
    | nil => cases ht
    | cons x rest =>
      obtain ⟨q, b⟩ := x
      have hq := hproper (q, b) (by simp)
      exact hsuffix.between p q hp hq ⟨[], written b rest, by simp [written_cons _ q]⟩
  | c :: d :: e :: b =>
    simp only [List.cons_append, List.cons.injEq, List.nil_append] at ht
    obtain ⟨rfl, rfl, rfl, -⟩ := ht
    exact hsuffix.behind p hp ⟨[], written b rest, by simp [written]⟩

/-- No opening marker is read anywhere but where one was put. -/
theorem IsRestorable.no_open_render (hproper : ∀ x ∈ spans, x.1.IsProper)
    (h : IsRestorable (written lead spans)) :
    ¬ openMarker <:+: lead ++ renderSpans ['_', 'z'] closeMarker spans := by
  induction spans generalizing lead with
  | nil => simpa [written, renderSpans] using h.no_open
  | cons x rest ih =>
    obtain ⟨p, behind⟩ := x
    have hp := hproper _ (List.mem_cons_self ..)
    have hrest := ih (fun y hy => hproper y (List.mem_cons_of_mem _ hy))
      (h.of_isInfix written_infix_written)
    rw [renderSpans_cons, show lead ++ (['_', 'z'] ++ p.inner ++ closeMarker ++ behind ++
      renderSpans ['_', 'z'] closeMarker rest) = (lead ++ ['_']) ++ 'z' :: ((p.inner ++ ['_']) ++
        'O' :: ([] ++ 'O' :: ('_' :: (behind ++ renderSpans ['_', 'z'] closeMarker rest)))) by
          simp [closeMarker],
      infix_append_cons_iff (x := lead ++ ['_']) (by decide),
      infix_append_cons_iff (x := p.inner ++ ['_']) (by decide),
      infix_append_cons_iff (x := []) (by decide), List.infix_cons_iff]
    rintro (hm | hm | hm | hm | hm)
    · rcases infix_append_singleton (m := ['_', 'o', 'o']) hm with hm | ⟨v, rfl⟩
      · exact h.no_open (hm.trans ⟨[], _, rfl⟩)
      · exact h.before p hp ⟨v, written behind rest, by rw [written_cons]; simp⟩
    · rcases infix_append_singleton (m := ['_', 'o', 'o']) hm with hm | hm
      · exact h.no_open (hm.trans inner_infix_written)
      · exact h.inner_open p hp text_infix_written hm
    · exact absurd hm (by decide)
    · exact h.not_prefix hproper (List.prefix_cons_inj '_' |>.1 hm)
    · exact hrest hm

/-- No closing marker is read anywhere but where one was put. -/
theorem IsRestorable.no_close_render (hproper : ∀ x ∈ spans, x.1.IsProper)
    (h : IsRestorable (written lead spans)) :
    ¬ closeMarker <:+: lead ++ renderSpans ['z'] ['_', 'z'] spans := by
  induction spans generalizing lead with
  | nil => simpa [written, renderSpans] using h.no_close
  | cons x rest ih =>
    obtain ⟨p, behind⟩ := x
    have hp := hproper _ (List.mem_cons_self ..)
    have hrest := ih (fun y hy => hproper y (List.mem_cons_of_mem _ hy))
      (h.of_isInfix written_infix_written)
    rw [renderSpans_cons, show lead ++ (['z'] ++ p.inner ++ ['_', 'z'] ++ behind ++
      renderSpans ['z'] ['_', 'z'] rest) = lead ++ 'z' :: ((p.inner ++ ['_']) ++ 'z' ::
        (behind ++ renderSpans ['z'] ['_', 'z'] rest)) by simp,
      infix_append_cons_iff (by decide), infix_append_cons_iff (by decide)]
    rintro (hm | hm | hm)
    · exact h.no_close (hm.trans ⟨[], _, rfl⟩)
    · rcases infix_append_singleton (m := ['_', 'O', 'O']) hm with hm | hm
      · exact h.no_close (hm.trans inner_infix_written)
      · exact h.inner_close p hp text_infix_written hm
    · exact hrest hm

end

theorem IsRestorable.restore_hide {s : Text} (h : IsRestorable s) :
    restorePlaceholders (hidePlaceholders s) = s := by
  have hwritten := eq_render s
  rw [hwritten] at h
  rw [hide_eq_render, restore_render (h.no_open_render isProper_of_mem_spans)
    (h.no_close_render isProper_of_mem_spans)]
  exact hwritten.symm

/-! ## When it does not -/

/-- The second text is the first with some double braces hidden. -/
inductive Hides : Text → Text → Prop
  | nil : Hides [] []
  | keep (c : Char) {s h : Text} : Hides s h → Hides (c :: s) (c :: h)
  | opening {s h : Text} : Hides s h → Hides ('\x7b' :: '\x7b' :: s) (openMarker ++ h)
  | closing {s h : Text} : Hides s h → Hides ('\x7d' :: '\x7d' :: s) (closeMarker ++ h)

namespace Hides

theorem refl : (s : Text) → Hides s s
  | [] => .nil
  | c :: s => .keep c (refl s)

theorem append {s t h k : Text} (hs : Hides s h) (ht : Hides t k) : Hides (s ++ t) (h ++ k) := by
  induction hs with
  | nil => exact ht
  | keep c _ ih => exact .keep c ih
  | opening _ ih =>
    rw [List.append_assoc]
    exact .opening ih
  | closing _ ih =>
    rw [List.append_assoc]
    exact .closing ih

theorem hide (s : Text) : Hides s (hidePlaceholders s) := by
  conv => lhs; rw [← Placeholder.pattern.text_scan s]
  rw [hidePlaceholders, Pattern.replace]
  induction Placeholder.pattern.scan s with
  | nil => exact .nil
  | cons piece pieces ih =>
    rw [List.flatMap_cons, List.flatMap_cons]
    refine Hides.append ?_ ih
    cases piece with
    | plain c => exact refl [c]
    | token p => exact .opening ((refl p.inner).append (.closing .nil))

/-- A character that is no brace is kept at its place. -/
theorem exists_of_append_cons {s t h : Text} {c : Char} (hc : isInnerChar c = true)
    (hs : Hides (s ++ c :: t) h) : ∃ a b, h = a ++ c :: b ∧ Hides s a ∧ Hides t b := by
  generalize he : s ++ c :: t = u at hs
  induction hs generalizing s with
  | nil => simp at he
  | @keep d u h hu ih =>
    match s with
    | [] =>
      simp only [List.nil_append, List.cons.injEq] at he
      obtain ⟨rfl, rfl⟩ := he
      exact ⟨[], h, rfl, .nil, hu⟩
    | e :: s =>
      simp only [List.cons_append, List.cons.injEq] at he
      obtain ⟨rfl, he⟩ := he
      obtain ⟨a, b, rfl, ha, hb⟩ := ih he
      exact ⟨e :: a, b, rfl, .keep e ha, hb⟩
  | @opening u h hu ih =>
    match s with
    | [] => exact absurd hc (by rw [(List.cons.inj he).1]; decide)
    | [e] => exact absurd hc (by rw [(List.cons.inj (List.cons.inj he).2).1]; decide)
    | e :: f :: s =>
      simp only [List.cons_append, List.cons.injEq] at he
      obtain ⟨rfl, rfl, he⟩ := he
      obtain ⟨a, b, rfl, ha, hb⟩ := ih he
      exact ⟨openMarker ++ a, b, by simp, .opening ha, hb⟩
  | @closing u h hu ih =>
    match s with
    | [] => exact absurd hc (by rw [(List.cons.inj he).1]; decide)
    | [e] => exact absurd hc (by rw [(List.cons.inj (List.cons.inj he).2).1]; decide)
    | e :: f :: s =>
      simp only [List.cons_append, List.cons.injEq] at he
      obtain ⟨rfl, rfl, he⟩ := he
      obtain ⟨a, b, rfl, ha, hb⟩ := ih he
      exact ⟨closeMarker ++ a, b, by simp, .closing ha, hb⟩

/-- A stretch without braces is kept. -/
theorem exists_of_append {c : Char} {w s t h : Text} (hw : ∀ d ∈ c :: w, isInnerChar d = true)
    (hs : Hides (s ++ (c :: w ++ t)) h) :
    ∃ a b, h = a ++ (c :: w ++ b) ∧ Hides s a ∧ Hides t b := by
  induction w generalizing c s h with
  | nil => exact exists_of_append_cons (hw c (by simp)) hs
  | cons d w ih =>
    obtain ⟨a, b, rfl, ha, hb⟩ := exists_of_append_cons (hw c (by simp)) hs
    obtain ⟨a', b', rfl, ha', hb'⟩ :=
      ih (s := []) (c := d) (fun e he => hw e (List.mem_cons_of_mem c he)) hb
    cases ha'
    exact ⟨a, b', rfl, ha, hb'⟩

/-- A stretch without braces at the end of a text is not hidden. -/
theorem exists_hide_append {c : Char} {w : Text} (hw : ∀ d ∈ c :: w, isInnerChar d = true)
    (s : Text) : ∃ a, hidePlaceholders (s ++ c :: w) = a ++ c :: w ∧ Hides s a := by
  have hs := hide (s ++ (c :: w ++ []))
  obtain ⟨a, b, he, ha, hb⟩ := exists_of_append hw hs
  cases hb
  rw [List.append_nil] at he
  exact ⟨a, he, ha⟩

/-- A character that no marker holds was there before the braces were hidden. -/
theorem exists_of_hidden_append_cons {s a b : Text} {c : Char} (hopening : c ∉ openMarker)
    (hclosing : c ∉ closeMarker) (h : Hides s (a ++ c :: b)) :
    ∃ u t, s = u ++ c :: t ∧ Hides u a ∧ Hides t b := by
  generalize he : a ++ c :: b = x at h
  induction h generalizing a with
  | nil => simp at he
  | @keep d s x hs ih =>
    cases a with
    | nil =>
      obtain ⟨rfl, rfl⟩ := List.cons.inj he
      exact ⟨[], s, rfl, .nil, hs⟩
    | cons e a =>
      rw [List.cons_append, List.cons.injEq] at he
      obtain ⟨rfl, he⟩ := he
      obtain ⟨u, t, rfl, hu, ht⟩ := ih he
      exact ⟨e :: u, t, rfl, .keep e hu, ht⟩
  | opening hs ih =>
    obtain ⟨a', rfl, hrest⟩ := exists_of_append_eq hopening he.symm
    obtain ⟨u, t, rfl, hu, ht⟩ := ih hrest.symm
    exact ⟨'\x7b' :: '\x7b' :: u, t, rfl, .opening hu, ht⟩
  | closing hs ih =>
    obtain ⟨a', rfl, hrest⟩ := exists_of_append_eq hclosing he.symm
    obtain ⟨u, t, rfl, hu, ht⟩ := ih hrest.symm
    exact ⟨'\x7d' :: '\x7d' :: u, t, rfl, .closing hu, ht⟩

/-- A stretch that shares no character with a marker was there before. -/
theorem exists_of_hidden_append {c : Char} {w s a b : Text}
    (hw : ∀ d ∈ c :: w, d ∉ openMarker ∧ d ∉ closeMarker) (h : Hides s (a ++ (c :: w ++ b))) :
    ∃ u t, s = u ++ (c :: w ++ t) ∧ Hides u a ∧ Hides t b := by
  induction w generalizing c s a with
  | nil =>
    obtain ⟨hopening, hclosing⟩ := hw c (List.mem_cons_self ..)
    exact exists_of_hidden_append_cons hopening hclosing h
  | cons d w ih =>
    obtain ⟨hopening, hclosing⟩ := hw c (List.mem_cons_self ..)
    obtain ⟨u, t, rfl, hu, ht⟩ := exists_of_hidden_append_cons hopening hclosing h
    obtain ⟨u', t', rfl, hu', ht'⟩ :=
      ih (a := []) (c := d) (fun e he => hw e (List.mem_cons_of_mem c he)) ht
    cases hu'
    exact ⟨u, t', rfl, hu, ht'⟩

end Hides

theorem restore_eq (s : Text) : restorePlaceholders s = restoreClosing (restoreOpening s) := rfl

/-- What restoring begins with when an opening marker comes first. -/
theorem restore_openMarker_append (s : Text) :
    restorePlaceholders (openMarker ++ s) =
      '\x7b' :: '\x7b' :: restorePlaceholders s := by
  have hopen : restoreOpening (openMarker ++ s) = '\x7b' :: '\x7b' :: restoreOpening s :=
    replaceAll_of_isPrefix s
  rw [restore_eq, hopen, restoreClosing, replaceAll_cons (by simp), replaceAll_cons (by simp)]
  rfl

/-- Restoring opening markers does not change a closing one, except that its last character may
belong to an opening one. -/
theorem restoreOpening_closeMarker_append (s : Text) :
    restoreOpening (closeMarker ++ s) = '_' :: 'O' :: 'O' :: restoreOpening ('_' :: s) := by
  have hne : ¬ openMarker <+: '_' :: 'O' :: 'O' :: '_' :: s := by simp [openMarker]
  have hletter : ∀ t, ¬ openMarker <+: 'O' :: t := by simp [openMarker]
  rw [show closeMarker ++ s = '_' :: 'O' :: 'O' :: '_' :: s from rfl, restoreOpening,
    replaceAll_cons hne, replaceAll_cons (hletter _), replaceAll_cons (hletter _)]

theorem restore_closeMarker_append {s : Text} (h : ¬ ['o', 'o', '_'] <+: s) :
    restorePlaceholders (closeMarker ++ s) =
      '\x7d' :: '\x7d' :: restorePlaceholders s := by
  have hkeep : restoreOpening ('_' :: s) = '_' :: restoreOpening s :=
    replaceAll_cons fun hm => h (List.prefix_cons_inj '_' |>.1 hm)
  rw [restore_eq, restoreOpening_closeMarker_append, hkeep]
  exact replaceAll_of_isPrefix _

/-- A closing marker whose last character is taken for the first of an opening one stays. -/
theorem restore_closeMarker_append_letters (s : Text) :
    ∃ t, restorePlaceholders (closeMarker ++ 'o' :: 'o' :: '_' :: s) =
      '_' :: 'O' :: 'O' :: '\x7b' :: t := by
  have hopen : restoreOpening ('_' :: 'o' :: 'o' :: '_' :: s) =
      '\x7b' :: '\x7b' :: restoreOpening s := replaceAll_of_isPrefix s
  rw [restore_eq, restoreOpening_closeMarker_append, hopen, restoreClosing,
    replaceAll_cons (by simp), replaceAll_cons (by simp), replaceAll_cons (by simp),
    replaceAll_cons (by simp)]
  exact ⟨_, rfl⟩

/-- A closing marker gives way to a brace, or stays without its last character. -/
theorem restore_closeMarker_append_ne (s t : Text) :
    restorePlaceholders (closeMarker ++ s) ≠ closeMarker ++ t := by
  intro he
  by_cases h : ['o', 'o', '_'] <+: s
  · obtain ⟨v, rfl⟩ := h
    obtain ⟨u, hu⟩ := restore_closeMarker_append_letters v
    rw [show closeMarker ++ (['o', 'o', '_'] ++ v) = closeMarker ++ 'o' :: 'o' :: '_' :: v from rfl,
      hu] at he
    exact absurd he (by simp [closeMarker])
  · rw [restore_closeMarker_append h] at he
    exact absurd (List.cons.inj he).1 (by decide)

/-- Where a text and its hidden form agree with what restoring gives, restoring has come this
far. -/
theorem Hides.restore_cancel {u a b t : Text} (h : Hides u a)
    (he : restorePlaceholders (a ++ b) = u ++ t) : restorePlaceholders b = t := by
  induction h with
  | nil => exact he
  | @keep c s h hs ih =>
    refine ih ?_
    rw [List.cons_append, List.cons_append] at he
    -- Neither kind of marker begins here, for it would give way to a brace.
    have hopen : restoreOpening (c :: (h ++ b)) = c :: restoreOpening (h ++ b) := by
      by_cases hm : openMarker <+: c :: (h ++ b)
      · obtain ⟨v, hv⟩ := hm
        rw [← hv, restore_openMarker_append] at he
        have hc : c = '_' := (List.cons.inj hv).1.symm
        rw [hc] at he
        exact absurd (List.cons.inj he).1 (by decide)
      · exact replaceAll_cons hm
    rw [restore_eq, hopen] at he
    by_cases hm : closeMarker <+: c :: restoreOpening (h ++ b)
    · obtain ⟨v, hv⟩ := hm
      have hclose : restoreClosing (closeMarker ++ v) = ['\x7d', '\x7d'] ++ restoreClosing v :=
        replaceAll_of_isPrefix v
      rw [← hv, hclose] at he
      have hc : c = '_' := (List.cons.inj hv).1.symm
      rw [hc] at he
      exact absurd (List.cons.inj he).1 (by decide)
    · rw [restoreClosing, replaceAll_cons hm] at he
      exact (List.cons.inj he).2
  | opening _ ih =>
    rw [List.append_assoc, restore_openMarker_append] at he
    exact ih (List.cons.inj (List.cons.inj he).2).2
  | @closing s h _ ih =>
    rw [List.append_assoc] at he
    by_cases hm : ['o', 'o', '_'] <+: h ++ b
    · obtain ⟨v, hv⟩ := hm
      obtain ⟨w, hw⟩ := restore_closeMarker_append_letters v
      rw [← hv, show closeMarker ++ (['o', 'o', '_'] ++ v) =
        closeMarker ++ 'o' :: 'o' :: '_' :: v from rfl, hw] at he
      exact absurd (List.cons.inj he).1 (by decide)
    · rw [restore_closeMarker_append hm] at he
      exact ih (List.cons.inj (List.cons.inj he).2).2

/-- A placeholder up to its closing braces. -/
theorem Hides.hide_append_opening (u w : Text) :
    Hides (u ++ '\x7b' :: '\x7b' :: w) (hidePlaceholders u ++ (openMarker ++ w)) :=
  (Hides.hide u).append (.opening (.refl w))

section

variable {s u a b t : Text} {p q : Placeholder}

theorem restore_eq_of_hides (h : restorePlaceholders (hidePlaceholders s) = s) (hu : Hides u a)
    (hs : s = u ++ t) (hhide : hidePlaceholders s = a ++ b) : restorePlaceholders b = t :=
  hu.restore_cancel (by rw [← hhide, h, hs])

/-- An opening marker gives way to a brace, so it does not begin where the text goes on
otherwise. -/
theorem not_opening_of_hides (h : restorePlaceholders (hidePlaceholders s) = s) (hu : Hides u a)
    (hs : s = u ++ '_' :: t) : hidePlaceholders s ≠ a ++ (openMarker ++ b) := by
  intro hhide
  have he := restore_eq_of_hides h hu hs hhide
  rw [restore_openMarker_append] at he
  exact absurd (List.cons.inj he).1 (by decide)

/-- A closing marker in front of these letters stays, so it was not put in. -/
theorem not_closing_of_hides (h : restorePlaceholders (hidePlaceholders s) = s) (hu : Hides u a)
    (hs : s = u ++ '\x7d' :: t) :
    hidePlaceholders s ≠ a ++ (closeMarker ++ 'o' :: 'o' :: '_' :: b) := by
  intro hhide
  obtain ⟨v, hv⟩ := restore_closeMarker_append_letters b
  have he := restore_eq_of_hides h hu hs hhide
  rw [hv] at he
  exact absurd (List.cons.inj he).1 (by decide)

theorem not_openMarker_infix (h : restorePlaceholders (hidePlaceholders s) = s) :
    ¬ openMarker <:+: s := by
  rintro ⟨u, v, hs⟩
  rw [List.append_assoc] at hs
  have hhides := Hides.hide s
  rw [← hs] at hhides
  obtain ⟨a, b, hab, hu, -⟩ := hhides.exists_of_append (forall_mem_of_all rfl)
  exact not_opening_of_hides h hu hs.symm (by rw [← hs]; exact hab)

theorem not_closeMarker_infix (h : restorePlaceholders (hidePlaceholders s) = s) :
    ¬ closeMarker <:+: s := by
  rintro ⟨u, v, hs⟩
  rw [List.append_assoc] at hs
  have hhides := Hides.hide s
  rw [← hs] at hhides
  obtain ⟨a, b, hab, hu, -⟩ := hhides.exists_of_append (forall_mem_of_all rfl)
  refine restore_closeMarker_append_ne b v (restore_eq_of_hides h hu hs.symm ?_)
  rw [← hs]
  exact hab

theorem not_open_suffix_inner (h : restorePlaceholders (hidePlaceholders s) = s)
    (hp : p.IsProper) (hm : p.text <:+: s) : ¬ ['_', 'o', 'o'] <:+ p.inner := by
  obtain ⟨u, v, hs⟩ := hm
  rintro ⟨w, hw⟩
  rw [List.append_assoc] at hs
  have hhide := hide_append_text hp u v
  rw [hs] at hhide
  refine not_opening_of_hides h (.hide_append_opening u w)
    (t := 'o' :: 'o' :: '\x7d' :: '\x7d' :: v) (b := 'O' :: 'O' :: '_' :: hidePlaceholders v) ?_ ?_
  · rw [← hs, Placeholder.text, ← hw]
    simp
  · rw [hhide, Placeholder.hidden, ← hw]
    simp [openMarker, closeMarker]

theorem not_close_suffix_inner (h : restorePlaceholders (hidePlaceholders s) = s)
    (hp : p.IsProper) (hm : p.text <:+: s) : ¬ ['_', 'O', 'O'] <:+ p.inner := by
  obtain ⟨u, v, hs⟩ := hm
  rintro ⟨w, hw⟩
  rw [List.append_assoc] at hs
  have hhide := hide_append_text hp u v
  rw [hs] at hhide
  have he := restore_eq_of_hides h (.hide_append_opening u w)
    (t := '_' :: 'O' :: 'O' :: '\x7d' :: '\x7d' :: v)
    (b := closeMarker ++ 'O' :: 'O' :: '_' :: hidePlaceholders v)
    (by rw [← hs, Placeholder.text, ← hw]; simp)
    (by rw [hhide, Placeholder.hidden, ← hw]; simp [openMarker, closeMarker])
  rw [restore_closeMarker_append (by simp)] at he
  exact absurd (List.cons.inj he).1 (by decide)

theorem not_open_before (h : restorePlaceholders (hidePlaceholders s) = s) (hp : p.IsProper) :
    ¬ ['_', 'o', 'o'] ++ p.text <:+: s := by
  rintro ⟨u, v, hs⟩
  have hhide := hide_append_text hp (u ++ ['_', 'o', 'o']) v
  rw [← List.append_assoc, List.append_assoc u, hs] at hhide
  obtain ⟨a, ha, hu⟩ := Hides.exists_hide_append (c := '_') (w := ['o', 'o'])
    (forall_mem_of_all rfl) u
  refine not_opening_of_hides h hu (t := 'o' :: 'o' :: p.text ++ v)
    (b := 'o' :: 'o' :: '_' :: p.inner ++ closeMarker ++ hidePlaceholders v) ?_ ?_
  · rw [← hs]
    simp
  · rw [hhide, ha, Placeholder.hidden]
    simp [openMarker]

theorem not_open_behind (h : restorePlaceholders (hidePlaceholders s) = s) (hp : p.IsProper) :
    ¬ p.text ++ ['o', 'o', '_'] <:+: s := by
  rintro ⟨u, v, hs⟩
  have hhide := hide_append_text hp u (['o', 'o', '_'] ++ v)
  obtain ⟨a, b, hab, ha, -⟩ := Hides.exists_of_append (s := []) (c := 'o') (w := ['o', '_'])
    (forall_mem_of_all rfl) (Hides.hide (['o', 'o', '_'] ++ v))
  cases ha
  rw [← List.append_assoc, ← List.append_assoc, List.append_assoc u, hs, hab] at hhide
  refine not_closing_of_hides h (.hide_append_opening u p.inner)
    (t := '\x7d' :: 'o' :: 'o' :: '_' :: v) (b := b) ?_ ?_
  · rw [← hs]
    simp [Placeholder.text]
  · rw [hhide]
    simp [Placeholder.hidden]

theorem not_open_between (h : restorePlaceholders (hidePlaceholders s) = s) (hp : p.IsProper)
    (hq : q.IsProper) : ¬ p.text ++ (['o', 'o'] ++ q.text) <:+: s := by
  rintro ⟨u, v, hs⟩
  have hhide := hide_append_text hq (u ++ (p.text ++ ['o', 'o'])) v
  obtain ⟨a, ha, hu⟩ := Hides.exists_hide_append (c := 'o') (w := ['o'])
    (forall_mem_of_all rfl) []
  cases hu
  rw [hide_append_text hp, show hidePlaceholders ['o', 'o'] = ['o', 'o'] from ha,
    show u ++ (p.text ++ ['o', 'o']) ++ (q.text ++ v) = s by rw [← hs]; simp] at hhide
  refine not_closing_of_hides h (.hide_append_opening u p.inner)
    (t := '\x7d' :: 'o' :: 'o' :: q.text ++ v)
    (b := 'o' :: 'o' :: '_' :: q.inner ++ closeMarker ++ hidePlaceholders v) ?_ ?_
  · rw [← hs]
    simp [Placeholder.text]
  · rw [hhide]
    simp [Placeholder.hidden, openMarker]

/-- A text that comes back holds no marker, neither by itself nor together with one that was put
in: restoring would go astray there. -/
theorem isRestorable_of_restore_hide (h : restorePlaceholders (hidePlaceholders s) = s) :
    IsRestorable s where
  no_open := not_openMarker_infix h
  no_close := not_closeMarker_infix h
  inner_open _ hp hm := not_open_suffix_inner h hp hm
  inner_close _ hp hm := not_close_suffix_inner h hp hm
  before _ hp := not_open_before h hp
  behind _ hp := not_open_behind h hp
  between _ _ hp hq := not_open_between h hp hq

end

/-- **Hidden placeholders come back exactly in texts without a marker.** Hiding the braces of
placeholders and restoring them gives the text back if no marker stands in it, nor one whose first
or last character is that of a marker which is put in, and in no other case. In particular a text
without placeholders passes through unchanged if and only if it holds no marker. -/
theorem restore_hide_eq_iff (s : Text) :
    restorePlaceholders (hidePlaceholders s) = s ↔ IsRestorable s :=
  ⟨isRestorable_of_restore_hide, IsRestorable.restore_hide⟩

/-- A class name that holds a marker comes back with braces in it. -/
theorem restore_hide_class_name :
    restorePlaceholders (hidePlaceholders ".a_oo_b\x7bfill:red\x7d".toList) ≠
      ".a_oo_b\x7bfill:red\x7d".toList := by
  decide +kernel

end Stylesheet

end SvgAssets
