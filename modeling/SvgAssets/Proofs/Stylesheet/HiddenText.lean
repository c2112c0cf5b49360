/-
# SvgAssets.Proofs.Stylesheet.HiddenText -- declarations in a text with hidden placeholders

A variable declaration is a placeholder with a bar in it. So the declarations of a text can be told
from its placeholders (`declarations_eq_declared`), and where a text is put together from characters
and placeholders, its declarations are those among the placeholders, provided that the characters
make up none.

While a style sheet is worked on, the braces of its placeholders are hidden, and the text is cut and
put together elsewhere. Cuts that do not fall within a marker cut the text between its pieces, or
within one placeholder (`exists_of_render_eq`). Scoping cuts in front of selectors only; a
placeholder in a declaration block is never cut, and one in a prelude is when it holds a comma or a
semicolon. Where this does not happen, restoring a scoped text gives back its declarations as they
were hidden (`Scoped.declarations_restore`).
-/
import SvgAssets.Proofs.Stylesheet.Markers
import SvgAssets.Proofs.Stylesheet.ScopedText
import SvgAssets.Proofs.Template.References

namespace SvgAssets.Stylesheet

open Text Template

/-! ## Placeholders that are declarations -/

theorem isInnerChar_of_isFieldChar {c : Char} (h : isFieldChar c = true) :
    isInnerChar c = true := by
  simp only [isFieldChar, Bool.and_eq_true] at h
  simp only [isInnerChar, Bool.and_eq_true]
  exact h.1

namespace Placeholder

/-- The declaration that a placeholder is, if it is one. -/
def declaration? (p : Placeholder) : Option Declaration := (Declaration.read p.text).map (·.1)

/-- The placeholder that a declaration is. -/
def ofDeclaration (d : Declaration) : Placeholder := ⟨d.written ++ '|' :: d.pathText⟩

theorem text_ofDeclaration (d : Declaration) : (ofDeclaration d).text = d.text := by
  simp [ofDeclaration, text, Declaration.text]

theorem isProper_ofDeclaration {d : Declaration} (h : d.IsProper) : (ofDeclaration d).IsProper := by
  intro c hc
  rcases List.mem_append.1 hc with hc | hc
  · exact isInnerChar_of_isFieldChar (h.written_chars c hc)
  · rcases List.mem_cons.1 hc with rfl | hc
    · decide
    · exact isInnerChar_of_isFieldChar (h.pathText_chars c hc)

/-- At one place stands one placeholder only. -/
theorem eq_of_text_append {p q : Placeholder} (hp : p.IsProper) (hq : q.IsProper) {t t' : Text}
    (h : p.text ++ t = q.text ++ t') : p = q ∧ t = t' := by
  have hread := read_eq_some_iff.2 ⟨hp, h.symm⟩
  rw [read_eq_some_iff.2 ⟨hq, rfl⟩] at hread
  cases hread
  exact ⟨rfl, rfl⟩

theorem declaration?_eq_some_iff {p : Placeholder} (hp : p.IsProper) {d : Declaration} :
    p.declaration? = some d ↔ d.IsProper ∧ p = ofDeclaration d := by
  rw [declaration?, Option.map_eq_some_iff]
  constructor
  · rintro ⟨⟨d', rest⟩, hread, rfl⟩
    obtain ⟨hd, he⟩ := Declaration.read_eq_some_iff.1 hread
    rw [← text_ofDeclaration, ← List.append_nil p.text] at he
    exact ⟨hd, (eq_of_text_append hp (isProper_ofDeclaration hd) he).1⟩
  · rintro ⟨hd, rfl⟩
    refine ⟨(d, []), Declaration.read_eq_some_iff.2 ⟨hd, ?_⟩, rfl⟩
    rw [text_ofDeclaration, List.append_nil]

/-- Whether a declaration is read does not depend on what stands behind it. -/
theorem read_text_append_eq_none {p : Placeholder} (hp : p.IsProper) (h : p.declaration? = none)
    (t : Text) : Declaration.read (p.text ++ t) = none := by
  rw [Option.eq_none_iff_forall_ne_some]
  rintro ⟨d, rest⟩ hread
  obtain ⟨hd, he⟩ := Declaration.read_eq_some_iff.1 hread
  rw [← text_ofDeclaration] at he
  obtain ⟨rfl, -⟩ := eq_of_text_append hp (isProper_ofDeclaration hd) he
  rw [(declaration?_eq_some_iff hp).2 ⟨hd, rfl⟩] at h
  cases h

end Placeholder

/-- What is no placeholder is no declaration. -/
theorem read_declaration_eq_none {s : Text} (h : Placeholder.read s = none) :
    Declaration.read s = none := by
  rw [Option.eq_none_iff_forall_ne_some]
  rintro ⟨d, rest⟩ hread
  obtain ⟨hd, rfl⟩ := Declaration.read_eq_some_iff.1 hread
  have hp := Placeholder.isProper_ofDeclaration hd
  rw [Placeholder.read_eq_some_iff.2 ⟨hp, by rw [Placeholder.text_ofDeclaration]⟩] at h
  cases h

/-! ## Declarations of texts put together -/

/-- In front of the first opening brace nothing is declared. -/
theorem declarations_append_left {w : Text} (h : '\x7b' ∉ w) (s : Text) :
    declarations (w ++ s) = declarations s := by
  induction w with
  | nil => rfl
  | cons c w ih =>
    rw [List.mem_cons, not_or] at h
    rw [List.cons_append, declarations_cons (Declaration.read_cons_of_ne (Ne.symm h.1) _), ih h.2]

/-- Behind the last closing brace nothing is declared. -/
theorem declarations_append_right {w : Text} (h : '\x7d' ∉ w) (s : Text) :
    declarations (s ++ w) = declarations s := by
  have hprefix : ∀ {s : Text} {d : Declaration}, d.text <+: s ++ w → d.text <+: s := by
    intro s d hd
    rw [show d.text = ('\x7b' :: '\x7b' :: d.written ++ '|' :: d.pathText ++ ['\x7d']) ++ ['\x7d']
      by simp [Declaration.text]] at hd ⊢
    exact prefix_of_prefix_append h hd
  induction hn : s.length using Nat.strongRecOn generalizing s with
  | ind n ih =>
    cases hread : Declaration.read (s ++ w) with
    | some found =>
      obtain ⟨d, rest⟩ := found
      obtain ⟨hd, he⟩ := Declaration.read_eq_some_iff.1 hread
      obtain ⟨t, rfl⟩ := hprefix ⟨rest, he.symm⟩
      rw [List.append_assoc, declarations_text_append hd, declarations_text_append hd,
        ih t.length ?_ t rfl]
      rw [← hn, List.length_append, Declaration.text, List.length_append, List.length_append,
        List.length_cons]
      omega
    | none =>
      cases s with
      | nil =>
        rw [List.nil_append, declarations_nil]
        refine Declaration.pattern.tokens_of_silent (silent_iff_forall_proper.2 ?_)
        rintro ⟨d, -, hm⟩
        exact h (hm.subset (by simp [Declaration.text]))
      | cons c s =>
        have hnone : Declaration.read (c :: s) = none := by
          rw [Option.eq_none_iff_forall_ne_some]
          rintro ⟨d, rest⟩ hd
          obtain ⟨hd, he⟩ := Declaration.read_eq_some_iff.1 hd
          rw [he, List.append_assoc, Declaration.read_text_append hd] at hread
          cases hread
        rw [List.cons_append] at hread ⊢
        rw [declarations_cons hread, declarations_cons hnone,
          ih s.length (by simp [← hn]) s rfl]

/-- A placeholder that is no declaration declares nothing, nor does a part of it. -/
theorem declarations_text_append_of_none {p : Placeholder} (hp : p.IsProper)
    (h : p.declaration? = none) (s : Text) : declarations (p.text ++ s) = declarations s := by
  have hbrace : '{' ∉ p.inner ++ ['}', '}'] := by
    intro hmem
    rcases List.mem_append.1 hmem with hmem | hmem
    · exact absurd (hp _ hmem) (by decide)
    · simp at hmem
  have htext : p.text ++ s = '{' :: '{' :: (p.inner ++ ['}', '}'] ++ s) := by
    simp [Placeholder.text]
  -- Behind the second brace does not come a third one.
  have hsecond : Declaration.read ('{' :: (p.inner ++ ['}', '}'] ++ s)) = none := by
    rw [Option.eq_none_iff_forall_ne_some]
    rintro ⟨d, rest⟩ hread
    obtain ⟨c, t, he, -⟩ := Declaration.exists_of_read hread
    refine hbrace ?_
    cases hinner : p.inner ++ ['}', '}'] with
    | nil => simp at hinner
    | cons e w =>
      rw [hinner] at he
      simp only [List.cons_append, List.cons.injEq, true_and] at he
      rw [he.1]
      exact List.mem_cons_self ..
  have hfirst := Placeholder.read_text_append_eq_none hp h s
  rw [htext] at hfirst ⊢
  rw [declarations_cons hfirst, declarations_cons hsecond, declarations_append_left hbrace]

/-- A part of a text without declarations has none. -/
theorem declarations_eq_nil_of_isInfix {s t : Text} (h : declarations t = []) (hs : s <:+: t) :
    declarations s = [] := by
  refine Declaration.pattern.tokens_of_silent (silent_iff_forall_proper.2 ?_)
  rintro ⟨d, hd, hm⟩
  have hsilent := Declaration.pattern.silent_of_tokens_eq_nil h
  exact silent_iff_forall_proper.1 hsilent ⟨d, hd, hm.trans hs⟩

/-- The declaration that a piece of a text is, if it is one. -/
def declaredBy? : Piece Placeholder → Option Declaration
  | .plain _ => none
  | .token p => p.declaration?

/-- The declarations among pieces of a text. -/
def declared (pieces : List (Piece Placeholder)) : List Declaration := pieces.filterMap declaredBy?

theorem declared_append (front back : List (Piece Placeholder)) :
    declared (front ++ back) = declared front ++ declared back :=
  List.filterMap_append

theorem declared_cons_plain (c : Char) (pieces : List (Piece Placeholder)) :
    declared (.plain c :: pieces) = declared pieces := rfl

theorem declared_cons_token (p : Placeholder) (pieces : List (Piece Placeholder)) :
    declared (.token p :: pieces) = p.declaration?.toList ++ declared pieces := by
  cases h : p.declaration? with
  | none => exact List.filterMap_cons_none h
  | some d => exact List.filterMap_cons_some h

theorem declared_map_plain (s : Text) : declared (s.map .plain) = [] := by
  rw [declared, List.filterMap_map]
  exact List.filterMap_eq_nil_iff.2 fun _ _ => rfl

/-- The declarations of a text are those among its placeholders. -/
theorem declarations_eq_declared (s : Text) :
    declarations s = declared (Placeholder.pattern.scan s) := by
  rw [Pattern.scan]
  fun_induction Pattern.scanFrom Placeholder.pattern none s with
  | case1 prev => exact declarations_nil
  | case2 prev c s p rest hread ih =>
    obtain ⟨hp, hs⟩ := Placeholder.read_eq_some_iff.1 hread
    rw [hs, declared_cons_token, ← ih]
    cases hd : p.declaration? with
    | some d =>
      obtain ⟨hproper, rfl⟩ := (Placeholder.declaration?_eq_some_iff hp).1 hd
      rw [Placeholder.text_ofDeclaration, declarations_text_append hproper]
      rfl
    | none => exact declarations_text_append_of_none hp hd rest
  | case3 prev c s hread ih =>
    rw [declarations_cons (read_declaration_eq_none hread), ih, declared_cons_plain]

/-- A placeholder within a text is declared between what stands in front of it and behind it. -/
theorem declarations_append_text {p : Placeholder} (hp : p.IsProper) (s t : Text) :
    declarations (s ++ (p.text ++ t)) =
      declarations s ++ (p.declaration?.toList ++ declarations t) := by
  rw [declarations_eq_declared, declarations_eq_declared s, declarations_eq_declared t,
    Pattern.scan, Placeholder.scanFrom_append_text hp, declared_append, declared_cons_token]
  rfl

/-! ## Pieces -/

/-- The text of pieces, with the given texts for the braces of placeholders. -/
def render (opening closing : Text) (pieces : List (Piece Placeholder)) : Text :=
  pieces.flatMap (Pattern.replacement fun p => opening ++ p.inner ++ closing)

section

variable {opening closing : Text}

theorem render_cons_plain (c : Char) (pieces : List (Piece Placeholder)) :
    render opening closing (.plain c :: pieces) = c :: render opening closing pieces := rfl

theorem render_cons_token (p : Placeholder) (pieces : List (Piece Placeholder)) :
    render opening closing (.token p :: pieces) =
      opening ++ (p.inner ++ (closing ++ render opening closing pieces)) := by
  rw [render, List.flatMap_cons, Pattern.replacement, List.append_assoc, List.append_assoc]
  rfl

theorem render_append (front back : List (Piece Placeholder)) :
    render opening closing (front ++ back) =
      render opening closing front ++ render opening closing back :=
  List.flatMap_append

theorem render_map_plain (s : Text) : render opening closing (s.map .plain) = s := by
  rw [render, List.flatMap_map]
  exact List.flatMap_singleton' s

theorem render_eq (pieces : List (Piece Placeholder)) :
    render opening closing pieces = (Pattern.spansOf pieces).1 ++
      renderSpans opening closing (Pattern.spansOf pieces).2 :=
  Pattern.flatMap_replacement _ pieces

/-- A cut of a text with its pieces, at a character: between two pieces, or inside a placeholder. -/
def CutsAt (opening closing : Text) (c : Char) (pieces : List (Piece Placeholder)) (s t : Text) :
    Prop :=
  (∃ front back, pieces = front ++ .plain c :: back ∧ s = render opening closing front ∧
    t = render opening closing back) ∨
  ∃ front p back v w, pieces = front ++ .token p :: back ∧ p.inner = v ++ c :: w ∧
    t = w ++ (closing ++ render opening closing back)

theorem CutsAt.cons {c : Char} {pieces : List (Piece Placeholder)} {s t : Text}
    (h : CutsAt opening closing c pieces s t) (piece : Piece Placeholder) :
    CutsAt opening closing c (piece :: pieces) (render opening closing [piece] ++ s) t := by
  rcases h with ⟨front, back, rfl, rfl, rfl⟩ | ⟨front, p, back, v, w, rfl, hinner, rfl⟩
  · exact .inl ⟨piece :: front, back, rfl, (render_append [piece] front).symm, rfl⟩
  · exact .inr ⟨piece :: front, p, back, v, w, rfl, hinner, rfl⟩

/-- Where a text is cut at a character that no marker holds, its pieces are cut. -/
theorem cutsAt_of_render_eq {c : Char} (hopening : c ∉ opening) (hclosing : c ∉ closing)
    {pieces : List (Piece Placeholder)} {s t : Text}
    (h : render opening closing pieces = s ++ c :: t) : CutsAt opening closing c pieces s t := by
  induction pieces generalizing s with
  | nil => simp [render] at h
  | cons piece pieces ih =>
    cases piece with
    | plain d =>
      rw [render_cons_plain] at h
      cases s with
      | nil =>
        obtain ⟨rfl, rfl⟩ := List.cons.inj h
        exact .inl ⟨[], pieces, rfl, rfl, rfl⟩
      | cons e s =>
        rw [List.cons_append, List.cons.injEq] at h
        obtain ⟨rfl, h⟩ := h
        exact (ih h).cons (.plain d)
    | token p =>
      rw [render_cons_token] at h
      obtain ⟨s₁, rfl, h₁⟩ := exists_of_append_eq hopening h
      rcases exists_of_append_eq_append_cons h₁ with ⟨s₂, rfl, h₂⟩ | ⟨w, hinner, rfl⟩
      · obtain ⟨s₃, rfl, h₃⟩ := exists_of_append_eq hclosing h₂
        have hcut := (ih h₃).cons (.token p)
        rw [render_cons_token] at hcut
        simpa [render] using hcut
      · exact .inr ⟨[], p, pieces, s₁, w, rfl, hinner, rfl⟩

end

/-- In front of the first marker stand characters. -/
theorem exists_of_render_eq_append {pieces : List (Piece Placeholder)} {s t : Text} (hs : '_' ∉ s)
    (h : render openMarker closeMarker pieces = s ++ t) :
    ∃ back, pieces = s.map .plain ++ back ∧ t = render openMarker closeMarker back := by
  induction s generalizing pieces with
  | nil => exact ⟨pieces, rfl, h.symm⟩
  | cons c s ih =>
    rw [List.mem_cons, not_or] at hs
    cases pieces with
    | nil => cases h
    | cons piece pieces =>
      cases piece with
      | plain d =>
        rw [render_cons_plain] at h
        rw [List.cons_append, List.cons.injEq] at h
        obtain ⟨rfl, h⟩ := h
        obtain ⟨back, rfl, ht⟩ := ih hs.2 h
        exact ⟨back, rfl, ht⟩
      | token p =>
        rw [render_cons_token] at h
        exact absurd (List.cons.inj h).1 hs.1

/-- Pieces of a text with hidden braces from which the text can be told again: no other marker can
be read, and no placeholder in a prelude is cut. -/
structure IsMarked (pieces : List (Piece Placeholder)) : Prop where
  proper : ∀ p, .token p ∈ pieces → p.IsProper
  no_open : ¬ openMarker <:+: render ['_', 'z'] closeMarker pieces
  no_close : ¬ closeMarker <:+: render ['z'] ['_', 'z'] pieces
  uncut : ∀ front p back, pieces = front ++ .token p :: back → (',' ∈ p.inner ∨ ';' ∈ p.inner) →
    ¬ OpensBlock (render openMarker closeMarker back)

theorem IsMarked.of_append {front back : List (Piece Placeholder)} (h : IsMarked (front ++ back)) :
    IsMarked front ∧ IsMarked back := by
  have hopen := h.no_open
  have hclose := h.no_close
  rw [render_append] at hopen hclose
  constructor
  · refine ⟨fun p hp => h.proper p (List.mem_append_left _ hp),
      fun hm => hopen (hm.trans (List.prefix_append _ _).isInfix),
      fun hm => hclose (hm.trans (List.prefix_append _ _).isInfix),
      fun f p b hpieces hinner hopens => ?_⟩
    refine h.uncut f p (b ++ back) ?_ hinner ?_
    · rw [hpieces, List.append_assoc, List.cons_append]
    · rw [render_append]
      exact hopens.append _
  · refine ⟨fun p hp => h.proper p (List.mem_append_right _ hp),
      fun hm => hopen (hm.trans (List.suffix_append _ _).isInfix),
      fun hm => hclose (hm.trans (List.suffix_append _ _).isInfix),
      fun f p b hpieces hinner => ?_⟩
    exact h.uncut (front ++ f) p b (by rw [hpieces, List.append_assoc]) hinner

theorem IsMarked.restore {pieces : List (Piece Placeholder)} (h : IsMarked pieces) :
    restorePlaceholders (render openMarker closeMarker pieces) =
      render ['\x7b', '\x7b'] ['\x7d', '\x7d'] pieces := by
  have hopen := h.no_open
  have hclose := h.no_close
  rw [render_eq] at hopen hclose
  rw [render_eq, restore_render hopen hclose, ← render_eq]

/-- Pieces of a text with hidden braces that can be told again, of which nothing but placeholders is
a declaration. -/
structure IsFaithful (pieces : List (Piece Placeholder)) : Prop extends IsMarked pieces where
  hidden : declarations (render openMarker closeMarker pieces) = []

theorem IsFaithful.of_append {front back : List (Piece Placeholder)}
    (h : IsFaithful (front ++ back)) : IsFaithful front ∧ IsFaithful back := by
  have hhidden := h.hidden
  rw [render_append] at hhidden
  exact ⟨⟨h.toIsMarked.of_append.1,
      declarations_eq_nil_of_isInfix hhidden (List.prefix_append _ _).isInfix⟩,
    ⟨h.toIsMarked.of_append.2,
      declarations_eq_nil_of_isInfix hhidden (List.suffix_append _ _).isInfix⟩⟩

/-- Where characters make up no declaration, the declarations of a text are those of its pieces. -/
theorem declarations_append_render (lead : Text) {pieces : List (Piece Placeholder)}
    (hproper : ∀ p, .token p ∈ pieces → p.IsProper)
    (h : declarations (lead ++ render openMarker closeMarker pieces) = []) :
    declarations (lead ++ render ['\x7b', '\x7b'] ['\x7d', '\x7d'] pieces) = declared pieces := by
  induction pieces generalizing lead with
  | nil => exact h
  | cons piece pieces ih =>
    have hrest := fun p hp => hproper p (List.mem_cons_of_mem piece hp)
    cases piece with
    | plain c =>
      rw [render_cons_plain, List.append_cons] at h ⊢
      exact ih (lead ++ [c]) hrest h
    | token p =>
      rw [render_cons_token] at h
      have htext : lead ++ render ['\x7b', '\x7b'] ['\x7d', '\x7d'] (.token p :: pieces) =
          lead ++ (p.text ++ render ['\x7b', '\x7b'] ['\x7d', '\x7d'] pieces) := by
        simp [render_cons_token, Placeholder.text]
      have hlead := declarations_eq_nil_of_isInfix h (List.prefix_append lead _).isInfix
      have hbehind : render openMarker closeMarker pieces <:+: lead ++ (openMarker ++ (p.inner ++
          (closeMarker ++ render openMarker closeMarker pieces))) :=
        ⟨lead ++ (openMarker ++ (p.inner ++ closeMarker)), [], by simp⟩
      rw [htext, declarations_append_text (hproper p (List.mem_cons_self ..)), hlead,
        declared_cons_token]
      exact congrArg (p.declaration?.toList ++ ·)
        (ih [] hrest (declarations_eq_nil_of_isInfix h hbehind))

theorem IsFaithful.declarations_restore {pieces : List (Piece Placeholder)}
    (h : IsFaithful pieces) :
    declarations (restorePlaceholders (render openMarker closeMarker pieces)) =
      declared pieces := by
  rw [h.toIsMarked.restore]
  exact declarations_append_render [] h.proper h.hidden

/-! ## Restoring -/

theorem restore_nil : restorePlaceholders [] = [] := by
  rw [restorePlaceholders, replaceAll, replaceAll]

/-- A stretch in which no marker begins is copied. -/
theorem restore_append_left {w : Text} (h : '_' ∉ w) (s : Text) :
    restorePlaceholders (w ++ s) = w ++ restorePlaceholders s := by
  induction w with
  | nil => rfl
  | cons c w ih =>
    rw [List.mem_cons, not_or] at h
    have hopen : restoreOpening (c :: (w ++ s)) = c :: restoreOpening (w ++ s) :=
      replaceAll_cons fun hm => h.1 (List.cons_prefix_cons.1 hm).1
    rw [List.cons_append, restore_eq, hopen, List.cons_append, ← ih h.2]
    exact replaceAll_cons fun hm => h.1 (List.cons_prefix_cons.1 hm).1

theorem restore_cons_of_ne {c : Char} (hc : c ≠ '_') (s : Text) :
    restorePlaceholders (c :: s) = c :: restorePlaceholders s :=
  restore_append_left (w := [c]) (fun hmem => hc (List.mem_singleton.1 hmem).symm) s

/-- No marker goes across a character that none holds. -/
theorem restore_append_cons {c : Char} (hc : c ∉ ['_', 'o', 'O']) (s t : Text) :
    restorePlaceholders (s ++ c :: t) = restorePlaceholders s ++ restorePlaceholders (c :: t) := by
  have hopen : c ∉ openMarker := fun hmem => hc (by simp_all [openMarker])
  have hclose : c ∉ closeMarker := fun hmem => hc (by simp_all [closeMarker])
  have hfirst : c ≠ '_' := fun he => hc (by rw [he]; decide)
  rw [restore_cons_of_ne hfirst, restorePlaceholders, replaceAll_append_cons hopen,
    replaceAll_append_cons hclose]
  rfl

/-- A stretch at the end that shares no character with a marker is copied. -/
theorem restore_append_right {w : Text} (h : ∀ c ∈ w, c ∉ ['_', 'o', 'O']) (s : Text) :
    restorePlaceholders (s ++ w) = restorePlaceholders s ++ w := by
  cases w with
  | nil => rw [List.append_nil, List.append_nil]
  | cons c w =>
    have hstretch := restore_append_left (w := c :: w) (fun hmem => h '_' hmem (by decide)) []
    rw [List.append_nil, restore_nil, List.append_nil] at hstretch
    rw [restore_append_cons (h c (List.mem_cons_self ..)), hstretch]

theorem not_mem_marker_of_not_isWordChar {c : Char} (h : isWordChar c = false) :
    c ∉ ['_', 'o', 'O'] := by
  intro hmem
  simp only [List.mem_cons, List.not_mem_nil, or_false] at hmem
  rcases hmem with rfl | rfl | rfl
  · exact absurd h (by decide)
  · exact absurd h (by decide)
  · exact absurd h (by decide)

theorem isWordChar_of_isCutChar {c : Char} (h : isCutChar c = true) : isWordChar c = false := by
  simp only [isCutChar, Bool.or_eq_true, beq_iff_eq] at h
  rcases h with ((rfl | rfl) | rfl) | rfl <;> decide

/-- A text of pieces whose first part may be followed by a selector is cut between two pieces, when
no placeholder in a prelude is cut. -/
theorem IsFaithful.exists_of_render_eq {pieces : List (Piece Placeholder)} (h : IsFaithful pieces)
    {w s : Text} (hw : IsCut w) (hs : OpensBlock s)
    (he : render openMarker closeMarker pieces = w ++ s) :
    ∃ front back, pieces = front ++ back ∧ w = render openMarker closeMarker front ∧
      s = render openMarker closeMarker back := by
  rcases List.eq_nil_or_concat w with rfl | ⟨w, c, rfl⟩
  · exact ⟨[], pieces, rfl, rfl, he.symm⟩
  · rw [List.concat_eq_append] at hw he ⊢
    have hcut : isCutChar c = true := hw c (by simp)
    have hmarker := not_mem_marker_of_not_isWordChar (isWordChar_of_isCutChar hcut)
    rw [List.append_assoc, List.singleton_append] at he
    rcases cutsAt_of_render_eq (fun hmem => hmarker (by simp_all [openMarker]))
      (fun hmem => hmarker (by simp_all [closeMarker])) he with
      ⟨front, back, rfl, rfl, rfl⟩ | ⟨front, p, back, v, x, rfl, hinner, rfl⟩
    · exact ⟨front ++ [.plain c], back, by simp, by rw [render_append]; rfl, rfl⟩
    · have hp := h.proper p (by simp)
      refine absurd hs ?_
      rw [opensBlock_append, opensBlock_append]
      · refine h.uncut front p back rfl ?_
        have hc : isInnerChar c = true := hp c (by simp [hinner])
        simp only [isCutChar, Bool.or_eq_true, beq_iff_eq] at hcut
        rcases hcut with ((rfl | rfl) | rfl) | rfl
        · exact absurd hc (by decide)
        · exact absurd hc (by decide)
        · exact .inr (by simp [hinner])
        · exact .inl (by simp [hinner])
      · exact forall_mem_of_all rfl
      · exact fun d hd => hp d (by simp [hinner, hd])

/-! ## Scopes -/

/-- A scope whose placeholder comes back, and which is no declaration. -/
structure IsScope (scopeId instanceVariable : Text) : Prop where
  no_brace : '\x7d' ∉ scopeId
  no_bar : ∀ c ∈ instanceVariable, isFieldChar c = true
  restored : restorePlaceholders (documentScope scopeId instanceVariable) =
    '.' :: scopeId ++ '-' :: (⟨instanceVariable⟩ : Placeholder).text

section

variable {scopeId instanceVariable : Text}

theorem IsScope.declaration?_eq_none (h : IsScope scopeId instanceVariable) :
    (⟨instanceVariable⟩ : Placeholder).declaration? = none := by
  rw [Option.eq_none_iff_forall_ne_some]
  intro d hd
  obtain ⟨-, he⟩ := (Placeholder.declaration?_eq_some_iff
    fun c hc => isInnerChar_of_isFieldChar (h.no_bar c hc)).1 hd
  have hbar : '|' ∈ instanceVariable := by
    rw [Placeholder.mk.inj he]
    simp
  exact absurd (h.no_bar '|' hbar) (by decide)

/-- A scope that is put in declares nothing. -/
theorem IsScope.declarations_restore (h : IsScope scopeId instanceVariable) {c : Char}
    (hc : isWordChar c = false) (s t : Text) :
    declarations (restorePlaceholders (s ++ (documentScope scopeId instanceVariable ++ c :: t))) =
      declarations (restorePlaceholders s) ++ declarations (restorePlaceholders (c :: t)) := by
  have hfront : restorePlaceholders (s ++ (documentScope scopeId instanceVariable ++ c :: t)) =
      restorePlaceholders s ++
        restorePlaceholders (documentScope scopeId instanceVariable ++ c :: t) :=
    restore_append_cons (by decide) s _
  have hbehind := restore_append_cons (not_mem_marker_of_not_isWordChar hc)
    (documentScope scopeId instanceVariable) t
  have hclass : '\x7d' ∉ '.' :: scopeId ++ ['-'] := by
    simpa using h.no_brace
  have hproper : (⟨instanceVariable⟩ : Placeholder).IsProper :=
    fun c hc => isInnerChar_of_isFieldChar (h.no_bar c hc)
  have hdeclared := declarations_append_text hproper
    (restorePlaceholders s ++ ('.' :: scopeId ++ ['-'])) (restorePlaceholders (c :: t))
  rw [h.declaration?_eq_none, declarations_append_right hclass] at hdeclared
  rw [hfront, hbehind, h.restored]
  simpa using hdeclared

/-- **Scoping keeps declarations.** A text with scopes put in is restored with the declarations that
were hidden in it. -/
theorem Scoped.declarations_restore (hscope : IsScope scopeId instanceVariable) {s t : Text}
    (h : Scoped (documentScope scopeId instanceVariable) s t) {pieces : List (Piece Placeholder)}
    (hs : s = render openMarker closeMarker pieces) (hfaithful : IsFaithful pieces) :
    declarations (restorePlaceholders t) = declared pieces := by
  induction h generalizing pieces with
  | refl s =>
    rw [hs]
    exact hfaithful.declarations_restore
  | @put w name gap s t hw hname hopens hgap hnext h ih =>
    -- The text is cut between two pieces.
    obtain ⟨front, behind, rfl, rfl, hbehind⟩ := hfaithful.exists_of_render_eq hw hopens hs.symm
    obtain ⟨back, rfl, rfl⟩ := exists_of_render_eq_append hname hbehind.symm
    obtain ⟨c, u, hu, hc⟩ := hnext
    have hinner := ih rfl hfaithful.of_append.2.of_append.2
    have hmarker : '_' ∉ gap := fun hmem => absurd (hgap _ hmem) (by decide)
    have hbrace : '\x7b' ∉ gap := fun hmem => absurd (hgap _ hmem) (by decide)
    rw [hu, hscope.declarations_restore hc, ← hu, restore_append_left hmarker,
      declarations_append_left hbrace, hinner, hfaithful.of_append.1.declarations_restore,
      declared_append, declared_append, declared_map_plain, List.nil_append]

end

end SvgAssets.Stylesheet
