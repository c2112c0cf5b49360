/-
# SvgAssets.Proofs.Stylesheet.StyleDeclarations -- the declarations that extracted styles hold

Extracting the styles of a document hides the placeholders, minifies and scopes the text, and
restores them. In between, the text of a placeholder is a part of the style sheet: it is minified
like all the rest. So the extracted styles hold the declarations that the author wrote, in the same
order, but each one minified on its own; they are the same exactly when minifying leaves each of
them as it is (`declarations_ofDocument`). A default such as `rgb(1, 2, 3)` loses its spaces
(`ofDocument_drops_spaces`).

This takes a style sheet in which placeholders can be told from the rest (`IsSeparable`): no
comments, no text that is taken for a marker, no nested blocks that look like a declaration once the
space between their braces is gone, and no placeholder in a prelude that is cut where a selector or
a statement ends.
-/
import SvgAssets.Proofs.Stylesheet.HiddenText

namespace SvgAssets.Stylesheet

open Text Template

/-! ## Comments -/

/-- A comment stands in the text. -/
def HasComment (s : Text) : Prop := ∃ u v, s = u ++ '/' :: '*' :: v ∧ ['*', '/'] <:+: v

theorem HasComment.of_isInfix {s t : Text} (h : HasComment s) (hs : s <:+: t) : HasComment t := by
  obtain ⟨u, v, rfl, hv⟩ := h
  obtain ⟨x, y, rfl⟩ := hs
  exact ⟨x ++ u, v ++ y, by simp, hv.trans (List.prefix_append v y).isInfix⟩

theorem tokens_comment_eq_nil_iff {s : Text} : comment.tokens s = [] ↔ ¬ HasComment s := by
  constructor
  · rintro h ⟨u, v, rfl, hv⟩
    have hsilent := comment.silent_of_tokens_eq_nil h
    rw [Pattern.silent_append] at hsilent
    have hread := hsilent.2.1
    rw [List.append_nil] at hread
    exact breakAt?_ne_none hv hread
  · intro h
    refine comment.tokens_of_silent (comment.silent_of_forall_suffix ?_ none)
    intro v _ hv prev
    rw [Option.eq_none_iff_forall_ne_some]
    rintro ⟨content, rest⟩ hread
    have hs := eq_of_readDelimited hread
    rw [List.append_nil] at hs
    refine h (HasComment.of_isInfix ⟨[], content ++ ['*', '/'] ++ rest, ?_, ?_⟩ hv.isInfix)
    · rw [hs]
      simp
    · exact ⟨content, rest, rfl⟩

/-- Hiding braces makes up no comment. -/
theorem hasComment_of_hide {s : Text} (h : HasComment (hidePlaceholders s)) : HasComment s := by
  obtain ⟨u, v, he, ⟨x, y, rfl⟩⟩ := h
  have hides := Hides.hide s
  rw [he, List.append_assoc] at hides
  obtain ⟨u', t, rfl, -, ht⟩ :=
    Hides.exists_of_hidden_append (c := '/') (w := ['*']) (forall_mem_of_all rfl) hides
  obtain ⟨x', y', rfl, -, -⟩ :=
    Hides.exists_of_hidden_append (c := '*') (w := ['/']) (forall_mem_of_all rfl) ht
  exact ⟨u', x' ++ (['*', '/'] ++ y'), rfl, ⟨x', y', by simp⟩⟩

/-! ## Minified pieces -/

/-- A placeholder whose text is minified, as it is between its markers. -/
def Placeholder.packed (p : Placeholder) : Placeholder := ⟨packedWithin p.inner⟩

/-- The pieces of a minified text, where `lead` stands in front of the pieces. -/
def packPieces (lead : Text) : List (Piece Placeholder) → List (Piece Placeholder)
  | [] => (packed lead).map .plain
  | .plain c :: pieces => packPieces (lead ++ [c]) pieces
  | .token p :: pieces =>
    (packedWithin lead).map .plain ++ .token p.packed :: packPieces [] pieces

/-- A text is minified piece by piece. -/
theorem packed_append_render {opening closing : Text} (hopening : IsFixedWord opening)
    (hclosing : IsFixedWord closing) (lead : Text) (pieces : List (Piece Placeholder)) :
    packed (lead ++ render opening closing pieces) =
      render opening closing (packPieces lead pieces) := by
  induction pieces generalizing lead with
  | nil =>
    rw [packPieces, render_map_plain]
    exact congrArg packed (List.append_nil lead)
  | cons piece pieces ih =>
    cases piece with
    | plain c =>
      rw [render_cons_plain, List.append_cons, ih, packPieces]
    | token p =>
      have hrest := ih []
      rw [List.nil_append] at hrest
      rw [render_cons_token, packed_append_word hopening, packed_append_word hclosing,
        hrest, packPieces, render_append, render_map_plain,
        render_cons_token, Placeholder.packed]

theorem isFixedWord_openMarker : IsFixedWord openMarker :=
  ⟨by decide, forall_mem_of_all (by decide)⟩

theorem isFixedWord_closeMarker : IsFixedWord closeMarker :=
  ⟨by decide, forall_mem_of_all (by decide)⟩

theorem packed_render (pieces : List (Piece Placeholder)) :
    packed (render openMarker closeMarker pieces) =
      render openMarker closeMarker (packPieces [] pieces) :=
  packed_append_render isFixedWord_openMarker isFixedWord_closeMarker [] pieces

/-- Each placeholder of the minified pieces is a minified one. -/
theorem exists_of_packPieces_eq {lead : Text} {pieces front back : List (Piece Placeholder)}
    {p : Placeholder} (h : packPieces lead pieces = front ++ .token p :: back) :
    ∃ front' q back', pieces = front' ++ .token q :: back' ∧ p = q.packed ∧
      back = packPieces [] back' := by
  have hplain : ∀ s : Text, .token p ∉ s.map Piece.plain := fun s hmem => by
    obtain ⟨c, -, hc⟩ := List.mem_map.1 hmem
    cases hc
  induction pieces generalizing lead front with
  | nil =>
    rw [packPieces] at h
    exact absurd (by simp [h]) (hplain (packed lead))
  | cons piece pieces ih =>
    cases piece with
    | plain c =>
      obtain ⟨front', q, back', rfl, hp, hback⟩ := ih h
      exact ⟨.plain c :: front', q, back', rfl, hp, hback⟩
    | token q =>
      rw [packPieces] at h
      rcases exists_of_append_eq_append_cons h with ⟨front', rfl, hrest⟩ | ⟨w, he, -⟩
      · cases front' with
        | nil =>
          obtain ⟨hp, hback⟩ := List.cons.inj hrest
          cases hp
          exact ⟨[], q, pieces, rfl, rfl, hback.symm⟩
        | cons piece front' =>
          obtain ⟨front'', r, back', rfl, hp, hback⟩ := ih (List.cons.inj hrest).2
          exact ⟨.token q :: front'', r, back', rfl, hp, hback⟩
      · exact absurd (by simp [he]) (hplain (packedWithin lead))

theorem braces_packed (s : Text) : braces (packed s) = braces s := by
  have hbrace : ∀ {q : Char → Bool} {c : Char}, q '\x7b' = false → q '\x7d' = false →
      q c = true → (!isOutsideBraces c) = false := by
    intro q c hopen hclose hc
    rw [Bool.not_eq_false', isOutsideBraces, Bool.and_eq_true, bne_iff_ne, bne_iff_ne]
    constructor
    · rintro rfl
      rw [hopen] at hc
      cases hc
    · rintro rfl
      rw [hclose] at hc
      cases hc
  exact filter_packed (fun _ => hbrace rfl rfl) (fun _ => hbrace rfl rfl) rfl s

theorem Placeholder.mem_inner_of_mem_packed {p : Placeholder} {c : Char} (hc : c ≠ ' ')
    (h : c ∈ p.packed.inner) : c ∈ p.inner :=
  (mem_of_mem_packedWithin h).resolve_right hc

theorem Placeholder.isProper_packed {p : Placeholder} (h : p.IsProper) : p.packed.IsProper := by
  intro c hc
  rcases mem_of_mem_packedWithin hc with hc | rfl
  · exact h c hc
  · decide

/-- Minified pieces can be told from the text as before. -/
theorem IsMarked.packed {pieces : List (Piece Placeholder)} (h : IsMarked pieces) :
    IsMarked (packPieces [] pieces) := by
  refine ⟨fun p hp => ?_, fun hm => h.no_open ?_, fun hm => h.no_close ?_,
    fun front p back hpieces hinner hopens => ?_⟩
  · obtain ⟨front, back, hpieces⟩ := List.append_of_mem hp
    obtain ⟨front', q, back', rfl, rfl, -⟩ := exists_of_packPieces_eq hpieces
    exact Placeholder.isProper_packed (h.proper q (by simp))
  · rw [← packed_append_render ⟨by decide, forall_mem_of_all (by decide)⟩ isFixedWord_closeMarker,
      List.nil_append] at hm
    exact infix_of_infix_packed isFixedWord_openMarker hm
  · rw [← packed_append_render ⟨by decide, forall_mem_of_all (by decide)⟩
      ⟨by decide, forall_mem_of_all (by decide)⟩, List.nil_append] at hm
    exact infix_of_infix_packed isFixedWord_closeMarker hm
  · obtain ⟨front', q, back', rfl, rfl, rfl⟩ := exists_of_packPieces_eq hpieces
    rw [OpensBlock, ← packed_render, braces_packed] at hopens
    refine h.uncut front' q back' rfl (hinner.imp ?_ ?_) hopens
    · exact Placeholder.mem_inner_of_mem_packed (by decide)
    · exact Placeholder.mem_inner_of_mem_packed (by decide)

/-! ## Minified declarations -/

/-- A declaration whose text is minified, as it is between its markers. -/
def minified (d : Declaration) : Declaration := ⟨packed d.written, packedWithin d.pathText⟩

theorem packedWithin_append_bar (s t : Text) :
    packedWithin (s ++ '|' :: t) = packed s ++ '|' :: packedWithin t := by
  have hwhole := packed_append_underscore (s ++ '|' :: t)
  rw [List.append_assoc, List.cons_append, packed_append_cons_of_not_word (by decide) (by decide),
    packed_append_underscore, ← List.cons_append, ← List.append_assoc] at hwhole
  exact (List.append_cancel_right hwhole).symm

theorem packed_ofDeclaration (d : Declaration) :
    (Placeholder.ofDeclaration d).packed = Placeholder.ofDeclaration (minified d) :=
  congrArg Placeholder.mk (packedWithin_append_bar d.written d.pathText)

theorem isProper_minified {d : Declaration} (h : d.IsProper) : (minified d).IsProper := by
  refine ⟨packed_ne_nil h.written_ne_nil, fun c hc => ?_, packedWithin_ne_nil h.pathText_ne_nil,
    fun c hc => ?_⟩
  · rcases mem_of_mem_packed hc with hc | rfl
    · exact h.written_chars c hc
    · decide
  · rcases mem_of_mem_packedWithin hc with hc | rfl
    · exact h.pathText_chars c hc
    · decide

/-- What is minified to a declaration was one before. -/
theorem exists_of_packed_eq {p : Placeholder} (hp : p.IsProper) {d : Declaration} (hd : d.IsProper)
    (h : p.packed = Placeholder.ofDeclaration d) :
    ∃ d' : Declaration, d'.IsProper ∧ p = Placeholder.ofDeclaration d' := by
  have hinner : packedWithin p.inner = d.written ++ '|' :: d.pathText := Placeholder.mk.inj h
  have hmem : '|' ∈ p.inner := by
    rw [← mem_packedWithin_iff (by decide) (by decide) (by decide), hinner]
    simp
  obtain ⟨v, w, -, hvw, hv⟩ := (breakAt?_cases '|' p.inner).resolve_left fun hnone => hnone.2 hmem
  rw [hvw, packedWithin_append_bar] at hinner
  have hfield : ∀ {u : Text}, (∀ c ∈ u, isFieldChar c = true) → ∀ c ∈ u, (c != '|') = true := by
    intro u hu c hc
    rw [bne_iff_ne]
    rintro rfl
    exact absurd (hu _ hc) (by decide)
  have hpacked : ∀ c ∈ packed v, (c != '|') = true := by
    intro c hc
    rw [bne_iff_ne]
    rintro rfl
    exact (mem_of_mem_packed hc).elim hv (by decide)
  -- Both texts are cut at their first bar.
  obtain ⟨hwritten, -, hpath⟩ :=
    eq_of_append_eq_append hpacked (hfield hd.written_chars) rfl rfl hinner
  have hw : '|' ∉ w := by
    rw [← mem_packedWithin_iff (by decide) (by decide) (by decide), hpath]
    exact fun hbar => absurd (hd.pathText_chars _ hbar) (by decide)
  have hchars : ∀ c ∈ p.inner, c ≠ '|' → isFieldChar c = true := by
    intro c hc hbar
    rw [isFieldChar, Bool.and_eq_true, bne_iff_ne]
    exact ⟨hp c hc, hbar⟩
  refine ⟨⟨v, w⟩, ⟨?_, fun c hc => hchars c ?_ ?_, ?_, fun c hc => hchars c ?_ ?_⟩,
    congrArg Placeholder.mk hvw⟩
  · rintro rfl
    rw [packed_nil] at hwritten
    exact hd.written_ne_nil hwritten.symm
  · simp [hvw, hc]
  · rintro rfl
    exact hv hc
  · rintro rfl
    rw [packedWithin_nil] at hpath
    exact hd.pathText_ne_nil hpath.symm
  · simp [hvw, hc]
  · rintro rfl
    exact hw hc

/-- Minifying makes declarations of declarations, and of nothing else. -/
theorem declaration?_packed {p : Placeholder} (hp : p.IsProper) :
    p.packed.declaration? = p.declaration?.map minified := by
  have hpacked := Placeholder.isProper_packed hp
  cases hd : p.declaration? with
  | some d =>
    obtain ⟨hproper, rfl⟩ := (Placeholder.declaration?_eq_some_iff hp).1 hd
    rw [Option.map_some, Placeholder.declaration?_eq_some_iff hpacked]
    exact ⟨isProper_minified hproper, packed_ofDeclaration d⟩
  | none =>
    rw [Option.map_none, Option.eq_none_iff_forall_ne_some]
    intro d hpd
    obtain ⟨hproper, he⟩ := (Placeholder.declaration?_eq_some_iff hpacked).1 hpd
    obtain ⟨d', hd', rfl⟩ := exists_of_packed_eq hp hproper he
    rw [(Placeholder.declaration?_eq_some_iff hp).2 ⟨hd', rfl⟩] at hd
    cases hd

theorem declared_packPieces {pieces : List (Piece Placeholder)}
    (hproper : ∀ p, .token p ∈ pieces → p.IsProper) (lead : Text) :
    declared (packPieces lead pieces) = (declared pieces).map minified := by
  induction pieces generalizing lead with
  | nil =>
    rw [packPieces, declared_map_plain]
    rfl
  | cons piece pieces ih =>
    have hrest := ih fun p hp => hproper p (List.mem_cons_of_mem piece hp)
    cases piece with
    | plain c =>
      rw [packPieces, hrest, declared_cons_plain]
    | token p =>
      rw [packPieces, declared_append, declared_map_plain, List.nil_append, declared_cons_token,
        declared_cons_token, hrest, declaration?_packed (hproper p (List.mem_cons_self ..)),
        List.map_append]
      cases p.declaration? <;> rfl

/-! ## Extracted styles -/

/-- A style sheet in which placeholders can be told from the rest, before and after minifying. -/
structure IsSeparable (s : Text) : Prop where
  no_comment : comment.tokens s = []
  restored : restorePlaceholders (hidePlaceholders s) = s
  hidden : declarations (minify (hidePlaceholders s)) = []
  uncut : ∀ (front : Text) (p : Placeholder) (back : Text), s = front ++ (p.text ++ back) →
    p.IsProper → (',' ∈ p.inner ∨ ';' ∈ p.inner) → ¬ OpensBlock (hidePlaceholders back)

section

variable {s : Text}

theorem IsSeparable.isMarked (h : IsSeparable s) : IsMarked (Placeholder.pattern.scan s) := by
  have hrestorable := isRestorable_of_restore_hide h.restored
  rw [eq_render s] at hrestorable
  refine ⟨fun p => isProper_of_mem_scan, ?_, ?_, fun front p back hscan => ?_⟩
  · rw [render_eq]
    exact hrestorable.no_open_render isProper_of_mem_spans
  · rw [render_eq]
    exact hrestorable.no_close_render isProper_of_mem_spans
  · obtain ⟨u, t, prev, hs, rfl⟩ := Placeholder.pattern.exists_of_scanFrom_eq hscan
    have hp : p.IsProper := isProper_of_mem_scan (s := s) (by rw [hscan]; simp)
    rw [Placeholder.pattern.scanFrom_congr (fun _ _ _ => rfl) prev none]
    exact h.uncut u p t hs hp

theorem IsSeparable.minify_hide (h : IsSeparable s) :
    minify (hidePlaceholders s) = trim (packed (hidePlaceholders s)) :=
  minify_eq (tokens_comment_eq_nil_iff.2 fun hc =>
    tokens_comment_eq_nil_iff.1 h.no_comment (hasComment_of_hide hc))

theorem isTight_trim_packed (s : Text) : IsTight (trim (packed s)) where
  chain := List.IsChain.infix (isChain_packed s) dropAround_isInfix
  head := head?_dropAround

/-- **Extracting styles keeps their declarations** in order, each one minified. -/
theorem IsSeparable.declarations_scope (h : IsSeparable s) {scopeId instanceVariable t : Text}
    (hscope : IsScope scopeId instanceVariable)
    (ht : scope (minify (hidePlaceholders s)) (documentScope scopeId instanceVariable) = .ok t) :
    declarations (restorePlaceholders t) = (declarations s).map minified := by
  obtain ⟨items, hitems, htext⟩ := exists_of_bind_eq_ok ht
  cases htext
  have hhidden := h.hidden
  rw [h.minify_hide] at hitems hhidden
  have hscoped := scoped_of_parseItems (documentScope scopeId instanceVariable)
    (isTight_trim_packed _) hitems
  -- What trimming takes off at the ends declares nothing.
  obtain ⟨v, w, hpacked, hv, hw⟩ := exists_eq_append_trim (packed (hidePlaceholders s))
  have hblank : ∀ {u : Text} {c : Char}, (∀ d ∈ u, isBlank d = true) → isBlank c = false →
      c ∉ u := by
    intro u c hu hc hmem
    rw [hu c hmem] at hc
    cases hc
  have hrender : render openMarker closeMarker (packPieces [] (Placeholder.pattern.scan s)) =
      v ++ (trim (packed (hidePlaceholders s)) ++ w) := by
    rw [← packed_render, ← List.append_assoc]
    exact hpacked
  obtain ⟨back, hpieces, hback⟩ := exists_of_render_eq_append (hblank hv rfl) hrender
  have hmarked := h.isMarked.packed
  have hdeclared := declared_packPieces (fun p => isProper_of_mem_scan (s := s)) []
  rw [hpieces] at hmarked
  rw [hpieces, declared_append, declared_map_plain, List.nil_append,
    ← declarations_eq_declared] at hdeclared
  have hfaithful : IsFaithful back := ⟨hmarked.of_append.2, by
    rw [← hback, declarations_append_right (hblank hw rfl)]
    exact hhidden⟩
  have hrestored := (hscoped.append_right w).declarations_restore hscope hback hfaithful
  have hmarker : ∀ c ∈ w, c ∉ ['_', 'o', 'O'] := by
    intro c hc hmem
    have hchar := hw c hc
    simp only [List.mem_cons, List.not_mem_nil, or_false] at hmem
    rcases hmem with rfl | rfl | rfl <;> exact absurd hchar (by decide)
  rw [restore_append_right hmarker, declarations_append_right (hblank hw rfl)] at hrestored
  exact hrestored.trans hdeclared

/-! ## One declaration -/

theorem hide_text {p : Placeholder} (hp : p.IsProper) : hidePlaceholders p.text = p.hidden := by
  have hnil : hidePlaceholders [] = [] := by
    rw [hidePlaceholders, Pattern.replace, Pattern.scan, Pattern.scanFrom]
    rfl
  have hwhole := hide_append_text hp [] []
  rw [hnil, List.append_nil, List.append_nil] at hwhole
  exact hwhole

theorem render_singleton (p : Placeholder) :
    render openMarker closeMarker [.token p] = p.hidden := by
  simp [render, Pattern.replacement, Placeholder.hidden]

theorem packPieces_singleton (p : Placeholder) : packPieces [] [.token p] = [.token p.packed] := by
  rw [packPieces, packPieces, packedWithin_nil, packed_nil]
  rfl

theorem trim_hidden (p : Placeholder) : trim p.hidden = p.hidden := by
  have hlast : p.hidden.getLast? = some '_' := by
    simp [Placeholder.hidden, closeMarker]
  refine trim_eq_self (fun c hc => ?_) fun c hc => ?_
  · obtain rfl : '_' = c := Option.some.inj hc
    rfl
  · obtain rfl : '_' = c := Option.some.inj (hlast.symm.trans hc)
    rfl

theorem token_mem_scan {d : Declaration} (h : d ∈ declarations s) :
    d.IsProper ∧ .token (Placeholder.ofDeclaration d) ∈ Placeholder.pattern.scan s := by
  rw [declarations_eq_declared] at h
  obtain ⟨piece, hpiece, hd⟩ := List.mem_filterMap.1 h
  cases piece with
  | plain c => cases hd
  | token p =>
    obtain ⟨hproper, rfl⟩ :=
      (Placeholder.declaration?_eq_some_iff (isProper_of_mem_scan hpiece)).1 hd
    exact ⟨hproper, hpiece⟩

/-- A declaration of a separable sheet, minified on its own. -/
theorem IsSeparable.minify_hide_text (h : IsSeparable s) {d : Declaration}
    (hd : d ∈ declarations s) :
    minify (hidePlaceholders d.text) = (Placeholder.ofDeclaration (minified d)).hidden := by
  obtain ⟨hproper, hmem⟩ := token_mem_scan hd
  obtain ⟨front, back, hscan⟩ := List.append_of_mem hmem
  obtain ⟨u, t, -, hs, -⟩ := Placeholder.pattern.exists_of_scanFrom_eq hscan
  have htext : hidePlaceholders d.text = (Placeholder.ofDeclaration d).hidden := by
    rw [← Placeholder.text_ofDeclaration, hide_text (Placeholder.isProper_ofDeclaration hproper)]
  have hcomment : comment.tokens (hidePlaceholders d.text) = [] := by
    rw [tokens_comment_eq_nil_iff]
    intro hc
    refine tokens_comment_eq_nil_iff.1 h.no_comment ((hasComment_of_hide hc).of_isInfix ⟨u, t, ?_⟩)
    rw [hs, List.append_assoc, ← Placeholder.text_ofDeclaration]
    rfl
  rw [minify_eq hcomment, htext, ← render_singleton, packed_render, packPieces_singleton,
    packed_ofDeclaration, render_singleton, trim_hidden]

theorem IsSeparable.restore_minify_hide_text (h : IsSeparable s) {d : Declaration}
    (hd : d ∈ declarations s) :
    restorePlaceholders (minify (hidePlaceholders d.text)) = (minified d).text := by
  obtain ⟨front, back, hscan⟩ := List.append_of_mem (token_mem_scan hd).2
  have hmarked := h.isMarked
  rw [hscan, List.append_cons] at hmarked
  have hpacked := hmarked.of_append.1.of_append.2.packed
  rw [packPieces_singleton, packed_ofDeclaration] at hpacked
  rw [h.minify_hide_text hd, ← render_singleton, hpacked.restore, ← Placeholder.text_ofDeclaration]
  simp [render, Pattern.replacement, Placeholder.text]

theorem IsSeparable.minify_hide_text_eq_iff (h : IsSeparable s) {d : Declaration}
    (hd : d ∈ declarations s) :
    minify (hidePlaceholders d.text) = hidePlaceholders d.text ↔ minified d = d := by
  have hproper := (token_mem_scan hd).1
  have hp := Placeholder.isProper_ofDeclaration hproper
  rw [h.minify_hide_text hd, ← Placeholder.text_ofDeclaration, hide_text hp]
  constructor
  · intro he
    have hinner : (Placeholder.ofDeclaration (minified d)).inner =
        (Placeholder.ofDeclaration d).inner := by
      simpa [Placeholder.hidden] using he
    -- At one place stands one declaration only.
    have hself := (Placeholder.declaration?_eq_some_iff hp).2 ⟨hproper, rfl⟩
    rw [(Placeholder.declaration?_eq_some_iff hp).2
      ⟨isProper_minified hproper, congrArg Placeholder.mk hinner.symm⟩] at hself
    exact Option.some.inj hself
  · intro he
    rw [he]

end

/-- A document without styles declares nothing in them. -/
theorem declarations_eq_nil_of_trim {s : Text} (h : trim s = []) : declarations s = [] := by
  obtain ⟨v, w, hs, hv, hw⟩ := exists_eq_append_trim s
  have hbrace : '\x7b' ∉ s := by
    rw [hs, h, List.append_nil]
    intro hmem
    rcases List.mem_append.1 hmem with hmem | hmem
    · exact absurd (hv _ hmem) (by decide)
    · exact absurd (hw _ hmem) (by decide)
  rw [← List.append_nil s, declarations_append_left hbrace, declarations_nil]

/-- **The extracted styles of a document hold the declarations that the author wrote**, in the same
order, but each one minified on its own. They are the same exactly when minifying changes none. -/
theorem declarations_ofDocument {document scopeId instanceVariable css : Text}
    (h : ofDocument document scopeId instanceVariable = .ok css)
    (hstyles : IsSeparable (Markup.inlineStyles document))
    (hscope : IsScope scopeId instanceVariable) :
    (declarations css).map Declaration.text =
        (declarations (Markup.inlineStyles document)).map
          (fun d => restorePlaceholders (minify (hidePlaceholders d.text))) ∧
      (declarations css = declarations (Markup.inlineStyles document) ↔
        ∀ d ∈ declarations (Markup.inlineStyles document),
          minify (hidePlaceholders d.text) = hidePlaceholders d.text) := by
  have hcss : declarations css = (declarations (Markup.inlineStyles document)).map minified := by
    rw [ofDocument] at h
    split at h
    · rename_i hempty
      cases h
      rw [declarations_nil, declarations_eq_nil_of_trim (List.isEmpty_iff.1 hempty), List.map_nil]
    · obtain ⟨t, ht, hrestored⟩ := exists_of_bind_eq_ok h
      cases hrestored
      exact hstyles.declarations_scope hscope ht
  rw [hcss]
  constructor
  · rw [List.map_map]
    exact List.map_congr_left fun d hd => (hstyles.restore_minify_hide_text hd).symm
  · have hmap : (declarations (Markup.inlineStyles document)).map minified =
        (declarations (Markup.inlineStyles document)).map id ↔
          ∀ d ∈ declarations (Markup.inlineStyles document), minified d = id d :=
      List.map_inj_left
    rw [List.map_id] at hmap
    rw [hmap]
    exact forall_congr' fun d => forall_congr' fun hd =>
      (hstyles.minify_hide_text_eq_iff hd).symm

/-! ## Two defaults -/

/-- A document whose only style has the given default. -/
def filledWith (written : Text) : Text :=
  "<svg width=\"1\" height=\"1\"><style>.a\x7bfill:\x7b\x7b".toList ++ written ++
    "|c\x7d\x7d\x7d</style></svg>".toList

/-- The same style under a scope. -/
def scopedFill (written : Text) : Text :=
  ".h1-\x7b\x7buuid\x7d\x7d .a\x7bfill:\x7b\x7b".toList ++ written ++ "|c\x7d\x7d\x7d".toList

/-- A name for a colour is kept. -/
theorem declarations_ofDocument_red :
    ofDocument (filledWith "red".toList) "h1".toList "uuid".toList =
        .ok (scopedFill "red".toList) ∧
      declarations (scopedFill "red".toList) =
        declarations (Markup.inlineStyles (filledWith "red".toList)) := by
  have hcss : ofDocument (filledWith "red".toList) "h1".toList "uuid".toList =
      .ok (scopedFill "red".toList) := by
    decide +kernel
  refine ⟨hcss, (declarations_ofDocument hcss ⟨?_, ?_, ?_, ?_⟩ ⟨?_, ?_, ?_⟩).2.2 ?_⟩
  · decide +kernel
  · decide +kernel
  · decide +kernel
  · intro front p back hs _ hinner
    have hstyles : ∀ c ∈ Markup.inlineStyles (filledWith "red".toList), c ≠ ',' ∧ c ≠ ';' := by
      exact forall_mem_of_all (by decide +kernel)
    have hmem : ∀ c ∈ p.inner, c ≠ ',' ∧ c ≠ ';' := fun c hc =>
      hstyles c (by rw [hs]; simp [Placeholder.text, hc])
    exact (hinner.elim (fun h => (hmem _ h).1 rfl) fun h => (hmem _ h).2 rfl).elim
  · decide
  · exact forall_mem_of_all rfl
  · decide +kernel
  · decide +kernel

/-- A colour with spaces behind its commas loses them. -/
theorem ofDocument_drops_spaces :
    comment.tokens (Markup.inlineStyles (filledWith "rgb(1, 2, 3)".toList)) = [] ∧
      ofDocument (filledWith "rgb(1, 2, 3)".toList) "h1".toList "uuid".toList =
        .ok (scopedFill "rgb(1,2,3)".toList) ∧
      declarations (scopedFill "rgb(1,2,3)".toList) ≠
        declarations (Markup.inlineStyles (filledWith "rgb(1, 2, 3)".toList)) := by
  refine ⟨?_, ?_, ?_⟩
  · decide +kernel
  · decide +kernel
  · decide +kernel

end SvgAssets.Stylesheet
