/-
# SvgAssets.Proofs.Xml.Versions -- documents after an exchange

A document is text, then marks, each with text behind it. A stretch that is found in it lies in one
of these texts or within one mark, as it holds no angle bracket. So an exchange leaves all other
parts alone, and makes of the one part something of the same kind (`Exchange.isVersion`): what
opened or closed an element goes on doing so, with the same prefixes bound.
-/
import SvgAssets.Proofs.Xml.Exchanges

namespace SvgAssets.Xml

open Text

-- What is said of the characters in a list is decided by going through the list.
attribute [local instance (2000)] List.decidableBAll

/-! ## Parts of a document -/

/-- Marks of one kind, which do the same to the elements that are open. -/
inductive Mark.IsLike : Mark → Mark → Prop
  | opening {t t' : WrittenTag} : t.IsLike t' → IsLike (.opening t) (.opening t')
  | closing (name gap gap' : Text) : IsLike (.closing name gap) (.closing name gap')
  | aside (inner inner' : Text) : IsLike (.aside inner) (.aside inner')

theorem Mark.isLike_refl (k : Mark) : k.IsLike k := by
  cases k with
  | opening t => exact .opening t.isLike_refl
  | closing name gap => exact .closing name gap gap
  | aside inner => exact .aside inner inner

theorem Mark.IsLike.trans {k k' k'' : Mark} (h : k.IsLike k') (h' : k'.IsLike k'') :
    k.IsLike k'' := by
  cases h with
  | opening h =>
    cases h' with
    | opening h' => exact .opening (h.trans h')
  | closing name gap gap' =>
    cases h' with
    | closing name gap' gap'' => exact .closing name gap gap''
  | aside inner inner' =>
    cases h' with
    | aside inner' inner'' => exact .aside inner inner''

/-- The values that bind prefixes are settled. -/
def Mark.IsSettled (ids : List Text) : Mark → Prop
  | .opening t => t.IsSettled ids
  | _ => True

theorem Mark.IsLike.isSettled {ids : List Text} {k k' : Mark} (h : k.IsLike k')
    (hk : k.IsSettled ids) : k'.IsSettled ids := by
  cases h with
  | opening h => exact h.isSettled hk
  | closing name gap gap' => trivial
  | aside inner inner' => trivial

/-- **Marks of the same kinds do the same** to the elements that are open. -/
theorem Leads.of_isLike {stack final : List OpenElement} {marks marks' : List Mark}
    (h : Leads stack marks final)
    (hlike : List.Forall₂ (fun k k' : Mark => k.IsLike k' ∧ k'.IsProper) marks marks') :
    Leads stack marks' final := by
  induction h generalizing marks' with
  | nil =>
    cases hlike
    exact .nil _
  | aside _ ih =>
    obtain ⟨k', marks', ⟨⟨⟩, -⟩, hrest, rfl⟩ := List.forall₂_cons_left_iff.1 hlike
    exact .aside (ih hrest)
  | empty hempty hbinds _ ih =>
    obtain ⟨k', marks', ⟨⟨ht⟩, hproper⟩, hrest, rfl⟩ := List.forall₂_cons_left_iff.1 hlike
    exact .empty (ht.isEmpty_eq.trans hempty) (ht.binds hproper hbinds) (ih hrest)
  | @opened t inside stack marks final hempty hbinds _ ih =>
    obtain ⟨k', marks', ⟨⟨ht⟩, hproper⟩, hrest, rfl⟩ := List.forall₂_cons_left_iff.1 hlike
    refine .opened (ht.isEmpty_eq.trans hempty) (ht.binds hproper hbinds) ?_
    rw [ht.name_eq]
    exact ih hrest
  | closed hne _ ih =>
    obtain ⟨k', marks', ⟨⟨⟩, -⟩, hrest, rfl⟩ := List.forall₂_cons_left_iff.1 hlike
    exact .closed hne (ih hrest)

/-- A text that is character data, and the same one if that was white space. -/
structure IsTextVersion (t t' : Text) : Prop where
  isData : IsData t'
  eq_of_space : (∀ c ∈ t, isSpace c = true) → t' = t

theorem isTextVersion_refl {t : Text} (h : IsData t) : IsTextVersion t t := ⟨h, fun _ => rfl⟩

theorem IsTextVersion.trans {t t' t'' : Text} (h : IsTextVersion t t') (h' : IsTextVersion t' t'') :
    IsTextVersion t t'' where
  isData := h'.isData
  eq_of_space hspace := by
    have hsame := h.eq_of_space hspace
    rw [h'.eq_of_space (by rwa [hsame]), hsame]

/-- A mark of the same kind that can be read, with a version of the text behind it. -/
structure IsSpanVersion (x x' : Mark × Text) : Prop where
  isLike : x.1.IsLike x'.1
  isProper : x'.1.IsProper
  text : IsTextVersion x.2 x'.2

theorem isSpanVersion_refl {x : Mark × Text} (hx : x.1.IsProper ∧ IsData x.2) :
    IsSpanVersion x x :=
  ⟨x.1.isLike_refl, hx.1, isTextVersion_refl hx.2⟩

theorem IsSpanVersion.trans {x x' x'' : Mark × Text} (h : IsSpanVersion x x')
    (h' : IsSpanVersion x' x'') : IsSpanVersion x x'' :=
  ⟨h.isLike.trans h'.isLike, h'.isProper, h.text.trans h'.text⟩

/-- A closing tag holds no sign but its slash. -/
theorem Mark.IsProper.not_mem_closing {name gap : Text} (h : (Mark.closing name gap).IsProper)
    {c : Char} (hc : c ∈ signs) (hslash : c ≠ '/') : c ∉ '/' :: (name ++ gap) := by
  obtain ⟨⟨d, ds, rfl, hd, hds⟩, hgap⟩ := h
  have hname : isNameChar c = false := isNameChar_eq_false_of_mem_signs hc
  have hcolon : c ≠ ':' := by
    rintro rfl
    exact absurd hc (by decide)
  rw [List.mem_cons, List.mem_append, List.mem_cons, not_or, not_or, not_or]
  refine ⟨hslash, ⟨?_, fun hmem => ?_⟩, fun hmem => ?_⟩
  · rintro rfl
    rw [isNameChar_of_isNameStart hd] at hname
    cases hname
  · simpa [hname, hcolon] using hds c hmem
  · have := hgap c hmem
    rw [WrittenAttribute.isSpace_eq_false_of_mem_signs hc] at this
    cases this

/-- Between the brackets of a mark there is no bracket. -/
theorem Mark.IsProper.not_bracket {k : Mark} (h : k.IsProper) :
    ∀ c ∈ k.inner, c ≠ '<' ∧ c ≠ '>' := by
  cases k with
  | opening t =>
    have hsigns : ∀ c ∈ ['<', '>'], c ∈ signs ∧ c ≠ '/' ∧ c ≠ '=' ∧ c ∉ quotes := by decide
    have hnone : ∀ c ∈ ['<', '>'], c ∉ t.inner := by
      intro c hc hmem
      obtain ⟨hsign, hslash, hequals, hquote⟩ := hsigns c hc
      obtain ⟨a, b, hinner⟩ := List.append_of_mem hmem
      obtain ⟨left, w, right, x, y, -, hw, hplace, -, -⟩ :=
        WrittenTag.IsProper.exists_place h hsign hslash hinner
      have hne : c ≠ w.quote := fun he => hquote (he ▸ hw.quote_mem)
      cases hplace with
      | equals he => exact hequals he
      | openingQuote he => exact hne he
      | closingQuote he => exact hne he
      | @value u v hvalue =>
        have := hw.value_isData.not_bracket c (by simp [hvalue])
        simp only [List.mem_cons, List.not_mem_nil, or_false] at hc
        exact hc.elim this.1 this.2
    intro c hc
    exact ⟨fun he => hnone '<' (by decide) (he ▸ hc), fun he => hnone '>' (by decide) (he ▸ hc)⟩
  | closing name gap =>
    intro c hc
    refine ⟨?_, ?_⟩
    · rintro rfl
      exact h.not_mem_closing (by decide) (by decide) hc
    · rintro rfl
      exact h.not_mem_closing (by decide) (by decide) hc
  | aside inner =>
    obtain ⟨y, hy, body, rfl, hbody⟩ := h
    have hall : ∀ y ∈ asideDelimiters, ∀ c ∈ y.1 ++ y.2, c ≠ '<' ∧ c ≠ '>' := by decide
    intro c hc
    rcases List.mem_append.1 hc with hc | hc
    · rcases List.mem_append.1 hc with hc | hc
      · exact hall y hy c (List.mem_append_left _ hc)
      · exact hbody c hc
    · exact hall y hy c (List.mem_append_right _ hc)

/-! ## One exchange -/

/-- A stretch that does not hold a character stands in front of it or behind it. -/
theorem exists_of_append_cons_eq {x y z a b : Text} {c : Char} (hc : c ∉ x)
    (h : y ++ c :: z = a ++ (x ++ b)) :
    (∃ b', y = a ++ (x ++ b') ∧ b = b' ++ c :: z) ∨
      ∃ a', a = y ++ c :: a' ∧ z = a' ++ (x ++ b) := by
  rcases exists_of_append_eq_append_cons h.symm with ⟨s, rfl, hs⟩ | ⟨w, ha, hz⟩
  · obtain ⟨b', rfl, rfl⟩ := exists_of_append_eq hc hs
    exact .inl ⟨b', rfl, rfl⟩
  · exact .inr ⟨w, ha, hz⟩

namespace Exchange

variable {ids : List Text} {x x' : Text} (h : Exchange ids x x')

include h

theorem ne_nil : x ≠ [] := by
  obtain ⟨c, hc, -⟩ := h.sign
  exact List.ne_nil_of_mem hc

/-- An exchange leaves white space alone. -/
theorem isTextVersion {a b : Text} (hdata : IsData (a ++ (x ++ b))) :
    IsTextVersion (a ++ (x ++ b)) (a ++ (x' ++ b)) where
  isData := h.data a b hdata
  eq_of_space hspace := by
    obtain ⟨c, hc, hedit⟩ := h.sign
    have := hspace c (by simp [hc])
    rw [WrittenAttribute.isSpace_eq_false_of_mem_signs (mem_signs_of_mem_editSigns hedit).1] at this
    cases this

/-- In an aside the delimiters stay. -/
theorem isAside {a b : Text} (hinner : IsAside (a ++ (x ++ b))) : IsAside (a ++ (x' ++ b)) := by
  obtain ⟨y, hy, body, heq, hbody⟩ := hinner
  have hedges : ∀ y ∈ asideDelimiters, ∀ c ∈ y.1 ++ y.2, ¬ IsEdge c := by
    unfold IsEdge
    decide
  obtain ⟨c, x₁, hx₁⟩ := List.exists_cons_of_ne_nil h.ne_nil
  have hopening : c ∉ y.1 := fun hmem =>
    hedges y hy c (List.mem_append_left _ hmem) (h.head c (by simp [hx₁]))
  have hfront : y.1 ++ (body ++ y.2) = a ++ c :: (x₁ ++ b) := by
    rw [← List.append_assoc, ← heq, hx₁, List.cons_append]
  obtain ⟨a, rfl, hrest⟩ := exists_of_append_eq hopening hfront
  obtain ⟨x₂, d, hx₂⟩ := (List.eq_nil_or_concat x).resolve_left h.ne_nil
  have hclosing : d ∉ y.2 := fun hmem =>
    hedges y hy d (List.mem_append_right _ hmem) (h.last d (by simp [hx₂]))
  have hback : body ++ y.2 = (a ++ x₂) ++ d :: b := by
    rw [hrest, ← List.cons_append, ← hx₁, hx₂]
    simp
  obtain ⟨b, rfl, rfl⟩ : ∃ w, body = (a ++ x₂) ++ d :: w ∧ b = w ++ y.2 :=
    (exists_of_append_eq_append_cons hback).resolve_left fun ⟨s, _, hs⟩ =>
      hclosing (by rw [hs]; simp)
  refine ⟨y, hy, a ++ (x' ++ b), by simp, ?_⟩
  intro e he
  rcases List.mem_append.1 he with he | he
  · exact hbody e (by simp [he])
  · rcases List.mem_append.1 he with he | he
    · exact h.brackets' e he
    · exact hbody e (by simp [he])

/-- Within a mark an exchange makes a mark of the same kind. -/
theorem exists_mark {k : Mark} (hk : k.IsProper) (hsettled : k.IsSettled ids) {a b : Text}
    (hinner : k.inner = a ++ (x ++ b)) :
    ∃ k' : Mark, k.IsLike k' ∧ k'.IsProper ∧ k'.inner = a ++ (x' ++ b) := by
  cases k with
  | opening t =>
    obtain ⟨t', hlike, ht', hinner'⟩ := h.tag hk hsettled hinner
    exact ⟨.opening t', .opening hlike, ht', hinner'⟩
  | closing name gap =>
    -- A closing tag holds none of the signs.
    obtain ⟨c, hc, hedit⟩ := h.sign
    obtain ⟨hsign, hslash⟩ := mem_signs_of_mem_editSigns hedit
    have hmem : c ∈ '/' :: (name ++ gap) := by
      show c ∈ Mark.inner (.closing name gap)
      rw [hinner]
      simp [hc]
    exact absurd hmem (hk.not_mem_closing hsign hslash)
  | aside inner =>
    refine ⟨.aside (a ++ (x' ++ b)), .aside _ _, h.isAside ?_, rfl⟩
    rw [← hinner]
    exact hk

/-- In a document an exchange makes a version of one of its parts. -/
theorem exists_spans {lead : Text} (hlead : IsData lead) {spans : Spans} (hspans : AreProper spans)
    (hsettled : ∀ y ∈ spans, y.1.IsSettled ids) {a b : Text}
    (heq : lead ++ spansText spans = a ++ (x ++ b)) :
    ∃ lead' spans', a ++ (x' ++ b) = lead' ++ spansText spans' ∧ IsTextVersion lead lead' ∧
      List.Forall₂ IsSpanVersion spans spans' := by
  have hopen : '<' ∉ x := fun hmem => (h.brackets _ hmem).1 rfl
  have hclose : '>' ∉ x := fun hmem => (h.brackets _ hmem).2 rfl
  induction spans generalizing lead a with
  | nil =>
    obtain rfl : lead = a ++ (x ++ b) := by simpa [spansText] using heq
    exact ⟨a ++ (x' ++ b), [], by simp [spansText], h.isTextVersion hlead, .nil⟩
  | cons y spans ih =>
    obtain ⟨k, behind⟩ := y
    obtain ⟨⟨hk, hbehind⟩, hrest⟩ := List.forall_mem_cons.1 hspans
    obtain ⟨hksettled, hrestsettled⟩ := List.forall_mem_cons.1 hsettled
    have hrefl : List.Forall₂ IsSpanVersion spans spans :=
      List.forall₂_same.2 fun y hy => isSpanVersion_refl (hrest y hy)
    have hcons : ∀ (k : Mark) (behind : Text) (spans : Spans), spansText ((k, behind) :: spans) =
        '<' :: (k.inner ++ '>' :: (behind ++ spansText spans)) := by
      intro k behind spans
      simpa using spansText_cons k behind spans []
    rw [hcons] at heq
    rcases exists_of_append_cons_eq hopen heq with ⟨b, rfl, rfl⟩ | ⟨a, rfl, hinside⟩
    · exact ⟨a ++ (x' ++ b), _, by rw [hcons]; simp, h.isTextVersion hlead,
        .cons (isSpanVersion_refl ⟨hk, hbehind⟩) hrefl⟩
    rcases exists_of_append_cons_eq hclose hinside with ⟨b, hinner, rfl⟩ | ⟨a, rfl, hbeyond⟩
    · obtain ⟨k', hlike, hk', hinner'⟩ := h.exists_mark hk hksettled hinner
      exact ⟨lead, (k', behind) :: spans, by rw [hcons, hinner']; simp, isTextVersion_refl hlead,
        .cons ⟨hlike, hk', isTextVersion_refl hbehind⟩ hrefl⟩
    · obtain ⟨behind', spans', htext, hversion, hversions⟩ :=
        ih hbehind hrest hrestsettled hbeyond
      exact ⟨lead, (k, behind') :: spans', by rw [hcons, ← htext]; simp, isTextVersion_refl hlead,
        .cons ⟨k.isLike_refl, hk, hversion⟩ hversions⟩

end Exchange

/-! ## Exchanges one after the other -/

/-- The text is a version of a document, part by part. -/
def IsVersion (lead : Text) (spans : Spans) (u : Text) : Prop :=
  ∃ lead' spans', u = lead' ++ spansText spans' ∧ IsTextVersion lead lead' ∧
    List.Forall₂ IsSpanVersion spans spans'

theorem isVersion_refl {lead : Text} (hlead : IsData lead) {spans : Spans}
    (hspans : AreProper spans) : IsVersion lead spans (lead ++ spansText spans) :=
  ⟨lead, spans, rfl, isTextVersion_refl hlead,
    List.forall₂_same.2 fun y hy => isSpanVersion_refl (hspans y hy)⟩

/-- **An exchange makes a version of a version.** -/
theorem Exchange.isVersion {ids : List Text} {x x' : Text} (h : Exchange ids x x') {lead : Text}
    {spans : Spans} (hsettled : ∀ y ∈ spans, y.1.IsSettled ids) {a b : Text}
    (hu : IsVersion lead spans (a ++ (x ++ b))) : IsVersion lead spans (a ++ (x' ++ b)) := by
  obtain ⟨lead', spans', heq, hlead, hversions⟩ := hu
  have hproper : AreProper spans' := by
    intro y hy
    obtain ⟨z, -, hz⟩ := exists_of_forall₂_of_mem hversions hy
    exact ⟨hz.isProper, hz.text.isData⟩
  have hsettled' : ∀ y ∈ spans', y.1.IsSettled ids := by
    intro y hy
    obtain ⟨z, hmem, hz⟩ := exists_of_forall₂_of_mem hversions hy
    exact hz.isLike.isSettled (hsettled z hmem)
  obtain ⟨lead'', spans'', heq', hlead', hversions'⟩ :=
    h.exists_spans hlead.isData hproper hsettled' heq.symm
  exact ⟨lead'', spans'', heq', hlead.trans hlead',
    forall₂_trans (fun _ _ _ hx hy => hx.trans hy) hversions hversions'⟩

end SvgAssets.Xml
