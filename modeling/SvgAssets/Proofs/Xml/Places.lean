/-
# SvgAssets.Proofs.Xml.Places -- where a sign stands in a tag

Equals signs, quotes and most other signs stand in few places of a tag: between the name and the
value of an attribute, around a value, or in it (`WrittenTag.exists_place`). What is known of the
text around a sign then tells which stretch of which attribute is meant, and that attribute can be
exchanged for another one (`WrittenTag.IsAround.exchange`).
-/
import SvgAssets.Proofs.Text.Replacing
import SvgAssets.Proofs.Xml.Checking

namespace SvgAssets.Xml

open Text

-- What is said of the characters in a list is decided by going through the list.
attribute [local instance (2000)] List.decidableBAll

/-! ## Within an attribute -/

namespace WrittenAttribute

/-- Where a sign stands in an attribute, as the texts in front of it and behind it. -/
inductive Place (w : WrittenAttribute) (c : Char) : Text → Text → Prop
  | equals : c = '=' → w.Place c (w.lead ++ (w.name.text ++ w.gapBefore))
      (w.gapAfter ++ w.quote :: (w.value ++ [w.quote]))
  | openingQuote : c = w.quote → w.Place c w.front (w.value ++ [w.quote])
  | value {u v : Text} : w.value = u ++ c :: v →
      w.Place c (w.front ++ w.quote :: u) (v ++ [w.quote])
  | closingQuote : c = w.quote → w.Place c (w.front ++ w.quote :: w.value) []

theorem isSpace_eq_false_of_mem_signs {c : Char} (h : c ∈ signs) : isSpace c = false := by
  have hall : ∀ c ∈ signs, isSpace c = false := by decide
  exact hall c h

/-- White space and names hold no signs. -/
theorem IsWritten.not_mem_front {w : WrittenAttribute} (h : w.IsWritten) {c : Char}
    (hc : c ∈ signs) : c ∉ w.lead ++ (w.name.text ++ w.gapBefore) ∧ c ∉ w.gapAfter := by
  have hspace : ∀ {gap : Text}, (∀ d ∈ gap, isSpace d = true) → c ∉ gap := by
    intro gap hgap hmem
    have := hgap c hmem
    rw [isSpace_eq_false_of_mem_signs hc] at this
    cases this
  refine ⟨?_, hspace h.gapAfter_space⟩
  rw [List.mem_append, List.mem_append, not_or, not_or]
  refine ⟨hspace h.lead_space, fun hmem => ?_, hspace h.gapBefore_space⟩
  rcases h.name.text_chars c hmem with hname | rfl
  · rw [isNameChar_eq_false_of_mem_signs hc] at hname
    cases hname
  · exact absurd hc (by decide)

/-- There are no other places for a sign. -/
theorem IsWritten.place {w : WrittenAttribute} (h : w.IsWritten) {c : Char} (hc : c ∈ signs)
    {a b : Text} (hw : w.text = a ++ c :: b) : w.Place c a b := by
  obtain ⟨hfront, hgap⟩ := h.not_mem_front hc
  have htext : w.text = (w.lead ++ (w.name.text ++ w.gapBefore)) ++
      '=' :: (w.gapAfter ++ w.quote :: (w.value ++ [w.quote])) := by
    simp [text, front]
  rw [htext] at hw
  obtain ⟨a₁, rfl, ha₁⟩ := exists_of_append_eq hfront hw
  cases a₁ with
  | nil =>
    obtain ⟨rfl, rfl⟩ := List.cons.inj ha₁
    rw [List.append_nil]
    exact .equals rfl
  | cons e a₂ =>
    obtain ⟨rfl, ha₂⟩ := List.cons.inj ha₁
    obtain ⟨a₃, rfl, ha₃⟩ := exists_of_append_eq hgap ha₂
    have hfronts : ∀ u : Text, w.lead ++ (w.name.text ++ w.gapBefore) ++ '=' :: (w.gapAfter ++ u) =
        w.front ++ u := by
      simp [front]
    rw [hfronts]
    cases a₃ with
    | nil =>
      obtain ⟨hq, rfl⟩ := List.cons.inj ha₃
      rw [List.append_nil]
      exact .openingQuote hq.symm
    | cons e a₄ =>
      obtain ⟨rfl, ha₄⟩ := List.cons.inj ha₃
      rcases exists_of_append_eq_append_cons ha₄ with ⟨a₅, rfl, ha₅⟩ | ⟨v, hv, rfl⟩
      · cases a₅ with
        | nil =>
          obtain ⟨hq, rfl⟩ := List.cons.inj ha₅
          rw [List.append_nil]
          exact .closingQuote hq.symm
        | cons e a₆ => simp at ha₅
      · exact .value hv

end WrittenAttribute

/-! ## Within a tag -/

namespace WrittenTag

/-- The tag is an attribute with something in front of it and something behind it. -/
def IsAround (t : WrittenTag) (left : Text) (w : WrittenAttribute) (right : Text) : Prop :=
  ∃ before behind, t.attributes = before ++ w :: behind ∧
    left = t.name.text ++ before.flatMap WrittenAttribute.text ∧
    right = behind.flatMap WrittenAttribute.text ++ (t.gap ++ slash t.isEmpty)

variable {t : WrittenTag} {left right : Text} {w : WrittenAttribute}

theorem IsAround.mem (h : t.IsAround left w right) : w ∈ t.attributes := by
  obtain ⟨before, behind, ha, -, -⟩ := h
  simp [ha]

/-- An attribute may give way to one that is like it. -/
theorem IsAround.exchange (h : t.IsAround left w right) (ht : t.IsProper) {w' : WrittenAttribute}
    (hw' : w'.IsProper) (hlike : w.IsLike w') :
    ∃ t', t.IsLike t' ∧ IsProper t' ∧ t'.inner = left ++ (w'.text ++ right) := by
  obtain ⟨before, behind, ha, rfl, rfl⟩ := h
  refine ⟨{ t with attributes := before ++ w' :: behind }, ⟨rfl, rfl, ?_⟩,
    ⟨ht.name, ?_, ht.gap_space⟩, by simp [inner, behindName]⟩
  · have hrefl : ∀ ws : List WrittenAttribute, List.Forall₂ WrittenAttribute.IsLike ws ws :=
      fun ws => List.forall₂_same.2 fun _ _ => ⟨rfl, fun _ => rfl⟩
    rw [ha]
    exact List.rel_append (hrefl before) (.cons hlike (hrefl behind))
  · intro v hv
    have hattributes := ht.attributes
    rw [ha] at hattributes
    rcases List.mem_append.1 hv with hv | hv
    · exact hattributes v (List.mem_append_left _ hv)
    · rcases List.mem_cons.1 hv with rfl | hv
      · exact hw'
      · exact hattributes v (List.mem_append_right _ (List.mem_cons_of_mem _ hv))

theorem IsProper.not_mem_end (ht : t.IsProper) {c : Char} (hc : c ∈ signs) (hslash : c ≠ '/') :
    c ∉ t.gap ++ slash t.isEmpty := by
  rw [List.mem_append, not_or]
  constructor
  · intro hmem
    have := ht.gap_space c hmem
    rw [WrittenAttribute.isSpace_eq_false_of_mem_signs hc] at this
    cases this
  · cases t.isEmpty <;> simp [slash, hslash]

/-- A tag ends with a quote or a name, but for white space and the slash of an empty element. -/
theorem IsProper.exists_getLast? (ht : t.IsProper) :
    ∃ c ∈ (t.name.text ++ t.attributes.flatMap WrittenAttribute.text).getLast?,
      isNameChar c = true ∨ c ∈ ['"', '\''] := by
  rcases List.eq_nil_or_concat t.attributes with hnil | ⟨ws, w, hconcat⟩
  · obtain ⟨c, hc, hname⟩ := ht.name.getLast?_text
    exact ⟨c, by rwa [hnil, List.flatMap_nil, List.append_nil], .inl hname⟩
  · have hw : w ∈ t.attributes := by simp [hconcat]
    refine ⟨w.quote, ?_, .inr (ht.attributes w hw).quote_mem⟩
    have htext : t.name.text ++ t.attributes.flatMap WrittenAttribute.text =
        t.name.text ++ (ws.flatMap WrittenAttribute.text ++ (w.front ++ w.quote :: w.value)) ++
          [w.quote] := by
      simp [hconcat, WrittenAttribute.text]
    rw [htext, List.getLast?_concat]
    rfl

theorem IsProper.isEmpty_of_getLast? (ht : t.IsProper) (h : t.inner.getLast? = some '/') :
    t.isEmpty = true := by
  rw [← Bool.not_eq_false]
  intro hempty
  obtain ⟨c, hc, hkind⟩ := ht.exists_getLast?
  have hinner : t.inner = t.name.text ++ t.attributes.flatMap WrittenAttribute.text ++ t.gap := by
    simp [inner, behindName, slash, hempty]
  rw [hinner, List.getLast?_append] at h
  rcases List.eq_nil_or_concat t.gap with hnil | ⟨gap, d, hconcat⟩
  · rw [hnil, Option.mem_def.1 hc] at h
    cases h
    revert hkind
    decide +kernel
  · have hd := ht.gap_space d (by simp [hconcat])
    rw [hconcat, List.concat_eq_append, List.getLast?_concat] at h
    cases h
    exact absurd hd (by decide)

/-- What stands in front of the end of a tag begins with white space, if not with the slash of an
empty element. -/
theorem head?_attributes {ws : List WrittenAttribute} (hws : ∀ w ∈ ws, w.IsProper) {gap : Text}
    (hgap : ∀ c ∈ gap, isSpace c = true) (isEmpty : Bool) :
    ∀ c ∈ (ws.flatMap WrittenAttribute.text ++ (gap ++ slash isEmpty)).head?,
      isSpace c = true ∨ c = '/' ∧ isEmpty = true := by
  intro c hc
  cases ws with
  | cons w ws =>
    have hw := hws w (List.mem_cons_self ..)
    obtain ⟨b, bs, hlead⟩ := List.exists_cons_of_ne_nil hw.lead_ne_nil
    rw [List.flatMap_cons, WrittenAttribute.text, WrittenAttribute.front, hlead] at hc
    obtain rfl : b = c := by simpa using hc
    exact .inl (hw.lead_space b (by simp [hlead]))
  | nil =>
    rw [List.flatMap_nil, List.nil_append] at hc
    cases gap with
    | cons b gap =>
      obtain rfl : b = c := by simpa using hc
      exact .inl (hgap b (List.mem_cons_self ..))
    | nil =>
      cases isEmpty with
      | false => cases hc
      | true => exact .inr ⟨by simpa [slash] using hc.symm, rfl⟩

/-- Behind an attribute there is white space or the end of the tag. -/
theorem IsAround.head?_right (h : t.IsAround left w right) (ht : t.IsProper) :
    ∀ c ∈ right.head?, isSpace c = true ∨ c = '/' := by
  obtain ⟨before, behind, ha, -, rfl⟩ := h
  intro c hc
  refine (head?_attributes (fun v hv => ht.attributes v ?_) ht.gap_space _ c hc).imp_right And.left
  rw [ha]
  exact List.mem_append_right _ (List.mem_cons_of_mem _ hv)

/-- Behind an attribute no quote stands in front of an equals sign. -/
theorem IsAround.equals_mem (h : t.IsAround left w right) (ht : t.IsProper) {q : Char} {m b : Text}
    (hq : q ∈ ['"', '\'']) (hright : right = m ++ q :: b) : '=' ∈ m := by
  obtain ⟨before, behind, ha, -, rfl⟩ := h
  have hsign : q ∈ signs ∧ q ≠ '/' ∧ q ≠ '=' := by
    have hall : ∀ q ∈ ['"', '\''], q ∈ signs ∧ q ≠ '/' ∧ q ≠ '=' := by decide
    exact hall q hq
  cases behind with
  | nil =>
    exact absurd (by rw [List.flatMap_nil, List.nil_append] at hright; rw [hright]; simp)
      (ht.not_mem_end hsign.1 hsign.2.1)
  | cons v behind =>
    have hv := ht.attributes v (by simp [ha])
    have hfront := (hv.not_mem_front hsign.1).1
    have htext : (v.lead ++ (v.name.text ++ v.gapBefore)) ++ '=' :: (v.gapAfter ++ v.quote ::
        (v.value ++ [v.quote]) ++ (behind.flatMap WrittenAttribute.text ++
          (t.gap ++ slash t.isEmpty))) = m ++ q :: b := by
      rw [← hright]
      simp [WrittenAttribute.text, WrittenAttribute.front]
    obtain ⟨m', rfl, hm'⟩ := exists_of_append_eq hfront htext
    cases m' with
    | nil => exact absurd (List.cons.inj hm').1.symm hsign.2.2
    | cons e m' =>
      obtain ⟨rfl, -⟩ := List.cons.inj hm'
      simp

/-- **A sign in a tag stands in an attribute.** -/
theorem IsProper.exists_place (ht : t.IsProper) {c : Char} (hc : c ∈ signs) (hslash : c ≠ '/')
    {a b : Text} (h : t.inner = a ++ c :: b) :
    ∃ left w right x y, t.IsAround left w right ∧ w.IsProper ∧ w.Place c x y ∧
      a = left ++ x ∧ b = y ++ right := by
  have hname : c ∉ t.name.text := by
    intro hmem
    rcases ht.name.text_chars c hmem with hname | rfl
    · rw [isNameChar_eq_false_of_mem_signs hc] at hname
      cases hname
    · exact absurd hc (by decide)
  obtain ⟨a, rfl, ha⟩ := exists_of_append_eq hname h
  -- The attributes are gone through one by one up to the one that holds the sign.
  have hattributes : ∀ ws : List WrittenAttribute, (∀ w ∈ ws, w.IsProper) → ∀ a,
      ws.flatMap WrittenAttribute.text ++ (t.gap ++ slash t.isEmpty) = a ++ c :: b →
        ∃ before w behind x y, ws = before ++ w :: behind ∧ w.text = x ++ c :: y ∧
          a = before.flatMap WrittenAttribute.text ++ x ∧
          b = y ++ (behind.flatMap WrittenAttribute.text ++ (t.gap ++ slash t.isEmpty)) := by
    intro ws
    induction ws with
    | nil =>
      intro _ a ha
      exact absurd (by rw [List.flatMap_nil, List.nil_append] at ha; rw [ha]; simp)
        (ht.not_mem_end hc hslash)
    | cons v ws ih =>
      intro hws a ha
      rw [List.flatMap_cons, List.append_assoc] at ha
      rcases exists_of_append_eq_append_cons ha with ⟨a', rfl, ha'⟩ | ⟨y, hv, rfl⟩
      · obtain ⟨before, w, behind, x, y, rfl, hw, rfl, rfl⟩ :=
          ih (fun w hw => hws w (List.mem_cons_of_mem _ hw)) a' ha'
        exact ⟨v :: before, w, behind, x, y, rfl, hw, by simp, rfl⟩
      · exact ⟨[], v, ws, a, y, rfl, hv, rfl, rfl⟩
  obtain ⟨before, w, behind, x, y, hws, hw, rfl, rfl⟩ := hattributes _ ht.attributes a ha
  have hproper := ht.attributes w (by simp [hws])
  exact ⟨_, w, _, x, y, ⟨before, behind, hws, rfl, rfl⟩, hproper, hproper.place hc hw, by simp, rfl⟩

end WrittenTag

end SvgAssets.Xml
