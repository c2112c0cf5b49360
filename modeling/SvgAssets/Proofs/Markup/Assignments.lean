/-
# SvgAssets.Proofs.Markup.Assignments -- attributes are closed to later passes

A pass over a document may write attributes that the next pass reads. This module says why the next
pass does not stumble over them. It reads no token inside of such an attribute. A reference that
reaches into one from outside has an equals sign in its target, which no identifier has
(`QuotedReference.spares`), and an address does not reach into one at all (`UrlReference.spares`).
-/
import SvgAssets.Proofs.Markup.Tokens
import SvgAssets.Proofs.Text.Passes

namespace SvgAssets.Markup

open Text

/-! ## Attributes as stretches -/

namespace Attribute

/-- The attribute up to its opening quote. -/
def lead (a : Attribute) : Text := a.name ++ a.gapBefore ++ '=' :: a.gapAfter

/-- An attribute of any name with a value of certain characters. -/
structure HasValue (p : Char → Bool) (a : Attribute) : Prop where
  name_ne_nil : a.name ≠ []
  name_chars : ∀ c ∈ a.name, isNameChar c = true
  gapBefore_blank : ∀ c ∈ a.gapBefore, isBlank c = true
  gapAfter_blank : ∀ c ∈ a.gapAfter, isBlank c = true
  quote_isQuote : isQuote a.quote = true
  value_chars : ∀ c ∈ a.value, p c = true

theorem text_eq (a : Attribute) : a.text = a.lead ++ a.quote :: (a.value ++ [a.quote]) := by
  simp [text, lead]

theorem text_append (a : Attribute) (t : Text) :
    a.text ++ t = a.lead ++ a.quote :: (a.value ++ a.quote :: t) := by
  simp [text, lead]

theorem getLast?_text (a : Attribute) : a.text.getLast? = some a.quote := by
  simp [text_eq, List.getLast?_cons]

theorem equals_mem_lead (a : Attribute) : '=' ∈ a.lead := by
  simp [lead]

variable {p : Char → Bool} {a : Attribute}

theorem mem_lead (h : a.HasValue p) {c : Char} (hc : c ∈ a.lead) :
    isNameChar c = true ∨ isBlank c = true ∨ c = '=' := by
  simp only [lead, List.mem_append, List.mem_cons] at hc
  rcases hc with (hc | hc) | rfl | hc
  · exact .inl (h.name_chars c hc)
  · exact .inr (.inl (h.gapBefore_blank c hc))
  · exact .inr (.inr rfl)
  · exact .inr (.inl (h.gapAfter_blank c hc))

/-- The only marks in front of the value are white space and the equals sign. -/
theorem ne_of_mem_lead (h : a.HasValue p) {c : Char} (hc : c ∈ a.lead) {d : Char}
    (hd : isMark d = true) (hblank : isBlank d = false) (heq : d ≠ '=') : c ≠ d := by
  rintro rfl
  rcases mem_lead h hc with hc | hc | hc
  · rw [isMark_eq_false_of_isNameChar hc] at hd
    cases hd
  · rw [hblank] at hc
    cases hc
  · exact heq hc

theorem not_isQuote_of_mem_lead (h : a.HasValue p) {c : Char} (hc : c ∈ a.lead) :
    (!isQuote c) = true := by
  rw [Bool.not_eq_true', ← Bool.not_eq_true]
  intro hq
  refine ne_of_mem_lead h hc (isMark_of_isQuote hq) (not_isBlank_of_isQuote hq) ?_ rfl
  rintro rfl
  cases hq

theorem not_isQuote_of_mem_append_lead {w : Text} (hw : ∀ c ∈ w, (!isQuote c) = true)
    (h : a.HasValue p) : ∀ c ∈ w ++ a.lead, (!isQuote c) = true := by
  intro c hc
  rcases List.mem_append.1 hc with hc | hc
  · exact hw c hc
  · exact not_isQuote_of_mem_lead h hc

end Attribute

/-- Characters of a value that no reference as an attribute value can begin or end with. -/
def isPlainChar (c : Char) : Bool := isBlank c || !isMark c

/-- Characters of a value that no address begins or ends with. -/
def isInnerChar (c : Char) : Bool := !isQuote c && c != '(' && c != ')'

theorem not_isMark_of_isPlainChar {c : Char} (h : isPlainChar c = true)
    (hblank : isBlank c = false) : isMark c = false := by
  simpa [isPlainChar, hblank] using h

theorem isInnerChar_of_not_isMark {c : Char} (h : isMark c = false) : isInnerChar c = true := by
  simp only [isMark, Bool.or_eq_false_iff, beq_eq_false_iff_ne] at h
  simp [isInnerChar, h]

theorem isInnerChar_of_isPlainChar {c : Char} (h : isPlainChar c = true) :
    isInnerChar c = true := by
  cases hblank : isBlank c with
  | false => exact isInnerChar_of_not_isMark (not_isMark_of_isPlainChar h hblank)
  | true =>
    have hne : ∀ d, isBlank d = false → c ≠ d := by
      rintro d hd rfl
      rw [hblank] at hd
      cases hd
    simp [isInnerChar, not_isQuote_of_isBlank hblank, hne '(' rfl, hne ')' rfl]

theorem ne_of_isPlainChar {c d : Char} (h : isPlainChar c = true) (hd : isMark d = true)
    (hblank : isBlank d = false) : c ≠ d := by
  rintro rfl
  rw [not_isMark_of_isPlainChar h hblank] at hd
  cases hd

/-- The attributes with values of certain characters, as texts. -/
def IsAssignment (p : Char → Bool) (o : Text) : Prop := ∃ a : Attribute, a.HasValue p ∧ o = a.text

theorem IsAssignment.imp {p q : Char → Bool} (hpq : ∀ c, p c = true → q c = true) {o : Text}
    (h : IsAssignment p o) : IsAssignment q o := by
  obtain ⟨a, ha, rfl⟩ := h
  exact ⟨a, { ha with value_chars := fun c hc => hpq c (ha.value_chars c hc) }, rfl⟩

/-! ## References as attribute values and renamed definitions -/

namespace QuotedReference

/-- The attribute that the reference is. -/
def toAttribute (q : QuotedReference) : Attribute :=
  ⟨q.name, q.gapBefore, q.gapAfter, q.quote, '#' :: q.target⟩

theorem text_eq (q : QuotedReference) : q.text = q.toAttribute.text := by
  simp [text, textTo, toAttribute, Attribute.text]

theorem IsProper.hasValue {q : QuotedReference} (h : q.IsProper) :
    q.toAttribute.HasValue fun c => !isQuote c where
  name_ne_nil := h.name_ne_nil
  name_chars := h.name_chars
  gapBefore_blank := h.gapBefore_blank
  gapAfter_blank := h.gapAfter_blank
  quote_isQuote := h.quote_isQuote
  value_chars := by
    intro c hc
    rcases List.mem_cons.1 hc with rfl | hc
    · rfl
    · have := h.target_chars c hc
      simp only [isTargetChar, Bool.and_eq_true] at this
      exact this.1

variable {prev : Option Char} {v w s rest : Text} {c y : Char} {q : QuotedReference}

/-- What is read begins in front of the first quote, and the hash follows this quote. -/
theorem eq_lead_of_read (hv : ∀ c ∈ v, (!isQuote c) = true) (hy : isQuote y = true)
    (h : read prev (v ++ y :: w) = some (q, rest)) :
    v = q.toAttribute.lead ∧ y = q.quote ∧ w = '#' :: (q.target ++ q.quote :: rest) := by
  have hq := (isProper_of_read h).1
  have hs := text_of_read h
  rw [text_eq, Attribute.text_append] at hs
  refine eq_of_append_eq_append hv (fun c => Attribute.not_isQuote_of_mem_lead hq.hasValue)
    ?_ ?_ hs
  · rw [hy]
    rfl
  · show (!isQuote q.quote) = false
    rw [hq.quote_isQuote]
    rfl

theorem read_eq_none_of_not_hash (hv : ∀ c ∈ v, (!isQuote c) = true) (hy : isQuote y = true)
    (hw : ∀ t, w ≠ '#' :: t) : read prev (v ++ y :: w) = none := by
  rw [Option.eq_none_iff_forall_ne_some]
  rintro ⟨q, rest⟩ h
  exact hw _ (eq_lead_of_read hv hy h).2.2

theorem read_eq_none_of_not_equals (hv : ∀ c ∈ v, (!isQuote c) = true ∧ c ≠ '=')
    (hy : isQuote y = true) : read prev (v ++ y :: w) = none := by
  rw [Option.eq_none_iff_forall_ne_some]
  rintro ⟨q, rest⟩ h
  have hlead := (eq_lead_of_read (fun c hc => (hv c hc).1) hy h).1
  refine (hv '=' ?_).2 rfl
  rw [hlead]
  exact Attribute.equals_mem_lead _

theorem read_eq_none_of_not_isNameChar (hc : isNameChar c = false) :
    read prev (c :: s) = none := by
  rw [Option.eq_none_iff_forall_ne_some]
  rintro ⟨q, rest⟩ h
  have hq := (isProper_of_read h).1
  have hs := text_of_read h
  obtain ⟨d, name, hd⟩ := List.exists_cons_of_ne_nil hq.name_ne_nil
  rw [text, textTo, hd, List.cons_append, List.cons_append, List.cons_append, List.cons_append,
    List.cons_append, List.cons.injEq] at hs
  have hname := hq.name_chars d (by simp [hd])
  rw [← hs.1, hc] at hname
  cases hname

theorem read_eq_none_behind_isNameChar (hc : isNameChar c = true) :
    read (some c) s = none := by
  rw [Option.eq_none_iff_forall_ne_some]
  rintro ⟨q, rest⟩ h
  have := (isProper_of_read h).2
  simp [atNameStart, hc] at this

theorem silent_of_not_isNameChar (hw : ∀ c ∈ w, isNameChar c = false) (prev : Option Char)
    (t : Text) : pattern.Silent prev w t := by
  induction w generalizing prev with
  | nil => trivial
  | cons c w ih =>
    rw [List.forall_mem_cons] at hw
    exact ⟨read_eq_none_of_not_isNameChar hw.1, ih hw.2 (some c)⟩

/-- No reference begins inside of a name. -/
theorem silent_of_isNameChar (hc : isNameChar c = true) (hw : ∀ c ∈ w, isNameChar c = true)
    (t : Text) : pattern.Silent (some c) w t := by
  induction w generalizing c with
  | nil => trivial
  | cons d w ih =>
    rw [List.forall_mem_cons] at hw
    exact ⟨read_eq_none_behind_isNameChar hc, ih hw.1 hw.2⟩

/-- Nothing is read in front of an attribute with a plain value, where there are no quotes, and up
to that value. -/
theorem silent_before_value (hw : ∀ c ∈ w, (!isQuote c) = true) {a : Attribute}
    (ha : a.HasValue isPlainChar) (prev : Option Char) (t : Text) :
    pattern.Silent prev (w ++ a.lead) (a.quote :: (a.value ++ a.quote :: t)) := by
  refine pattern.silent_of_forall_suffix ?_ prev
  intro v hne hv prev
  have hwl := Attribute.not_isQuote_of_mem_append_lead hw ha
  refine read_eq_none_of_not_hash (fun c hc => hwl c (hv.subset hc)) ha.quote_isQuote ?_
  intro t' he
  cases hvalue : a.value with
  | nil =>
    rw [hvalue, List.nil_append, List.cons.injEq] at he
    have := ha.quote_isQuote
    rw [he.1] at this
    cases this
  | cons d u =>
    rw [hvalue, List.cons_append, List.cons.injEq] at he
    have hd := ha.value_chars d (by simp [hvalue])
    exact ne_of_isPlainChar hd rfl rfl he.1

/-- No reference begins inside of an attribute with a plain value. -/
theorem silent_assignment {o : Text} (ho : IsAssignment isPlainChar o) (prev : Option Char)
    (t : Text) : pattern.Silent prev o t := by
  obtain ⟨a, ha, rfl⟩ := ho
  have hquote := not_isNameChar_of_isMark (isMark_of_isQuote ha.quote_isQuote)
  rw [Attribute.text_eq, Pattern.silent_append]
  constructor
  · have hs := silent_before_value (w := []) (by simp) ha prev t
    simpa using hs
  · refine ⟨read_eq_none_of_not_isNameChar hquote, ?_⟩
    rw [Pattern.silent_append]
    refine ⟨?_, silent_of_not_isNameChar (by simpa using hquote) _ t⟩
    -- A name in the value would be followed by an equals sign.
    refine pattern.silent_of_forall_suffix ?_ _
    intro v hne hv prev
    refine read_eq_none_of_not_equals ?_ ha.quote_isQuote
    intro c hc
    have hplain := ha.value_chars c (hv.subset hc)
    refine ⟨?_, ne_of_isPlainChar hplain rfl rfl⟩
    have hinner := isInnerChar_of_isPlainChar hplain
    simp only [isInnerChar, Bool.and_eq_true] at hinner
    exact hinner.1.1

/-- A reference that ends behind the start of an attribute with a plain value begins with a quote in
front of the attribute and ends at the opening quote of the attribute, so its target holds all that
the attribute has in front of its value. -/
theorem reaches_quote {k t : Text} {a : Attribute} (ha : a.HasValue isPlainChar)
    (h : read prev (k ++ (a.text ++ t)) = some (q, rest)) (hk : ¬ q.text <+: k) :
    ∃ w, k = q.toAttribute.lead ++ q.quote :: w ∧ (∀ c ∈ w, (!isQuote c) = true) ∧
      '#' :: q.target = w ++ a.lead ∧ q.quote = a.quote := by
  have hq := (isProper_of_read h).1
  have haquote : (!isQuote a.quote) = false := by
    rw [ha.quote_isQuote]
    rfl
  have hqquote : (!isQuote q.quote) = false := by
    rw [hq.quote_isQuote]
    rfl
  rcases forall_or_exists_eq_append (fun c => !isQuote c) k with hkq | ⟨v, y, w, rfl, hv, hy⟩
  · -- The first quote is that of the attribute, and no hash follows it.
    have hs := silent_before_value hkq ha prev t
    rw [Attribute.text_append, ← List.append_assoc] at h
    cases hkl : k ++ a.lead with
    | nil =>
      have := Attribute.equals_mem_lead a
      simp [(List.append_eq_nil_iff.1 hkl).2] at this
    | cons c u =>
      rw [hkl] at hs h
      rw [show read prev (c :: u ++ a.quote :: (a.value ++ a.quote :: t)) = none from hs.1] at h
      cases h
  · rw [List.append_assoc, List.cons_append] at h
    obtain ⟨rfl, rfl, hw⟩ := eq_lead_of_read hv (by simpa using hy) h
    have htarget : ∀ c ∈ '#' :: q.target, (!isQuote c) = true := hq.hasValue.value_chars
    refine ⟨w, rfl, ?_⟩
    rcases forall_or_exists_eq_append (fun c => !isQuote c) w with hwq | ⟨u, z, x, rfl, hu, hz⟩
    · refine ⟨hwq, ?_⟩
      rw [Attribute.text_append, ← List.append_assoc, ← List.cons_append] at hw
      have hcut := eq_of_append_eq_append (Attribute.not_isQuote_of_mem_append_lead hwq ha) htarget
        haquote hqquote hw
      exact ⟨hcut.1.symm, hcut.2.1.symm⟩
    · -- The reference ends within `k`.
      rw [List.append_assoc, List.cons_append, ← List.cons_append] at hw
      obtain ⟨rfl, rfl, -⟩ := eq_of_append_eq_append hu htarget hz hqquote hw
      refine absurd ⟨x, ?_⟩ hk
      rw [text_eq, Attribute.text_eq]
      simp [toAttribute]

/-- Where a reference reaches into an attribute with a plain value, nothing is read behind the first
character of the reference and in front of such an attribute. -/
theorem silent_behind_start {k : Text} (hq : q.IsProper)
    (hk : c :: k = q.toAttribute.lead ++ q.quote :: w) (hw : ∀ d ∈ w, (!isQuote d) = true)
    {o : Text} (ho : IsAssignment isPlainChar o) (t : Text) :
    pattern.Silent (some c) k (o ++ t) := by
  obtain ⟨a, ha, rfl⟩ := ho
  obtain ⟨d, name, hd⟩ := List.exists_cons_of_ne_nil hq.name_ne_nil
  rw [Attribute.lead, toAttribute, hd] at hk
  simp only [List.cons_append, List.append_assoc, List.cons.injEq] at hk
  obtain ⟨rfl, rfl⟩ := hk
  have hchars := hq.name_chars
  rw [hd, List.forall_mem_cons] at hchars
  have hblank : ∀ {g : Text}, (∀ d ∈ g, isBlank d = true) → ∀ d ∈ g, isNameChar d = false :=
    fun hg d hdg => not_isNameChar_of_isMark (isMark_of_isBlank (hg d hdg))
  -- Its name, what stands between name and value, and the value as far as it lies in front.
  refine pattern.silent_append.2 ⟨silent_of_isNameChar hchars.1 hchars.2 _, ?_⟩
  refine pattern.silent_append.2 ⟨silent_of_not_isNameChar (hblank hq.gapBefore_blank) _ _, ?_⟩
  refine ⟨read_eq_none_of_not_isNameChar rfl, ?_⟩
  refine pattern.silent_append.2 ⟨silent_of_not_isNameChar (hblank hq.gapAfter_blank) _ _, ?_⟩
  have hquote := not_isNameChar_of_isMark (isMark_of_isQuote hq.quote_isQuote)
  refine ⟨read_eq_none_of_not_isNameChar hquote, ?_⟩
  rw [Attribute.text_append]
  exact (pattern.silent_append.1 (silent_before_value hw ha _ t)).1

/-- Attributes with a plain value are spared by any pass that leaves references alone whose target
has an equals sign. -/
theorem spares {f : QuotedReference → Option Text} (hf : ∀ q, '=' ∈ q.target → f q = none) :
    pattern.Spares f (IsAssignment isPlainChar) where
  reads := by
    intro prev q rest h rest'
    obtain ⟨hq, hprev⟩ := isProper_of_read h
    exact read_text_append hq hprev rest'
  inside ho prev t := silent_assignment ho prev t
  across := by
    rintro prev c k o t q rest ⟨a, ha, rfl⟩ h hpre
    obtain ⟨w, hk, hw, htarget, hquote⟩ := reaches_quote ha h hpre
    have hq := (isProper_of_read h).1
    refine ⟨⟨?_, a.lead ++ [a.quote], a.value ++ [a.quote], ?_, ?_⟩, ?_⟩
    · have hmem : '=' ∈ '#' :: q.target := by
        rw [htarget]
        exact List.mem_append_right _ (Attribute.equals_mem_lead a)
      exact hf q (by simpa using hmem)
    · simp [Attribute.text_eq]
    · show q.text = c :: k ++ (a.lead ++ [a.quote])
      rw [text_eq, Attribute.text_eq, hk]
      show _ ++ q.quote :: ('#' :: q.target ++ [q.quote]) = _
      rw [htarget]
      simp [hquote]
    · intro o' t' ho'
      exact silent_behind_start hq hk hw ho' t'

end QuotedReference

/-! ## Addresses and renamed attributes -/

namespace UrlReference

variable {s rest : Text} {u : UrlReference}

/-- What stands in front of the opening parenthesis is `url`. -/
theorem not_read_of_not_parenthesis {v t : Text} {y : Char} (hv : ∀ c ∈ v, c ≠ '(')
    (hy : isQuote y = true) : read (v ++ y :: t) = none := by
  rw [Option.eq_none_iff_forall_ne_some]
  rintro ⟨u, rest⟩ h
  have hs := text_of_read h
  have hne : ∀ d, isQuote d = false → y ≠ d := by
    rintro d hd rfl
    rw [hy] at hd
    cases hd
  rcases v with _ | ⟨c₁, _ | ⟨c₂, _ | ⟨c₃, _ | ⟨c₄, v⟩⟩⟩⟩
  · simp [text, hne 'u' rfl] at hs
  · simp [text, hne 'r' rfl] at hs
  · simp [text, hne 'l' rfl] at hs
  · simp [text, hne '(' rfl] at hs
  · simp only [text, List.cons_append, List.cons.injEq] at hs
    exact hv c₄ (by simp) hs.2.2.2.1

theorem ne_parenthesis_of_mem_text {a : Attribute} (ha : a.HasValue isInnerChar) {c : Char}
    (hc : c ∈ a.text) : c ≠ '(' ∧ c ≠ ')' := by
  have hquote : ∀ d, isQuote d = false → a.quote ≠ d := by
    rintro d hd he
    rw [← he, ha.quote_isQuote] at hd
    cases hd
  simp only [Attribute.text_eq, List.mem_append, List.mem_cons, List.not_mem_nil, or_false] at hc
  rcases hc with hc | rfl | hc | rfl
  · exact ⟨Attribute.ne_of_mem_lead ha hc rfl rfl (by decide),
      Attribute.ne_of_mem_lead ha hc rfl rfl (by decide)⟩
  · exact ⟨hquote '(' rfl, hquote ')' rfl⟩
  · have := ha.value_chars c hc
    simp only [isInnerChar, Bool.and_eq_true, bne_iff_ne] at this
    exact ⟨this.1.2, this.2⟩
  · exact ⟨hquote '(' rfl, hquote ')' rfl⟩

/-- No address begins inside of an attribute without parentheses. -/
theorem silent_assignment {o : Text} (ho : IsAssignment isInnerChar o) (prev : Option Char)
    (t : Text) : pattern.Silent prev o t := by
  obtain ⟨a, ha, rfl⟩ := ho
  have hchars : ∀ c ∈ a.lead ++ a.quote :: a.value, c ≠ '(' := by
    intro c hc
    refine (ne_parenthesis_of_mem_text ha ?_).1
    rw [Attribute.text_eq, ← List.cons_append, ← List.append_assoc]
    exact List.mem_append_left _ hc
  have htext : a.text = (a.lead ++ a.quote :: a.value) ++ [a.quote] := by
    simp [Attribute.text_eq]
  rw [htext, Pattern.silent_append]
  refine ⟨?_, ?_, trivial⟩
  · refine pattern.silent_of_forall_suffix ?_ prev
    intro v hne hv prev
    exact not_read_of_not_parenthesis (fun c hc => hchars c (hv.subset hc)) ha.quote_isQuote
  · exact not_read_of_not_parenthesis (v := []) (by simp) ha.quote_isQuote

theorem countP_isQuote_eq_zero {w : Text} (h : ∀ c ∈ w, (!isQuote c) = true) :
    w.countP isQuote = 0 := by
  rw [List.countP_eq_zero]
  intro c hc
  simpa using h c hc

theorem not_isQuote_of_isBlank_mem {g : Text} (hg : ∀ c ∈ g, isBlank c = true) :
    ∀ c ∈ g, (!isQuote c) = true := by
  intro c hc
  rw [not_isQuote_of_isBlank (hg c hc)]
  rfl

/-- The quotes of an address are those around its target. -/
theorem countP_isQuote_text (hu : u.IsProper) :
    u.text.countP isQuote = 2 * u.quote.toList.countP isQuote := by
  have hbefore := countP_isQuote_eq_zero (not_isQuote_of_isBlank_mem hu.gapBefore_blank)
  have hafter := countP_isQuote_eq_zero (not_isQuote_of_isBlank_mem hu.gapAfter_blank)
  have htarget : u.target.countP isQuote = 0 := by
    refine countP_isQuote_eq_zero ?_
    intro d hd
    have := hu.target_chars d hd
    simp only [isTargetChar, Bool.and_eq_true] at this
    exact this.1.1
  have hurl : List.countP isQuote ['u', 'r', 'l', '('] = 0 := rfl
  have hclose : List.countP isQuote [')'] = 0 := rfl
  have hhash : isQuote '#' = false := rfl
  simp only [text, List.countP_append, List.countP_cons, hbefore, hafter, htarget, hurl, hclose,
    hhash]
  simp
  omega

/-- No address holds an attribute: its quotes would be those of the attribute, but in front of them
it has no equals sign. -/
theorem text_ne_append_attribute (hu : u.IsProper) {p : Char → Bool} {a : Attribute}
    (ha : a.HasValue p) (k t : Text) : u.text ≠ k ++ (a.text ++ t) := by
  intro h
  have hcount := countP_isQuote_text hu
  rw [h, Attribute.text_eq] at hcount
  have hquote := ha.quote_isQuote
  simp only [List.countP_append, List.countP_cons, hquote, if_true, List.countP_nil] at hcount
  cases hq : u.quote with
  | none =>
    rw [hq] at hcount
    simp only [Option.toList_none, List.countP_nil] at hcount
    omega
  | some y =>
    have hy := hu.quote_isQuote y hq
    rw [hq] at hcount
    simp only [Option.toList_some, List.countP_cons, List.countP_nil, hy, if_true] at hcount
    have hk : k.countP isQuote = 0 := by omega
    rw [List.countP_eq_zero] at hk
    have htext : u.text = ['u', 'r', 'l', '('] ++ u.gapBefore ++ y ::
        ('#' :: u.target ++ y :: (u.gapAfter ++ [')'])) := by
      simp [text, hq]
    rw [htext, Attribute.text_append, ← List.append_assoc k] at h
    have hopen : ∀ c ∈ ['u', 'r', 'l', '('], (!isQuote c) = true := forall_mem_of_all rfl
    have hurl : ∀ c ∈ ['u', 'r', 'l', '('] ++ u.gapBefore, (!isQuote c) = true := by
      intro c hc
      rcases List.mem_append.1 hc with hc | hc
      · exact hopen c hc
      · exact not_isQuote_of_isBlank_mem hu.gapBefore_blank c hc
    have hkl := Attribute.not_isQuote_of_mem_append_lead (fun c hc => by simpa using hk c hc) ha
    have hcut := eq_of_append_eq_append hurl hkl (by rw [hy]; rfl) (by rw [hquote]; rfl) h
    have heq : '=' ∈ ['u', 'r', 'l', '('] ++ u.gapBefore := by
      rw [hcut.1]
      exact List.mem_append_right _ (Attribute.equals_mem_lead a)
    rcases List.mem_append.1 heq with heq | heq
    · simp at heq
    · have := hu.gapBefore_blank _ heq
      cases this

/-- An address that begins in front of an attribute without parentheses ends in front of it. -/
theorem text_prefix_of_read {k t : Text} {a : Attribute} (ha : a.HasValue isInnerChar)
    (h : read (k ++ (a.text ++ t)) = some (u, rest)) : u.text <+: k := by
  rw [← Decidable.not_not (p := u.text <+: k)]
  intro hk
  have hs := text_of_read h
  have hpre : u.text <+: k ++ (a.text ++ t) := ⟨rest, hs.symm⟩
  obtain ⟨x, hx⟩ := (List.prefix_or_prefix_of_prefix hpre (List.prefix_append k _)).resolve_left hk
  rw [← hx, List.append_assoc, List.append_cancel_left_eq] at hs
  have hx' : x <+: a.text ++ t := ⟨rest, hs.symm⟩
  rcases List.prefix_or_prefix_of_prefix hx' (List.prefix_append a.text t) with hxa | ⟨z, rfl⟩
  · -- It would end inside of the attribute.
    have hlast : u.text.getLast? = some ')' := List.getLast?_concat
    rw [← hx, List.getLast?_append] at hlast
    cases hxl : x.getLast? with
    | none =>
      rw [List.getLast?_eq_none_iff.1 hxl, List.append_nil] at hx
      exact hk ⟨[], by rw [hx, List.append_nil]⟩
    | some c =>
      rw [hxl, Option.some_or, Option.some_inj] at hlast
      subst hlast
      exact (ne_parenthesis_of_mem_text ha (hxa.subset (List.mem_of_getLast? hxl))).2 rfl
  · exact text_ne_append_attribute (isProper_of_read h) ha k z hx.symm

/-- Attributes without parentheses are spared by every pass over the addresses. -/
theorem spares (f : UrlReference → Option Text) :
    pattern.Spares f (IsAssignment isInnerChar) where
  reads := by
    intro prev u rest h rest'
    exact read_text_append (isProper_of_read h) rest'
  inside ho prev t := silent_assignment ho prev t
  across := by
    rintro prev c k o t u rest ⟨a, ha, rfl⟩ h hpre
    exact absurd (text_prefix_of_read ha h) hpre

end UrlReference

end SvgAssets.Markup
