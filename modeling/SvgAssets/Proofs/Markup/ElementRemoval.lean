/-
# SvgAssets.Proofs.Markup.ElementRemoval -- what is left of elements that are taken out

Elements are taken out in one pass, which never looks at the text that it leaves. Where a tag breaks
off in front of another one, taking the other one out may complete it. In a text in which none does
(`HasWholeTags`) no pass that takes out tags completes one (`HasWholeTags.keeps_eraseFrom`), and no
element is left of those that are taken out (`not_holdsElement_removeElements`).
-/
import SvgAssets.Markup.Attribute
import SvgAssets.Proofs.Markup.Tags
import SvgAssets.Proofs.Text.CharacterClasses
import SvgAssets.Proofs.Text.Cutting
import SvgAssets.Proofs.Text.Occurrences

namespace SvgAssets.Markup

open Text Pattern

/-! ## Names -/

/-- Angle brackets. -/
abbrev angles : Text := ['<', '>']

/-- Characters at which stretches of a document are exchanged. -/
abbrev barriers : Text := ['\x7b', '\x7d', '=', '-', '#', '(']

/-- Characters that are no part of a name. -/
def isBoundary (c : Char) : Bool :=
  isBlank c || isQuote c || c == '/' || c ∈ angles || c ∈ barriers

theorem not_mem_of_isBlank {c : Char} (h : isBlank c = true) : c ∉ angles ∧ c ∉ barriers := by
  have hblank : ∀ d ∈ angles ++ barriers, isBlank d = false := forall_mem_of_all rfl
  constructor
  · intro hmem
    rw [hblank c (List.mem_append_left _ hmem)] at h
    cases h
  · intro hmem
    rw [hblank c (List.mem_append_right _ hmem)] at h
    cases h

/-- The name is a form of itself, and no form of it holds a boundary. -/
structure IsTagName (name : Text) : Prop where
  isForm : IsForm name name
  not_boundary : ∀ form, IsForm name form → ∀ c ∈ form, isBoundary c = false

theorem IsTagName.form_chars {name : Text} (hname : IsTagName name) {form : Text}
    (h : IsForm name form) : ∀ c ∈ form, c ∉ angles ∧ c ∉ barriers := by
  intro c hc
  have hboundary := hname.not_boundary form h c hc
  simp only [isBoundary, Bool.or_eq_false_iff, decide_eq_false_iff_not] at hboundary
  exact ⟨hboundary.1.2, hboundary.2⟩

theorem CloseTag.IsProper.inside_chars {name : Text} (hname : IsTagName name) {t : CloseTag}
    (ht : t.IsProper name) : ∀ c ∈ '/' :: (t.name ++ t.gap), c ∉ angles ∧ c ∉ barriers := by
  refine List.forall_mem_cons.2 ⟨by decide, List.forall_mem_append.2 ⟨?_, ?_⟩⟩
  · exact hname.form_chars ht.isForm
  · exact fun c hc => not_mem_of_isBlank (ht.gap_blank c hc)

theorem toLower_eq_self {c : Char} (h : ¬ c.toNat < 0x80) : c.toLower = c := by
  unfold Char.toLower
  split
  · rename_i hupper
    have hle := hupper.2
    rw [UInt32.le_iff_toNat_le] at hle
    have hval : c.toNat = c.val.toNat := rfl
    have hlast : 'Z'.val.toNat = 90 := rfl
    omega
  · rfl

/-- In ASCII, boundaries and letters are told apart one by one. -/
theorem isBoundary_eq_false_of_lt {c : Char} (h : c.toLower.isAlpha = true) (hlt : c.toNat < 0x80) :
    isBoundary c = false := by
  refine forall_ascii (P := fun c => c.toLower.isAlpha = true → isBoundary c = false) ?_ hlt h
  decide +kernel

/-- A name of small ASCII letters is a name of tags. -/
theorem isTagName_of_letters {name : Text}
    (h : ∀ d ∈ name, d.isAlpha = true ∧ d.toNat < 0x80 ∧ d.toLower = d) : IsTagName name where
  isForm := by
    rw [IsForm, List.forall₂_same]
    exact fun d hd => by simp [sameLetter, (h d hd).2.2]
  not_boundary := by
    intro form hform c hc
    obtain ⟨letter, hmem, hsame⟩ := hform.exists_letter hc
    simp only [sameLetter, Bool.or_eq_true, Bool.and_eq_true, beq_iff_eq] at hsame
    rcases hsame with ((rfl | ⟨-, rfl⟩) | ⟨-, rfl | rfl⟩) | ⟨-, rfl⟩
    · -- Beyond ASCII a letter is its own small form.
      have hsmall := h _ hmem
      refine isBoundary_eq_false_of_lt hsmall.1 ?_
      by_contra hlt
      rw [toLower_eq_self hlt] at hsmall
      exact hlt hsmall.2.1
    · decide
    · decide
    · decide
    · decide

theorem isTagName_scriptName : IsTagName scriptName :=
  isTagName_of_letters (forall_mem_of_all rfl)

theorem isTagName_styleName : IsTagName styleName :=
  isTagName_of_letters (forall_mem_of_all rfl)

theorem isTagName_rootName : IsTagName rootName :=
  isTagName_of_letters (forall_mem_of_all rfl)

/-! ## Elements -/

/-- An opening tag ends in the text, whatever it holds, and a closing tag stands behind it. -/
def HoldsElement (name s : Text) : Prop :=
  ∃ (t : OpenTag) (v : CloseTag) (a z : Text), s = a ++ (t.text ++ z) ∧ IsForm name t.name ∧
    Attributes.admitsAny t.attributes = true ∧ v.IsProper name ∧ v.text <:+: z

theorem Attributes.admitsAny_iff {a : Text} :
    Attributes.admitsAny a = true ↔ ∀ c ∈ a.head?, isBlank c = true := by
  cases a with
  | nil => simp [admitsAny]
  | cons c a => simp [admitsAny, isPresent]

/-- Any opening tag opens an element with content or is an empty element. -/
theorem Attributes.admitsContent_or {a : Text} (h : Attributes.admitsAny a = true) :
    Attributes.admitsContent a = true ∨ Attributes.isEmptyElement a = true := by
  by_cases hlast : a.getLast? = some '/'
  · right
    cases a with
    | nil => cases hlast
    | cons c a =>
      have hpresent : isPresent (c :: a) = true := h
      simp [isEmptyElement, hpresent, hlast]
  · left
    simp [admitsContent, h, hlast]

/-- An opening tag ends at the first bracket. -/
theorem exists_proper {name : Text} {t : OpenTag} (hform : IsForm name t.name)
    (hadmits : Attributes.admitsAny t.attributes = true) (z : Text) :
    ∃ (t' : OpenTag) (z' : Text), t'.IsProper name ∧ Attributes.admitsAny t'.attributes = true ∧
      t.text ++ z = t'.text ++ z' ∧ z <:+ z' := by
  rw [Attributes.admitsAny_iff] at hadmits
  rcases breakAt?_cases '>' t.attributes with ⟨-, hnone⟩ | ⟨v, w, -, hsplit, hv⟩
  · exact ⟨t, z, ⟨hform, hnone⟩, Attributes.admitsAny_iff.2 hadmits, rfl, List.suffix_refl z⟩
  · refine ⟨⟨t.name, v⟩, w ++ '>' :: z, ⟨hform, hv⟩, Attributes.admitsAny_iff.2 ?_, ?_,
      ⟨w ++ ['>'], by simp⟩⟩
    · intro c hc
      refine hadmits c ?_
      rw [hsplit, List.head?_append, Option.mem_def.1 hc]
      rfl
    · simp [OpenTag.text, hsplit]

/-- A text that holds no element has no blocks. -/
theorem tokens_eq_nil_of_not_holdsElement {name s : Text} (h : ¬ HoldsElement name s) :
    (Block.pattern name).tokens s = [] := by
  refine (Block.pattern name).tokens_of_silent
    ((Block.pattern name).silent_of_forall_suffix ?_ none)
  rintro v - ⟨a, rfl⟩ prev
  rw [List.append_nil]
  show Block.read name v = none
  by_contra hread
  obtain ⟨t, close, rest, ht, hadmits, hclose, rfl, hwithin⟩ := Block.exists_read_iff.1 hread
  rw [Attributes.admitsContent, Bool.and_eq_true] at hadmits
  exact h ⟨t, close, a, rest, rfl, ht.isForm, hadmits.1, hclose, hwithin⟩

/-! ## Words of tags -/

/-- What a tag is recognized by: an opening tag by its name and the character behind it, a closing
tag as a whole. -/
inductive IsTagWord (name : Text) : Text → Prop
  | opening {form : Text} {c : Char} : IsForm name form → isBlank c = true ∨ c = '>' →
      IsTagWord name ('<' :: form ++ [c])
  | closing {v : CloseTag} : v.IsProper name → IsTagWord name v.text

/-- A first part of a tag, which something is missing from. -/
def IsUnfinished (name u : Text) : Prop := u ≠ [] ∧ ∃ z, z ≠ [] ∧ IsTagWord name (u ++ z)

/-- No tag of the name breaks off in front of another tag. -/
def HasWholeTags (name s : Text) : Prop := ∀ u, IsUnfinished name u → ¬ u ++ ['<'] <:+: s

theorem HasWholeTags.of_isInfix {name s t : Text} (h : HasWholeTags name t) (hs : s <:+: t) :
    HasWholeTags name s :=
  fun u hu hmem => h u hu (hmem.trans hs)

/-- The words that tags, what they break off at and what they are spaced by are made of: the bracket
that ends a tag, or an unfinished tag with one more character. -/
inductive IsWord (name : Text) : Text → Prop
  | bracket : IsWord name ['>']
  | stopped {u : Text} {c : Char} : IsUnfinished name u → isBlank c = true ∨ c ∈ angles →
      IsWord name (u ++ [c])

section

variable {name : Text}

theorem IsUnfinished.of_append {u z : Text} (h : IsUnfinished name (u ++ z)) (hu : u ≠ []) :
    IsUnfinished name u := by
  obtain ⟨-, z', hz, hword⟩ := h
  exact ⟨hu, z ++ z', by simp [hz], by rwa [← List.append_assoc]⟩

theorem IsTagWord.isWord {w : Text} (h : IsTagWord name w) : IsWord name w := by
  have hstopped : ∀ {u : Text} {c : Char}, u ≠ [] → IsTagWord name (u ++ [c]) →
      isBlank c = true ∨ c ∈ angles → IsWord name (u ++ [c]) :=
    fun hu hword hc => .stopped ⟨hu, [_], by simp, hword⟩ hc
  cases h with
  | opening hform hc =>
    refine hstopped (by simp) (.opening hform hc) (hc.imp_right ?_)
    rintro rfl
    decide
  | closing hv => exact hstopped (by simp) (.closing hv) (.inr (by decide))

/-- A tag begins with a bracket, and holds nothing behind it that ends its name or its gap. -/
theorem IsUnfinished.exists_cons (hname : IsTagName name) {u : Text} (h : IsUnfinished name u) :
    ∃ v, u = '<' :: v ∧ ∀ c ∈ v, c ∉ angles ∧ c ∉ barriers := by
  obtain ⟨hu, z, hz, hword⟩ := h
  obtain ⟨d, v, rfl⟩ := List.exists_cons_of_ne_nil hu
  obtain ⟨z, e, rfl⟩ := (List.eq_nil_or_concat z).resolve_left hz
  generalize hw : d :: v ++ z.concat e = w at hword
  rw [List.concat_eq_append, ← List.append_assoc] at hw
  cases hword with
  | @opening form c hf hc =>
    obtain ⟨hv, -⟩ := List.append_inj' hw rfl
    obtain ⟨rfl, rfl⟩ := List.cons.inj hv
    exact ⟨v, rfl, fun c hc => hname.form_chars hf c (List.mem_append_left z hc)⟩
  | @closing t ht =>
    have hends : d :: v ++ z ++ [e] = '<' :: '/' :: t.name ++ t.gap ++ ['>'] := hw
    obtain ⟨hv, -⟩ := List.append_inj' hends rfl
    rw [List.cons_append, List.cons_append, List.cons_append, List.cons.injEq] at hv
    obtain ⟨rfl, hv⟩ := hv
    refine ⟨v, rfl, fun c hc => ht.inside_chars hname c ?_⟩
    rw [← hv]
    exact List.mem_append_left z hc

/-- Tags are whole where each is closed before another one opens. -/
theorem hasWholeTags_of_paired (hname : IsTagName name) {s : Text}
    (h : ¬ ['<', '<'] <:+: s.filter (· ∈ angles)) : HasWholeTags name s := by
  intro u hu hmem
  obtain ⟨v, rfl, hv⟩ := hu.exists_cons hname
  have hnone : v.filter (· ∈ angles) = [] :=
    List.filter_eq_nil_iff.2 fun c hc => decide_eq_true_iff.not.2 (hv c hc).1
  have hbrackets := hmem.filter (· ∈ angles)
  rw [List.filter_append, List.filter_cons, hnone] at hbrackets
  exact h hbrackets

theorem IsWord.exists_cons (hname : IsTagName name) {w : Text} (h : IsWord name w) :
    ∃ c v, w = c :: v ∧ c ∈ angles := by
  cases h with
  | bracket => exact ⟨'>', [], rfl, by decide⟩
  | stopped hu _ =>
    obtain ⟨v, rfl, -⟩ := hu.exists_cons hname
    exact ⟨'<', _, rfl, by decide⟩

theorem IsWord.ne_nil (hname : IsTagName name) {w : Text} (h : IsWord name w) : w ≠ [] := by
  obtain ⟨c, v, rfl, -⟩ := h.exists_cons hname
  simp

theorem IsWord.not_barrier (hname : IsTagName name) {w : Text} (h : IsWord name w) :
    ∀ c ∈ w, c ∉ barriers := by
  cases h with
  | bracket => exact forall_mem_of_all rfl
  | stopped hu hc =>
    obtain ⟨v, rfl, hv⟩ := hu.exists_cons hname
    refine List.forall_mem_append.2
      ⟨List.forall_mem_cons.2 ⟨by decide, fun d hd => (hv d hd).2⟩, ?_⟩
    rw [List.forall_mem_singleton]
    rcases hc with hc | hc
    · exact (not_mem_of_isBlank hc).2
    · exact forall_mem_of_all (P := (· ∉ barriers)) rfl _ hc

/-- Where tags are whole, no word breaks off in front of a tag. -/
theorem IsWord.isUnbroken {w s : Text} (h : IsWord name w) (hs : HasWholeTags name s) :
    IsUnbroken '<' w s := by
  intro u z hw hu hz
  cases h with
  | bracket =>
    rcases List.append_eq_singleton_iff.1 hw.symm with ⟨rfl, -⟩ | ⟨-, rfl⟩
    · exact absurd rfl hu
    · exact absurd rfl hz
  | @stopped v c hv _ =>
    -- The first part is the unfinished tag or a first part of it.
    obtain ⟨z, d, rfl⟩ := (List.eq_nil_or_concat z).resolve_left hz
    rw [List.concat_eq_append, ← List.append_assoc] at hw
    obtain ⟨rfl, -⟩ := List.append_inj' hw rfl
    exact hs u (hv.of_append hu)

/-! ## Passes that make no words -/

/-- A pass that makes no words breaks off no tag. -/
theorem HasWholeTags.of_keeps {s t : Text} (hs : HasWholeTags name s)
    (h : Keeps (IsWord name) s t) : HasWholeTags name t :=
  fun u hu hmem => hs u hu (h.isInfix (.stopped hu (.inr (by decide))) hmem)

/-- The words that follow the name of an element, where `c` is the character behind it: the end of
the opening tag, unless it is this character, and the closing tag. -/
def closingWords (c : Char) (v : CloseTag) : List Text :=
  if c = '>' then [v.text] else [['>'], v.text]

theorem isWord_closingWords (c : Char) {v : CloseTag} (hv : v.IsProper name) :
    ∀ w ∈ closingWords c v, IsWord name w := by
  have hclosing := (IsTagWord.closing hv).isWord
  unfold closingWords
  split
  · simpa using hclosing
  · simpa using ⟨IsWord.bracket, hclosing⟩

/-- An element begins with its name, and the words that follow it occur behind. -/
theorem exists_words {t : OpenTag} {v : CloseTag} {z : Text} (hform : IsForm name t.name)
    (hadmits : Attributes.admitsAny t.attributes = true) (hwithin : v.text <:+: z) :
    ∃ c b, t.text ++ z = '<' :: t.name ++ [c] ++ b ∧ IsTagWord name ('<' :: t.name ++ [c]) ∧
      (isBlank c = true ∨ c = '>') ∧ Occur (closingWords c v) b := by
  obtain ⟨form, attributes⟩ := t
  rw [Attributes.admitsAny_iff] at hadmits
  unfold closingWords
  cases attributes with
  | nil =>
    exact ⟨'>', z, by simp [OpenTag.text], .opening hform (.inr rfl), .inr rfl,
      occur_singleton.2 hwithin⟩
  | cons c attributes =>
    have hc := hadmits c rfl
    have hne : c ≠ '>' := by
      rintro rfl
      exact absurd hc (by decide)
    refine ⟨c, attributes ++ '>' :: z, by simp [OpenTag.text], .opening hform (.inl hc), .inl hc,
      ?_⟩
    rw [if_neg hne]
    exact ⟨attributes, z, rfl, occur_singleton.2 hwithin⟩

/-- Where these words stand, an element does. -/
theorem exists_element {form b : Text} {c : Char} {v : CloseTag} (hc : isBlank c = true ∨ c = '>')
    (h : Occur (closingWords c v) b) :
    ∃ attributes z, Attributes.admitsAny attributes = true ∧
      '<' :: form ++ [c] ++ b = OpenTag.text ⟨form, attributes⟩ ++ z ∧ v.text <:+: z := by
  unfold closingWords at h
  by_cases he : c = '>'
  · rw [if_pos he] at h
    exact ⟨[], b, rfl, by simp [OpenTag.text, he], occur_singleton.1 h⟩
  · rw [if_neg he] at h
    obtain ⟨a, z, rfl, hz⟩ := h
    refine ⟨c :: a, z, Attributes.admitsAny_iff.2 ?_, by simp [OpenTag.text], occur_singleton.1 hz⟩
    rintro d ⟨⟩
    exact hc.resolve_right he

/-- A pass that makes no words makes no element. -/
theorem holdsElement_of_keeps {s t : Text} (h : Keeps (IsWord name) s t)
    (ht : HoldsElement name t) : HoldsElement name s := by
  obtain ⟨o, v, a, z, rfl, hform, hadmits, hv, hwithin⟩ := ht
  obtain ⟨c, b, htext, hword, hc, hoccur⟩ := exists_words hform hadmits hwithin
  have hwords : ∀ w ∈ ('<' :: o.name ++ [c]) :: closingWords c v, IsWord name w :=
    List.forall_mem_cons.2 ⟨hword.isWord, isWord_closingWords c hv⟩
  obtain ⟨a', b', rfl, hb⟩ := h _ hwords ⟨a, b, by rw [htext], hoccur⟩
  obtain ⟨attributes, z', hadmits', htext', hwithin'⟩ := exists_element hc hb
  exact ⟨⟨o.name, attributes⟩, v, a', z', by rw [htext'], hform, hadmits', hv, hwithin'⟩

/-! ## Taking out tokens that are tags -/

section

variable {α : Type} {p : Pattern α}

theorem HasWholeTags.keeps_eraseFrom (hname : IsTagName name)
    (hfirst : ∀ x, (p.text x).head? = some '<') {s : Text} (hs : HasWholeTags name s)
    (prev : Option Char) : Keeps (IsWord name) s (p.eraseFrom prev s) :=
  p.keeps_eraseFrom hfirst (fun _ hw => hw.ne_nil hname) (fun _ hw => hw.isUnbroken hs) prev

/-- Where an element is left, an opening tag stood of which nothing was read, and the closing tag
stood behind it. -/
theorem exists_opening_of_eraseFrom (hname : IsTagName name)
    (hfirst : ∀ x, (p.text x).head? = some '<') {s : Text} (hs : HasWholeTags name s)
    {prev : Option Char} {t : OpenTag} {v : CloseTag} {a z : Text} (hform : IsForm name t.name)
    (hadmits : Attributes.admitsAny t.attributes = true) (hv : v.IsProper name)
    (hwithin : v.text <:+: z) (h : p.eraseFrom prev s = a ++ (t.text ++ z)) :
    ∃ (u : Text) (o : OpenTag) (z' : Text) (prev' : Option Char), s = u ++ (o.text ++ z') ∧
      o.IsProper name ∧ Attributes.admitsAny o.attributes = true ∧ v.text <:+: z' ∧
        p.read prev' (o.text ++ z') = none ∧ p.eraseFrom prev' (o.text ++ z') = t.text ++ z := by
  obtain ⟨c, b, htext, hword, hc, hoccur⟩ := exists_words hform hadmits hwithin
  rw [htext] at h ⊢
  obtain ⟨u, t', prev', prev'', rfl, hnone, hleft, rfl⟩ :=
    p.exists_word_of_eraseFrom hfirst (hword.isWord.ne_nil hname) (hword.isWord.isUnbroken hs) h
  have hbehind : HasWholeTags name t' := hs.of_isInfix ⟨u ++ ('<' :: t.name ++ [c]), [], by simp⟩
  have hold := hbehind.keeps_eraseFrom hname hfirst prev'' _ (isWord_closingWords c hv) hoccur
  obtain ⟨attributes, z', hadmits', htext', hwithin'⟩ := exists_element hc hold
  obtain ⟨o, z'', ho, hoadmits, hotext, hsuffix⟩ :=
    exists_proper (t := ⟨t.name, attributes⟩) hform hadmits' z'
  rw [htext', hotext] at hnone hleft ⊢
  exact ⟨u, o, z'', prev', rfl, ho, hoadmits, hwithin'.trans hsuffix.isInfix, hnone, hleft⟩

end

/-! ## Taking out elements -/

theorem not_bracket_of_mem (hname : IsTagName name) {t : OpenTag} (ht : t.IsProper name) :
    ∀ c ∈ '<' :: t.name ++ t.attributes, (c != '>') = true := by
  have hne : ∀ c ∈ t.name, (c != '>') = true := by
    intro c hc
    rw [bne_iff_ne]
    rintro rfl
    exact absurd (hname.not_boundary t.name ht.isForm '>' hc) (by decide)
  refine List.forall_mem_append.2 ⟨List.forall_mem_cons.2 ⟨rfl, hne⟩, fun c hc => ?_⟩
  simpa using ne_of_mem_of_not_mem hc ht.attributes_chars

/-- A tag that opens no content ends with a slash. -/
theorem not_admitsContent {a : Text} (h : a.getLast? = some '/') :
    Attributes.admitsContent a = false := by
  simp [Attributes.admitsContent, h]

/-- Within the tag of an empty element no block begins. -/
theorem silent_opening (hname : IsTagName name) {o : OpenTag} (ho : o.IsProper name)
    (hlast : o.attributes.getLast? = some '/') (prev : Option Char) (z : Text) :
    (Block.pattern name).Silent prev ('<' :: o.name ++ o.attributes) ('>' :: z) := by
  refine (Block.pattern name).silent_of_forall_suffix ?_ prev
  rintro y hne ⟨w, hw⟩ prev'
  show Block.read name (y ++ '>' :: z) = none
  by_contra hread
  obtain ⟨t, v, rest, ht, hadmits, -, htext, -⟩ := Block.exists_read_iff.1 hread
  -- The block would begin with a tag that ends with the same slash.
  have hy : ∀ c ∈ y, (c != '>') = true := by
    intro c hc
    exact not_bracket_of_mem hname ho c (by rw [← hw]; exact List.mem_append_right w hc)
  have htext' : y ++ '>' :: z = ('<' :: t.name ++ t.attributes) ++ '>' :: rest := by
    simpa [OpenTag.text] using htext
  obtain ⟨rfl, -, -⟩ :=
    eq_of_append_eq_append hy (not_bracket_of_mem hname ht) (by decide) (by decide) htext'
  have hslash : ('<' :: t.name ++ t.attributes).getLast? = some '/' := by
    have hends := congrArg List.getLast? hw
    rw [List.getLast?_append, List.getLast?_eq_some_getLast hne, Option.some_or] at hends
    rw [List.getLast?_eq_some_getLast hne, hends, List.getLast?_append, hlast, Option.some_or]
  rcases List.eq_nil_or_concat t.attributes with hnil | ⟨a, c, ha⟩
  · rw [hnil, List.append_nil] at hslash
    rcases List.mem_cons.1 (List.mem_of_getLast? hslash) with hc | hc
    · exact absurd hc (by decide)
    · exact absurd (hname.not_boundary t.name ht.isForm '/' hc) (by decide)
  · have hends : t.attributes.getLast? = some '/' := by
      rw [ha, List.concat_eq_append, ← List.append_assoc, List.getLast?_concat] at hslash
      rw [ha, List.concat_eq_append, List.getLast?_concat, hslash]
    rw [not_admitsContent hends] at hadmits
    cases hadmits

/-- No block can be read in what blocks have been taken out of. -/
theorem read_eq_none_of_suffix_erase (hname : IsTagName name) {s : Text} (hs : HasWholeTags name s)
    {w : Text} (hw : w <:+ (Block.pattern name).erase s) : Block.read name w = none := by
  by_contra hread
  obtain ⟨t, v, rest, ht, hcontent, hv, rfl, hwithin⟩ := Block.exists_read_iff.1 hread
  obtain ⟨a, ha⟩ := hw
  have hadmits : Attributes.admitsAny t.attributes = true := by
    rw [Attributes.admitsContent, Bool.and_eq_true] at hcontent
    exact hcontent.1
  obtain ⟨u, o, z, prev, -, ho, hoadmits, hbehind, hnone, hleft⟩ :=
    exists_opening_of_eraseFrom (p := Block.pattern name) hname (fun _ => rfl) hs ht.isForm hadmits
      hv hwithin (show (Block.pattern name).eraseFrom none s = _ from ha.symm)
  rcases Attributes.admitsContent_or hoadmits with hocontent | hoempty
  · exact Block.exists_read_iff.2 ⟨o, v, z, ho, hocontent, hv, rfl, hbehind⟩ hnone
  · -- The tag stood there with its slash, so what is left is no beginning of a block.
    have hlast : o.attributes.getLast? = some '/' := by
      simp only [Attributes.isEmptyElement, Bool.or_eq_true, Bool.and_eq_true, beq_iff_eq]
        at hoempty
      rcases hoempty with he | ⟨-, he⟩
      · rw [he]
        rfl
      · exact he
    have hbracket : (Block.pattern name).read
        (behind prev ('<' :: o.name ++ o.attributes)) ('>' :: z) = none :=
      (Block.pattern name).read_cons_eq_none (fun _ => rfl) (show '>' ≠ '<' by decide) _ z
    have hcopied := Pattern.replaceFrom_append_of_silent (f := fun _ => [])
      (silent_opening hname ho hlast prev z)
    rw [(Block.pattern name).replaceFrom_of_none hbracket] at hcopied
    have hsame : ('<' :: o.name ++ o.attributes) ++
        '>' :: (Block.pattern name).eraseFrom (some '>') z =
          ('<' :: t.name ++ t.attributes) ++ '>' :: rest := by
      refine hcopied.symm.trans (Eq.trans ?_ (hleft.trans ?_))
      · simp [OpenTag.text]
      · simp [OpenTag.text]
    obtain ⟨htag, -, -⟩ := eq_of_append_eq_append (not_bracket_of_mem hname ho)
      (not_bracket_of_mem hname ht) (by decide) (by decide) hsame
    obtain ⟨-, hattributes⟩ := List.append_inj htag
      (by simp [← ho.isForm.length_eq, ← ht.isForm.length_eq])
    rw [← hattributes, not_admitsContent hlast] at hcontent
    cases hcontent

/-- **No element is left.** -/
theorem not_holdsElement_removeElements (hname : IsTagName name) {s : Text}
    (hs : HasWholeTags name s) : ¬ HoldsElement name (removeElements name s) := by
  rintro ⟨t, v, a, z, htext, hform, hadmits, hv, hwithin⟩
  have hmid := hs.of_keeps (hs.keeps_eraseFrom hname (p := Block.pattern name)
    (fun _ => rfl) none)
  obtain ⟨u, o, z', prev, hstands, ho, hoadmits, hbehind, hnone, -⟩ :=
    exists_opening_of_eraseFrom (p := Block.emptyElement name) hname (fun _ => rfl) hmid hform
      hadmits hv hwithin (show (Block.emptyElement name).eraseFrom none _ = _ from htext)
  rcases Attributes.admitsContent_or hoadmits with hocontent | hoempty
  · have hread := read_eq_none_of_suffix_erase hname hs ⟨u, hstands.symm⟩
    exact Block.exists_read_iff.2 ⟨o, v, z', ho, hocontent, hv, rfl, hbehind⟩ hread
  · have hread : (Block.emptyElement name).read prev (o.text ++ z') = some (o, z') :=
      OpenTag.read_eq_some_iff.2 ⟨ho, hoempty, rfl⟩
    rw [hread] at hnone
    cases hnone

end

end SvgAssets.Markup
