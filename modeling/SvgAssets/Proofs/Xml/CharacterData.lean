/-
# SvgAssets.Proofs.Xml.CharacterData -- text that needs no declaration

Content and attribute values hold the same kind of text: characters that stand for themselves, and
references to characters and to the entities that every document knows (`IsData`). A reference is
delimited by characters that it cannot hold, so such a text can be cut at any other character
(`IsData.of_append`), and cut texts can be put together again.
-/
import SvgAssets.Proofs.Xml.Reading
import SvgAssets.Proofs.Markup.Tokens
import SvgAssets.Xml.Content

namespace SvgAssets.Xml

open Text

-- What is said of the characters in a list is decided by going through the list.
attribute [local instance (2000)] List.decidableBAll

/-! ## Characters of names -/

theorem isNameChar_of_isNameStart {c : Char} (h : isNameStart c = true) : isNameChar c = true := by
  simp [isNameChar, h]

/-- What is known of all numbers in ranges holds of a name character. -/
theorem of_isNameChar {P : Nat → Prop} {c : Char}
    (hP : ∀ x ∈ letterRanges ++ continuationRanges, ∀ n, x.1 ≤ n → n ≤ x.2 → P n)
    (h : isNameChar c = true) : P c.toNat := by
  simp only [isNameChar, isNameStart, inRanges, Bool.or_eq_true, List.any_eq_true,
    Bool.and_eq_true, decide_eq_true_eq] at h
  rcases h with ⟨x, hx, hlow, hhigh⟩ | ⟨x, hx, hlow, hhigh⟩
  · exact hP x (List.mem_append_left _ hx) _ hlow hhigh
  · exact hP x (List.mem_append_right _ hx) _ hlow hhigh

theorem isLegal_of_isNameChar {c : Char} (h : isNameChar c = true) : isLegal c = true := by
  have hbounds : ∀ x ∈ letterRanges ++ continuationRanges, 0x20 ≤ x.1 ∧ x.2 < 0xfffe := by
    decide +kernel
  have hc : 0x20 ≤ c.toNat ∧ c.toNat < 0xfffe := by
    refine of_isNameChar (P := fun n => 0x20 ≤ n ∧ n < 0xfffe) (fun x hx n hlow hhigh => ?_) h
    have := hbounds x hx
    omega
  have hne : c.toNat ≠ 0xfffe ∧ c.toNat ≠ 0xffff := by omega
  simp [isLegal, hc.1, hne.1, hne.2]

/-- No name holds white space. -/
theorem not_isBlank_of_isNameChar {c : Char} (h : isNameChar c = true) : isBlank c = false := by
  have hdisjoint : bits (letterRanges ++ continuationRanges) &&& bits blankRanges = 0 := by
    decide +kernel
  have hc : inRanges (letterRanges ++ continuationRanges) c.toNat = true := by
    rw [inRanges, List.any_append]
    exact h
  exact inRanges_eq_false_of_bits hdisjoint hc

/-- Characters with a meaning in markup. -/
abbrev signs : Text :=
  ['<', '>', '&', '"', '\'', '=', '/', '\x7b', '\x7d', '(', ')', '?', '!', '|']

theorem isNameChar_eq_false_of_mem_signs {c : Char} (h : c ∈ signs) : isNameChar c = false := by
  have hall : ∀ d ∈ signs ++ ['#', ';', ':'], isNameChar d = false := by
    decide +kernel
  exact hall c (List.mem_append_left _ h)

/-! ## References -/

/-- What a reference may hold behind its ampersand. -/
def isReferenceChar (c : Char) : Bool := isNameChar c || c == '#' || c == ';'

theorem isReferenceChar_of_isNameChar {c : Char} (h : isNameChar c = true) :
    isReferenceChar c = true := by
  simp [isReferenceChar, h]

theorem isReferenceChar_eq_false_of_mem_signs {c : Char} (h : c ∈ signs) :
    isReferenceChar c = false := by
  have hall : ∀ d ∈ signs, (d == '#') = false ∧ (d == ';') = false := by decide
  simp [isReferenceChar, isNameChar_eq_false_of_mem_signs h, hall c h]

theorem isReferenceChar_eq_false_of_isBlank {c : Char} (h : isBlank c = true) :
    isReferenceChar c = false := by
  have hname : isNameChar c = false := by
    rw [← Bool.not_eq_true]
    intro hname
    rw [not_isBlank_of_isNameChar hname] at h
    cases h
  have hne : c ≠ '#' ∧ c ≠ ';' := by
    constructor
    · rintro rfl
      exact absurd h (by decide)
    · rintro rfl
      exact absurd h (by decide)
  simp [isReferenceChar, hname, hne.1, hne.2]

theorem isLegal_of_isReferenceChar {c : Char} (h : isReferenceChar c = true) :
    isLegal c = true := by
  simp only [isReferenceChar, Bool.or_eq_true, beq_iff_eq] at h
  rcases h with (h | rfl) | rfl
  · exact isLegal_of_isNameChar h
  · decide
  · decide

/-- A reference to a character that a document may hold, or to an entity that needs no
declaration. -/
def Reference.isKnown : Reference → Bool
  | .character n => (character? n).isSome
  | .entity name => (predefined? name).isSome

/-- What stands behind the ampersand of a known reference. -/
structure IsReference (body : Text) : Prop where
  chars : ∀ c ∈ body, isReferenceChar c = true
  reads : ∃ r : Reference, r.isKnown = true ∧ ∀ t, referenceReader.run (body ++ t) = .ok (r, t)

theorem isNameChar_of_digit {c : Char} (h : c.isDigit = true) : isNameChar c = true := by
  simp only [Char.isDigit, Bool.and_eq_true, decide_eq_true_eq] at h
  have hlow := UInt32.le_iff_toNat_le.1 h.1
  have hhigh := UInt32.le_iff_toNat_le.1 h.2
  have hrange : inRanges continuationRanges c.toNat = true := by
    rw [inRanges, List.any_eq_true]
    exact ⟨(0x30, 0x39), by decide, by simpa using ⟨hlow, hhigh⟩⟩
  simp [isNameChar, hrange]

theorem isNameChar_of_isHexDigit {c : Char} (h : isHexDigit c = true) : isNameChar c = true := by
  simp only [isHexDigit, Bool.or_eq_true, Bool.and_eq_true, decide_eq_true_eq] at h
  have hletter : ∀ x ∈ letterRanges, x.1 ≤ c.toNat → c.toNat ≤ x.2 → isNameChar c = true := by
    intro x hx hlow hhigh
    have hrange : inRanges letterRanges c.toNat = true := by
      rw [inRanges, List.any_eq_true]
      exact ⟨x, hx, by simpa using ⟨hlow, hhigh⟩⟩
    simp [isNameChar, isNameStart, hrange]
  rcases h with (h | ⟨hlow, hhigh⟩) | ⟨hlow, hhigh⟩
  · exact isNameChar_of_digit h
  · have hlow' : 97 ≤ c.toNat := UInt32.le_iff_toNat_le.1 hlow
    have hhigh' : c.toNat ≤ 102 := UInt32.le_iff_toNat_le.1 hhigh
    exact hletter (0x61, 0x7a) (by decide) hlow' (Nat.le_trans hhigh' (by decide))
  · have hlow' : 65 ≤ c.toNat := UInt32.le_iff_toNat_le.1 hlow
    have hhigh' : c.toNat ≤ 70 := UInt32.le_iff_toNat_le.1 hhigh
    exact hletter (0x41, 0x5a) (by decide) hlow' (Nat.le_trans hhigh' (by decide))

theorem semicolon_not_isNameChar : isNameChar ';' = false := by decide +kernel

/-- A word up to a semicolon is read alike whatever follows it. -/
theorem exists_of_word_semicolon {α : Type} {p q : Char → Bool} {f : Text → α} {s rest : Text}
    {a : α} (hp : ∀ c, p c = true → isNameChar c = true)
    (hq : ∀ c, q c = true → isNameChar c = true)
    (h : (do let w ← Reader.word p q; let _ ← semicolonReader; return f w : Reader α).run s =
      .ok (a, rest)) :
    ∃ w, s = w ++ rest ∧ (∀ c ∈ w, isReferenceChar c = true) ∧ ∀ t,
      (do let w ← Reader.word p q; let _ ← semicolonReader; return f w : Reader α).run (w ++ t) =
        .ok (a, t) := by
  simp only [Reader.run_bind_eq_ok_iff, Reader.run_word_eq_ok_iff, semicolonReader,
    Reader.run_one_eq_ok_iff, Reader.run_pure, Except.ok.injEq, Prod.mk.injEq] at h ⊢
  obtain ⟨w, s₁, ⟨rfl, ⟨c, cs, rfl, hc, hcs⟩, -⟩, d, s₂, ⟨rfl, hd⟩, rfl, rfl⟩ := h
  obtain rfl : d = ';' := by simpa using hd
  have hstop : q ';' = false := by
    rw [← Bool.not_eq_true]
    intro h
    have hname := hq _ h
    rw [semicolon_not_isNameChar] at hname
    cases hname
  refine ⟨c :: cs ++ [';'], by simp, ?_, fun t => ?_⟩
  · intro d hd
    rcases List.mem_append.1 hd with hd | hd
    · rcases List.mem_cons.1 hd with rfl | hd
      · exact isReferenceChar_of_isNameChar (hp _ hc)
      · exact isReferenceChar_of_isNameChar (hq _ (hcs d hd))
    · rw [List.mem_singleton.1 hd]
      decide +kernel
  · exact ⟨c :: cs, ';' :: t, ⟨by simp, ⟨c, cs, rfl, hc, hcs⟩, by simpa using hstop⟩, ';', t,
      ⟨rfl, hd⟩, rfl, rfl⟩

/-- A reference is read alike whatever follows it. -/
theorem exists_of_referenceReader {s rest : Text} {r : Reference}
    (h : referenceReader.run s = .ok (r, rest)) :
    ∃ body, s = body ++ rest ∧ (∀ c ∈ body, isReferenceChar c = true) ∧
      ∀ t, referenceReader.run (body ++ t) = .ok (r, t) := by
  have hlead : ∀ c ∈ ['#', 'x'], isReferenceChar c = true := by decide +kernel
  unfold referenceReader at h ⊢
  cases hhex : after? ['#', 'x'] s with
  | some digits =>
    obtain rfl := after?_eq_some_iff.1 hhex
    rw [Reader.run_behind_append] at h
    obtain ⟨w, rfl, hw, hreads⟩ := exists_of_word_semicolon (fun _ => isNameChar_of_isHexDigit)
      (fun _ => isNameChar_of_isHexDigit) h
    refine ⟨['#', 'x'] ++ w, by simp, List.forall_mem_append.2 ⟨hlead, hw⟩, fun t => ?_⟩
    rw [List.append_assoc, Reader.run_behind_append]
    exact hreads t
  | none =>
  have hskip : ∀ {u : Text}, after? ['#', 'x'] u = none → ∀ (a b : Reader Reference),
      (Reader.behind ['#', 'x'] a b).run u = b.run u := by
    intro u hu a b
    simp only [Reader.behind, hu]
  rw [hskip hhex] at h
  cases hdecimal : after? ['#'] s with
  | some digits =>
    obtain rfl := after?_eq_some_iff.1 hdecimal
    rw [Reader.run_behind_append] at h
    obtain ⟨w, rfl, hw, hreads⟩ := exists_of_word_semicolon (fun _ => isNameChar_of_digit)
      (fun _ => isNameChar_of_digit) h
    refine ⟨['#'] ++ w, by simp,
      List.forall_mem_append.2 ⟨fun c hc => hlead c (by simp_all), hw⟩, fun t => ?_⟩
    -- No digit is the letter that announces a hexadecimal numeral.
    have hdigit : ∃ c cs, w = c :: cs ∧ c.isDigit = true := by
      have hrun := hreads []
      simp only [Reader.run_bind_eq_ok_iff, Reader.run_word_eq_ok_iff] at hrun
      obtain ⟨v, u, ⟨hv, ⟨c, cs, rfl, hc, -⟩, -⟩, -⟩ := hrun
      rw [List.append_nil] at hv
      exact ⟨c, _, hv, hc⟩
    obtain ⟨c, cs, rfl, hc⟩ := hdigit
    have hne : c ≠ 'x' := by
      rintro rfl
      exact absurd hc (by decide)
    rw [List.append_assoc, hskip (by simp [after?, hne.symm]), Reader.run_behind_append]
    exact hreads t
  | none =>
    have hskip' : ∀ {u : Text}, after? ['#'] u = none → ∀ (a b : Reader Reference),
        (Reader.behind ['#'] a b).run u = b.run u := by
      intro u hu a b
      simp only [Reader.behind, hu]
    rw [hskip' hdecimal] at h
    obtain ⟨w, rfl, hw, hreads⟩ := exists_of_word_semicolon
      (fun _ => isNameChar_of_isNameStart) (fun _ => id) h
    refine ⟨w, rfl, hw, fun t => ?_⟩
    have hhead : ∀ d ∈ (w ++ t).head?, d ≠ '#' := by
      have hrun := hreads []
      simp only [Reader.run_bind_eq_ok_iff, Reader.run_word_eq_ok_iff] at hrun
      obtain ⟨v, u, ⟨hv, ⟨c, cs, rfl, hc, -⟩, -⟩, -⟩ := hrun
      rw [List.append_nil] at hv
      rw [hv]
      rintro d hd rfl
      obtain rfl : c = '#' := by simpa using hd
      exact absurd hc (by decide +kernel)
    have hnone : ∀ lead : Text, after? ('#' :: lead) (w ++ t) = none := by
      intro lead
      cases hwt : w ++ t with
      | nil => rfl
      | cons d u =>
        rw [hwt] at hhead
        simp [after?, (hhead d rfl).symm]
    rw [hskip (hnone _), hskip' (hnone _)]
    exact hreads t

/-- What is read as a known reference up to its end is one in front of any text. -/
theorem IsReference.of_run {body : Text} {r : Reference}
    (h : referenceReader.run body = .ok (r, [])) (hr : r.isKnown = true) : IsReference body := by
  obtain ⟨body', hbody, hchars, hreads⟩ := exists_of_referenceReader h
  rw [List.append_nil] at hbody
  subst hbody
  exact ⟨hchars, r, hr, hreads⟩

/-! ## Character data -/

/-- Characters that stand for themselves. The closing bracket is one of them only where it does not
end a section, so it is left out. -/
def isDataChar (c : Char) : Bool := isLegal c && c != '<' && c != '>' && c != '&'

/-- Text of characters that stand for themselves and of known references. -/
inductive IsData : Text → Prop
  | nil : IsData []
  | char {c : Char} {s : Text} (hc : isDataChar c = true) (hs : IsData s) : IsData (c :: s)
  | reference {body s : Text} (hbody : IsReference body) (hs : IsData s) :
      IsData ('&' :: body ++ s)

namespace IsData

theorem append {s t : Text} (hs : IsData s) (ht : IsData t) : IsData (s ++ t) := by
  induction hs with
  | nil => exact ht
  | char hc _ ih => exact .char hc ih
  | reference hbody _ ih =>
    rw [List.append_assoc]
    exact .reference hbody ih

theorem of_forall {s : Text} (h : ∀ c ∈ s, isDataChar c = true) : IsData s := by
  induction s with
  | nil => exact .nil
  | cons c s ih =>
    rw [List.forall_mem_cons] at h
    exact .char h.1 (ih h.2)

theorem of_cons {c : Char} {s : Text} (hc : c ≠ '&') (h : IsData (c :: s)) :
    isDataChar c = true ∧ IsData s := by
  cases h with
  | char hc' hs => exact ⟨hc', hs⟩
  | reference => exact absurd rfl hc

/-- No reference reaches over a character that it cannot hold. -/
theorem of_append {s t : Text} (h : IsData (s ++ t))
    (ht : ∀ c ∈ t.head?, isReferenceChar c = false) : IsData s ∧ IsData t := by
  generalize hu : s ++ t = u at h
  induction h generalizing s with
  | nil =>
    obtain ⟨rfl, rfl⟩ := List.append_eq_nil_iff.1 hu
    exact ⟨.nil, .nil⟩
  | @char c u hc hu' ih =>
    cases s with
    | nil =>
      obtain rfl := hu
      exact ⟨.nil, .char hc hu'⟩
    | cons d s =>
      obtain ⟨rfl, rfl⟩ := List.cons.inj hu
      exact ⟨.char hc (ih rfl).1, (ih rfl).2⟩
  | @reference body u hbody hu' ih =>
    cases s with
    | nil =>
      obtain rfl := hu
      exact ⟨.nil, .reference hbody hu'⟩
    | cons d s =>
      obtain ⟨rfl, htail⟩ : d = '&' ∧ s ++ t = body ++ u := List.cons.inj hu
      rcases List.append_eq_append_iff.1 htail with ⟨w, rfl, rfl⟩ | ⟨w, rfl, rfl⟩
      · -- The reference would reach into the second text.
        cases w with
        | nil =>
          rw [List.append_nil] at hbody
          exact ⟨by simpa using IsData.reference hbody .nil, hu'⟩
        | cons e w =>
          have hchar := hbody.chars e (by simp)
          rw [ht e rfl] at hchar
          cases hchar
      · exact ⟨.reference hbody (ih rfl).1, (ih rfl).2⟩

/-- A text can be cut at a character that no reference holds. -/
theorem of_append_cons {s t : Text} {c : Char} (h : IsData (s ++ c :: t)) (hc : c ≠ '&')
    (hstop : isReferenceChar c = false) : IsData s ∧ isDataChar c = true ∧ IsData t := by
  obtain ⟨hs, hct⟩ := h.of_append (t := c :: t) (by simpa using hstop)
  exact ⟨hs, of_cons hc hct⟩

theorem isLegal {s : Text} (h : IsData s) : ∀ c ∈ s, isLegal c = true := by
  induction h with
  | nil => simp
  | char hc _ ih =>
    simp only [isDataChar, Bool.and_eq_true] at hc
    exact List.forall_mem_cons.2 ⟨hc.1.1.1, ih⟩
  | @reference body s hbody _ ih =>
    refine List.forall_mem_append.2 ⟨List.forall_mem_cons.2 ⟨by decide, fun c hc => ?_⟩, ih⟩
    exact isLegal_of_isReferenceChar (hbody.chars c hc)

theorem not_bracket {s : Text} (h : IsData s) : ∀ c ∈ s, c ≠ '<' ∧ c ≠ '>' := by
  induction h with
  | nil => simp
  | char hc _ ih =>
    refine List.forall_mem_cons.2 ⟨?_, ih⟩
    simp only [isDataChar, Bool.and_eq_true, bne_iff_ne] at hc
    exact ⟨hc.1.1.2, hc.1.2⟩
  | @reference body s hbody _ ih =>
    refine List.forall_mem_append.2 ⟨List.forall_mem_cons.2 ⟨by decide, fun c hc => ?_⟩, ih⟩
    have hchar := hbody.chars c hc
    constructor
    · rintro rfl
      rw [isReferenceChar_eq_false_of_mem_signs (by decide)] at hchar
      cases hchar
    · rintro rfl
      rw [isReferenceChar_eq_false_of_mem_signs (by decide)] at hchar
      cases hchar

end IsData

end SvgAssets.Xml
