/-
# SvgAssets.Proofs.Stylesheet.Packing -- what minifying does between inert characters

Minifying looks at white space, at punctuation, and at zeros with a unit. A character that is none
of these is inert: every pass keeps it, and works on what stands in front of it and on what stands
behind it separately (`packed_append_cons`). Only the end of a word matters to the text in front,
as a unit ends there. So words of inert characters come neither into being nor to an end
(`infix_of_infix_packed`), and a text is minified piece by piece around them.
-/
import SvgAssets.Proofs.Text.Replacing
import SvgAssets.Proofs.Text.Scanning
import SvgAssets.Proofs.Text.Spacing
import SvgAssets.Stylesheet.Minify

namespace SvgAssets.Stylesheet

open Text

/-! ## Units behind zeros -/

/-- Whether a zero in front of a text loses its unit, where `prev` is the character in front of the
zero. -/
def losesUnit (prev : Option Char) : Text → Bool
  | a :: b :: s => atNumberStart prev && isZeroUnit a b && atWordEnd s
  | _ => false

theorem dropZeroUnits_of_ne {c : Char} (h : c ≠ '0') (prev : Option Char) (s : Text) :
    dropZeroUnits prev (c :: s) = c :: dropZeroUnits (some c) s := by
  rw [dropZeroUnits]
  simp [h]

theorem dropZeroUnits_kept {prev : Option Char} {s : Text} (h : losesUnit prev s = false) :
    dropZeroUnits prev ('0' :: s) = '0' :: dropZeroUnits (some '0') s := by
  match s with
  | [] => rfl
  | [a] => rfl
  | a :: b :: s =>
    rw [losesUnit] at h
    rw [dropZeroUnits, h, if_neg Bool.false_ne_true]

theorem dropZeroUnits_lost {prev : Option Char} {a b : Char} {s : Text}
    (h : losesUnit prev (a :: b :: s) = true) :
    dropZeroUnits prev ('0' :: a :: b :: s) = '0' :: dropZeroUnits (some b) s := by
  rw [losesUnit] at h
  rw [dropZeroUnits, if_pos h]

/-- A text is gone through by zeros that lose their unit and by other characters. -/
@[elab_as_elim]
theorem dropZeroUnits_induct {P : Option Char → Text → Prop} (nil : ∀ prev, P prev [])
    (other : ∀ prev c s, c ≠ '0' → P (some c) s → P prev (c :: s))
    (kept : ∀ prev s, losesUnit prev s = false → P (some '0') s → P prev ('0' :: s))
    (lost : ∀ prev a b s, losesUnit prev (a :: b :: s) = true → P (some b) s →
      P prev ('0' :: a :: b :: s)) (prev : Option Char) (s : Text) : P prev s := by
  induction hn : s.length using Nat.strongRecOn generalizing prev s with
  | ind n ih =>
    cases s with
    | nil => exact nil prev
    | cons c s =>
      by_cases hc : c = '0'
      · subst hc
        cases h : losesUnit prev s with
        | false => exact kept prev s h (ih s.length (by simp [← hn]) _ s rfl)
        | true =>
          match s, h with
          | a :: b :: s, h =>
            refine lost prev a b s h (ih s.length ?_ _ s rfl)
            rw [← hn, List.length_cons, List.length_cons, List.length_cons]
            omega
      · exact other prev c s hc (ih s.length (by simp [← hn]) _ s rfl)

theorem dropZeroUnits_sublist (prev : Option Char) (s : Text) :
    (dropZeroUnits prev s).Sublist s := by
  induction prev, s using dropZeroUnits_induct with
  | nil prev => exact .slnil
  | other prev c s hc ih =>
    rw [dropZeroUnits_of_ne hc]
    exact ih.cons_cons c
  | kept prev s h ih =>
    rw [dropZeroUnits_kept h]
    exact ih.cons_cons '0'
  | lost prev a b s h ih =>
    rw [dropZeroUnits_lost h]
    exact ((ih.cons b).cons a).cons_cons '0'

theorem head?_dropZeroUnits (prev : Option Char) (s : Text) :
    (dropZeroUnits prev s).head? = s.head? := by
  induction prev, s using dropZeroUnits_induct with
  | nil prev => rfl
  | other prev c s hc ih =>
    rw [dropZeroUnits_of_ne hc]
    rfl
  | kept prev s h ih =>
    rw [dropZeroUnits_kept h]
    rfl
  | lost prev a b s h ih =>
    rw [dropZeroUnits_lost h]
    rfl

/-- Of the character in front only matters whether a number may begin behind it. -/
theorem dropZeroUnits_congr {prev prev' : Option Char}
    (h : atNumberStart prev = atNumberStart prev') (s : Text) :
    dropZeroUnits prev s = dropZeroUnits prev' s := by
  have hlose : ∀ t, losesUnit prev t = losesUnit prev' t := by
    intro t
    match t with
    | [] | [_] => rfl
    | a :: b :: t => rw [losesUnit, losesUnit, h]
  induction prev, s using dropZeroUnits_induct with
  | nil prev => rfl
  | other prev c s hc ih => rw [dropZeroUnits_of_ne hc, dropZeroUnits_of_ne hc]
  | kept prev s hl ih => rw [dropZeroUnits_kept hl, dropZeroUnits_kept ((hlose s).symm.trans hl)]
  | lost prev a b s hl ih =>
    rw [dropZeroUnits_lost hl, dropZeroUnits_lost ((hlose _).symm.trans hl)]

/-- Letters that a unit is made of. -/
def isUnitLetter (c : Char) : Bool := ['p', 'x', 'e', 'm', 't'].contains c.toLower

theorem isUnitLetter_of_isZeroUnit {a b : Char} (h : isZeroUnit a b = true) :
    isUnitLetter a = true ∧ isUnitLetter b = true := by
  simp only [isZeroUnit, List.contains_cons, List.contains_nil, Bool.or_false, Bool.or_eq_true,
    beq_iff_eq, Prod.mk.injEq] at h
  rcases h with ⟨ha, hb⟩ | ⟨ha, hb⟩ | ⟨ha, hb⟩ <;> simp [isUnitLetter, ha, hb]

theorem isUnitLetter_of_losesUnit {prev : Option Char} {a b : Char} {s : Text}
    (h : losesUnit prev (a :: b :: s) = true) : isUnitLetter a = true ∧ isUnitLetter b = true := by
  rw [losesUnit, Bool.and_eq_true, Bool.and_eq_true] at h
  exact isUnitLetter_of_isZeroUnit h.1.2

theorem filter_dropZeroUnits {q : Char → Bool} (hq : ∀ c, isUnitLetter c = true → q c = false)
    (prev : Option Char) (s : Text) : (dropZeroUnits prev s).filter q = s.filter q := by
  induction prev, s using dropZeroUnits_induct with
  | nil prev => rfl
  | other prev c s hc ih => rw [dropZeroUnits_of_ne hc, List.filter_cons, List.filter_cons, ih]
  | kept prev s h ih => rw [dropZeroUnits_kept h, List.filter_cons, List.filter_cons, ih]
  | lost prev a b s h ih =>
    obtain ⟨ha, hb⟩ := isUnitLetter_of_losesUnit h
    rw [dropZeroUnits_lost h, List.filter_cons, List.filter_cons,
      List.filter_cons_of_neg (by simp [hq a ha]), List.filter_cons_of_neg (by simp [hq b hb]), ih]

theorem losesUnit_cons {c : Char} (h : isUnitLetter c = false) (prev : Option Char) (s : Text) :
    losesUnit prev (c :: s) = false := by
  rw [← Bool.not_eq_true]
  intro hl
  match s, hl with
  | b :: s, hl =>
    have hunit := (isUnitLetter_of_losesUnit hl).1
    rw [h] at hunit
    cases hunit

theorem losesUnit_cons_cons {c : Char} (h : isUnitLetter c = false) (prev : Option Char) (a : Char)
    (s : Text) : losesUnit prev (a :: c :: s) = false := by
  rw [← Bool.not_eq_true]
  intro hl
  have hunit := (isUnitLetter_of_losesUnit hl).2
  rw [h] at hunit
  cases hunit

/-- A zero loses its unit as without a character that is no letter of one, unless a word goes on
with it. -/
theorem losesUnit_append {c : Char} (h : isUnitLetter c = false) (prev : Option Char) (s t : Text) :
    losesUnit prev (s ++ c :: t) =
      (losesUnit prev s && (decide (s.length ≠ 2) || !isWordChar c)) := by
  match s with
  | [] => exact losesUnit_cons h prev t
  | [a] => exact losesUnit_cons_cons h prev a t
  | [a, b] => simp [losesUnit, atWordEnd]
  | a :: b :: d :: s => simp [losesUnit, atWordEnd]

/-- What stands in front of a character outside of zeros and units depends only on whether a word
goes on with it, and what stands behind it does not depend on what is in front. Where a word ends, a
text ends as well. -/
theorem exists_dropZeroUnits_append (isWord : Bool) (prev : Option Char) (s : Text) :
    ∃ w, (isWord = false → w = dropZeroUnits prev s) ∧ (s ≠ [] → w ≠ []) ∧
      ∀ c t, c ≠ '0' → isUnitLetter c = false → isWordChar c = isWord →
        dropZeroUnits prev (s ++ c :: t) = w ++ c :: dropZeroUnits (some c) t := by
  induction prev, s using dropZeroUnits_induct with
  | nil prev =>
    exact ⟨[], fun _ => rfl, fun h => absurd rfl h, fun c t hc _ _ => dropZeroUnits_of_ne hc prev t⟩
  | other prev d s hd ih =>
    obtain ⟨w, hend, -, hw⟩ := ih
    refine ⟨d :: w, fun hword => ?_, fun _ => by simp, fun c t hc hunit hword => ?_⟩
    · rw [dropZeroUnits_of_ne hd, hend hword]
    · rw [List.cons_append, dropZeroUnits_of_ne hd, hw c t hc hunit hword, List.cons_append]
  | kept prev s hl ih =>
    obtain ⟨w, hend, -, hw⟩ := ih
    refine ⟨'0' :: w, fun hword => ?_, fun _ => by simp, fun c t hc hunit hword => ?_⟩
    · rw [dropZeroUnits_kept hl, hend hword]
    · have hkept : losesUnit prev (s ++ c :: t) = false := by
        rw [losesUnit_append hunit, hl, Bool.false_and]
      rw [List.cons_append, dropZeroUnits_kept hkept, hw c t hc hunit hword, List.cons_append]
  | lost prev a b s hl ih =>
    obtain ⟨w, hend, -, hw⟩ := ih
    by_cases hs : s = [] ∧ isWord = true
    · -- The unit is kept, as the word goes on behind it.
      obtain ⟨rfl, rfl⟩ := hs
      refine ⟨'0' :: a :: b :: w, fun hword => absurd hword (by decide), fun _ => by simp,
        fun c t hc hunit hword => ?_⟩
      have hkept : losesUnit prev ([a, b] ++ c :: t) = false := by
        rw [losesUnit_append hunit, hword]
        simp
      obtain ⟨ha, hb⟩ := isUnitLetter_of_losesUnit hl
      have hne : ∀ d, isUnitLetter d = true → d ≠ '0' := by
        rintro d hd rfl
        exact absurd hd (by decide)
      have hrest := hw c t hc hunit hword
      rw [List.nil_append] at hrest
      rw [List.cons_append, dropZeroUnits_kept hkept, List.cons_append, List.cons_append,
        List.nil_append, dropZeroUnits_of_ne (hne a ha), dropZeroUnits_of_ne (hne b hb), hrest]
      rfl
    · refine ⟨'0' :: w, fun hword => ?_, fun _ => by simp, fun c t hc hunit hword => ?_⟩
      · rw [dropZeroUnits_lost hl, hend hword]
      · have hlost : losesUnit prev (a :: b :: (s ++ c :: t)) = true := by
          rw [← List.cons_append, ← List.cons_append, losesUnit_append hunit, hl, hword]
          simpa [imp_iff_not_or] using hs
        rw [List.cons_append, List.cons_append, List.cons_append, dropZeroUnits_lost hlost,
          hw c t hc hunit hword, List.cons_append]

/-- **Units are dropped piece by piece** around a character that ends words and belongs to no zero
and no unit. -/
theorem dropZeroUnits_append_cons {c : Char} (hzero : c ≠ '0') (hunit : isUnitLetter c = false)
    (hword : isWordChar c = false) (prev : Option Char) (s t : Text) :
    dropZeroUnits prev (s ++ c :: t) = dropZeroUnits prev s ++ c :: dropZeroUnits (some c) t := by
  obtain ⟨w, hend, -, hw⟩ := exists_dropZeroUnits_append false prev s
  rw [hw c t hzero hunit hword, hend rfl]

/-- A number begins behind white space and behind a colon only. -/
theorem dropZeroUnits_behind {c : Char} (hblank : isBlank c = false) (hcolon : c ≠ ':') (s : Text) :
    dropZeroUnits (some c) s = dropZeroUnits none s := by
  apply dropZeroUnits_congr
  simp [atNumberStart, hblank, hcolon]

/-- No number begins at the start of a text. -/
theorem dropZeroUnits_none_cons (c : Char) (s : Text) :
    dropZeroUnits none (c :: s) = c :: dropZeroUnits (some c) s := by
  by_cases hzero : c = '0'
  · have hkept : losesUnit none s = false := by
      match s with
      | [] | [_] | _ :: _ :: _ => rfl
    rw [hzero, dropZeroUnits_kept hkept]
  · exact dropZeroUnits_of_ne hzero none s

/-! ## Inert characters -/

/-- A character that no pass looks at. -/
structure IsInert (c : Char) : Prop where
  not_blank : isBlank c = false
  not_mark : isMark c = false
  not_zero : c ≠ '0'
  not_unit : isUnitLetter c = false

instance (c : Char) : Decidable (IsInert c) :=
  decidable_of_iff (isBlank c = false ∧ isMark c = false ∧ c ≠ '0' ∧ isUnitLetter c = false)
    ⟨fun ⟨h₁, h₂, h₃, h₄⟩ => ⟨h₁, h₂, h₃, h₄⟩, fun ⟨h₁, h₂, h₃, h₄⟩ => ⟨h₁, h₂, h₃, h₄⟩⟩

theorem IsInert.ne_colon {c : Char} (h : IsInert c) : c ≠ ':' := by
  rintro rfl
  exact absurd h.not_mark (by decide)

/-! ## Whole texts -/

/-- A text with single spaces, none of them beside punctuation, and without semicolons in front of
closing braces. -/
def spaced (s : Text) : Text :=
  replaceAll ';' ['\x7d'] ['\x7d'] (tighten isMark isBlank false (squeezeBlanks s))

/-- What minifying makes of a text without comments, before its ends are trimmed. -/
def packed (s : Text) : Text := dropZeroUnits none (spaced s)

/-- The same for a text that stands in front of an inert character of a word. -/
def packedWithin (s : Text) : Text := (packed (s ++ ['_'])).dropLast

theorem minify_eq_trim (s : Text) : minify s = trim (packed (comment.erase s)) := rfl

theorem minify_eq {s : Text} (h : comment.tokens s = []) : minify s = trim (packed s) := by
  rw [minify_eq_trim, Pattern.erase, comment.replace_of_tokens_eq_nil h]

theorem spaced_append_cons {c : Char} (hblank : isBlank c = false) (hmark : isMark c = false)
    (s t : Text) : spaced (s ++ c :: t) = spaced s ++ c :: spaced t := by
  have hneedle : c ∉ [';', '\x7d'] := by
    intro hmem
    rcases List.mem_pair.1 hmem with rfl | rfl
    · exact absurd hmark (by decide)
    · exact absurd hmark (by decide)
  rw [spaced, squeezeBlanks, collapseRuns_append_cons hblank, tighten_append_cons hmark hblank,
    replaceAll_append_cons hneedle]
  rfl

theorem spaced_nil : spaced [] = [] := by
  rw [spaced, squeezeBlanks, collapseRuns, tighten, replaceAll]

theorem spaced_cons {c : Char} (hblank : isBlank c = false) (hmark : isMark c = false) (s : Text) :
    spaced (c :: s) = c :: spaced s := by
  have hspaced := spaced_append_cons hblank hmark [] s
  rwa [spaced_nil, List.nil_append, List.nil_append] at hspaced

theorem packed_nil : packed [] = [] := by
  rw [packed, spaced_nil, dropZeroUnits]

/-- At its start a text is kept as it is, but for white space and punctuation. -/
theorem packed_cons {c : Char} (hblank : isBlank c = false) (hmark : isMark c = false) (s : Text) :
    packed (c :: s) = c :: packed s := by
  have hcolon : c ≠ ':' := by
    rintro rfl
    exact absurd hmark (by decide)
  rw [packed, spaced_cons hblank hmark, dropZeroUnits_none_cons, dropZeroUnits_behind hblank hcolon,
    packed]

theorem packedWithin_eq {s w : Text}
    (h : ∀ c t, c ≠ '0' → isUnitLetter c = false → isWordChar c = true →
      dropZeroUnits none (spaced s ++ c :: t) = w ++ c :: dropZeroUnits (some c) t) :
    packedWithin s = w := by
  have hcut := h '_' (spaced []) (by decide) rfl rfl
  rw [spaced_nil, dropZeroUnits] at hcut
  rw [packedWithin, packed, spaced_append_cons rfl rfl, spaced_nil, hcut, List.dropLast_concat]

/-- **A text is minified piece by piece around inert characters** that go on with a word. -/
theorem packed_append_cons {c : Char} (h : IsInert c) (hword : isWordChar c = true) (s t : Text) :
    packed (s ++ c :: t) = packedWithin s ++ c :: packed t := by
  obtain ⟨w, -, -, hw⟩ := exists_dropZeroUnits_append true none (spaced s)
  rw [packed, spaced_append_cons h.not_blank h.not_mark, hw c _ h.not_zero h.not_unit hword,
    packedWithin_eq hw, dropZeroUnits_behind h.not_blank h.ne_colon, packed]

/-- Where an inert character ends a word, the text in front of it is minified as on its own. -/
theorem packed_append_cons_of_not_word {c : Char} (h : IsInert c) (hword : isWordChar c = false)
    (s t : Text) : packed (s ++ c :: t) = packed s ++ c :: packed t := by
  rw [packed, spaced_append_cons h.not_blank h.not_mark,
    dropZeroUnits_append_cons h.not_zero h.not_unit hword,
    dropZeroUnits_behind h.not_blank h.ne_colon, packed, packed]

theorem packed_append_underscore (s : Text) : packed (s ++ ['_']) = packedWithin s ++ ['_'] := by
  rw [packed_append_cons (by decide) rfl, packed_nil]

@[simp] theorem packedWithin_nil : packedWithin [] = [] := by
  rw [packedWithin, List.nil_append, packed_cons rfl rfl, packed_nil]
  rfl

/-! ## What is kept -/

theorem filter_spaced {q : Char → Bool} (hblank : ∀ c, isBlank c = true → q c = false)
    (hsemicolon : q ';' = false) (s : Text) : (spaced s).filter q = s.filter q := by
  rw [spaced, filter_replaceAll (by simp [hsemicolon]), filter_tighten hblank, squeezeBlanks,
    filter_collapseRuns (hblank ' ' (by decide)) hblank]

theorem filter_packed {q : Char → Bool} (hblank : ∀ c, isBlank c = true → q c = false)
    (hunit : ∀ c, isUnitLetter c = true → q c = false) (hsemicolon : q ';' = false) (s : Text) :
    (packed s).filter q = s.filter q := by
  rw [packed, filter_dropZeroUnits hunit, filter_spaced hblank hsemicolon]

theorem filter_packedWithin {q : Char → Bool} (hblank : ∀ c, isBlank c = true → q c = false)
    (hunit : ∀ c, isUnitLetter c = true → q c = false) (hsemicolon : q ';' = false) (s : Text) :
    (packedWithin s).filter q = s.filter q := by
  have hfilter := filter_packed hblank hunit hsemicolon (s ++ ['_'])
  rw [packed_append_underscore, List.filter_append, List.filter_append] at hfilter
  exact List.append_cancel_right hfilter

theorem mem_of_mem_spaced {c : Char} {s : Text} (h : c ∈ spaced s) : c ∈ s ∨ c = ' ' :=
  mem_of_mem_collapseRuns (tighten_sublist.subset (mem_of_mem_replaceAll (by simp) h))

theorem mem_of_mem_packed {c : Char} {s : Text} (h : c ∈ packed s) : c ∈ s ∨ c = ' ' :=
  mem_of_mem_spaced ((dropZeroUnits_sublist _ _).subset h)

/-- A character that is never dropped is there as before. -/
theorem mem_packedWithin_iff {c : Char} (hblank : isBlank c = false)
    (hunit : isUnitLetter c = false) (hsemicolon : c ≠ ';') {s : Text} :
    c ∈ packedWithin s ↔ c ∈ s := by
  have hmem : ∀ w : Text, c ∈ w ↔ c ∈ w.filter (· == c) := by simp
  have hne : ∀ {q : Char → Bool} {d : Char}, q c = false → q d = true → (d == c) = false := by
    rintro q d hc hd
    refine beq_false_of_ne fun he => ?_
    rw [he, hc] at hd
    cases hd
  rw [hmem, hmem s, filter_packedWithin (fun d => hne hblank) (fun d => hne hunit)
    (beq_false_of_ne hsemicolon.symm)]

theorem mem_of_mem_packedWithin {c : Char} {s : Text} (h : c ∈ packedWithin s) :
    c ∈ s ∨ c = ' ' := by
  by_cases hc : c = '_'
  · -- The underscore that is put behind the text is not one of the text.
    subst hc
    exact .inl ((mem_packedWithin_iff (by decide) (by decide) (by decide)).1 h)
  · have hmem : c ∈ packed (s ++ ['_']) := by
      rw [packed_append_underscore]
      exact List.mem_append_left _ h
    refine (mem_of_mem_packed hmem).imp_left fun hs => ?_
    exact (List.mem_append.1 hs).resolve_right fun he => hc (List.mem_singleton.1 he)

/-- What all marks have in common. -/
theorem of_isMark {P : Char → Prop} [DecidablePred P]
    (h : ("\x7b\x7d:;,~>+!".toList.all fun c => decide (P c)) = true) {c : Char}
    (hc : isMark c = true) : P c := by
  refine forall_mem_of_all h c ?_
  simp only [isMark, Bool.or_eq_true, beq_iff_eq] at hc
  rcases hc with (((((((rfl | rfl) | rfl) | rfl) | rfl) | rfl) | rfl) | rfl) | rfl <;> decide

theorem not_isBlank_of_isMark {c : Char} (h : isMark c = true) : isBlank c = false :=
  of_isMark (P := (isBlank · = false)) rfl h

theorem spaced_ne_nil {s : Text} (h : s ≠ []) : spaced s ≠ [] := by
  refine replaceAll_ne_nil (by simp) (tighten_ne_nil (fun c => not_isBlank_of_isMark) ?_)
  exact collapseRuns_ne_nil h

theorem packed_ne_nil {s : Text} (h : s ≠ []) : packed s ≠ [] := by
  have hhead := head?_dropZeroUnits none (spaced s)
  rw [packed, Ne, ← List.head?_eq_none_iff, hhead, List.head?_eq_none_iff]
  exact spaced_ne_nil h

theorem packedWithin_ne_nil {s : Text} (h : s ≠ []) : packedWithin s ≠ [] := by
  obtain ⟨w, -, hne, hw⟩ := exists_dropZeroUnits_append true none (spaced s)
  rw [packedWithin_eq hw]
  exact hne (spaced_ne_nil h)

/-! ## Words of inert characters -/

/-- An inert character that goes on with a word. -/
def IsInertWord (c : Char) : Prop := IsInert c ∧ isWordChar c = true

instance : DecidablePred IsInertWord := fun _ => inferInstanceAs (Decidable (_ ∧ _))

/-- A word of such characters. -/
structure IsFixedWord (m : Text) : Prop where
  ne_nil : m ≠ []
  inert : ∀ c ∈ m, IsInertWord c

theorem packed_word_append {m : Text} (hm : ∀ c ∈ m, IsInertWord c) (s : Text) :
    packed (m ++ s) = m ++ packed s := by
  induction m with
  | nil => rfl
  | cons c m ih =>
    rw [List.forall_mem_cons] at hm
    rw [List.cons_append, packed_cons hm.1.1.not_blank hm.1.1.not_mark, ih hm.2, List.cons_append]

/-- **A text is minified piece by piece around words** of inert characters. -/
theorem packed_append_word {m : Text} (hm : IsFixedWord m) (s t : Text) :
    packed (s ++ (m ++ t)) = packedWithin s ++ (m ++ packed t) := by
  obtain ⟨c, m, rfl⟩ := List.exists_cons_of_ne_nil hm.ne_nil
  obtain ⟨⟨hc, hword⟩, hrest⟩ := List.forall_mem_cons.1 hm.inert
  rw [List.cons_append, packed_append_cons hc hword, packed_word_append hrest, List.cons_append]

/-- A text is cut at its first inert character of a word, if it has one. -/
theorem exists_inertWord (s : Text) :
    (∀ c ∈ s, ¬ IsInertWord c) ∨
      ∃ v c w, s = v ++ c :: w ∧ (∀ d ∈ v, ¬ IsInertWord d) ∧ IsInertWord c := by
  rcases forall_or_exists_eq_append (fun c => !decide (IsInertWord c)) s with h | ⟨v, c, w, h⟩
  · exact .inl (by simpa using h)
  · exact .inr ⟨v, c, w, by simpa using h⟩

theorem not_isInertWord_of_mem_packed {s : Text} (h : ∀ c ∈ s, ¬ IsInertWord c) :
    ∀ c ∈ packed s, ¬ IsInertWord c := by
  intro c hc
  rcases mem_of_mem_packed hc with hc | rfl
  · exact h c hc
  · decide

theorem not_isInertWord_of_mem_packedWithin {s : Text} (h : ∀ c ∈ s, ¬ IsInertWord c) :
    ∀ c ∈ packedWithin s, ¬ IsInertWord c := by
  intro c hc
  rcases mem_of_mem_packedWithin hc with hc | rfl
  · exact h c hc
  · decide

/-- A word of inert characters at the start was there before. -/
theorem prefix_of_prefix_packed {m s : Text} (hm : ∀ c ∈ m, IsInertWord c) (h : m <+: packed s) :
    m <+: s := by
  induction m generalizing s with
  | nil => exact List.nil_prefix
  | cons d m ih =>
    obtain ⟨hd, hm⟩ := List.forall_mem_cons.1 hm
    rcases exists_inertWord s with hs | ⟨v, c, w, rfl, hv, hc, hword⟩
    · exact absurd hd (not_isInertWord_of_mem_packed hs d (h.subset (List.mem_cons_self ..)))
    · rw [packed_append_cons hc hword] at h
      cases v with
      | nil =>
        rw [packedWithin_nil, List.nil_append] at h
        obtain ⟨hdc, hrest⟩ := List.cons_prefix_cons.1 h
        exact List.cons_prefix_cons.2 ⟨hdc, ih hm hrest⟩
      | cons e v =>
        obtain ⟨f, u, hu⟩ := List.exists_cons_of_ne_nil (packedWithin_ne_nil (List.cons_ne_nil e v))
        rw [hu, List.cons_append] at h
        obtain ⟨rfl, -⟩ := List.cons_prefix_cons.1 h
        refine absurd hd (not_isInertWord_of_mem_packedWithin hv d ?_)
        rw [hu]
        exact List.mem_cons_self ..

/-- **No word of inert characters comes into being**, not as a part of a longer one either. -/
theorem infix_of_infix_packed {m s : Text} (hm : IsFixedWord m) (h : m <:+: packed s) :
    m <:+: s := by
  induction hn : s.length using Nat.strongRecOn generalizing s with
  | ind n ih =>
    obtain ⟨d, m', rfl⟩ := List.exists_cons_of_ne_nil hm.ne_nil
    have hd := hm.inert d (List.mem_cons_self ..)
    rcases exists_inertWord s with hs | ⟨v, c, w, rfl, hv, hc, hword⟩
    · exact absurd hd (not_isInertWord_of_mem_packed hs d (h.subset (List.mem_cons_self ..)))
    · rw [packed_append_cons hc hword] at h
      have h : d :: m' <:+: c :: packed w := by
        refine infix_of_infix_append ?_ h
        exact fun hmem => not_isInertWord_of_mem_packedWithin hv d hmem hd
      have htail : d :: m' <:+: c :: w := by
        rcases List.infix_cons_iff.1 h with h | h
        · rw [← packed_cons hc.not_blank hc.not_mark] at h
          exact (prefix_of_prefix_packed hm.inert h).isInfix
        · refine (ih w.length ?_ h rfl).trans (List.suffix_cons c w).isInfix
          rw [← hn, List.length_append, List.length_cons]
          omega
      exact htail.trans (List.suffix_append v (c :: w)).isInfix

/-! ## No space beside punctuation -/

theorem isChain_dropZeroUnits {R : Char → Char → Prop} (hzero : ∀ c, R '0' c) {prev : Option Char}
    {s : Text} (h : s.IsChain R) : (dropZeroUnits prev s).IsChain R := by
  induction prev, s using dropZeroUnits_induct with
  | nil prev => exact .nil
  | other prev c s hc ih =>
    obtain ⟨hnext, hchain⟩ := List.isChain_cons.1 h
    rw [dropZeroUnits_of_ne hc]
    refine List.isChain_cons.2 ⟨?_, ih hchain⟩
    rw [head?_dropZeroUnits]
    exact hnext
  | kept prev s hl ih =>
    rw [dropZeroUnits_kept hl]
    exact List.isChain_cons.2 ⟨fun c _ => hzero c, ih (List.isChain_cons.1 h).2⟩
  | lost prev a b s hl ih =>
    rw [dropZeroUnits_lost hl]
    refine List.isChain_cons.2 ⟨fun c _ => hzero c, ih ?_⟩
    exact (List.isChain_cons.1 (List.isChain_cons.1 (List.isChain_cons.1 h).2).2).2

/-- Semicolons in front of closing braces can be dropped where what may stand in front of a
semicolon may stand in front of a closing brace. -/
theorem isChain_dropSemicolons {R : Char → Char → Prop} (hR : ∀ c, R c ';' → R c '\x7d')
    {s : Text} (h : s.IsChain R) : (replaceAll ';' ['\x7d'] ['\x7d'] s).IsChain R := by
  have hhead : ∀ c (s : Text), (∀ d ∈ s.head?, R c d) →
      ∀ d ∈ (replaceAll ';' ['\x7d'] ['\x7d'] s).head?, R c d := by
    intro c s hs
    induction s using replaceAll_induct ';' ['\x7d'] with
    | nil => simp [replaceAll]
    | found s ih =>
      rw [replaceAll_of_isPrefix]
      rintro d hd
      obtain rfl : '\x7d' = d := by simpa using hd
      exact hR c (hs ';' rfl)
    | kept e s hnot ih =>
      rw [replaceAll_cons hnot]
      exact hs
  induction s using replaceAll_induct ';' ['\x7d'] with
  | nil => simp [replaceAll]
  | found s ih =>
    obtain ⟨hnext, hchain⟩ := List.isChain_cons.1 (List.isChain_cons.1 h).2
    rw [replaceAll_of_isPrefix]
    exact List.isChain_cons.2 ⟨hhead _ s hnext, ih hchain⟩
  | kept c s hnot ih =>
    obtain ⟨hnext, hchain⟩ := List.isChain_cons.1 h
    rw [replaceAll_cons hnot]
    exact List.isChain_cons.2 ⟨hhead c s hnext, ih hchain⟩

/-- No space stands beside punctuation in a minified text. -/
theorem isChain_packed (s : Text) : (packed s).IsChain (NotBeside isMark isBlank) := by
  refine isChain_dropZeroUnits (fun c => ?_) (isChain_dropSemicolons (fun c h => ?_) ?_)
  · exact ⟨fun h => absurd h.1 (by decide), fun h => absurd h.1 (by decide)⟩
  · exact ⟨fun hb => h.1 ⟨hb.1, rfl⟩, fun hb => absurd hb.2 (by decide)⟩
  · exact isChain_tighten fun c => not_isBlank_of_isMark

end SvgAssets.Stylesheet
