/-
# SvgAssets.Proofs.Text.Occurrences -- words that were there before

A pass over a text may bring words into being: what it takes out stood between their halves, or what
it puts in completes them. To say that it does not, the words of one text are looked up in the
other, in their order (`Keeps`). It is enough to find the first word and to go on behind it with the
same two passes (`keeps_of_step`). Two kinds of pass are dealt with here: taking out stretches that
begin with one character, where no word is broken off in front of it (`keeps_eraseFrom`), and
exchanging stretches for others that begin with a character that no word holds (`Edits.keeps`).
-/
import SvgAssets.Proofs.Text.Replacing
import SvgAssets.Proofs.Text.Scanning

namespace SvgAssets.Text

/-! ## Words in their order -/

/-- The words occur in the text one behind the other. -/
def Occur : List Text → Text → Prop
  | [], _ => True
  | w :: ws, s => ∃ a b, s = a ++ (w ++ b) ∧ Occur ws b

theorem occur_singleton {w s : Text} : Occur [w] s ↔ w <:+: s := by
  constructor
  · rintro ⟨a, b, rfl, -⟩
    exact ⟨a, b, List.append_assoc ..⟩
  · rintro ⟨a, b, rfl⟩
    exact ⟨a, b, List.append_assoc .., trivial⟩

theorem Occur.append_left {ws : List Text} {s : Text} (h : Occur ws s) (t : Text) :
    Occur ws (t ++ s) := by
  cases ws with
  | nil => trivial
  | cons w ws =>
    obtain ⟨a, b, rfl, hb⟩ := h
    exact ⟨t ++ a, b, by rw [List.append_assoc], hb⟩

theorem Occur.append_right {ws : List Text} {s : Text} (h : Occur ws s) (t : Text) :
    Occur ws (s ++ t) := by
  induction ws generalizing s with
  | nil => trivial
  | cons w ws ih =>
    obtain ⟨a, b, rfl, hb⟩ := h
    exact ⟨a, b ++ t, by simp, ih hb⟩

theorem Occur.of_isInfix {ws : List Text} {s t : Text} (h : Occur ws s) (hs : s <:+: t) :
    Occur ws t := by
  obtain ⟨a, b, rfl⟩ := hs
  exact (h.append_left a).append_right b

/-- Words of a kind that occur in the second text occur in the first, in the same order. -/
def Keeps (P : Text → Prop) (s t : Text) : Prop :=
  ∀ ws, (∀ w ∈ ws, P w) → Occur ws t → Occur ws s

namespace Keeps

variable {P : Text → Prop} {s t u : Text}

theorem refl (P : Text → Prop) (s : Text) : Keeps P s s := fun _ _ h => h

theorem trans (hst : Keeps P s t) (htu : Keeps P t u) : Keeps P s u :=
  fun ws hws h => hst ws hws (htu ws hws h)

theorem of_isInfix (h : t <:+: s) : Keeps P s t := fun _ _ ho => ho.of_isInfix h

theorem isInfix (h : Keeps P s t) {w : Text} (hw : P w) (ht : w <:+: t) : w <:+: s :=
  occur_singleton.1 (h [w] (by simpa using hw) (occur_singleton.2 ht))

end Keeps

/-- Words are kept if the first one is, and the texts behind it are related as before. -/
theorem keeps_of_step {P : Text → Prop} {R : Text → Text → Prop}
    (step : ∀ {s a w b}, P w → R s (a ++ (w ++ b)) → ∃ a' b', s = a' ++ (w ++ b') ∧ R b' b)
    {s t : Text} (h : R s t) : Keeps P s t := by
  intro ws
  induction ws generalizing s t with
  | nil => exact fun _ _ => trivial
  | cons w ws ih =>
    rintro hws ⟨a, b, rfl, hb⟩
    rw [List.forall_mem_cons] at hws
    obtain ⟨a', b', rfl, hrest⟩ := step hws.1 h
    exact ⟨a', b', rfl, ih hrest hws.2 hb⟩

/-! ## Stretches taken out -/

/-- In the text no first part of the word is followed by the character. -/
def IsUnbroken (c : Char) (w s : Text) : Prop :=
  ∀ u z, w = u ++ z → u ≠ [] → z ≠ [] → ¬ u ++ [c] <:+: s

theorem IsUnbroken.of_isInfix {c : Char} {w s t : Text} (h : IsUnbroken c w t) (hs : s <:+: t) :
    IsUnbroken c w s :=
  fun u z hw hu hz hmem => h u z hw hu hz (hmem.trans hs)

end Text

namespace Pattern

open Text

variable {α : Type} {p : Pattern α} {first : Char}

/-- What is left of a text. -/
abbrev eraseFrom (p : Pattern α) (prev : Option Char) (s : Text) : Text :=
  p.replaceFrom (fun _ => []) prev s

/-- A token that begins with a character is read nowhere else. -/
theorem read_cons_eq_none (hfirst : ∀ x, (p.text x).head? = some first) {c : Char} (hc : c ≠ first)
    (prev : Option Char) (s : Text) : p.read prev (c :: s) = none := by
  rw [Option.eq_none_iff_forall_ne_some]
  rintro ⟨x, rest⟩ h
  have hhead := congrArg List.head? (p.exact h)
  rw [List.head?_append, hfirst x] at hhead
  exact hc (Option.some.inj hhead)

/-- A character that is left stood where nothing was read. -/
theorem exists_of_eraseFrom_eq {prev : Option Char} {s a b : Text} {c : Char}
    (h : p.eraseFrom prev s = a ++ c :: b) :
    ∃ u t prev', s = u ++ c :: t ∧ p.read prev' (c :: t) = none ∧ b = p.eraseFrom (some c) t := by
  fun_induction scanFrom p prev s generalizing a with
  | case1 =>
    rw [eraseFrom, replaceFrom_nil] at h
    simp at h
  | case2 prev d s x rest hread ih =>
    rw [eraseFrom, p.replaceFrom_of_read hread, List.nil_append] at h
    obtain ⟨u, t, prev', rfl, hnone, hb⟩ := ih h
    exact ⟨p.text x ++ u, t, prev', by rw [p.exact hread, List.append_assoc], hnone, hb⟩
  | case3 prev d s hread ih =>
    rw [eraseFrom, p.replaceFrom_of_none hread] at h
    cases a with
    | nil =>
      obtain ⟨rfl, rfl⟩ := List.cons.inj h
      exact ⟨[], s, prev, rfl, hread, rfl⟩
    | cons e a =>
      rw [List.cons_append, List.cons.injEq] at h
      obtain ⟨rfl, h⟩ := h
      obtain ⟨u, t, prev', rfl, hnone, hb⟩ := ih h
      exact ⟨d :: u, t, prev', rfl, hnone, hb⟩

/-- The rest of a word stood where it is left, if no token can begin in between. -/
theorem exists_of_eraseFrom_append (hfirst : ∀ x, (p.text x).head? = some first)
    {prev : Option Char} {t w b : Text}
    (hw : ∀ u z, w = u ++ z → z ≠ [] → ¬ u ++ [first] <+: t) (h : p.eraseFrom prev t = w ++ b) :
    ∃ t' prev', t = w ++ t' ∧ b = p.eraseFrom prev' t' := by
  induction w generalizing prev t with
  | nil => exact ⟨t, prev, rfl, h.symm⟩
  | cons d w ih =>
    cases t with
    | nil =>
      rw [eraseFrom, replaceFrom_nil] at h
      cases h
    | cons e t =>
      have he : e ≠ first := by
        rintro rfl
        exact hw [] (d :: w) rfl (by simp) ⟨t, rfl⟩
      have hread := p.read_cons_eq_none hfirst he prev t
      rw [eraseFrom, p.replaceFrom_of_none hread, List.cons_append, List.cons.injEq] at h
      obtain ⟨rfl, h⟩ := h
      obtain ⟨t', prev', rfl, hb⟩ := ih (fun u z hu hz hprefix => hw (e :: u) z (by rw [hu]; rfl) hz
        (List.cons_prefix_cons.2 ⟨rfl, hprefix⟩)) h
      exact ⟨t', prev', rfl, hb⟩

/-- A word that is left stood there as a whole, and nothing was read where it begins. -/
theorem exists_word_of_eraseFrom (hfirst : ∀ x, (p.text x).head? = some first)
    {prev : Option Char} {s a w b : Text} (hne : w ≠ []) (hw : IsUnbroken first w s)
    (h : p.eraseFrom prev s = a ++ (w ++ b)) :
    ∃ u t prev' prev'', s = u ++ (w ++ t) ∧ p.read prev' (w ++ t) = none ∧
      p.eraseFrom prev' (w ++ t) = w ++ b ∧ b = p.eraseFrom prev'' t := by
  obtain ⟨c, w, rfl⟩ := List.exists_cons_of_ne_nil hne
  obtain ⟨u, t, prev', rfl, hnone, hb⟩ := exists_of_eraseFrom_eq h
  obtain ⟨t', prev'', rfl, hb'⟩ := exists_of_eraseFrom_append hfirst (w := w)
    (fun v z hv hz ⟨y, hy⟩ => hw (c :: v) z (by rw [hv]; rfl) (by simp) hz
      ⟨u, y, by simp [← hy]⟩) hb.symm
  have hleft := p.replaceFrom_of_none (f := fun _ => []) hnone
  rw [show p.replaceFrom (fun _ => []) (some c) (w ++ t') = w ++ b from hb.symm] at hleft
  exact ⟨u, t', prev', prev'', rfl, hnone, hleft, hb'⟩

/-- Taking out tokens that begin with one character makes no word out of parts, if none is broken
off in front of this character. -/
theorem keeps_eraseFrom (hfirst : ∀ x, (p.text x).head? = some first) {P : Text → Prop} {s : Text}
    (hne : ∀ w, P w → w ≠ []) (hs : ∀ w, P w → IsUnbroken first w s) (prev : Option Char) :
    Keeps P s (p.eraseFrom prev s) := by
  refine keeps_of_step
    (R := fun s t => (∀ w, P w → IsUnbroken first w s) ∧ ∃ prev, t = p.eraseFrom prev s) ?_
    ⟨hs, prev, rfl⟩
  rintro s a w b hw ⟨hs, prev, h⟩
  obtain ⟨u, t, -, prev'', rfl, -, -, hb⟩ :=
    exists_word_of_eraseFrom hfirst (hne w hw) (hs w hw) h.symm
  exact ⟨u, t, rfl, fun v hv => (hs v hv).of_isInfix ⟨u ++ w, [], by simp⟩, prev'', hb⟩

end Pattern

namespace Text

/-- The same holds where one stretch is taken out. -/
theorem keeps_append {first : Char} {P : Text → Prop} {x y z : Text}
    (hs : ∀ w, P w → IsUnbroken first w (x ++ (first :: y ++ z))) :
    Keeps P (x ++ (first :: y ++ z)) (x ++ z) := by
  intro ws
  induction ws generalizing x with
  | nil => exact fun _ _ => trivial
  | cons w ws ih =>
    rintro hws ⟨a, b, h, hb⟩
    rw [List.forall_mem_cons] at hws
    rcases List.append_eq_append_iff.1 h with ⟨v, rfl, rfl⟩ | ⟨x', rfl, hword⟩
    · exact ⟨x ++ (first :: y ++ v), b, by simp, hb⟩
    rcases List.append_eq_append_iff.1 hword with ⟨x'', rfl, rfl⟩ | ⟨w', rfl, rfl⟩
    · -- The word lies in front of the stretch.
      have hrest := ih (fun v hv => (hs v hv).of_isInfix ⟨a ++ w, [], by simp⟩) hws.2 hb
      exact ⟨a, _, by simp, hrest⟩
    by_cases hx : x' = []
    · subst hx
      exact ⟨a ++ first :: y, b, by simp, hb⟩
    by_cases hw : w' = []
    · subst hw
      exact ⟨a, first :: y ++ b, by simp, hb.append_left _⟩
    · -- It would be broken off in front of the stretch.
      exact absurd ⟨a, y ++ (w' ++ b), by simp⟩ (hs _ hws.1 x' w' rfl hx hw)

end Text

namespace Pattern

open Text

variable {α : Type}

theorem dropLastToken_cases (pieces : List (Piece α)) :
    dropLastToken pieces = pieces ∨ ∃ front token back,
      pieces = front ++ .token token :: back ∧ dropLastToken pieces = front ++ back := by
  induction pieces with
  | nil => exact .inl rfl
  | cons piece pieces ih =>
    cases piece with
    | plain c =>
      rw [dropLastToken]
      rcases ih with h | ⟨front, token, back, rfl, h⟩
      · exact .inl (by rw [h])
      · exact .inr ⟨.plain c :: front, token, back, rfl, by rw [h]; rfl⟩
    | token x =>
      rw [dropLastToken]
      split
      · rcases ih with h | ⟨front, token, back, rfl, h⟩
        · exact .inl (by rw [h])
        · exact .inr ⟨.token x :: front, token, back, rfl, by rw [h]; rfl⟩
      · exact .inr ⟨[], x, pieces, rfl, rfl⟩

/-- Taking the last token out takes out one stretch of the text, if it takes out any. -/
theorem eraseLast_cases (p : Pattern α) (s : Text) :
    p.eraseLast s = s ∨ ∃ x token z, s = x ++ (p.text token ++ z) ∧ p.eraseLast s = x ++ z := by
  have htext := p.text_scan s
  rcases dropLastToken_cases (p.scan s) with h | ⟨front, token, back, hscan, h⟩
  · left
    rw [eraseLast, h, htext]
  · right
    refine ⟨front.flatMap p.pieceText, token, back.flatMap p.pieceText, ?_, ?_⟩
    · rw [← htext, hscan, List.flatMap_append, List.flatMap_cons]
      rfl
    · rw [eraseLast, h, List.flatMap_append]

theorem keeps_eraseLast (p : Pattern α) {first : Char} (hfirst : ∀ x, (p.text x).head? = some first)
    {P : Text → Prop} {s : Text} (hs : ∀ w, P w → IsUnbroken first w s) :
    Keeps P s (p.eraseLast s) := by
  rcases p.eraseLast_cases s with h | ⟨x, token, z, rfl, h⟩
  · rw [h]
    exact .refl P s
  · obtain ⟨y, hy⟩ := List.head?_eq_some_iff.1 (hfirst token)
    rw [hy] at hs ⊢
    rw [hy] at h
    rw [h]
    exact keeps_append hs

end Pattern

namespace Text

/-! ## Stretches exchanged -/

/-- The second text is the first with stretches exchanged for others that begin with a barrier and
hold none of the characters that words begin with. -/
inductive Edits (barriers firsts : Text) : Text → Text → Prop
  | nil : Edits barriers firsts [] []
  | keep (c : Char) {s t : Text} : Edits barriers firsts s t →
      Edits barriers firsts (c :: s) (c :: t)
  | exchange (u : Text) {c : Char} {m s t : Text} : c ∈ barriers → (∀ d ∈ c :: m, d ∉ firsts) →
      Edits barriers firsts s t → Edits barriers firsts (u ++ s) (c :: m ++ t)

namespace Edits

variable {barriers firsts : Text}

theorem refl : (s : Text) → Edits barriers firsts s s
  | [] => .nil
  | c :: s => .keep c (refl s)

theorem append {s t s' t' : Text} (h : Edits barriers firsts s t)
    (h' : Edits barriers firsts s' t') : Edits barriers firsts (s ++ s') (t ++ t') := by
  induction h with
  | nil => exact h'
  | keep c _ ih => exact .keep c ih
  | exchange u hc hm _ ih =>
    rw [List.append_assoc, List.append_assoc]
    exact .exchange u hc hm ih

/-- What holds no barrier was there before. -/
theorem exists_of_append {s w b : Text} (hw : ∀ c ∈ w, c ∉ barriers)
    (h : Edits barriers firsts s (w ++ b)) : ∃ b', s = w ++ b' ∧ Edits barriers firsts b' b := by
  induction w generalizing s with
  | nil => exact ⟨s, rfl, h⟩
  | cons c w ih =>
    rw [List.forall_mem_cons] at hw
    generalize he : c :: w ++ b = t at h
    cases h with
    | nil => cases he
    | keep d h =>
      obtain ⟨rfl, rfl⟩ := List.cons.inj he
      obtain ⟨b', rfl, hb⟩ := ih hw.2 h
      exact ⟨b', rfl, hb⟩
    | exchange u hd hm h =>
      obtain ⟨rfl, -⟩ := List.cons.inj he
      exact absurd hd hw.1

/-- A word that holds no barrier was there before. -/
theorem exists_word {s a w b : Text} {c : Char} (hc : c ∈ firsts) (hw : ∀ d ∈ c :: w, d ∉ barriers)
    (h : Edits barriers firsts s (a ++ (c :: w ++ b))) :
    ∃ a' b', s = a' ++ (c :: w ++ b') ∧ Edits barriers firsts b' b := by
  generalize he : a ++ (c :: w ++ b) = t at h
  induction h generalizing a with
  | nil => simp at he
  | @keep d s t hst ih =>
    cases a with
    | nil =>
      have hword := Edits.keep d hst
      rw [← he] at hword
      obtain ⟨b', hs, hb⟩ := exists_of_append hw hword
      exact ⟨[], b', hs, hb⟩
    | cons e a =>
      rw [List.cons_append, List.cons.injEq] at he
      obtain ⟨rfl, rfl⟩ := he
      obtain ⟨a', b', rfl, hb⟩ := ih rfl
      exact ⟨e :: a', b', rfl, hb⟩
  | @exchange u d m s t _ hm _ ih =>
    have hout : c ∉ d :: m := fun hmem => hm c hmem hc
    obtain ⟨a', rfl, ht⟩ := exists_of_append_eq hout he.symm
    obtain ⟨a'', b', rfl, hb⟩ := ih ht.symm
    exact ⟨u ++ a'', b', by rw [List.append_assoc], hb⟩

/-- Words that begin as told and hold no barrier are kept. -/
theorem keeps {P : Text → Prop} {s t : Text} (h : Edits barriers firsts s t)
    (hfirst : ∀ w, P w → ∃ c v, w = c :: v ∧ c ∈ firsts)
    (hbarrier : ∀ w, P w → ∀ c ∈ w, c ∉ barriers) :
    Keeps P s t := by
  refine keeps_of_step (R := Edits barriers firsts) ?_ h
  intro s a w b hw h
  obtain ⟨c, v, rfl, hc⟩ := hfirst w hw
  exact exists_word hc (hbarrier _ hw) h

end Edits

end SvgAssets.Text
