/-
# SvgAssets.Proofs.Markup.Addresses -- where an address is open

An address begins with `url(` and ends with the first closing parenthesis behind. So a text in which
every `url(` has been closed can be taken apart from what follows it: no address lies across the cut
(`cutsAt_of_not_hasOpenAddress`).
-/
import SvgAssets.Proofs.Markup.Tokens
import SvgAssets.Proofs.Text.Cutting
import SvgAssets.Proofs.Text.Replacing

namespace SvgAssets.Markup

open Text

/-- What an address begins with. -/
def addressStart : Text := ['u', 'r', 'l', '(']

/-- An address has begun in the text and has not been closed. -/
def HasOpenAddress (s : Text) : Prop := ∃ a b, s = a ++ (addressStart ++ b) ∧ ')' ∉ b

theorem HasOpenAddress.append_left {s : Text} (h : HasOpenAddress s) (t : Text) :
    HasOpenAddress (t ++ s) := by
  obtain ⟨a, b, rfl, hb⟩ := h
  exact ⟨t ++ a, b, by rw [List.append_assoc], hb⟩

theorem HasOpenAddress.append_right {s t : Text} (h : HasOpenAddress s) (ht : ')' ∉ t) :
    HasOpenAddress (s ++ t) := by
  obtain ⟨a, b, rfl, hb⟩ := h
  refine ⟨a, b ++ t, by simp, ?_⟩
  rw [List.mem_append, not_or]
  exact ⟨hb, ht⟩

/-- In front of a closing parenthesis every address is closed. -/
theorem not_hasOpenAddress_append_cons {t : Text} (ht : ¬ HasOpenAddress t) (s : Text) :
    ¬ HasOpenAddress (s ++ ')' :: t) := by
  rintro ⟨a, b, he, hb⟩
  rw [← List.append_assoc] at he
  rcases exists_of_append_eq_append_cons he.symm with ⟨s', -, rfl⟩ | ⟨w, hw, rfl⟩
  · exact hb (by simp)
  · rcases exists_of_append_eq_append_cons hw with ⟨s', -, hs'⟩ | ⟨w', -, rfl⟩
    · have hclose : ')' ∈ addressStart := by
        rw [hs']
        simp
      exact absurd hclose (by decide)
    · exact ht ⟨w', b, List.append_assoc .., hb⟩

theorem not_hasOpenAddress_of_not_isInfix {s : Text} (h : ¬ addressStart <:+: s) :
    ¬ HasOpenAddress s := by
  rintro ⟨a, b, rfl, -⟩
  exact h ⟨a, b, List.append_assoc ..⟩

/-- A character at the end that is no parenthesis does not open an address. -/
theorem hasOpenAddress_of_append_singleton {s : Text} {c : Char} (hc : c ≠ '(')
    (h : HasOpenAddress (s ++ [c])) : HasOpenAddress s := by
  obtain ⟨a, b, hs, hb⟩ := h
  rcases List.eq_nil_or_concat b with rfl | ⟨b, d, rfl⟩
  · have hlast := congrArg List.getLast? hs
    rw [List.append_nil, addressStart, List.getLast?_concat,
      show a ++ ['u', 'r', 'l', '('] = (a ++ ['u', 'r', 'l']) ++ ['('] by simp,
      List.getLast?_concat] at hlast
    exact absurd (Option.some.inj hlast) hc
  · rw [List.concat_eq_append, ← List.append_assoc, ← List.append_assoc] at hs
    obtain ⟨rfl, -⟩ := List.append_inj' hs rfl
    refine ⟨a, b, by rw [List.append_assoc], ?_⟩
    rw [List.concat_eq_append, List.mem_append, not_or] at hb
    exact hb.1

namespace UrlReference

theorem read_eq_some_iff {s rest : Text} {u : UrlReference} :
    read s = some (u, rest) ↔ u.IsProper ∧ s = u.text ++ rest := by
  constructor
  · intro h
    exact ⟨isProper_of_read h, text_of_read h⟩
  · rintro ⟨h, rfl⟩
    exact read_text_append h rest

/-- What stands between the start of an address and its closing parenthesis holds none. -/
theorem IsProper.exists_body {u : UrlReference} (h : u.IsProper) :
    ∃ body, u.text = addressStart ++ (body ++ [')']) ∧ ')' ∉ body := by
  have hblank : ∀ {gap : Text}, (∀ c ∈ gap, isBlank c = true) → ')' ∉ gap :=
    fun hgap hc => absurd (hgap _ hc) (by decide)
  have hquote : ')' ∉ u.quote.toList := by
    intro hc
    exact absurd (h.quote_isQuote _ (by simpa using hc)) (by decide)
  have htarget : ')' ∉ u.target := fun hc => absurd (h.target_chars _ hc) (by decide)
  refine ⟨u.gapBefore ++ u.quote.toList ++ '#' :: u.target ++ u.quote.toList ++ u.gapAfter, ?_, ?_⟩
  · simp [text, addressStart]
  · simp [hblank h.gapBefore_blank, hblank h.gapAfter_blank, hquote, htarget]

/-- A first part of an address is an open one, or goes on within `url(`. -/
theorem IsProper.front {u : UrlReference} (h : u.IsProper) {w z : Text} (hu : u.text = w ++ z)
    (hw : w ≠ []) (hz : z ≠ []) :
    HasOpenAddress w ∨ ∃ c ∈ z.head?, c ∈ ['r', 'l', '('] := by
  obtain ⟨body, htext, hbody⟩ := h.exists_body
  rw [htext] at hu
  rcases List.append_eq_append_iff.1 hu with ⟨w', rfl, hend⟩ | ⟨z', hstart, rfl⟩
  · -- The parenthesis at the end belongs to the second part.
    left
    refine ⟨[], w', rfl, fun hmem => hbody ?_⟩
    obtain ⟨z, d, rfl⟩ := (List.eq_nil_or_concat z).resolve_left hz
    rw [List.concat_eq_append, ← List.append_assoc] at hend
    obtain ⟨rfl, -⟩ := List.append_inj' hend rfl
    exact List.mem_append_left z hmem
  · cases z' with
    | nil =>
      rw [List.append_nil] at hstart
      exact .inl ⟨[], [], by rw [← hstart]; rfl, List.not_mem_nil⟩
    | cons c z' =>
      obtain ⟨d, w, rfl⟩ := List.exists_cons_of_ne_nil hw
      have hbehind : ['r', 'l', '('] = w ++ c :: z' := (List.cons.inj hstart).2
      refine .inr ⟨c, rfl, ?_⟩
      rw [hbehind]
      simp

/-- No address lies across a cut behind which it could not go on. -/
theorem cutsAt_of_not_hasOpenAddress {s t : Text} (hs : ¬ HasOpenAddress s)
    (ht : ∀ c ∈ t.head?, c ∉ ['r', 'l', '(']) : pattern.CutsAt s t := by
  refine Pattern.cutsAt_of_exact (fun _ _ _ _ => read_eq_some_iff) ?_
  intro u w z hu htext hw hz hsuffix hprefix
  rcases hu.front htext hw hz with hopen | ⟨c, hc, hmem⟩
  · obtain ⟨front, rfl⟩ := hsuffix
    exact hs (hopen.append_left front)
  · obtain ⟨back, rfl⟩ := hprefix
    refine ht c ?_ hmem
    rw [List.head?_append, Option.mem_def.1 hc]
    rfl

/-- A text in which no address begins has none. -/
theorem silent_of_not_infix {s : Text} (h : ¬ addressStart <:+: s) : pattern.Silent none s [] := by
  refine pattern.silent_of_forall_suffix ?_ none
  intro v _ hv prev
  rw [List.append_nil, Option.eq_none_iff_forall_ne_some]
  rintro ⟨u, rest⟩ hread
  obtain ⟨hproper, rfl⟩ := read_eq_some_iff.1 hread
  obtain ⟨body, htext, -⟩ := hproper.exists_body
  rw [htext, List.append_assoc] at hv
  exact h ((List.prefix_append _ _).isInfix.trans hv.isInfix)

end UrlReference

namespace Renaming

variable (r : Renaming)

/-- Addresses are renamed in a text in which none is open, and in what follows it. -/
theorem applyToAddresses_append {s t : Text} (hs : ¬ HasOpenAddress s)
    (ht : ∀ c ∈ t.head?, c ∉ ['r', 'l', '(']) :
    r.applyToAddresses (s ++ t) = r.applyToAddresses s ++ r.applyToAddresses t := by
  refine ((UrlReference.cutsAt_of_not_hasOpenAddress hs ht).replaceFrom_append none).trans ?_
  exact congrArg (r.applyToAddresses s ++ ·)
    (Pattern.replaceFrom_congr (fun _ _ _ => rfl) _ none t)

theorem applyToAddresses_eq_self {s : Text} (h : ¬ addressStart <:+: s) :
    r.applyToAddresses s = s :=
  UrlReference.pattern.replace_of_silent (UrlReference.silent_of_not_infix h) _

/-- A character that begins no address is passed over. -/
theorem applyToAddresses_cons {c : Char} (hc : c ≠ 'u') (t : Text) :
    r.applyToAddresses (c :: t) = c :: r.applyToAddresses t := by
  have hnone : UrlReference.pattern.read none (c :: t) = none := by
    show UrlReference.read (c :: t) = none
    simp [UrlReference.read, after?, hc.symm]
  refine (UrlReference.pattern.replaceFrom_of_none hnone).trans ?_
  exact congrArg (c :: ·) (Pattern.replaceFrom_congr (fun _ _ _ => rfl) _ none t)

end Renaming

end SvgAssets.Markup
