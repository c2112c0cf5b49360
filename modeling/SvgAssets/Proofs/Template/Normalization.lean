/-
# SvgAssets.Proofs.Template.Normalization -- no declaration is left behind

Normalisation replaces each declaration that one scan finds. That no declaration is left in the
result is not a matter of the scan alone: a reference that was put in stands beside braces and bars
of the text, and could complete a declaration with them. It never does. A declaration in the result
would have to lie outside of every reference, since between its braces there is no brace; so it
would stand in the original text as well, at a position where the scan found none.
-/
import SvgAssets.Proofs.Text.Scanning
import SvgAssets.Template.Scan

namespace SvgAssets.Template

open Text

namespace Declaration

/-! ## What is read as a declaration -/

/-- Both fields of a declaration are non-empty and hold neither braces nor bars. -/
structure IsProper (d : Declaration) : Prop where
  written_ne_nil : d.written ≠ []
  written_chars : ∀ c ∈ d.written, isFieldChar c = true
  pathText_ne_nil : d.pathText ≠ []
  pathText_chars : ∀ c ∈ d.pathText, isFieldChar c = true

theorem read_text_append {d : Declaration} (h : d.IsProper) (rest : Text) :
    read (d.text ++ rest) = some (d, rest) := by
  obtain ⟨written, pathText⟩ := d
  have hw := run_append_cons (t := pathText ++ '\x7d' :: '\x7d' :: rest) h.written_chars
    (show isFieldChar '|' = false from rfl)
  have hp := run_append_cons (t := '\x7d' :: rest) h.pathText_chars
    (show isFieldChar '\x7d' = false from rfl)
  have hne := h.written_ne_nil
  have hne' := h.pathText_ne_nil
  simp_all [read, text, after?]

theorem isProper_of_read {s rest : Text} {d : Declaration} (h : read s = some (d, rest)) :
    d.IsProper := by
  simp only [read, Option.bind_eq_bind, Option.bind_eq_some_iff, after?_eq_some_iff] at h
  obtain ⟨s₁, rfl, s₂, h₂, s₃, h₃, h⟩ := h
  split at h
  · cases h
  · rename_i hne
    cases h
    rw [Bool.or_eq_true, not_or, List.isEmpty_iff, List.isEmpty_iff] at hne
    have hw := (run_eq_iff (q := isFieldChar) (s := s₁)).1 rfl
    have hp := (run_eq_iff (q := isFieldChar) (s := s₂)).1 rfl
    exact ⟨hne.1, hw.2.1, hne.2, hp.2.1⟩

/-- Reading a declaration accepts exactly what is written as one. -/
theorem read_eq_some_iff {s rest : Text} {d : Declaration} :
    read s = some (d, rest) ↔ d.IsProper ∧ s = d.text ++ rest := by
  constructor
  · intro h
    exact ⟨isProper_of_read h, text_of_read h⟩
  · rintro ⟨h, rfl⟩
    exact read_text_append h rest

theorem isFieldChar_of_mem_path {d : Declaration} (h : d.IsProper) {c : Char} (hc : c ∈ d.path) :
    isFieldChar c = true :=
  h.pathText_chars c (mem_of_mem_trim hc)

/-! ## References are silent -/

/-- What is read as a declaration begins with two braces and a character that is none. -/
theorem exists_of_read {s rest : Text} {d : Declaration} (h : read s = some (d, rest)) :
    ∃ c t, s = '\x7b' :: '\x7b' :: c :: t ∧ isFieldChar c = true := by
  obtain ⟨hd, rfl⟩ := read_eq_some_iff.1 h
  obtain ⟨written, pathText⟩ := d
  cases written with
  | nil => exact absurd rfl hd.written_ne_nil
  | cons c w => exact ⟨c, _, rfl, hd.written_chars c (by simp)⟩

theorem read_cons_of_ne {c : Char} (h : c ≠ '\x7b') (s : Text) : read (c :: s) = none := by
  simp [read, after?, h.symm]

/-- No declaration begins inside of a reference that is put in, whatever follows it: its name is
not followed by a bar. -/
theorem read_eq_none_of_suffix_reference {d : Declaration} (h : d.IsProper) {v t : Text}
    (hne : v ≠ []) (hv : v <:+ d.reference) : read (v ++ t) = none := by
  rw [Option.eq_none_iff_forall_ne_some]
  rintro ⟨d', rest⟩ hr
  have hpath : ∀ c ∈ d.path, isFieldChar c = true := fun c => isFieldChar_of_mem_path h
  rw [reference, List.cons_append, List.cons_append] at hv
  rcases List.suffix_cons_iff.1 hv with rfl | hv
  · -- The whole reference: its path would be the default, and a bar the brace behind it.
    obtain ⟨hd', he⟩ := read_eq_some_iff.1 hr
    simp only [text, List.cons_append, List.append_assoc, List.cons.injEq, true_and,
      List.nil_append] at he
    have hcut := eq_of_append_eq_append hpath hd'.written_chars rfl rfl he
    exact absurd hcut.2.1 (by decide)
  · rcases List.suffix_cons_iff.1 hv with rfl | hv
    · -- Its second brace: no brace follows, unless a closing one.
      obtain ⟨c, u, he, hc⟩ := exists_of_read hr
      cases hp : d.path with
      | nil => simp [hp] at he
      | cons x w =>
        have hx := hpath x (by simp [hp])
        rw [hp] at he
        simp only [List.cons_append, List.cons.injEq, true_and] at he
        rw [he.1] at hx
        exact absurd hx (by decide)
    · -- Its path or its closing braces.
      cases v with
      | nil => exact hne rfl
      | cons x v =>
        have hx : x ∈ d.path ++ ['\x7d', '\x7d'] := hv.subset (by simp)
        rw [List.cons_append, read_cons_of_ne] at hr
        · cases hr
        · rintro rfl
          rcases List.mem_append.1 hx with hx | hx
          · exact absurd (hpath _ hx) (by decide)
          · simp at hx

end Declaration

/-! ## Normalised texts -/

/-- The text behind a position, normalised. -/
abbrev normalizeFrom (prev : Option Char) (s : Text) : Text :=
  Declaration.pattern.replaceFrom Declaration.reference prev s

/-- What a normalised text begins with, up to an opening brace, its original begins with too. -/
theorem exists_of_normalizeFrom_eq {prev : Option Char} {s w u : Text} (hw : '\x7b' ∉ w)
    (h : normalizeFrom prev s = w ++ u) : ∃ t, s = w ++ t := by
  induction w generalizing prev s with
  | nil => exact ⟨s, rfl⟩
  | cons c w ih =>
    rw [List.mem_cons, not_or] at hw
    cases s with
    | nil => simp [normalizeFrom, Pattern.replaceFrom_nil] at h
    | cons x s =>
      cases hr : Declaration.pattern.read prev (x :: s) with
      | some found =>
        rw [normalizeFrom, Pattern.replaceFrom_of_read _ hr] at h
        simp only [Declaration.reference, List.cons_append, List.cons.injEq] at h
        exact absurd h.1 hw.1
      | none =>
        rw [normalizeFrom, Pattern.replaceFrom_of_none _ hr, List.cons_append,
          List.cons.injEq] at h
        obtain ⟨t, rfl⟩ := ih hw.2 h.2
        exact ⟨t, by rw [h.1, List.cons_append]⟩

/-- Where no declaration begins, none begins after normalisation. -/
theorem read_cons_normalizeFrom {c : Char} {s : Text} (h : Declaration.read (c :: s) = none) :
    Declaration.read (c :: normalizeFrom (some c) s) = none := by
  rw [Option.eq_none_iff_forall_ne_some]
  rintro ⟨d, rest⟩ hr
  obtain ⟨hd, he⟩ := Declaration.read_eq_some_iff.1 hr
  simp only [Declaration.text, List.cons_append, List.cons.injEq] at he
  obtain ⟨rfl, he⟩ := he
  cases s with
  | nil => simp [normalizeFrom, Pattern.replaceFrom_nil] at he
  | cons x s =>
    cases hx : Declaration.pattern.read (some '\x7b') (x :: s) with
    | some found =>
      -- A reference would put a second brace where the default has to begin.
      rw [normalizeFrom, Pattern.replaceFrom_of_read _ hx] at he
      obtain ⟨y, w, hw⟩ := List.exists_cons_of_ne_nil hd.written_ne_nil
      simp only [Declaration.reference, hw, List.cons_append, List.cons.injEq, true_and] at he
      have hy := hd.written_chars y (by simp [hw])
      rw [← he.1] at hy
      exact absurd hy (by decide)
    | none =>
      rw [normalizeFrom, Pattern.replaceFrom_of_none _ hx, List.cons.injEq] at he
      obtain ⟨rfl, he⟩ := he
      have hclean : '\x7b' ∉ d.written ++ '|' :: (d.pathText ++ ['\x7d', '\x7d']) := by
        intro hmem
        simp only [List.mem_append, List.mem_cons, List.not_mem_nil, or_false] at hmem
        rcases hmem with hmem | hmem | hmem | hmem | hmem
        · exact absurd (hd.written_chars _ hmem) (by decide)
        · exact absurd hmem (by decide)
        · exact absurd (hd.pathText_chars _ hmem) (by decide)
        · exact absurd hmem (by decide)
        · exact absurd hmem (by decide)
      obtain ⟨t, rfl⟩ := exists_of_normalizeFrom_eq (u := rest) hclean (he.trans (by simp))
      have hread := Declaration.read_text_append hd t
      simp only [Declaration.text, List.cons_append, List.append_assoc] at hread h
      rw [h] at hread
      cases hread

/-- No declaration can be read at any position of a normalised text. -/
theorem silent_normalizeFrom (prev : Option Char) (s : Text) (prev' : Option Char) :
    Declaration.pattern.Silent prev' (normalizeFrom prev s) [] := by
  fun_induction Pattern.scanFrom Declaration.pattern prev s generalizing prev' with
  | case1 => simp [normalizeFrom, Pattern.replaceFrom_nil, Pattern.Silent]
  | case2 prev c s d rest h ih =>
    rw [normalizeFrom, Pattern.replaceFrom_of_read _ h, Pattern.silent_append]
    refine ⟨?_, ih _⟩
    apply Pattern.silent_of_forall_suffix
    intro v hne hv _
    exact Declaration.read_eq_none_of_suffix_reference (Declaration.isProper_of_read h) hne hv
  | case3 prev c s h ih =>
    rw [normalizeFrom, Pattern.replaceFrom_of_none _ h]
    refine ⟨?_, ih _⟩
    rw [List.append_nil]
    exact read_cons_normalizeFrom h

/-- A text is silent exactly when no declaration stands anywhere in it. -/
theorem silent_iff_forall_proper {prev : Option Char} {s : Text} :
    Declaration.pattern.Silent prev s [] ↔
      ¬ ∃ d : Declaration, d.IsProper ∧ d.text <:+: s := by
  constructor
  · rintro h ⟨d, hd, before, behind, rfl⟩
    rw [List.append_assoc, Pattern.silent_append] at h
    have hread := Declaration.read_text_append hd behind
    obtain ⟨c, t, hc⟩ : ∃ c t, d.text = c :: t := ⟨_, _, rfl⟩
    have hnone := h.2
    rw [hc, List.cons_append, Pattern.Silent, List.append_nil] at hnone
    rw [hc, List.cons_append] at hread
    exact absurd (hnone.1.symm.trans hread) (by simp)
  · intro h
    apply Pattern.silent_of_forall_suffix
    intro v _ hv _
    rw [List.append_nil, Option.eq_none_iff_forall_ne_some]
    rintro ⟨d, rest⟩ hr
    obtain ⟨hd, rfl⟩ := Declaration.read_eq_some_iff.1 hr
    exact h ⟨d, hd, (List.prefix_append _ _).isInfix.trans hv.isInfix⟩

/-- **Normalisation removes every declaration and creates none.** In a normalised text no
declaration stands anywhere, also none that references and braces of the text make up together. So
a second normalisation changes nothing and a scan finds no variables; and the texts that
normalisation leaves alone are exactly those without a declaration. -/
theorem normalize_has_no_declaration (s : Text) :
    (¬ ∃ d : Declaration, d.IsProper ∧ d.text <:+: normalize s) ∧
      normalize (normalize s) = normalize s ∧
      scan (normalize s) = .done .empty ∧
      (normalize s = s ↔ ¬ ∃ d : Declaration, d.IsProper ∧ d.text <:+: s) := by
  have hsilent : Declaration.pattern.Silent none (normalize s) [] :=
    silent_normalizeFrom none s none
  refine ⟨silent_iff_forall_proper.1 hsilent, ?_, ?_, ?_, ?_⟩
  · exact Declaration.pattern.replace_of_silent hsilent _
  · rw [scan, declarations, Declaration.pattern.tokens_of_silent hsilent]
    rfl
  · intro h
    rw [h] at hsilent
    exact silent_iff_forall_proper.1 hsilent
  · intro h
    exact Declaration.pattern.replace_of_silent (silent_iff_forall_proper.2 h) _

end SvgAssets.Template
