/-
# SvgAssets.Proofs.Markup.Tags -- where a block stands

A tag is read exactly where its text stands, its name in any case (`OpenTag.read_eq_some_iff`,
`CloseTag.read_eq_some_iff`). So a block can be read where an opening tag stands that admits content
and a closing tag stands somewhere behind it (`Block.exists_read_iff`).
-/
import SvgAssets.Markup.Block
import SvgAssets.Proofs.Text.Scanning

namespace SvgAssets.Markup

open Text

/-- A way to write a name: its letters in any case. -/
def IsForm (name form : Text) : Prop :=
  List.Forall₂ (fun letter c => sameLetter letter c = true) name form

theorem IsForm.exists_letter {name form : Text} (h : IsForm name form) {c : Char} (hc : c ∈ form) :
    ∃ letter ∈ name, sameLetter letter c = true := by
  induction h with
  | nil => cases hc
  | @cons letter d name form hsame _ ih =>
    rcases List.mem_cons.1 hc with rfl | hc
    · exact ⟨letter, List.mem_cons_self .., hsame⟩
    · obtain ⟨letter', hmem, hsame'⟩ := ih hc
      exact ⟨letter', List.mem_cons_of_mem letter hmem, hsame'⟩

namespace OpenTag

/-- The name is written in one of its forms, and the attributes end where the tag does. -/
structure IsProper (name : Text) (t : OpenTag) : Prop where
  isForm : IsForm name t.name
  attributes_chars : '>' ∉ t.attributes

theorem read_eq_some_iff {name : Text} {admits : Text → Bool} {s rest : Text} {t : OpenTag} :
    read name admits s = some (t, rest) ↔
      t.IsProper name ∧ admits t.attributes = true ∧ s = t.text ++ rest := by
  constructor
  · intro h
    have hs := text_of_read h
    simp only [read, Option.bind_eq_bind, Option.bind_eq_some_iff, after?_eq_some_iff] at h
    obtain ⟨s₁, rfl, ⟨form, s₂⟩, h₂, s₃, h₃, h⟩ := h
    split at h
    · rename_i hadmits
      cases h
      refine ⟨⟨(keyword?_eq_some_iff.1 h₂).1, fun hmem => ?_⟩, hadmits, hs⟩
      exact absurd (((run_eq_iff (q := (· != '>'))).1 rfl).2.1 _ hmem) (by decide)
    · cases h
  · rintro ⟨h, hadmits, rfl⟩
    obtain ⟨form, attributes⟩ := t
    have hform : keyword? name (form ++ (attributes ++ '>' :: rest)) =
        some (form, attributes ++ '>' :: rest) := keyword?_eq_some_iff.2 ⟨h.isForm, rfl⟩
    have hrun : run (· != '>') (attributes ++ '>' :: rest) = (attributes, '>' :: rest) := by
      refine run_append_cons (fun c hc => ?_) (by decide)
      simpa using ne_of_mem_of_not_mem hc h.attributes_chars
    simp only at hadmits
    simp [read, text, hform, hrun, hadmits, after?]

end OpenTag

namespace CloseTag

/-- The name is written in one of its forms, and nothing but white space follows it. -/
structure IsProper (name : Text) (t : CloseTag) : Prop where
  isForm : IsForm name t.name
  gap_blank : ∀ c ∈ t.gap, isBlank c = true

theorem read_eq_some_iff {name s rest : Text} {t : CloseTag} :
    read name s = some (t, rest) ↔ t.IsProper name ∧ s = t.text ++ rest := by
  constructor
  · intro h
    have hs := text_of_read h
    simp only [read, Option.bind_eq_bind, Option.bind_eq_some_iff, after?_eq_some_iff] at h
    obtain ⟨s₁, rfl, ⟨form, s₂⟩, h₂, s₃, h₃, h⟩ := h
    cases h
    exact ⟨⟨(keyword?_eq_some_iff.1 h₂).1, ((run_eq_iff (q := isBlank)).1 rfl).2.1⟩, hs⟩
  · rintro ⟨h, rfl⟩
    obtain ⟨form, gap⟩ := t
    have hform : keyword? name (form ++ (gap ++ '>' :: rest)) = some (form, gap ++ '>' :: rest) :=
      keyword?_eq_some_iff.2 ⟨h.isForm, rfl⟩
    have hrun := run_append_cons (t := rest) h.gap_blank (show isBlank '>' = false from rfl)
    simp only at hrun
    simp [read, text, hform, hrun, after?]

end CloseTag

namespace Block

/-- A block is read where its opening tag stands, if a closing tag stands behind. -/
theorem exists_read_iff {name s : Text} :
    read name s ≠ none ↔ ∃ (t : OpenTag) (v : CloseTag) (rest : Text), t.IsProper name ∧
      Attributes.admitsContent t.attributes = true ∧ v.IsProper name ∧ s = t.text ++ rest ∧
        v.text <:+: rest := by
  constructor
  · intro h
    obtain ⟨⟨b, behind⟩, hread⟩ := Option.ne_none_iff_exists'.1 h
    rw [read] at hread
    split at hread
    · cases hread
    · rename_i t rest hopen
      obtain ⟨ht, hadmits, rfl⟩ := OpenTag.read_eq_some_iff.1 hopen
      obtain ⟨⟨content, v, rest'⟩, hfirst, -⟩ := Option.map_eq_some_iff.1 hread
      obtain ⟨prev, hclose⟩ := (CloseTag.pattern name).exists_read_of_firstFrom hfirst
      have hv := (CloseTag.read_eq_some_iff.1 hclose).1
      refine ⟨t, v, rest, ht, hadmits, hv, rfl, content, rest', ?_⟩
      exact ((CloseTag.pattern name).firstFrom_eq_some hfirst).symm
  · rintro ⟨t, v, rest, ht, hadmits, hv, rfl, front, back, rfl⟩
    have hclose : ∀ prev, (CloseTag.pattern name).read prev (v.text ++ back) ≠ none := by
      intro prev
      have hread : (CloseTag.pattern name).read prev (v.text ++ back) = some (v, back) :=
        CloseTag.read_eq_some_iff.2 ⟨hv, rfl⟩
      rw [hread]
      simp
    have hfirst := (CloseTag.pattern name).firstFrom_ne_none (u := front) (by simp [CloseTag.text])
      hclose none
    rw [← List.append_assoc] at hfirst
    rw [read, OpenTag.read_eq_some_iff.2 ⟨ht, hadmits, rfl⟩]
    simpa using hfirst

end Block

end SvgAssets.Markup
