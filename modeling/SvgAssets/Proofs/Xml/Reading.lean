/-
# SvgAssets.Proofs.Xml.Reading -- what a reader has read

A reader that succeeds has read its parts one after the other (`run_bind_eq_ok_iff`), each at the
place where the one before it stopped. So what a construct is made of can be taken apart, and put
together again, with one equivalence for each kind of reader.
-/
import SvgAssets.Proofs.Text.Scanning
import SvgAssets.Xml.Reader

namespace SvgAssets.Xml

open Text

namespace Reader

variable {α β : Type}

@[simp] theorem run_pure (a : α) (s : Text) : (pure a : Reader α).run s = .ok (a, s) := rfl

/-- One reader after another reads one text after another. -/
theorem run_bind_eq_ok_iff {r : Reader α} {f : α → Reader β} {s rest : Text} {b : β} :
    (r >>= f).run s = .ok (b, rest) ↔
      ∃ a t, r.run s = .ok (a, t) ∧ (f a).run t = .ok (b, rest) := by
  show (Reader.bind r f).run s = _ ↔ _
  simp only [Reader.bind]
  cases r.run s with
  | error e => simp
  | ok found =>
    obtain ⟨a, t⟩ := found
    simp

theorem run_one_eq_ok_iff {p : Char → Bool} {s rest : Text} {c : Char} :
    (one p).run s = .ok (c, rest) ↔ s = c :: rest ∧ p c = true := by
  cases s with
  | nil => simp [one]
  | cons d s =>
    simp only [one]
    split
    · rename_i h
      simp only [Except.ok.injEq, Prod.mk.injEq, List.cons.injEq]
      constructor
      · rintro ⟨rfl, rfl⟩
        exact ⟨⟨rfl, rfl⟩, h⟩
      · rintro ⟨⟨rfl, rfl⟩, -⟩
        exact ⟨rfl, rfl⟩
    · rename_i h
      simp only [reduceCtorEq, List.cons.injEq, false_iff, not_and]
      rintro ⟨rfl, -⟩
      exact h

theorem run_many_eq_ok_iff {p : Char → Bool} {s w rest : Text} :
    (many p).run s = .ok (w, rest) ↔
      s = w ++ rest ∧ (∀ c ∈ w, p c = true) ∧ ∀ c ∈ rest.head?, p c = false := by
  rw [← run_eq_iff]
  exact ⟨fun h => Except.ok.inj h, fun h => congrArg Except.ok h⟩

/-- A word is its first character, the others, and no further one behind. -/
theorem run_word_eq_ok_iff {p q : Char → Bool} {s w rest : Text} :
    (word p q).run s = .ok (w, rest) ↔ s = w ++ rest ∧ (∃ c cs, w = c :: cs ∧ p c = true ∧
      ∀ d ∈ cs, q d = true) ∧ ∀ d ∈ rest.head?, q d = false := by
  simp only [word, run_bind_eq_ok_iff, run_one_eq_ok_iff, run_many_eq_ok_iff, run_pure,
    Except.ok.injEq, Prod.mk.injEq]
  constructor
  · rintro ⟨c, t, ⟨rfl, hc⟩, cs, t', ⟨rfl, hcs, hrest⟩, rfl, rfl⟩
    exact ⟨rfl, ⟨c, cs, rfl, hc, hcs⟩, hrest⟩
  · rintro ⟨rfl, ⟨c, cs, rfl, hc, hcs⟩, hrest⟩
    exact ⟨c, cs ++ rest, ⟨rfl, hc⟩, cs, rest, ⟨rfl, hcs, hrest⟩, rfl, rfl⟩

/-- Where a reader is not led to, the other one reads. -/
theorem run_behind_of_head?_ne {c : Char} {r other : Reader α} {s : Text}
    (h : s.head? ≠ some c) (lead : Text) : (behind (c :: lead) r other).run s = other.run s := by
  have hnone : after? (c :: lead) s = none := by
    cases s with
    | nil => rfl
    | cons d s => simp [after?, Ne.symm (show d ≠ c by simpa using h)]
  simp only [behind, hnone]

@[simp] theorem run_behind_append (lead : Text) (r other : Reader α) (s : Text) :
    (behind lead r other).run (lead ++ s) = r.run s := by
  simp only [behind, after?_eq_some_iff.2 (rfl : lead ++ s = lead ++ s)]

end Reader

end SvgAssets.Xml
