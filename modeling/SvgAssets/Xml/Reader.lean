/-
# SvgAssets.Xml.Reader -- readers that never give back more than they were given

A reader reads one construct at the start of a text. It stops either at a character that cannot
stand where it stands, or because the text ends too early. That the rest of the text is no longer
than the text itself is part of the type, so every loop over readers ends.
-/
import SvgAssets.Text.Pattern

namespace SvgAssets.Xml

open Text

/-- Why a construct cannot be read. -/
inductive Stop where
  /-- The first character of `rest` cannot stand there. -/
  | invalid (rest : Text)
  /-- The text ends inside the construct. -/
  | unfinished

/-- A reader of one construct. -/
structure Reader (α : Type) where
  run : Text → Except Stop (α × Text)
  length_le : ∀ {s a rest}, run s = .ok (a, rest) → rest.length ≤ s.length

namespace Reader

variable {α β : Type}

/-- Read nothing. -/
protected def pure (a : α) : Reader α where
  run s := .ok (a, s)
  length_le h := by cases h; exact Nat.le_refl _

/-- Read with `r`, then with the reader that `f` gives for the result. -/
protected def bind (r : Reader α) (f : α → Reader β) : Reader β where
  run s :=
    match r.run s with
    | .error e => .error e
    | .ok (a, rest) => (f a).run rest
  length_le {s b rest} h := by
    split at h
    · cases h
    · rename_i h'
      exact Nat.le_trans ((f _).length_le h) (r.length_le h')

instance : Monad Reader where
  pure := Reader.pure
  bind := Reader.bind

/-- One character that satisfies `p`. -/
def one (p : Char → Bool) : Reader Char where
  run
    | [] => .error .unfinished
    | c :: s => if p c then .ok (c, s) else .error (.invalid (c :: s))
  length_le {s c rest} h := by
    cases s with
    | nil => cases h
    | cons d s =>
      simp only at h
      split at h
      · cases h; simp
      · cases h

/-- The longest run of characters that satisfy `p`, possibly empty. -/
def many (p : Char → Bool) : Reader Text where
  run s := .ok (Text.run p s)
  length_le h := by
    have h := congrArg List.length (eq_append_of_run (Except.ok.inj h))
    rw [List.length_append] at h
    omega

/-- Read with `r` behind the text `lead`, and with `other` where the text does not begin so. -/
def behind (lead : Text) (r other : Reader α) : Reader α where
  run s :=
    match after? lead s with
    | some rest => r.run rest
    | none => other.run s
  length_le {s a rest} h := by
    split at h
    · rename_i h'
      have := congrArg List.length (after?_eq_some_iff.1 h')
      have := r.length_le h
      simp_all
      omega
    · exact other.length_le h

/-- A run of at least one character, the first satisfying `p` and the others `q`. -/
def word (p q : Char → Bool) : Reader Text := do
  let c ← one p
  let cs ← many q
  return c :: cs

end Reader

end SvgAssets.Xml
