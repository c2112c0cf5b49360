/-
# SvgAssets.Stylesheet.Marker -- placeholders hidden from the style sheet reader

The double braces of a placeholder would be read as block delimiters. Before a style sheet is
looked at, the braces of every whole placeholder give way to markers, and afterwards the markers
give way to braces. Only whole placeholders are hidden: nested blocks may end in double braces too.
-/
import SvgAssets.Text.Pattern

namespace SvgAssets.Stylesheet

open Text

/-- The marker for opening braces. -/
def openMarker : Text := ['_', 'o', 'o', '_']

/-- The marker for closing braces. -/
def closeMarker : Text := ['_', 'O', 'O', '_']

/-- Characters that may stand between the braces of a placeholder. -/
def isInnerChar (c : Char) : Bool := c != '\x7b' && c != '\x7d'

/-- A placeholder, as what stands between its braces. -/
structure Placeholder where
  inner : Text
  deriving DecidableEq

namespace Placeholder

/-- The placeholder as it stands in the text. -/
def text (p : Placeholder) : Text := '\x7b' :: '\x7b' :: p.inner ++ ['\x7d', '\x7d']

/-- The placeholder with its braces hidden. -/
def hidden (p : Placeholder) : Text := openMarker ++ p.inner ++ closeMarker

/-- The placeholder at the start of `s`. -/
def read (s : Text) : Option (Placeholder × Text) := do
  let s ← after? ['\x7b', '\x7b'] s
  let (inner, s) := run isInnerChar s
  let s ← after? ['\x7d', '\x7d'] s
  some (⟨inner⟩, s)

theorem text_of_read {s rest : Text} {p : Placeholder} (h : read s = some (p, rest)) :
    s = p.text ++ rest := by
  simp only [read, Option.bind_eq_bind, Option.bind_eq_some_iff, after?_eq_some_iff] at h
  obtain ⟨s₁, rfl, s₂, h₂, h⟩ := h
  cases h
  have e := run_append isInnerChar s₁
  rw [h₂] at e
  simpa [text] using e.symm

/-- Placeholders as a kind of token. -/
def pattern : Pattern Placeholder where
  read _ s := read s
  text := text
  exact := text_of_read
  nonempty _ := by simp [text]

end Placeholder

/-- `s` with the braces of every placeholder hidden. -/
def hidePlaceholders (s : Text) : Text := Placeholder.pattern.replace Placeholder.hidden s

/-- `s` with markers replaced by braces: first the opening, then the closing ones. -/
def restorePlaceholders (s : Text) : Text :=
  replaceAll '_' ['O', 'O', '_'] ['\x7d', '\x7d']
    (replaceAll '_' ['o', 'o', '_'] ['\x7b', '\x7b'] s)

end SvgAssets.Stylesheet
