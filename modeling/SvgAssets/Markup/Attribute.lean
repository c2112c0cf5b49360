/-
# SvgAssets.Markup.Attribute -- quoted attributes of a given name

An attribute is looked up by its exact name, which must not be the tail of a longer name: `width` is
not found in `stroke-width` or `data:width`. Its value lies between two equal quotes on one line.
-/
import SvgAssets.Text.Blank
import SvgAssets.Text.Pattern
import SvgAssets.Text.WordChar

namespace SvgAssets.Markup

open Text

/-- Characters of attribute names. -/
def isNameChar (c : Char) : Bool := isWordChar c || c == ':' || c == '-'

/-- Whether a name can begin behind `prev`. -/
def atNameStart (prev : Option Char) : Bool :=
  match prev with
  | none => true
  | some c => !isNameChar c

/-- The two quotes. -/
def isQuote (c : Char) : Bool := c == '"' || c == '\''

/-- An attribute as written: white space around the equals sign, the quote, the value. -/
structure Attribute where
  name : Text
  gapBefore : Text
  gapAfter : Text
  quote : Char
  value : Text
  deriving DecidableEq

namespace Attribute

/-- The attribute as it stands in the text. -/
def text (a : Attribute) : Text :=
  a.name ++ a.gapBefore ++ '=' :: a.gapAfter ++ a.quote :: a.value ++ [a.quote]

/-- The attribute named `name` at the start of `s`, where `prev` is the character in front. -/
def read (name : Text) (prev : Option Char) (s : Text) : Option (Attribute × Text) := do
  let s ← after? name s
  let (gapBefore, s) := run isBlank s
  let s ← after? ['='] s
  let (gapAfter, s) := run isBlank s
  let (quote, s) ← one? isQuote s
  let (value, s) := run (fun c => c != quote && c != '\n') s
  let s ← after? [quote] s
  if atNameStart prev then some (⟨name, gapBefore, gapAfter, quote, value⟩, s) else none

theorem text_of_read {name s rest : Text} {prev : Option Char} {a : Attribute}
    (h : read name prev s = some (a, rest)) : s = a.text ++ rest ∧ a.name = name := by
  simp only [read, Option.bind_eq_bind, Option.bind_eq_some_iff, after?_eq_some_iff,
    Prod.exists, one?_eq_some_iff] at h
  obtain ⟨s₁, rfl, s₂, h₂, quote, s₃, ⟨h₃, -⟩, s₄, h₄, h⟩ := h
  split at h
  · cases h
    generalize r₁ : run isBlank s₁ = p₁ at *
    generalize r₂ : run isBlank s₂ = p₂ at *
    generalize r₃ : run (fun c => c != quote && c != '\n') s₃ = p₃ at *
    obtain rfl := eq_append_of_run r₁
    obtain rfl := eq_append_of_run r₂
    obtain rfl := eq_append_of_run r₃
    simp [text, h₂, h₃, h₄]
  · cases h

/-- Attributes of one name as a kind of token. -/
def pattern (name : Text) : Pattern Attribute where
  read prev s := read name prev s
  text := text
  exact h := (text_of_read h).1
  nonempty _ := by simp [text]

/-- The value of the first attribute named `name` in `s`. -/
def value? (name s : Text) : Option Text := ((pattern name).first? s).map (·.value)

end Attribute

end SvgAssets.Markup
