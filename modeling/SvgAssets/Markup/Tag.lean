/-
# SvgAssets.Markup.Tag -- opening and closing tags of a given name

Tags are looked up by name, without regard to case, in markup that need not be well formed. An
opening tag ends at the first `>` behind its name, whatever stands between; what stands between is
kept as one text, its attributes. Which attribute texts count decides between the kinds of opening
tag: `Attributes.admitsAny`, `isPresent`, `admitsContent` and `isEmptyElement`.
-/
import SvgAssets.Text.Casing
import SvgAssets.Text.Pattern

namespace SvgAssets.Markup

open Text

/-- An opening or empty-element tag: its name as written, and all text up to the closing `>`. -/
structure OpenTag where
  name : Text
  attributes : Text
  deriving DecidableEq

/-- A closing tag: its name as written, and the white space behind it. -/
structure CloseTag where
  name : Text
  gap : Text
  deriving DecidableEq

/-! ## Kinds of attribute text -/

namespace Attributes

/-- The attribute text begins with white space. -/
def isPresent : Text → Bool
  | [] => false
  | c :: _ => isBlank c

/-- There is no attribute text, or it begins with white space. -/
def admitsAny (a : Text) : Bool := a.isEmpty || isPresent a

/-- The tag opens an element that may have content: no slash stands in front of the `>`. -/
def admitsContent (a : Text) : Bool := admitsAny a && a.getLast? != some '/'

/-- The tag is an empty element: a slash stands in front of the `>`. -/
def isEmptyElement (a : Text) : Bool := a == ['/'] || (isPresent a && a.getLast? == some '/')

end Attributes

/-! ## Opening tags -/

namespace OpenTag

/-- The tag as it stands in the text. -/
def text (t : OpenTag) : Text := '<' :: t.name ++ t.attributes ++ ['>']

/-- The opening tag named `name` at the start of `s`, if `admits` its attributes. -/
def read (name : Text) (admits : Text → Bool) (s : Text) : Option (OpenTag × Text) := do
  let s ← after? ['<'] s
  let (form, s) ← keyword? name s
  let (attributes, s) := run (· != '>') s
  let s ← after? ['>'] s
  if admits attributes then some (⟨form, attributes⟩, s) else none

theorem text_of_read {name s rest : Text} {admits : Text → Bool} {t : OpenTag}
    (h : read name admits s = some (t, rest)) : s = t.text ++ rest := by
  simp only [read, Option.bind_eq_bind, Option.bind_eq_some_iff, after?_eq_some_iff] at h
  obtain ⟨s₁, rfl, ⟨form, s₂⟩, h₂, s₃, h₃, h⟩ := h
  split at h
  · cases h
    have e := run_append (· != '>') s₂
    rw [h₃] at e
    rw [(keyword?_eq_some h₂).1]
    simpa [text] using e.symm
  · cases h

/-- Opening tags as a kind of token. -/
def pattern (name : Text) (admits : Text → Bool) : Pattern OpenTag where
  read _ s := read name admits s
  text := text
  exact := text_of_read
  nonempty _ := by simp [text]

end OpenTag

/-! ## Closing tags -/

namespace CloseTag

/-- The tag as it stands in the text. -/
def text (t : CloseTag) : Text := '<' :: '/' :: t.name ++ t.gap ++ ['>']

/-- The closing tag named `name` at the start of `s`. -/
def read (name s : Text) : Option (CloseTag × Text) := do
  let s ← after? ['<', '/'] s
  let (form, s) ← keyword? name s
  let (gap, s) := run isBlank s
  let s ← after? ['>'] s
  some (⟨form, gap⟩, s)

theorem text_of_read {name s rest : Text} {t : CloseTag}
    (h : read name s = some (t, rest)) : s = t.text ++ rest := by
  simp only [read, Option.bind_eq_bind, Option.bind_eq_some_iff, after?_eq_some_iff] at h
  obtain ⟨s₁, rfl, ⟨form, s₂⟩, h₂, s₃, h₃, h⟩ := h
  cases h
  have e := run_append isBlank s₂
  rw [h₃] at e
  rw [(keyword?_eq_some h₂).1]
  simpa [text] using e.symm

/-- Closing tags as a kind of token. -/
def pattern (name : Text) : Pattern CloseTag where
  read _ s := read name s
  text := text
  exact := text_of_read
  nonempty _ := by simp [text]

end CloseTag

/-! ## The root element -/

/-- The name of the root element. -/
def rootName : Text := ['s', 'v', 'g']

/-- Opening tags of the root element, with or without attributes. -/
def rootOpening : Pattern OpenTag := OpenTag.pattern rootName Attributes.admitsAny

/-- Closing tags of the root element. -/
def rootClosing : Pattern CloseTag := CloseTag.pattern rootName

/-- Whether a text has the signature of a document: an opening tag of the root element. -/
def hasSignature (s : Text) : Bool := rootOpening.occursIn s

/-- The tag that the geometry is taken from: the first opening tag of the root element that has
attributes. -/
def rootTag? (s : Text) : Option Text :=
  ((OpenTag.pattern rootName Attributes.isPresent).first? s).map OpenTag.text

end SvgAssets.Markup
