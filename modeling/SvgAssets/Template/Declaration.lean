/-
# SvgAssets.Template.Declaration -- variable declarations in free text

Attribute values and style declarations may hold `{{default|path}}`: a variable with
its default. A declaration is two non-empty runs without braces and bars, with a bar between them
and double braces around them. Normalisation keeps of each declaration the path alone, so that
only references `{{path}}` are left.
-/
import SvgAssets.Text.Blank
import SvgAssets.Text.Pattern

namespace SvgAssets.Template

open Text

/-- Characters that may stand inside a declaration. -/
def isFieldChar (c : Char) : Bool := c != '\x7b' && c != '\x7d' && c != '|'

/-- A declaration as written. -/
structure Declaration where
  written : Text
  pathText : Text
  deriving DecidableEq

namespace Declaration

/-- The declaration as it stands in the text. -/
def text (d : Declaration) : Text :=
  '\x7b' :: '\x7b' :: d.written ++ '|' :: d.pathText ++ ['\x7d', '\x7d']

/-- The path of the declared variable. White space around it does not count. -/
def path (d : Declaration) : Text := trim d.pathText

/-- The reference to the declared variable. -/
def reference (d : Declaration) : Text :=
  '\x7b' :: '\x7b' :: d.path ++ ['\x7d', '\x7d']

/-- The declaration at the start of `s`. -/
def read (s : Text) : Option (Declaration × Text) := do
  let s ← after? ['\x7b', '\x7b'] s
  let (written, s) := run isFieldChar s
  let s ← after? ['|'] s
  let (pathText, s) := run isFieldChar s
  let s ← after? ['\x7d', '\x7d'] s
  if written.isEmpty || pathText.isEmpty then none else some (⟨written, pathText⟩, s)

theorem text_of_read {s rest : Text} {d : Declaration} (h : read s = some (d, rest)) :
    s = d.text ++ rest := by
  simp only [read, Option.bind_eq_bind, Option.bind_eq_some_iff, after?_eq_some_iff] at h
  obtain ⟨s₁, rfl, s₂, h₂, s₃, h₃, h⟩ := h
  split at h
  · cases h
  · cases h
    have e₁ := run_append isFieldChar s₁
    have e₂ := run_append isFieldChar s₂
    rw [h₂] at e₁
    rw [h₃] at e₂
    refine (congrArg ('\x7b' :: '\x7b' :: ·) e₁.symm).trans ?_
    simpa [text] using e₂.symm

/-- Declarations as a kind of token. -/
def pattern : Pattern Declaration where
  read _ s := read s
  text := text
  exact := text_of_read
  nonempty _ := by simp [text]

end Declaration

/-- The declarations of a text, in order. -/
def declarations (s : Text) : List Declaration := Declaration.pattern.tokens s

/-- `s` with every declaration replaced by the reference to its variable. -/
def normalize (s : Text) : Text := Declaration.pattern.replace Declaration.reference s

end SvgAssets.Template
