/-
# SvgAssets.Stylesheet.Reference -- identifiers in style sheets

A style sheet refers to elements in two places: `#id` in a selector and `url(#id)` anywhere. A `#`
in a declaration is a colour and stays. Selectors are found without reading the sheet as a tree: a
prelude is any text without braces that reaches from the start of the sheet, or from a brace, to an
opening brace.
-/
import SvgAssets.Markup.Identifier
import SvgAssets.Stylesheet.Marker

namespace SvgAssets.Stylesheet

open Text Markup

/-! ## Preludes -/

/-- The text in front of a block: the brace that it follows, unless it is at the start, and the
text itself. -/
structure Prelude where
  brace : Option Char
  selectors : Text
  deriving DecidableEq

namespace Prelude

/-- The prelude as it stands in the text. -/
def text (p : Prelude) : Text := p.brace.toList ++ p.selectors

/-- A non-empty run without braces at the start of `s` that ends at an opening brace. -/
def readSelectors (s : Text) : Option (Text × Text) :=
  match run isInnerChar s with
  | (c :: cs, '\x7b' :: rest) => some (c :: cs, '\x7b' :: rest)
  | _ => none

theorem eq_append_of_readSelectors {s sel rest : Text}
    (h : readSelectors s = some (sel, rest)) : s = sel ++ rest ∧ sel ≠ [] := by
  rw [readSelectors] at h
  split at h
  · rename_i c cs r hr
    cases h
    exact ⟨eq_append_of_run hr, by simp⟩
  · cases h

/-- The prelude at the start of `s`, where `prev` is the character in front. -/
def read (prev : Option Char) (s : Text) : Option (Prelude × Text) :=
  match if prev.isNone then readSelectors s else none with
  | some (sel, rest) => some (⟨none, sel⟩, rest)
  | none =>
    (one? (fun c => !isInnerChar c) s).bind fun (brace, s) =>
      (readSelectors s).map fun (sel, rest) => (⟨some brace, sel⟩, rest)

theorem text_of_read {prev : Option Char} {s rest : Text} {p : Prelude}
    (h : read prev s = some (p, rest)) : s = p.text ++ rest ∧ p.text ≠ [] := by
  rw [read] at h
  split at h
  · rename_i sel r hr
    cases h
    split at hr
    · simpa [text] using eq_append_of_readSelectors hr
    · cases hr
  · simp only [Option.bind_eq_some_iff, Option.map_eq_some_iff, Prod.exists,
      one?_eq_some_iff] at h
    obtain ⟨b, t, ⟨rfl, -⟩, sel, r, hr, he⟩ := h
    cases he
    simp [text, (eq_append_of_readSelectors hr).1]

/-- Preludes as a kind of token. -/
def pattern : Pattern Prelude where
  read := read
  text := text
  exact h := (text_of_read h).1
  nonempty h := (text_of_read h).2

end Prelude

/-! ## Identifier selectors -/

/-- A selector `#name`. -/
structure IdSelector where
  name : Text
  deriving DecidableEq

namespace IdSelector

/-- The selector as it stands in the text. -/
def text (i : IdSelector) : Text := '#' :: i.name

/-- ASCII letters and the underscore, with which a name begins. -/
def isNameStart (c : Char) : Bool := c == '_' || c.isAlpha

/-- Characters of a name. -/
def isNameChar (c : Char) : Bool := isWordChar c || c == '-'

/-- Whether a name begins at the start of `s`: a letter or underscore, perhaps behind one hyphen. -/
def startsName : Text → Bool
  | '-' :: c :: _ => isNameStart c
  | c :: _ => isNameStart c
  | [] => false

/-- The selector at the start of `s`. -/
def read (s : Text) : Option (IdSelector × Text) := do
  let s ← after? ['#'] s
  if startsName s then
    let (name, rest) := run isNameChar s
    some (⟨name⟩, rest)
  else none

theorem text_of_read {s rest : Text} {i : IdSelector} (h : read s = some (i, rest)) :
    s = i.text ++ rest := by
  simp only [read, Option.bind_eq_bind, Option.bind_eq_some_iff, after?_eq_some_iff] at h
  obtain ⟨s₁, rfl, h⟩ := h
  split at h
  · cases h
    simp [text, run_append]
  · cases h

/-- Identifier selectors as a kind of token. -/
def pattern : Pattern IdSelector where
  read _ s := read s
  text := text
  exact := text_of_read
  nonempty _ := by simp [text]

end IdSelector

/-! ## Renaming -/

/-- A selector, renamed if its identifier is. -/
def renamedSelector (r : Renaming) (i : IdSelector) : Text :=
  if i.name ∈ r.ids then '#' :: r.newName i.name else i.text

/-- A prelude with its selectors renamed. -/
def renamedPrelude (r : Renaming) (p : Prelude) : Text :=
  p.brace.toList ++ IdSelector.pattern.replace (renamedSelector r) p.selectors

/-- A style sheet with the references to renamed identifiers renamed. -/
def renameReferences (r : Renaming) (s : Text) : Text :=
  if s.isEmpty || r.ids.isEmpty then s
  else
    r.applyToAddresses
      (restorePlaceholders (Prelude.pattern.replace (renamedPrelude r) (hidePlaceholders s)))

end SvgAssets.Stylesheet
