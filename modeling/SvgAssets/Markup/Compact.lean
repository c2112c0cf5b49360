/-
# SvgAssets.Markup.Compact -- markup without superfluous characters

Compacting drops comments, the prolog and the document type, the white space between tags, and
superfluous space inside of tags; quoted attribute values stay as they are. It is no validating
reader: markup that is not well formed comes out as markup that is not well formed. `unwrap` is the
separate step that takes the root element off.
-/
import SvgAssets.Markup.Attribute
import SvgAssets.Markup.Tag
import SvgAssets.Text.Pattern
import SvgAssets.Text.Spacing

namespace SvgAssets.Markup

open Text

/-! ## What is dropped -/

/-- Comments as a kind of token. -/
def comment : Pattern Text := delimited ['<', '!', '-', '-'] ['-', '-', '>'] (by decide)

/-- A prolog: the form of its name, and its content. -/
structure Prolog where
  name : Text
  content : Text
  deriving DecidableEq

namespace Prolog

/-- The prolog as it stands in the text. -/
def text (p : Prolog) : Text := '<' :: '?' :: p.name ++ p.content ++ ['?', '>']

/-- The prolog at the start of `s`. -/
def read (s : Text) : Option (Prolog × Text) := do
  let s ← after? ['<', '?'] s
  let (name, s) ← keyword? ['x', 'm', 'l'] s
  let (content, s) ← breakAt? ['?', '>'] s
  some (⟨name, content⟩, s)

theorem text_of_read {s rest : Text} {p : Prolog} (h : read s = some (p, rest)) :
    s = p.text ++ rest := by
  simp only [read, Option.bind_eq_bind, Option.bind_eq_some_iff, after?_eq_some_iff] at h
  obtain ⟨s₁, rfl, ⟨name, s₂⟩, h₂, ⟨content, s₃⟩, h₃, h⟩ := h
  cases h
  obtain rfl : s₂ = _ := breakAt?_eq_some h₃
  simp [text, (keyword?_eq_some h₂).1]

/-- Prologs as a kind of token. -/
def pattern : Pattern Prolog where
  read _ s := read s
  text := text
  exact := text_of_read
  nonempty _ := by simp [text]

end Prolog

/-- A document type: the form of its keyword, and its content, which ends at the first `>`. -/
structure Doctype where
  keyword : Text
  content : Text
  deriving DecidableEq

namespace Doctype

/-- The document type as it stands in the text. -/
def text (d : Doctype) : Text := '<' :: '!' :: d.keyword ++ d.content ++ ['>']

/-- The document type at the start of `s`. -/
def read (s : Text) : Option (Doctype × Text) := do
  let s ← after? ['<', '!'] s
  let (form, s) ← keyword? ['d', 'o', 'c', 't', 'y', 'p', 'e'] s
  let (content, s) ← breakAt? ['>'] s
  some (⟨form, content⟩, s)

theorem text_of_read {s rest : Text} {d : Doctype} (h : read s = some (d, rest)) :
    s = d.text ++ rest := by
  simp only [read, Option.bind_eq_bind, Option.bind_eq_some_iff, after?_eq_some_iff] at h
  obtain ⟨s₁, rfl, ⟨form, s₂⟩, h₂, ⟨content, s₃⟩, h₃, h⟩ := h
  cases h
  obtain rfl : s₂ = _ := breakAt?_eq_some h₃
  simp [text, (keyword?_eq_some h₂).1]

/-- Document types as a kind of token. -/
def pattern : Pattern Doctype where
  read _ s := read s
  text := text
  exact := text_of_read
  nonempty _ := by simp [text]

end Doctype

/-! ## Between tags -/

/-- `s` without the white space that fills the room between two tags. The flag tells whether only
such white space lies between `s` and the end of a tag in front of it. -/
def joinTags (behindTag : Bool) : Text → Text
  | [] => []
  | c :: s =>
    if isBlank c && behindTag && leadsTo (· == '<') isBlank s then joinTags true s
    else c :: joinTags (c == '>') s

/-! ## Inside of tags -/

/-- A quoted value: its quote and what stands between the quotes. -/
structure QuotedValue where
  quote : Char
  inner : Text
  deriving DecidableEq

namespace QuotedValue

/-- The value with its quotes. -/
def text (v : QuotedValue) : Text := v.quote :: v.inner ++ [v.quote]

/-- The quoted value at the start of `s`. -/
def read (s : Text) : Option (QuotedValue × Text) := do
  let (quote, s) ← one? isQuote s
  let (inner, s) ← breakAt? [quote] s
  some (⟨quote, inner⟩, s)

theorem text_of_read {s rest : Text} {v : QuotedValue} (h : read s = some (v, rest)) :
    s = v.text ++ rest := by
  simp only [read, Option.bind_eq_bind, Option.bind_eq_some_iff, Prod.exists,
    one?_eq_some_iff] at h
  obtain ⟨quote, s₁, ⟨rfl, -⟩, inner, s₂, h₂, h⟩ := h
  cases h
  simp [text, breakAt?_eq_some h₂]

/-- Quoted values as a kind of token. -/
def pattern : Pattern QuotedValue where
  read _ s := read s
  text := text
  exact := text_of_read
  nonempty _ := by simp [text]

end QuotedValue

/-- Text between the quoted values of a tag, compacted: single spaces, and none beside slashes and
equals signs. -/
def compactUnquoted (s : Text) : Text :=
  let isSpace : Char → Bool := (· == ' ')
  tighten (· == '=') isSpace false (tighten (· == '/') isSpace false (squeezeBlanks s))

/-- What stands between the angle brackets of a tag, compacted. -/
def compactTag (inner : Text) : Text :=
  dropAround (· == ' ') (QuotedValue.pattern.mapBetween compactUnquoted inner)

/-- A tag of any kind, as what stands between its angle brackets. -/
structure AnyTag where
  inner : Text
  deriving DecidableEq

namespace AnyTag

/-- The tag as it stands in the text. -/
def text (t : AnyTag) : Text := '<' :: t.inner ++ ['>']

/-- The tag with its inside compacted. -/
def compacted (t : AnyTag) : Text := '<' :: compactTag t.inner ++ ['>']

/-- The tag at the start of `s`. Its inside is not empty and holds no angle bracket. -/
def read (s : Text) : Option (AnyTag × Text) := do
  let s ← after? ['<'] s
  let (inner, s) := run (fun c => c != '<' && c != '>') s
  let s ← after? ['>'] s
  if inner.isEmpty then none else some (⟨inner⟩, s)

theorem text_of_read {s rest : Text} {t : AnyTag} (h : read s = some (t, rest)) :
    s = t.text ++ rest := by
  simp only [read, Option.bind_eq_bind, Option.bind_eq_some_iff, after?_eq_some_iff] at h
  obtain ⟨s₁, rfl, s₂, h₂, h⟩ := h
  split at h
  · cases h
  · cases h
    have e := run_append (fun c => c != '<' && c != '>') s₁
    rw [h₂] at e
    simpa [text] using e.symm

/-- Tags of any kind as a kind of token. -/
def pattern : Pattern AnyTag where
  read _ s := read s
  text := text
  exact := text_of_read
  nonempty _ := by simp [text]

end AnyTag

/-! ## Documents -/

/-- The compacted markup. -/
def compact (s : Text) : Text :=
  let s := Doctype.pattern.erase (Prolog.pattern.erase (comment.erase s))
  trim (AnyTag.pattern.replace AnyTag.compacted (joinTags false s))

/-- Compacted markup without its root element: the opening tag that it begins with and the last
closing tag of that name. Markup that begins otherwise is kept. -/
def unwrap (s : Text) : Text :=
  let s := trimStart s
  match rootOpening.read none s with
  | none => s
  | some (_, rest) => trim (rootClosing.eraseLast rest)

end SvgAssets.Markup
