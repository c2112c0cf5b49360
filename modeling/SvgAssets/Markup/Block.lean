/-
# SvgAssets.Markup.Block -- style and script elements

A block is an element with content: an opening tag, everything up to the first closing tag of the
same name, and that tag. Its content is not looked at as markup. Blocks are cut out of a document
together with empty elements of the same name.
-/
import SvgAssets.Markup.Tag
import SvgAssets.Text.Pattern

namespace SvgAssets.Markup

open Text

/-- An element with content, as written. -/
structure Block where
  opening : OpenTag
  content : Text
  closing : CloseTag
  deriving DecidableEq

namespace Block

/-- The block as it stands in the text. -/
def text (b : Block) : Text := b.opening.text ++ b.content ++ b.closing.text

/-- The block named `name` at the start of `s`. -/
def read (name s : Text) : Option (Block × Text) :=
  match OpenTag.read name Attributes.admitsContent s with
  | none => none
  | some (opening, s) =>
    ((CloseTag.pattern name).firstFrom none s).map fun (content, closing, rest) =>
      (⟨opening, content, closing⟩, rest)

theorem text_of_read {name s rest : Text} {b : Block} (h : read name s = some (b, rest)) :
    s = b.text ++ rest := by
  rw [read] at h
  split at h
  · cases h
  · rename_i opening t ho
    obtain ⟨⟨content, closing, r⟩, hf, he⟩ := Option.map_eq_some_iff.1 h
    cases he
    have hc : t = content ++ closing.text ++ rest := Pattern.firstFrom_eq_some _ hf
    simp [text, OpenTag.text_of_read ho, hc]

/-- Blocks of one name as a kind of token. -/
def pattern (name : Text) : Pattern Block where
  read _ s := read name s
  text := text
  exact := text_of_read
  nonempty _ := by simp [text, OpenTag.text]

/-- Empty elements of one name as a kind of token. -/
def emptyElement (name : Text) : Pattern OpenTag := OpenTag.pattern name Attributes.isEmptyElement

end Block

/-- `s` without the blocks and the empty elements named `name`. -/
def removeElements (name s : Text) : Text :=
  (Block.emptyElement name).erase ((Block.pattern name).erase s)

/-- The name of style elements. -/
def styleName : Text := ['s', 't', 'y', 'l', 'e']

/-- The name of script elements. -/
def scriptName : Text := ['s', 'c', 'r', 'i', 'p', 't']

/-- A document without its style elements. -/
def removeStyles (s : Text) : Text := removeElements styleName s

/-- A document without its script elements. -/
def removeScripts (s : Text) : Text := removeElements scriptName s

/-- CDATA sections as a kind of token. -/
def cdataSection : Pattern Text :=
  delimited ['<', '!', '[', 'C', 'D', 'A', 'T', 'A', '['] [']', ']', '>'] (by decide)

/-- The contents of the style blocks of a document, one after the other, with CDATA sections
replaced by what they hold. -/
def inlineStyles (s : Text) : Text :=
  ((Block.pattern styleName).tokens s).flatMap fun b => cdataSection.replace id b.content

end SvgAssets.Markup
