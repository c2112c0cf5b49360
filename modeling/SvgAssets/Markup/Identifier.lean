/-
# SvgAssets.Markup.Identifier -- identifiers of elements and the references to them

An asset may be shown many times on one page, so its element identifiers are made unique: `a`
becomes `hash-a-{{uuid}}`, in its definition and in every reference inside of the document. There
are three places to change, each a kind of token of its own: the `id` attribute, an attribute whose
whole value is a reference, and `url(…)`. An identifier is compared as a whole, never as part of a
longer one.
-/
import SvgAssets.Markup.Attribute
import SvgAssets.Text.Casing

namespace SvgAssets.Markup

open Text

/-- The texts of a list, each once, in the order of their first occurrences. -/
def distinct (xs : List Text) : List Text :=
  xs.foldl (fun seen x => if x ∈ seen then seen else seen ++ [x]) []

/-- Definitions of identifiers as a kind of token. -/
def idDefinition : Pattern Attribute := Attribute.pattern ['i', 'd']

/-- The identifiers that a document defines, in order. -/
def collectIds (s : Text) : List Text :=
  distinct (((idDefinition.tokens s).map fun a => trim a.value).filter fun v => !v.isEmpty)

/-- How identifiers are renamed: which ones, and by what hash and instance variable. -/
structure Renaming where
  ids : List Text
  hash : Text
  instanceVariable : Text

/-- The new name of an identifier. -/
def Renaming.newName (r : Renaming) (id : Text) : Text :=
  r.hash ++ '-' :: id ++ '-' :: '\x7b' :: '\x7b' :: r.instanceVariable ++ ['\x7d', '\x7d']

/-- A definition, renamed if its identifier is. -/
def Renaming.definition (r : Renaming) (a : Attribute) : Text :=
  let id := trim a.value
  if id ∈ r.ids then ['i', 'd', '='] ++ a.quote :: r.newName id ++ [a.quote] else a.text

/-! ## References as attribute values -/

/-- An attribute whose value is a reference. -/
structure QuotedReference where
  name : Text
  gapBefore : Text
  gapAfter : Text
  quote : Char
  target : Text
  deriving DecidableEq

namespace QuotedReference

/-- The attribute with a given value behind the `#`. -/
def textTo (r : QuotedReference) (target : Text) : Text :=
  r.name ++ r.gapBefore ++ '=' :: r.gapAfter ++ r.quote :: '#' :: target ++ [r.quote]

/-- The attribute as it stands in the text. -/
def text (r : QuotedReference) : Text := r.textTo r.target

/-- Characters of a quoted target. -/
def isTargetChar (c : Char) : Bool := !isQuote c && !isBlank c

/-- The reference at the start of `s`, where `prev` is the character in front. -/
def read (prev : Option Char) (s : Text) : Option (QuotedReference × Text) := do
  let (name, s) := run isNameChar s
  let (gapBefore, s) := run isBlank s
  let s ← after? ['='] s
  let (gapAfter, s) := run isBlank s
  let (quote, s) ← one? isQuote s
  let s ← after? ['#'] s
  let (target, s) := run isTargetChar s
  let s ← after? [quote] s
  if name.isEmpty || target.isEmpty || !atNameStart prev then none
  else some (⟨name, gapBefore, gapAfter, quote, target⟩, s)

theorem text_of_read {s rest : Text} {prev : Option Char} {q : QuotedReference}
    (h : read prev s = some (q, rest)) : s = q.text ++ rest := by
  simp only [read, Option.bind_eq_bind, Option.bind_eq_some_iff, after?_eq_some_iff,
    Prod.exists, one?_eq_some_iff] at h
  obtain ⟨s₂, h₂, quote, s₃, ⟨h₃, -⟩, s₄, rfl, s₅, h₅, h⟩ := h
  split at h
  · cases h
  · cases h
    generalize r₀ : run isNameChar s = p₀ at *
    obtain rfl := eq_append_of_run r₀
    generalize r₁ : run isBlank p₀.2 = p₁ at *
    generalize r₂ : run isBlank s₂ = p₂ at *
    generalize r₃ : run isTargetChar s₄ = p₃ at *
    obtain rfl := eq_append_of_run r₂
    obtain rfl := eq_append_of_run r₃
    rw [eq_append_of_run r₁]
    simp [text, textTo, h₂, h₃, h₅]

/-- References as attribute values as a kind of token. -/
def pattern : Pattern QuotedReference where
  read := read
  text := text
  exact := text_of_read
  nonempty _ := by simp [text, textTo]

end QuotedReference

/-- Attributes whose value is a colour: `#abc` is no reference there. -/
def paintAttributes : List Text :=
  ["fill".toList, "stroke".toList, "color".toList, "stop-color".toList, "flood-color".toList,
    "lighting-color".toList]

/-- A reference, renamed if its target is. -/
def Renaming.reference (r : Renaming) (q : QuotedReference) : Text :=
  if q.target ∈ r.ids ∧ lower q.name ∉ paintAttributes then q.textTo (r.newName q.target)
  else q.text

/-! ## References as addresses -/

/-- A reference `url(#target)`, with or without quotes. -/
structure UrlReference where
  gapBefore : Text
  quote : Option Char
  target : Text
  gapAfter : Text
  deriving DecidableEq

namespace UrlReference

/-- The reference as it stands in the text. -/
def text (u : UrlReference) : Text :=
  ['u', 'r', 'l', '('] ++ u.gapBefore ++ u.quote.toList ++ '#' :: u.target ++ u.quote.toList ++
    u.gapAfter ++ [')']

/-- The reference to `target`, without white space. -/
def textTo (u : UrlReference) (target : Text) : Text :=
  ['u', 'r', 'l', '('] ++ u.quote.toList ++ '#' :: target ++ u.quote.toList ++ [')']

/-- Characters of a target. -/
def isTargetChar (c : Char) : Bool := !isQuote c && c != ')' && !isBlank c

/-- A quote at the start of `s`, if there is one. -/
def readQuote (s : Text) : Option Char × Text :=
  match one? isQuote s with
  | some (quote, rest) => (some quote, rest)
  | none => (none, s)

theorem eq_append_of_readQuote {s rest : Text} {quote : Option Char}
    (h : readQuote s = (quote, rest)) : s = quote.toList ++ rest := by
  rw [readQuote] at h
  split at h
  · rename_i q r hq
    cases h
    simpa using (one?_eq_some_iff.1 hq).1
  · cases h; rfl

/-- The reference at the start of `s`. -/
def read (s : Text) : Option (UrlReference × Text) := do
  let s ← after? ['u', 'r', 'l', '('] s
  let (gapBefore, s) := run isBlank s
  let (quote, s) := readQuote s
  let s ← after? ['#'] s
  let (target, s) := run isTargetChar s
  let s ← after? quote.toList s
  let (gapAfter, s) := run isBlank s
  let s ← after? [')'] s
  if target.isEmpty then none else some (⟨gapBefore, quote, target, gapAfter⟩, s)

theorem text_of_read {s rest : Text} {u : UrlReference} (h : read s = some (u, rest)) :
    s = u.text ++ rest := by
  simp only [read, Option.bind_eq_bind, Option.bind_eq_some_iff, after?_eq_some_iff] at h
  obtain ⟨s₁, rfl, s₂, h₂, s₃, h₃, s₄, h₄, h⟩ := h
  split at h
  · cases h
  · cases h
    generalize r₁ : run isBlank s₁ = p₁ at *
    obtain rfl := eq_append_of_run r₁
    generalize rq : readQuote p₁.2 = pq at *
    generalize r₂ : run isTargetChar s₂ = p₂ at *
    generalize r₃ : run isBlank s₃ = p₃ at *
    obtain rfl := eq_append_of_run r₂
    obtain rfl := eq_append_of_run r₃
    rw [eq_append_of_readQuote rq]
    simp [text, h₂, h₃, h₄]

/-- References as addresses as a kind of token. -/
def pattern : Pattern UrlReference where
  read _ s := read s
  text := text
  exact := text_of_read
  nonempty _ := by simp [text]

end UrlReference

/-- An address, renamed if its target is. -/
def Renaming.address (r : Renaming) (u : UrlReference) : Text :=
  if u.target ∈ r.ids then u.textTo (r.newName u.target) else u.text

/-- `s` with the addresses renamed. -/
def Renaming.applyToAddresses (r : Renaming) (s : Text) : Text :=
  UrlReference.pattern.replace r.address s

/-- A document with its identifiers renamed: first the definitions, then the attributes, then the
addresses. -/
def Renaming.apply (r : Renaming) (s : Text) : Text :=
  if r.ids.isEmpty then s
  else
    r.applyToAddresses
      (QuotedReference.pattern.replace r.reference (idDefinition.replace r.definition s))

end SvgAssets.Markup
