/-
# SvgAssets.Xml.Token -- references, tags, comments and instructions

Readers for what a document is made of, each taking over behind the characters that announce it.
They check the form of a construct only: whether an entity is declared, a prefix is bound or a
character number is legal is decided where the construct is put to use.
-/
import SvgAssets.Xml.Fault
import SvgAssets.Xml.Name
import SvgAssets.Xml.Reader
import SvgAssets.Text.Casing

namespace SvgAssets.Xml

open Text

/-- The fault of a stopped reader, where `start` is the text from the start of its construct. -/
def Stop.fault (start : Text) : Stop → Fault
  | .invalid rest => .ofRest .invalidToken rest
  | .unfinished => .ofRest .unclosedToken start

/-! ## Names -/

/-- A name without a colon. -/
def nameReader : Reader Text := .word isNameStart isNameChar

/-- A name with or without a prefix. -/
def qualifiedNameReader : Reader QualifiedName := do
  let first ← nameReader
  .behind [':'] (do return ⟨some first, ← nameReader⟩) (return ⟨none, first⟩)

/-! ## References -/

/-- What stands between an ampersand and a semicolon. -/
inductive Reference where
  | character (number : Nat)
  | entity (name : Text)
  deriving DecidableEq

/-- Digits of a hexadecimal numeral. -/
def isHexDigit (c : Char) : Bool :=
  c.isDigit || ('a' ≤ c && c ≤ 'f') || ('A' ≤ c && c ≤ 'F')

/-- The value of a hexadecimal digit. -/
def hexDigitValue (c : Char) : Nat :=
  if c.isDigit then c.toNat - 0x30
  else if 'a' ≤ c then c.toNat - 0x61 + 10
  else c.toNat - 0x41 + 10

/-- The value of a numeral in the given base. -/
def numeralValue (base : Nat) (digits : Text) : Nat :=
  digits.foldl (fun n c => base * n + hexDigitValue c) 0

/-- The end of a reference. -/
def semicolonReader : Reader Char := .one (· == ';')

/-- A numeral up to the end of the reference, as a character number. -/
def numeralReader (base : Nat) (isDigit : Char → Bool) : Reader Reference := do
  let digits ← .word isDigit isDigit
  let _ ← semicolonReader
  return .character (numeralValue base digits)

/-- A reference behind its ampersand. -/
def referenceReader : Reader Reference :=
  .behind ['#', 'x'] (numeralReader 16 isHexDigit) <|
    .behind ['#'] (numeralReader 10 Char.isDigit) do
      let name ← nameReader
      let _ ← semicolonReader
      return .entity name

/-- A parameter entity reference behind its percent sign. -/
def parameterReferenceReader : Reader Text := do
  let name ← nameReader
  let _ ← semicolonReader
  return name

/-- The character of a number, if a document may hold it. -/
def character? (number : Nat) : Option Char :=
  if number.isValidChar ∧ isLegal (Char.ofNat number) then some (Char.ofNat number) else none

/-- The entities that need no declaration. -/
def predefined? (name : Text) : Option Char :=
  if name = ['l', 't'] then some '<'
  else if name = ['g', 't'] then some '>'
  else if name = ['a', 'm', 'p'] then some '&'
  else if name = ['q', 'u', 'o', 't'] then some '"'
  else if name = ['a', 'p', 'o', 's'] then some '\''
  else none

/-! ## Tags -/

/-- An attribute as it is written. `start` is the document from the name on, and `valueStart` the
document from the value on. -/
structure Attribute where
  name : QualifiedName
  value : Text
  start : Text
  valueStart : Text

/-- A tag that opens an element or is an empty one. -/
structure OpenTag where
  name : QualifiedName
  attributes : List Attribute
  isEmpty : Bool

/-- An attribute value up to the closing quote. -/
def readValue (quote : Char) : Text → Except Stop (Text × Text)
  | [] => .error .unfinished
  | c :: s =>
    if c = quote then .ok ([], s)
    else if c = '<' ∨ isLegal c = false then .error (.invalid (c :: s))
    else
      match (if c = '&' then (referenceReader.run s).map (fun _ => ()) else .ok ()) with
      | .error e => .error e
      | .ok _ => (readValue quote s).map fun (value, rest) => (c :: value, rest)

theorem readValue_eq_ok {quote : Char} {s value rest : Text}
    (h : readValue quote s = .ok (value, rest)) : s = value ++ quote :: rest := by
  fun_induction readValue quote s generalizing value rest with
  | case1 => cases h
  | case2 s => cases h; rfl
  | case3 => cases h
  | case4 => cases h
  | case5 c s _ _ _ _ ih =>
    cases hr : readValue quote s with
    | error e => rw [hr] at h; cases h
    | ok p =>
      rw [hr] at h
      cases h
      rw [ih hr]
      rfl

/-- A value between quotes of either kind, with the document from the value on. -/
def valueReader : Reader (Text × Text) where
  run
    | [] => .error .unfinished
    | c :: s =>
      if c = '"' ∨ c = '\'' then (readValue c s).map fun (value, rest) => ((value, s), rest)
      else .error (.invalid (c :: s))
  length_le {s a rest} h := by
    cases s with
    | nil => cases h
    | cons c s =>
      simp only at h
      split at h
      · cases hr : readValue c s with
        | error e => rw [hr] at h; cases h
        | ok p =>
          rw [hr] at h
          cases h
          rw [readValue_eq_ok hr]
          simp
          omega
      · cases h

/-- The rest of a text, without reading it. -/
def Reader.rest : Reader Text where
  run s := .ok (s, s)
  length_le h := by cases h; exact Nat.le_refl _

/-- An attribute. -/
def attributeReader : Reader Attribute := do
  let start ← Reader.rest
  let name ← qualifiedNameReader
  let _ ← .many isSpace
  let _ ← .one (· == '=')
  let _ ← .many isSpace
  let (value, valueStart) ← valueReader
  return ⟨name, value, start, valueStart⟩

/-- The end of a tag; the result says whether the element is empty. -/
def tagEndReader : Reader Bool :=
  .behind ['/'] (do let _ ← .one (· == '>'); return true) do
    let _ ← .one (· == '>')
    return false

/-- Attributes, each behind white space, and the end of the tag. -/
def readAttributes (s : Text) : Except Stop ((List Attribute × Bool) × Text) :=
  match _h : Text.run isSpace s with
  | ([], s) => (tagEndReader.run s).map fun (isEmpty, rest) => (([], isEmpty), rest)
  | (_ :: _, []) => .error .unfinished
  | (_ :: _, c :: s) =>
    if c = '/' ∨ c = '>' then
      (tagEndReader.run (c :: s)).map fun (isEmpty, rest) => (([], isEmpty), rest)
    else
      match _hr : attributeReader.run (c :: s) with
      | .error e => .error e
      | .ok (a, rest) =>
        (readAttributes rest).map fun ((others, isEmpty), rest) => ((a :: others, isEmpty), rest)
termination_by s.length
decreasing_by
  have h₁ := congrArg List.length (eq_append_of_run _h)
  have h₂ := attributeReader.length_le _hr
  simp at h₁ h₂
  omega

theorem length_le_of_readAttributes {s rest : Text} {a : List Attribute × Bool}
    (h : readAttributes s = .ok (a, rest)) : rest.length ≤ s.length := by
  fun_induction readAttributes s generalizing a rest with
  | case1 s t hs =>
    cases hr : tagEndReader.run t with
    | error e => rw [hr] at h; cases h
    | ok p =>
      rw [hr] at h
      cases h
      have h₁ := congrArg List.length (eq_append_of_run hs)
      have h₂ := tagEndReader.length_le hr
      simp at h₁
      omega
  | case2 => cases h
  | case3 s b bs c t hs _ =>
    cases hr : tagEndReader.run (c :: t) with
    | error e => rw [hr] at h; cases h
    | ok p =>
      rw [hr] at h
      cases h
      have h₁ := congrArg List.length (eq_append_of_run hs)
      have h₂ := tagEndReader.length_le hr
      simp at h₁ h₂
      omega
  | case4 => cases h
  | case5 s b bs c t hs _ a' r' hr ih =>
    cases hr' : readAttributes r' with
    | error e => rw [hr'] at h; cases h
    | ok p =>
      rw [hr'] at h
      cases h
      have h₁ := congrArg List.length (eq_append_of_run hs)
      have h₂ := attributeReader.length_le hr
      have h₃ := ih hr'
      simp at h₁ h₂
      omega

/-- Attributes and the end of the tag. -/
def attributesReader : Reader (List Attribute × Bool) where
  run := readAttributes
  length_le := length_le_of_readAttributes

/-- A tag behind its opening bracket, up to the end of the tag. -/
def openTagReader : Reader OpenTag := do
  let name ← qualifiedNameReader
  let (attributes, isEmpty) ← attributesReader
  return ⟨name, attributes, isEmpty⟩

/-- A closing tag behind its slash. Its name is only compared, so colons may stand anywhere but in
front. -/
def closeTagReader : Reader Text := do
  let name ← .word isNameStart fun c => isNameChar c || c == ':'
  let _ ← .many isSpace
  let _ ← .one (· == '>')
  return name

/-! ## Comments, instructions and sections of plain text -/

/-- A comment behind its two hyphens: no two hyphens stand together before its end. -/
def readComment : Text → Except Stop (Unit × Text)
  | [] => .error .unfinished
  | '-' :: '-' :: '>' :: s => .ok ((), s)
  | '-' :: '-' :: [] => .error .unfinished
  | '-' :: '-' :: c :: s => .error (.invalid (c :: s))
  | c :: s => if isLegal c then readComment s else .error (.invalid (c :: s))

theorem length_le_of_readComment {s rest : Text} {u : Unit}
    (h : readComment s = .ok (u, rest)) : rest.length ≤ s.length := by
  fun_induction readComment s with
  | case1 => cases h
  | case2 s => cases h; simp; omega
  | case3 => cases h
  | case4 => cases h
  | case5 c s _ _ _ _ ih =>
    have := ih h
    simp
    omega
  | case6 => cases h

/-- A comment behind its first hyphen. -/
def commentReader : Reader Unit := do
  let _ ← .one (· == '-')
  ⟨readComment, length_le_of_readComment⟩

/-- The text of an instruction up to its end. -/
def readInstruction : Text → Except Stop (Text × Text)
  | [] => .error .unfinished
  | '?' :: '>' :: s => .ok ([], s)
  | c :: s =>
    if isLegal c then (readInstruction s).map fun (body, rest) => (c :: body, rest)
    else .error (.invalid (c :: s))

theorem readInstruction_eq_ok {s body rest : Text}
    (h : readInstruction s = .ok (body, rest)) : s = body ++ '?' :: '>' :: rest := by
  fun_induction readInstruction s generalizing body rest with
  | case1 => cases h
  | case2 s => cases h; rfl
  | case3 c s _ _ ih =>
    cases hr : readInstruction s with
    | error e => rw [hr] at h; cases h
    | ok p =>
      rw [hr] at h
      cases h
      rw [ih hr]
      rfl
  | case4 => cases h

/-- An instruction to a program, or the declaration of the document with its text. -/
inductive Instruction where
  | toProgram
  | declaration (body : Text)

/-- The target that announces the declaration of the document. -/
def declarationTarget : Text := ['x', 'm', 'l']

/-- An instruction behind its question mark. The target `xml` makes it a declaration; the target
must not be `XML` in any other case. -/
def instructionReader : Reader Instruction := do
  let target ← nameReader
  if target ≠ declarationTarget ∧ target.map Char.toLower = declarationTarget then
    let _ ← .one fun _ => false
  let next ← Reader.rest
  let body ←
    match next with
    | '?' :: _ => do
      let _ ← .one (· == '?')
      let _ ← .one (· == '>')
      pure []
    | _ => do
      let c ← .one isSpace
      let body ← ⟨readInstruction, fun h => by
        rw [readInstruction_eq_ok h]; simp; omega⟩
      pure (c :: body)
  return if target = declarationTarget then .declaration body else .toProgram

/-- The characters of `lead`, one by one. -/
def readExactly : Text → Text → Except Stop (Unit × Text)
  | [], s => .ok ((), s)
  | _ :: _, [] => .error .unfinished
  | a :: lead, c :: s => if a = c then readExactly lead s else .error (.invalid (c :: s))

theorem readExactly_eq_ok {lead s rest : Text} {u : Unit}
    (h : readExactly lead s = .ok (u, rest)) : s = lead ++ rest := by
  fun_induction readExactly lead s with
  | case1 => cases h; rfl
  | case2 => cases h
  | case3 a lead s ih => rw [ih h]; rfl
  | case4 => cases h

/-- The number of octets of a text in UTF-8. -/
def octets (s : Text) : Nat := s.foldl (fun n c => n + c.utf8Size) 0

/-- The keyword and the bracket of a section of plain text. They are looked at only if there are
octets enough for them. -/
def sectionReader : Reader Unit where
  run s :=
    if octets s < 6 then .error .unfinished else readExactly ['C', 'D', 'A', 'T', 'A', '['] s
  length_le {s u rest} h := by
    split at h
    · cases h
    · rw [readExactly_eq_ok h]; simp; omega

/-- What follows a section of plain text. A section without an end is a fault at the last
character that may belong to its end. -/
def readSection : Text → Except Fault Text
  | [] => .error (.ofRest .unclosedCdata [])
  | ']' :: ']' :: '>' :: s => .ok s
  | [']', ']'] => .error (.ofRest .unclosedCdata [']', ']'])
  | [']'] => .error (.ofRest .unclosedCdata [']'])
  | ['\r'] => .error (.ofRest .unclosedCdata ['\r'])
  | c :: s => if isLegal c then readSection s else .error (.ofRest .invalidToken (c :: s))

theorem length_lt_of_readSection {s rest : Text} (h : readSection s = .ok rest) :
    rest.length < s.length := by
  fun_induction readSection s with
  | case1 => cases h
  | case2 s => cases h; simp; omega
  | case3 => cases h
  | case4 => cases h
  | case5 => cases h
  | case6 c s _ _ _ _ _ ih =>
    have := ih h
    simp
    omega
  | case7 => cases h

end SvgAssets.Xml
