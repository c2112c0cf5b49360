/-
# SvgAssets.Xml.Prolog -- the tokens outside of the root element

In front of the root element and behind it a document consists of tokens: comments, instructions
and the parts of the document type declaration. White space only separates them. A name or a
literal has to be followed by something that can end it. The tokens come as a stream that ends
where an element begins, where nothing is left, or at a fault.
-/
import SvgAssets.Xml.Token

namespace SvgAssets.Xml

open Text

/-- A token outside of the root element. -/
inductive PrologToken where
  | comment
  | instruction
  /-- The declaration of the document, with its text. -/
  | declaration (body : Text)
  /-- A name without a colon. -/
  | name (t : Text)
  | prefixedName (t : Text)
  /-- Any other run of name characters and colons. -/
  | nameToken (t : Text)
  /-- A name with a question mark, an asterisk or a plus sign behind it. -/
  | repeatedName
  | keyword (t : Text)
  | literal (body : Text)
  /-- The start of a markup declaration, with its keyword. -/
  | opening (keyword : Text)
  | closing
  | sectionOpening
  | sectionClosing
  | openBracket
  | closeBracket
  | openGroup
  | closeGroup
  /-- The end of a group with a question mark, an asterisk or a plus sign behind it. -/
  | closeRepeated (sign : Char)
  | comma
  | bar
  | percent
  | parameterReference
  deriving DecidableEq

/-- The tokens of a text, each with the document from its start on. -/
inductive PrologStream where
  | token (t : PrologToken) (start : Text) (next : PrologStream)
  /-- An element begins. -/
  | element (start : Text)
  /-- Nothing is left. -/
  | finish
  | fault (f : Fault)

/-- The kind of a run of name characters and colons. -/
def nameKind (t : Text) : PrologToken :=
  if (t.headD ' ') == ':' || !isNameStart (t.headD ' ') then .nameToken t
  else if t.count ':' = 0 then .name t
  else if t.count ':' = 1 ∧ t.getLast? ≠ some ':' then .prefixedName t
  else .nameToken t

/-- A sign that says how often something occurs. -/
def isRepeatSign (c : Char) : Bool := c == '?' || c == '*' || c == '+'

/-- What may stand behind the name of a keyword. -/
def endsKeyword (c : Char) : Bool :=
  isSpace c || c == ')' || c == '>' || c == '%' || c == '|'

/-- What may stand behind a name. -/
def endsName (c : Char) : Bool := endsKeyword c || c == ',' || c == '['

/-- What may stand behind a literal. -/
def endsLiteral (c : Char) : Bool := isSpace c || c == '>' || c == '%' || c == '['

/-- What may stand behind the end of a group. -/
def endsGroup (c : Char) : Bool :=
  isSpace c || c == '>' || c == ',' || c == '|' || c == ')'

/-- Require that the text is at its end or goes on with a character satisfying `p`. -/
def Reader.followedBy (p : Char → Bool) : Reader Unit where
  run
    | [] => .ok ((), [])
    | c :: s => if p c then .ok ((), c :: s) else .error (.invalid (c :: s))
  length_le {s a rest} h := by
    cases s with
    | nil => cases h; exact Nat.le_refl _
    | cons c s =>
      simp only at h
      split at h
      · cases h; exact Nat.le_refl _
      · cases h

/-- A run of name characters and colons behind its first character. A colon behind a name must not
end the text. -/
def nameTokenReader (first : Char) : Reader PrologToken := do
  let t := first :: (← .many fun c => isNameChar c || c == ':')
  let rest ← Reader.rest
  match rest with
  | [] =>
    if t.getLast? = some ':' ∧ nameKind t.dropLast = .name t.dropLast then
      let _ ← .one fun _ => false
    return nameKind t
  | c :: _ =>
    match nameKind t, isRepeatSign c with
    | .nameToken t, _ => do
      .followedBy endsName
      return .nameToken t
    | _, true => do
      let _ ← .one isRepeatSign
      return .repeatedName
    | kind, false => do
      .followedBy endsName
      return kind

/-- The text of a literal up to its closing quote. -/
def readLiteral (quote : Char) : Text → Except Stop (Text × Text)
  | [] => .error .unfinished
  | c :: s =>
    if c = quote then .ok ([], s)
    else if isLegal c then (readLiteral quote s).map fun (body, rest) => (c :: body, rest)
    else .error (.invalid (c :: s))

theorem length_le_of_readLiteral {quote : Char} {s body rest : Text}
    (h : readLiteral quote s = .ok (body, rest)) : rest.length ≤ s.length := by
  fun_induction readLiteral quote s generalizing body rest with
  | case1 => cases h
  | case2 s => cases h; simp
  | case3 c s _ _ ih =>
    cases hr : readLiteral quote s with
    | error e => rw [hr] at h; cases h
    | ok p =>
      rw [hr] at h
      cases h
      have := ih hr
      simp
      omega
  | case4 => cases h

/-- A literal behind its opening quote. -/
def literalReader (quote : Char) : Reader PrologToken := do
  let body ← ⟨readLiteral quote, length_le_of_readLiteral⟩
  .followedBy endsLiteral
  return .literal body

/-- The letters of the keyword of a markup declaration. -/
def isKeywordLetter (c : Char) : Bool := c.isAlpha || c == '_'

/-- A markup declaration behind its keyword: white space follows, or a percent sign that belongs to
a reference. -/
def openingEndReader : Reader Unit := do
  let rest ← Reader.rest
  match rest with
  | [] | ['%'] =>
    let _ ← Reader.behind ['%'] (.one isSpace) (.one isSpace)
  | '%' :: c :: _ =>
    if isSpace c || c == '%' then
      let _ ← Reader.one isSpace
  | _ => .followedBy isSpace

/-- A comment or the start of a markup declaration, behind the exclamation mark. -/
def markupReader : Reader PrologToken :=
  .behind ['-'] (do commentReader; return .comment) <|
    .behind ['['] (return .sectionOpening) do
      let word ← .word isKeywordLetter isKeywordLetter
      openingEndReader
      return .opening word

/-- The end of a group behind its parenthesis. -/
def closeGroupReader : Reader PrologToken := do
  let rest ← Reader.rest
  match rest with
  | c :: _ =>
    if isRepeatSign c then
      let sign ← .one isRepeatSign
      return .closeRepeated sign
    else
      .followedBy endsGroup
      return .closeGroup
  | [] => return .closeGroup

/-- What begins with a closing bracket, behind that bracket. -/
def closeBracketReader : Reader PrologToken := do
  let rest ← Reader.rest
  match rest with
  | [']'] => do
    let _ ← .one (· == ']')
    let _ ← .one (· == '>')
    return .closeBracket
  | ']' :: '>' :: _ => do
    let _ ← .one (· == ']')
    let _ ← .one (· == '>')
    return .sectionClosing
  | _ => return .closeBracket

/-- What begins with a percent sign, behind that sign. -/
def percentReader : Reader PrologToken := do
  let rest ← Reader.rest
  match rest with
  | c :: _ =>
    if isSpace c || c == '%' then return .percent
    else
      let _ ← parameterReferenceReader
      return .parameterReference
  | [] =>
    let _ ← .one isSpace
    return .percent

/-- A keyword behind its number sign. -/
def keywordReader : Reader PrologToken := do
  let word ← nameReader
  .followedBy endsKeyword
  return .keyword word

/-- An instruction or a declaration of the document, behind the question mark. -/
def prologInstructionReader : Reader PrologToken := do
  match ← instructionReader with
  | .toProgram => return .instruction
  | .declaration body => return .declaration body

/-- What begins with an opening bracket of a tag, behind that bracket. -/
def prologMarkupReader : Reader PrologToken :=
  .behind ['!'] markupReader <|
    .behind ['?'] prologInstructionReader do
      let _ ← .one fun _ => false
      return .closing

/-- The token that begins with the character `c`, behind that character. -/
def prologTokenReader (c : Char) : Reader PrologToken :=
  if c = '<' then prologMarkupReader
  else if c = '"' ∨ c = '\'' then literalReader c
  else if c = '>' then return .closing
  else if c = ',' then return .comma
  else if c = '|' then return .bar
  else if c = '(' then return .openGroup
  else if c = ')' then closeGroupReader
  else if c = '[' then return .openBracket
  else if c = ']' then closeBracketReader
  else if c = '%' then percentReader
  else if c = '#' then keywordReader
  else nameTokenReader c

/-- Whether a bracket in front of `s` opens an element. -/
def beginsElement : Text → Bool
  | [] => false
  | c :: _ => isKeywordLetter c || 0x80 ≤ c.toNat

/-- Characters that a token may begin with. -/
def beginsToken (c : Char) : Bool :=
  isNameChar c || c == ':' || "<\"'>,|()[]%#".toList.contains c

/-- The tokens of a text up to the first element. -/
def prologTokens (s : Text) : PrologStream :=
  match s with
  | [] => .finish
  | c :: s =>
    if isSpace c then prologTokens s
    else if c = '<' ∧ beginsElement s then .element (c :: s)
    else if beginsToken c then
      match _h : (prologTokenReader c).run s with
      | .error e => .fault (e.fault (c :: s))
      | .ok (t, rest) => .token t (c :: s) (prologTokens rest)
    else .fault (.ofRest .invalidToken (c :: s))
termination_by s.length
decreasing_by
  · simp
  · have := (prologTokenReader c).length_le _h
    simp
    omega

end SvgAssets.Xml
