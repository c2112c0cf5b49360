/-
# SvgAssets.Xml.Declaration -- what stands in front of the root element

The prolog is an optional declaration of the document, then at most one document type declaration
among comments and instructions. It is read with a state: what may come next. Every token either
leads to a further state or is a fault at its start. Declarations of entities and attributes are
recorded as they are completed; declarations of elements and notations are checked for their form
only.
-/
import SvgAssets.Xml.Doctype
import SvgAssets.Xml.Prolog

namespace SvgAssets.Xml

open Text

/-! ## The declaration of the document -/

/-- What a value in the declaration of the document may hold. -/
def isDeclarationChar (c : Char) : Bool :=
  c.isAlphanum || c == '.' || c == '-' || c == '_'

/-- A name and a value in the declaration of the document, each with the text from there on, and
the text behind them. -/
structure DeclarationPart where
  name : Text
  nameStart : Text
  value : Text
  valueStart : Text
  rest : Text

/-- The next part of the declaration of the document, if there is one, or the text where it goes
wrong. -/
def declarationPart (s : Text) : Except Text (Option DeclarationPart) :=
  match Text.run isSpace s with
  | (_, []) => .ok none
  | ([], s) => .error s
  | (_, s) =>
    let (name, rest) := Text.run (fun c => !isSpace c && c != '=' && c.toNat < 0x80) s
    match rest.dropWhile isSpace with
    | '=' :: behind =>
      if name.isEmpty then .error s
      else
        match behind.dropWhile isSpace with
        | [] => .error []
        | quote :: start =>
          if quote ≠ '"' ∧ quote ≠ '\'' then .error (quote :: start)
          else
            match Text.run isDeclarationChar start with
            | (_, []) => .error []
            | (value, c :: rest) =>
              if c = quote then .ok (some ⟨name, s, value, start, rest⟩) else .error (c :: rest)
    | behind => .error behind

/-- Whether the declaration of the document calls it standalone, or the text where the declaration
goes wrong. A version comes first; an encoding may follow, and then whether the document is
standalone. -/
def declaredStandalone (body : Text) : Except Text Bool := do
  match ← declarationPart body with
  | none => .error body
  | some version =>
    if version.name ≠ "version".toList then .error version.nameStart
    else
      match ← declarationPart version.rest with
      | none => return false
      | some next =>
        let last ←
          if next.name = "encoding".toList then
            if (next.value.headD ' ').isAlpha then declarationPart next.rest
            else .error next.valueStart
          else pure (some next)
        match last with
        | none => return false
        | some last =>
          if last.name ≠ "standalone".toList then .error last.nameStart
          else if last.value ≠ "yes".toList ∧ last.value ≠ "no".toList then
            .error last.valueStart
          else
            let rest := last.rest.dropWhile isSpace
            if rest.isEmpty then return last.value = "yes".toList else .error rest

/-! ## The document type declaration -/

/-- The attribute that is being declared. -/
structure AttributeDraft where
  element : Text
  name : QualifiedName
  isPlain : Bool
  isIdentifier : Bool

/-- What may come next in the prolog. -/
inductive Expect where
  | prolog
  | behindDoctype
  | doctypeName
  | doctypeId
  | doctypePublicId
  | doctypeSystemId
  | doctypeSubset
  | doctypeEnd
  /-- A declaration in the internal subset, or its end. -/
  | subset
  | declarationEnd
  | entityName
  | parameterName
  /-- The value of an entity, recorded under the name `target` if there is one. -/
  | entityValue (target : Option Text) (isParameter : Bool)
  | entityPublicId (target : Option Text) (isParameter : Bool)
  | entitySystemId (target : Option Text) (isParameter : Bool)
  | entityEnd (target : Option Text) (isParameter : Bool)
  | entityNotation (target : Option Text)
  | notationName
  | notationId
  | notationPublicId
  | notationSystemId
  | notationEnd
  | attributesElement
  | attributeName (element : Text)
  | attributeType (draft : AttributeDraft)
  | enumerationItem (draft : AttributeDraft)
  | enumerationNext (draft : AttributeDraft)
  | notationGroup (draft : AttributeDraft)
  | notationItem (draft : AttributeDraft)
  | notationNext (draft : AttributeDraft)
  | attributeDefault (draft : AttributeDraft)
  | fixedDefault (draft : AttributeDraft)
  | elementName
  | elementContent
  /-- The first item of the outermost group. -/
  | firstItem
  | characterDataNext
  | mixedItem
  | mixedNext
  /-- An item of a group; the signs between the items of the open groups, the innermost first. -/
  | groupItem (signs : List (Option Char))
  | groupNext (signs : List (Option Char))

/-- The fault of a token that may not come next. -/
def PrologToken.unexpected (t : PrologToken) (start : Text) : Fault :=
  match t with
  | .parameterReference => .ofRest .parameterReference start
  | .declaration _ => .ofRest .misplacedDeclaration start
  | _ => .ofRest .badSyntax start

/-- A fault in a literal, where `start` is the document from its opening quote on. -/
def ValueFault.inLiteral (e : ValueFault) (body start : Text) : Fault :=
  match e.place with
  | none => .ofRest e.cause start
  | some rest => ⟨e.cause, rest.length + (start.length - 1 - body.length)⟩

/-- Characters of a public identifier. -/
def isPublicIdChar (c : Char) : Bool :=
  c.isAlphanum || " \n\r-'()+,./:=?;!*#@$_%".toList.contains c

/-- Check a public identifier. -/
def checkPublicId (body start : Text) : Except Fault Unit :=
  match body.dropWhile isPublicIdChar with
  | [] => .ok ()
  | rest => .error (ValueFault.inLiteral ⟨.illegalPublicId, some rest⟩ body start)

/-- The keywords of declarations in the internal subset, and what follows each of them. -/
def declarationKeywords : List (Text × Expect) :=
  [("ENTITY".toList, .entityName), ("ATTLIST".toList, .attributesElement),
    ("ELEMENT".toList, .elementName), ("NOTATION".toList, .notationName)]

/-- The attribute types that are lists of tokens. -/
def tokenTypes : List Text :=
  ["ID".toList, "IDREF".toList, "IDREFS".toList, "ENTITY".toList, "ENTITIES".toList,
    "NMTOKEN".toList, "NMTOKENS".toList]

/-- What follows an item of a group: the sign must be the same between all items of the group. -/
def separateItems (signs : List (Option Char)) (sign : Char) : Option Expect :=
  match signs with
  | [] => none
  | some other :: rest => if other = sign then some (.groupItem (some sign :: rest)) else none
  | none :: rest => some (.groupItem (some sign :: rest))

/-- What follows the end of a group. -/
def closeGroup (signs : List (Option Char)) : Expect :=
  match signs.drop 1 with
  | [] => .declarationEnd
  | outer => .groupNext outer

namespace Doctype

/-- Record a rule for the drafted attribute. -/
def recordAttribute (d : Doctype) (draft : AttributeDraft) (default : Option Text) : Doctype :=
  if d.isRecording then
    d.declareAttribute draft.element ⟨draft.name, draft.isPlain, default⟩
      (draft.isIdentifier && default.isNone)
  else d

/-- Record an entity if it has a name to be recorded under. -/
def recordEntity (d : Doctype) (target : Option Text) (e : Entity) : Doctype :=
  match target with
  | none => d
  | some name => d.declareEntity name e

/-- Record a drafted attribute whose default is written `body`. -/
def recordDefault (d : Doctype) (draft : AttributeDraft) (body start : Text) :
    Except Fault Doctype :=
  if d.isRecording then
    match d.value [] draft.isPlain body with
    | .error e => .error (e.inLiteral body start)
    | .ok value => .ok (d.recordAttribute draft (some value))
  else .ok d

/-- Take the literal `body` where a literal may come next. -/
def takeLiteral (d : Doctype) (body start : Text) :
    Expect → Except Fault (Option (Doctype × Expect))
  | .doctypePublicId => do
    checkPublicId body start
    return some (d, .doctypeSystemId)
  | .doctypeSystemId => return some ({ d with hasOutsideParts := true }, .doctypeSubset)
  | .entityValue target _ =>
    if d.isRecording then
      match entityText body with
      | .error e => .error (e.inLiteral body start)
      | .ok text => .ok (some (d.recordEntity target (.internal text), .declarationEnd))
    else .ok (some (d, .declarationEnd))
  | .entityPublicId target isParameter => do
    checkPublicId body start
    return some (d, .entitySystemId target isParameter)
  | .entitySystemId target isParameter => return some (d, .entityEnd target isParameter)
  | .notationPublicId => do
    checkPublicId body start
    return some (d, .notationEnd)
  | .notationSystemId => return some (d, .declarationEnd)
  | .notationEnd => return some (d, .declarationEnd)
  | .attributeDefault draft => do
    return some (← d.recordDefault draft body start, .attributeName draft.element)
  | .fixedDefault draft => do
    return some (← d.recordDefault draft body start, .attributeName draft.element)
  | _ => return none

/-- Take a name without a colon where one may come next. -/
def takeName (d : Doctype) (name : Text) : Expect → Option (Doctype × Expect)
  | .doctypeName => some (d, .doctypeId)
  | .doctypeId =>
    if name = "SYSTEM".toList then some (d, .doctypeSystemId)
    else if name = "PUBLIC".toList then some (d, .doctypePublicId)
    else none
  | .entityName =>
    let target := if d.isRecording ∧ (predefined? name).isNone then some name else none
    some (d, .entityValue target false)
  | .parameterName => some (d, .entityValue none true)
  | .entityValue target isParameter =>
    if name = "SYSTEM".toList then some (d, .entitySystemId target isParameter)
    else if name = "PUBLIC".toList then some (d, .entityPublicId target isParameter)
    else none
  | .entityEnd target false =>
    if name = "NDATA".toList then some (d, .entityNotation target) else none
  | .entityNotation target => some (d.recordEntity target .unparsed, .declarationEnd)
  | .notationName => some (d, .notationId)
  | .notationId =>
    if name = "SYSTEM".toList then some (d, .notationSystemId)
    else if name = "PUBLIC".toList then some (d, .notationPublicId)
    else none
  | .attributesElement => some (d, .attributeName name)
  | .attributeName element =>
    some (d, .attributeType ⟨element, ⟨none, name⟩, false, false⟩)
  | .attributeType draft =>
    if name = "CDATA".toList then some (d, .attributeDefault { draft with isPlain := true })
    else if name ∈ tokenTypes then
      some (d, .attributeDefault { draft with isIdentifier := name == "ID".toList })
    else if name = "NOTATION".toList then some (d, .notationGroup draft)
    else none
  | .enumerationItem draft => some (d, .enumerationNext draft)
  | .notationItem draft => some (d, .notationNext draft)
  | .elementName => some (d, .elementContent)
  | .elementContent =>
    if name = "EMPTY".toList ∨ name = "ANY".toList then some (d, .declarationEnd) else none
  | .firstItem => some (d, .groupNext [none])
  | .groupItem signs => some (d, .groupNext signs)
  | .mixedItem => some (d, .mixedNext)
  | _ => none

/-- Take a name with a colon where one may come next. -/
def takePrefixedName (d : Doctype) (name : Text) : Expect → Option (Doctype × Expect)
  | .doctypeName => some (d, .doctypeId)
  | .attributesElement => some (d, .attributeName name)
  | .attributeName element =>
    some (d, .attributeType ⟨element, .ofText name, false, false⟩)
  | .enumerationItem draft => some (d, .enumerationNext draft)
  | .elementName => some (d, .elementContent)
  | .firstItem => some (d, .groupNext [none])
  | .groupItem signs => some (d, .groupNext signs)
  | .mixedItem => some (d, .mixedNext)
  | _ => none

/-- Take the end of a declaration where it may come next. -/
def takeEnd (d : Doctype) : Expect → Option (Doctype × Expect)
  | .doctypeId | .doctypeSubset | .doctypeEnd => some (d, .behindDoctype)
  | .declarationEnd | .notationEnd | .attributeName _ => some (d, .subset)
  | .entityEnd target _ => some (d.recordEntity target .external, .subset)
  | _ => none

/-- Take a keyword behind a number sign where one may come next. -/
def takeKeyword (d : Doctype) (word : Text) : Expect → Option (Doctype × Expect)
  | .attributeDefault draft =>
    if word = "IMPLIED".toList ∨ word = "REQUIRED".toList then
      some (d.recordAttribute draft none, .attributeName draft.element)
    else if word = "FIXED".toList then some (d, .fixedDefault draft)
    else none
  | .firstItem => if word = "PCDATA".toList then some (d, .characterDataNext) else none
  | _ => none

/-- Take a token other than a literal or a name where it may come next. -/
def takeSign (d : Doctype) : PrologToken → Expect → Option (Doctype × Expect)
  | .comment, .prolog | .instruction, .prolog => some (d, .prolog)
  | .comment, .behindDoctype | .instruction, .behindDoctype => some (d, .behindDoctype)
  | .comment, .subset | .instruction, .subset => some (d, .subset)
  | .opening word, .prolog => if word = "DOCTYPE".toList then some (d, .doctypeName) else none
  | .opening word, .subset =>
    ((declarationKeywords.find? fun (w, _) => w == word).map fun (_, e) => (d, e))
  | .parameterReference, .subset => some (d.skipParameterEntity, .subset)
  | .openBracket, .doctypeId | .openBracket, .doctypeSubset => some (d, .subset)
  | .closeBracket, .subset => some (d, .doctypeEnd)
  | .percent, .entityName => some (d, .parameterName)
  | .nameToken _, .enumerationItem draft => some (d, .enumerationNext draft)
  | .openGroup, .attributeType draft => some (d, .enumerationItem draft)
  | .openGroup, .notationGroup draft => some (d, .notationItem draft)
  | .bar, .enumerationNext draft => some (d, .enumerationItem draft)
  | .bar, .notationNext draft => some (d, .notationItem draft)
  | .closeGroup, .enumerationNext draft | .closeGroup, .notationNext draft =>
    some (d, .attributeDefault draft)
  | .openGroup, .elementContent => some (d, .firstItem)
  | .openGroup, .firstItem => some (d, .groupItem [none, none])
  | .openGroup, .groupItem signs => some (d, .groupItem (none :: signs))
  | .repeatedName, .firstItem => some (d, .groupNext [none])
  | .repeatedName, .groupItem signs => some (d, .groupNext signs)
  | .comma, .groupNext signs => (separateItems signs ',').map (d, ·)
  | .bar, .groupNext signs => (separateItems signs '|').map (d, ·)
  | .closeGroup, .groupNext signs | .closeRepeated _, .groupNext signs =>
    some (d, closeGroup signs)
  | .closeGroup, .characterDataNext | .closeRepeated '*', .characterDataNext |
      .closeRepeated '*', .mixedNext => some (d, .declarationEnd)
  | .bar, .characterDataNext | .bar, .mixedNext => some (d, .mixedItem)
  | _, _ => none

/-- Take a token where it may come next. -/
def take (d : Doctype) (e : Expect) (t : PrologToken) (start : Text) :
    Except Fault (Doctype × Expect) := do
  let next ←
    match t with
    | .literal body => d.takeLiteral body start e
    | .name name => pure (d.takeName name e)
    | .prefixedName name => pure (d.takePrefixedName name e)
    | .keyword word => pure (d.takeKeyword word e)
    | .closing => pure (d.takeEnd e)
    | t => pure (d.takeSign t e)
  match next with
  | some next => return next
  | none => throw (t.unexpected start)

/-- Read the prolog up to the root element; the result is what is declared and the document from
the root element on. -/
def readStream (d : Doctype) (e : Expect) : PrologStream → Except Fault (Doctype × Text)
  | .token t start next => do
    let (d, e) ← d.take e t start
    d.readStream e next
  | .element start =>
    match e with
    | .prolog | .behindDoctype => .ok (d, start)
    | _ => .error (.ofRest .badSyntax start)
  | .finish => .error (.ofRest .noElement [])
  | .fault f => .error f

end Doctype

/-- Read the prolog of a document. The declaration of the document must be the very first token. -/
def readProlog (s : Text) : Except Fault (Doctype × Text) :=
  match prologTokens s with
  | .token (.declaration body) start next =>
    if start.length = s.length then
      match declaredStandalone body with
      | .error rest =>
        .error ⟨.malformedDeclaration,
          rest.length + (start.length - 2 - declarationTarget.length - body.length)⟩
      | .ok isStandalone =>
        Doctype.readStream { Doctype.empty with isStandalone } .prolog next
    else .error (.ofRest .misplacedDeclaration start)
  | stream => Doctype.empty.readStream .prolog stream

end SvgAssets.Xml
