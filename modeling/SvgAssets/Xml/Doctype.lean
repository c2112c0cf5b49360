/-
# SvgAssets.Xml.Doctype -- declared entities and attributes

What a document type declaration contributes to the reading of the document: the texts of general
entities and the attributes that elements have by default. The first declaration of an entity or
a default counts. Declarations may also stand where they are not read, in an external subset or
in a parameter entity; a document that refers to such a place and does not call itself standalone
may use entities whose text is not at hand (`Doctype.isOpen`).

Replacement texts may refer to further entities. An entity must not be referred to from inside
itself, so the number of declared entities bounds the depth of nesting.
-/
import SvgAssets.Xml.Token
import SvgAssets.Entries

namespace SvgAssets.Xml

open Text

/-- A general entity. -/
inductive Entity where
  | internal (text : Text)
  | external
  /-- An entity in a notation of its own, which is not text. -/
  | unparsed
  deriving DecidableEq

/-- A declared attribute of an element. -/
structure AttributeRule where
  name : QualifiedName
  /-- The value is taken as it is; otherwise it is a list of tokens, separated by single spaces. -/
  isPlain : Bool
  default : Option Text
  deriving DecidableEq

/-- What is declared about a document. -/
structure Doctype where
  entities : Entries Entity
  attributes : Entries (List AttributeRule)
  isStandalone : Bool
  /-- Some declarations stand where they are not read. -/
  hasOutsideParts : Bool
  /-- The declarations are still taken into account. -/
  isRecording : Bool

namespace Doctype

/-- Nothing is declared. -/
def empty : Doctype := ⟨[], [], false, false, true⟩

/-- A reference to an entity that is not declared may be meant for a declaration elsewhere. -/
def isOpen (d : Doctype) : Bool := d.hasOutsideParts && !d.isStandalone

/-- The declared attributes of an element, in order. -/
def rulesOf (d : Doctype) (element : Text) : List AttributeRule :=
  (d.attributes.get? element).getD []

/-- Behind a reference to a parameter entity, declarations count in a standalone document only. -/
def skipParameterEntity (d : Doctype) : Doctype :=
  { d with hasOutsideParts := true, isRecording := d.isStandalone }

/-- Declare an entity, unless its name is taken. -/
def declareEntity (d : Doctype) (name : Text) (e : Entity) : Doctype :=
  { d with entities := d.entities.set name ((d.entities.get? name).getD e) }

/-- Declare an attribute of an element. A rule that gives a default, or whose attribute is an
identifier, gives way to an earlier rule for the same attribute. -/
def declareAttribute (d : Doctype) (element : Text) (rule : AttributeRule)
    (isIdentifier : Bool) : Doctype :=
  let rules := d.rulesOf element
  if (rule.default.isSome || isIdentifier) && rules.any (·.name == rule.name) then d
  else { d with attributes := d.attributes.set element (rules ++ [rule]) }

end Doctype

/-! ## Texts with references -/

/-- A fault in a value. Its place is the rest of the value from there on; without a place it is a
fault of the construct that holds the value. -/
structure ValueFault where
  cause : Cause
  place : Option Text

/-- The fault of a reference that cannot be read, where `start` begins with its ampersand. -/
def ValueFault.ofStop (start : Text) : Stop → ValueFault
  | .invalid rest => ⟨.invalidToken, some rest⟩
  | .unfinished => ⟨.invalidToken, some start⟩

/-- The replacement text that a literal in an entity declaration stands for: references to
characters are resolved, and those to entities are kept. -/
def entityText (s : Text) : Except ValueFault Text :=
  match s with
  | [] => .ok []
  | '%' :: rest =>
    match parameterReferenceReader.run rest with
    | .error e => .error (.ofStop s e)
    | .ok _ => .error ⟨.parameterReference, some s⟩
  | '&' :: rest =>
    match _h : referenceReader.run rest with
    | .error e => .error (.ofStop s e)
    | .ok (.entity name, behind) =>
      (entityText behind).map fun t => '&' :: name ++ ';' :: t
    | .ok (.character n, behind) =>
      match character? n with
      | none => .error ⟨.badCharacterNumber, some s⟩
      | some c => (entityText behind).map (c :: ·)
  | '\r' :: '\n' :: rest => (entityText rest).map ('\n' :: ·)
  | '\r' :: rest => (entityText rest).map ('\n' :: ·)
  | c :: rest => (entityText rest).map (c :: ·)
termination_by s.length
decreasing_by
  all_goals try have := referenceReader.length_le _h
  all_goals first
    | (simp; done)
    | (simp; omega)

/-- An attribute value with its references resolved and its white space turned into spaces. The
entities in `opened` are being resolved already, and at most `depth` more may be. -/
def resolveValue (d : Doctype) (depth : Nat) (opened : List Text) (s : Text) :
    Except ValueFault Text :=
  match s with
  | [] => .ok []
  | '<' :: _ => .error ⟨.invalidToken, some s⟩
  | '&' :: rest =>
    match _h : referenceReader.run rest with
    | .error e => .error (.ofStop s e)
    | .ok (reference, behind) =>
      let resolved : Except ValueFault Text :=
        match reference with
        | .character n =>
          match character? n with
          | none => .error ⟨.badCharacterNumber, some s⟩
          | some c => .ok [c]
        | .entity name =>
          match predefined? name with
          | some c => .ok [c]
          | none =>
            match d.entities.get? name with
            | none => if d.isOpen then .ok [] else .error ⟨.undefinedEntity, none⟩
            | some .unparsed => .error ⟨.binaryEntity, some s⟩
            | some .external => .error ⟨.externalEntityInAttribute, some s⟩
            | some (.internal text) =>
              if depth = 0 ∨ name ∈ opened then .error ⟨.recursiveEntity, some s⟩
              else
                match resolveValue d (depth - 1) (name :: opened) text with
                | .error e => .error ⟨e.cause, none⟩
                | .ok inner => .ok inner
      match resolved with
      | .error e => .error e
      | .ok text => (resolveValue d depth opened behind).map (text ++ ·)
  | '\r' :: '\n' :: rest => (resolveValue d depth opened rest).map (' ' :: ·)
  | c :: rest =>
    (resolveValue d depth opened rest).map ((if isSpace c then ' ' else c) :: ·)
termination_by (depth, s.length)
decreasing_by
  all_goals try have := referenceReader.length_le _h
  all_goals simp_wf
  all_goals first
    | exact Prod.Lex.left _ _ (by omega)
    | exact Prod.Lex.right _ (by simp; omega)
    | omega

/-- A resolved value as a list of tokens: single spaces between them and none around them. -/
def tokenList (s : Text) : Text :=
  [' '].intercalate ((splitOn ' ' s).filter fun t => !t.isEmpty)

namespace Doctype

/-- The value of an attribute that is written `s`. -/
def value (d : Doctype) (opened : List Text) (isPlain : Bool) (s : Text) :
    Except ValueFault Text :=
  (resolveValue d d.entities.length opened s).map fun t => if isPlain then t else tokenList t

end Doctype

end SvgAssets.Xml
