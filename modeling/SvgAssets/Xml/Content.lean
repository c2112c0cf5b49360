/-
# SvgAssets.Xml.Content -- the content of elements

Content is read from left to right with the stack of the elements that are open. Every closing tag
has to close the innermost of them, under the very name that opened it. The text of an entity is
content of its own: it must close the elements that it opens and no others. A fault in it is a
fault of the reference.
-/
import SvgAssets.Xml.Element

namespace SvgAssets.Xml

open Text

/-- An element that is open: its name as written, and the prefixes that are bound inside. -/
structure OpenElement where
  name : Text
  bindings : Bindings

/-- What content belongs to. -/
inductive ContentOwner where
  /-- The root element; content ends with its closing tag. -/
  | document
  /-- An entity; content ends with its text. -/
  | entity
  deriving DecidableEq

/-- The end of the text where content goes on, with the elements that are still open; `rest` is
what is left of the text. -/
def endOfContent (owner : ContentOwner) (stack : List OpenElement) (rest : Text) :
    Except Fault Text :=
  match owner, stack with
  | .document, _ => .error (.ofRest .noElement rest)
  | .entity, [] => .ok []
  | .entity, _ :: _ => .error (.ofRest .unbalancedEntity rest)

/-- What a piece of markup does to the stack of open elements. -/
inductive Markup where
  | opened (tag : OpenTag)
  | closed (name : Text)
  | aside
  | sectionStart
  | declaration

/-- A piece of markup behind its opening bracket. -/
def markupOfContent : Reader Markup :=
  .behind ['/'] (do return .closed (← closeTagReader)) <|
    .behind ['?']
      (do
        match ← instructionReader with
        | .toProgram => return .aside
        | .declaration _ => return .declaration) <|
      .behind ['!']
        (.behind ['-'] (do commentReader; return .aside) <|
          .behind ['['] (do sectionReader; return .sectionStart) (do
            let _ ← .one fun _ => false
            return .aside))
        (do return .opened (← openTagReader))

/-- Read content inside the bindings `outer` with the elements in `stack` open. The entities in
`opened` are being resolved, and at most `depth` more may be. The result is the text behind the
content. -/
def readContent (d : Doctype) (depth : Nat) (opened : List Text) (owner : ContentOwner)
    (outer : Bindings) (stack : List OpenElement) (s : Text) : Except Fault Text :=
  match s with
  | [] => endOfContent owner stack []
  | ['\r'] => endOfContent owner stack ['\r']
  | ']' :: ']' :: '>' :: rest => .error (.ofRest .invalidToken ('>' :: rest))
  | '&' :: rest =>
    match _h : referenceReader.run rest with
    | .error e => .error (e.fault s)
    | .ok (.character n, behind) =>
      if (character? n).isSome then readContent d depth opened owner outer stack behind
      else .error (.ofRest .badCharacterNumber s)
    | .ok (.entity name, behind) =>
      let checked : Except Fault Unit :=
        if (predefined? name).isSome then .ok ()
        else
          match d.entities.get? name with
          | none =>
            .error (.ofRest (if d.isOpen then .unresolvedEntity name else .undefinedEntity) s)
          | some e =>
            if name ∈ opened ∨ depth = 0 then .error (.ofRest .recursiveEntity s)
            else
              match e with
              | .unparsed => .error (.ofRest .binaryEntity s)
              | .external => .error (.ofRest (.unresolvedEntity name) s)
              | .internal text =>
                let inner := (stack.head?.map (·.bindings)).getD outer
                match readContent d (depth - 1) (name :: opened) .entity inner [] text with
                | .error e => .error (.ofRest e.cause s)
                | .ok _ => .ok ()
      match checked with
      | .error f => .error f
      | .ok () => readContent d depth opened owner outer stack behind
  | '<' :: rest =>
    match _h : markupOfContent.run rest with
    | .error e => .error (e.fault s)
    | .ok (.aside, behind) => readContent d depth opened owner outer stack behind
    | .ok (.declaration, _) => .error (.ofRest .misplacedDeclaration s)
    | .ok (.sectionStart, behind) =>
      match _hs : readSection behind with
      | .error f => .error f
      | .ok behind => readContent d depth opened owner outer stack behind
    | .ok (.opened tag, behind) =>
      match tag.check d opened ((stack.head?.map (·.bindings)).getD outer) s with
      | .error f => .error f
      | .ok bindings =>
        if tag.isEmpty then readContent d depth opened owner outer stack behind
        else readContent d depth opened owner outer (⟨tag.name.text, bindings⟩ :: stack) behind
    | .ok (.closed name, behind) =>
      match stack with
      | [] => .error (.ofRest .unbalancedEntity s)
      | e :: below =>
        if e.name ≠ name then .error (.ofRest .mismatchedTag (rest.drop 1))
        else if owner = .document ∧ below.isEmpty then .ok behind
        else readContent d depth opened owner outer below behind
  | c :: rest =>
    if isLegal c then readContent d depth opened owner outer stack rest
    else .error (.ofRest .invalidToken s)
termination_by (depth, s.length)
decreasing_by
  all_goals try have := referenceReader.length_le _h
  all_goals try have := markupOfContent.length_le _h
  all_goals try have := length_lt_of_readSection _hs
  all_goals simp_wf
  all_goals first
    | exact Prod.Lex.left _ _ (by omega)
    | exact Prod.Lex.right _ (by simp; omega)
    | omega

end SvgAssets.Xml
