/-
# SvgAssets.Xml.Element -- what the start of an element requires

An element must not bear two attributes of one name, nor two whose names mean the same in their
namespaces. Its prefixes have to be bound, by itself or around it. Defaults from the document type
declaration count like attributes that are written, wherever none of that name is written.
-/
import SvgAssets.Xml.Doctype
import SvgAssets.Xml.Namespace

namespace SvgAssets.Xml

/-- What is known of an element while its attributes are read. -/
structure AttributeState where
  names : List QualifiedName
  /-- The names with a prefix that do not bind one. -/
  qualified : List (Text × Text)
  bindings : Bindings

/-- A fault in an attribute value, where `start` is the document from its tag on. -/
def ValueFault.inAttribute (e : ValueFault) (a : Attribute) (start : Text) : Fault :=
  match e.place with
  | none => .ofRest e.cause start
  | some rest => ⟨e.cause, rest.length + (a.valueStart.length - a.value.length)⟩

namespace AttributeState

/-- Note an attribute with its resolved value. -/
def note (st : AttributeState) (name : QualifiedName) (value : Text) :
    Except Cause AttributeState := do
  let st := { st with names := name :: st.names }
  match boundPrefix? name with
  | some qualifier => return { st with bindings := ← st.bindings.bind qualifier value }
  | none =>
    match name.qualifier with
    | none => return st
    | some q => return { st with qualified := st.qualified ++ [(q, name.localName)] }

/-- Note the attributes that are written, where `start` is the document from the tag on. -/
def noteWritten (d : Doctype) (opened : List Text) (rules : List AttributeRule) (start : Text)
    (st : AttributeState) : List Attribute → Except Fault AttributeState
  | [] => .ok st
  | a :: others =>
    if a.name ∈ st.names then .error (.ofRest .duplicateAttribute a.start)
    else
      let isPlain := ((rules.find? (·.name == a.name)).map (·.isPlain)).getD true
      match d.value opened isPlain a.value with
      | .error e => .error (e.inAttribute a start)
      | .ok value =>
        match st.note a.name value with
        | .error cause => .error (.ofRest cause start)
        | .ok st => noteWritten d opened rules start st others

/-- Note the defaults of attributes that are not written. -/
def noteDefaults (st : AttributeState) : List AttributeRule → Except Cause AttributeState
  | [] => .ok st
  | rule :: rules =>
    match rule.default with
    | none => st.noteDefaults rules
    | some value =>
      if rule.name ∈ st.names then st.noteDefaults rules
      else do (← st.note rule.name value).noteDefaults rules

/-- Check that prefixes are bound and that no two names mean the same. -/
def checkQualified (bindings : Bindings) (seen : List (Text × Text)) :
    List (Text × Text) → Except Cause Unit
  | [] => .ok ()
  | (qualifier, localName) :: others =>
    match bindings.namespace? qualifier with
    | none => .error .unboundPrefix
    | some uri =>
      if (uri, localName) ∈ seen then .error .duplicateAttribute
      else checkQualified bindings ((uri, localName) :: seen) others

end AttributeState

/-- Check the start of an element inside the given bindings, where `start` is the document from the
tag on and the entities in `opened` are being resolved. The result is the bindings inside. -/
def OpenTag.check (t : OpenTag) (d : Doctype) (opened : List Text) (bindings : Bindings)
    (start : Text) : Except Fault Bindings := do
  let rules := d.rulesOf t.name.text
  let st ← AttributeState.noteWritten d opened rules start ⟨[], [], bindings⟩ t.attributes
  let checked : Except Cause Bindings := do
    let st ← st.noteDefaults rules
    AttributeState.checkQualified st.bindings [] st.qualified
    match t.name.qualifier with
    | none => return st.bindings
    | some q =>
      if (st.bindings.namespace? q).isNone then throw .unboundPrefix
      return st.bindings
  checked.mapError fun cause => .ofRest cause start

end SvgAssets.Xml
