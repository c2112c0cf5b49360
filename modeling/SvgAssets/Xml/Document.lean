/-
# SvgAssets.Xml.Document -- well-formed documents

A document is a prolog, one root element, and nothing behind it but comments, instructions and
white space. A byte order mark may stand in front of it all. `rootName` gives the name of the root
element, without its prefix, or the first fault.
-/
import SvgAssets.Xml.Content
import SvgAssets.Xml.Declaration

namespace SvgAssets.Xml

/-- Check what stands behind the root element. -/
def checkEpilog : PrologStream → Except Fault Unit
  | .token .comment _ next => checkEpilog next
  | .token .instruction _ next => checkEpilog next
  | .token _ start _ => .error (.ofRest .junkBehindRoot start)
  | .element start => .error (.ofRest .junkBehindRoot start)
  | .finish => .ok ()
  | .fault f => .error f

/-- The root element of a document, from its opening bracket on. -/
def readRoot (d : Doctype) (start : Text) : Except Fault Text :=
  match openTagReader.run (start.drop 1) with
  | .error e => .error (e.fault start)
  | .ok (tag, rest) => do
    let bindings ← tag.check d [] .initial start
    let rest ←
      if tag.isEmpty then pure rest
      else
        readContent d d.entities.length [] .document .initial
          [⟨tag.name.text, bindings⟩] rest
    checkEpilog (prologTokens rest)
    return tag.name.localName

/-- A document without the byte order mark in front of it. -/
def withoutMark : Text → Text
  | '\ufeff' :: s => s
  | s => s

/-- The name of the root element of a document, without its prefix. -/
def rootName (s : Text) : Except Fault Text := do
  let (d, start) ← readProlog (withoutMark s)
  readRoot d start

end SvgAssets.Xml
