/-
# SvgAssets.Template.Descriptor -- variable types as one line of text

A descriptor writes a tree of type names: `{radius:number;colors:{fill:string}}`. `describe` prints
it and `Descriptor.read` reads it back. Names may hold any character but a colon and type names any
but braces and semicolons; nothing is escaped, so only such trees survive the round trip.
-/
import SvgAssets.Value

namespace SvgAssets.Template

open Text

mutual

/-- The descriptor of what stands at one name. -/
def describeValue : Value → Text
  | .table entries => '\x7b' :: describeMembers entries ++ ['\x7d']
  | value => value.plain

/-- The members of a descriptor, separated by semicolons. -/
def describeMembers : List (Text × Value) → Text
  | [] => []
  | [(name, value)] => name ++ ':' :: describeValue value
  | (name, value) :: rest => name ++ ':' :: describeValue value ++ ';' :: describeMembers rest

end

/-- The descriptor of a tree. -/
def describe (tree : Entries Value) : Text := '\x7b' :: describeMembers tree ++ ['\x7d']

/-- Why a text is no descriptor. Offsets count from the first character that is not blank. -/
inductive DescriptorError where
  | expectedBrace (offset : Nat) (text : Text)
  | missingColon (offset : Nat) (text : Text)
  | unterminatedMember (name text : Text)
  | unclosed (text : Text)
  | trailing (text : Text)
  deriving DecidableEq

/-- The wording of a descriptor error. -/
def DescriptorError.message : DescriptorError → String
  | .expectedBrace offset text =>
    "Expected '\x7b' at offset " ++ toString offset ++ " in " ++ quotedString text
  | .missingColon offset text =>
    "Missing ':' after offset " ++ toString offset ++ " in " ++ quotedString text
  | .unterminatedMember name text =>
    "Unterminated member " ++ quotedString name ++ " in " ++ quotedString text
  | .unclosed text => "Unclosed descriptor: " ++ quotedString text
  | .trailing text => "Trailing content in descriptor: " ++ quotedString text

namespace Descriptor

/-- A type name: everything up to a semicolon or a closing brace. -/
def isTypeChar (c : Char) : Bool := c != ';' && c != '\x7d'

/-- The members of a descriptor up to its closing brace, added to `tree`, and the text behind that
brace. `whole` is the text that is read, for messages; each level and each member uses up at least
one character, so `fuel` of the length of the text is enough. -/
def readMembers (whole : Text) (tree : Entries Value) :
    Nat → Text → Except DescriptorError (Entries Value × Text)
  | 0, _ => .error (.unclosed whole)
  | _ + 1, [] => .error (.unclosed whole)
  | fuel + 1, c :: s =>
    if c = '\x7d' then .ok (tree, s)
    else
      match breakAt? [':'] (c :: s) with
      | none => .error (.missingColon (whole.length - (s.length + 1)) whole)
      | some (name, '\x7b' :: inner) => do
        let (members, rest) ← readMembers whole [] fuel inner
        readMembers whole (tree.set name (.table members)) fuel (skipSemicolon rest)
      | some (name, rest) =>
        match run isTypeChar rest with
        | (_, []) => .error (.unterminatedMember name whole)
        | (type, rest) => readMembers whole (tree.set name (.text type)) fuel (skipSemicolon rest)
where
  /-- `s` without one semicolon at its start. -/
  skipSemicolon : Text → Text
    | ';' :: s => s
    | s => s

/-- The tree that a descriptor writes. Blanks around the descriptor do not count. -/
def read (s : Text) : Except DescriptorError (Entries Value) :=
  let whole := trim s
  match whole with
  | '\x7b' :: inner =>
    match readMembers whole [] (inner.length + 1) inner with
    | .ok (tree, []) => .ok tree
    | .ok (_, _ :: _) => .error (.trailing s)
    | .error e => .error e
  | _ => .error (.expectedBrace 0 whole)

end Descriptor

end SvgAssets.Template
