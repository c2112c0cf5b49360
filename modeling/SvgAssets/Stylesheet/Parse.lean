/-
# SvgAssets.Stylesheet.Parse -- reading a style sheet into its tree

The reader looks at braces and semicolons only. Up to the first brace it decides what the next item
is; a block reaches to the brace that balances its opening one. Whatever is neither a rule nor an
at-rule is an error, whose offset counts characters from the start of the whole sheet.
-/
import SvgAssets.Stylesheet.Tree
import SvgAssets.Text.Pattern
import SvgAssets.Text.Quoted

namespace SvgAssets.Stylesheet

open Text

/-- Why a text is no style sheet. -/
inductive StyleError where
  | unexpectedClose (offset : Nat)
  | danglingContent (text : Text)
  | blockWithoutSelector (offset : Nat)
  | unclosedBlock (offset : Nat)
  | unterminatedDeclaration (prelude : Text)
  | nestedBlock (prelude : Text)
  | emptySelector
  deriving DecidableEq

/-- The wording of a style error. Dangling content is shown up to forty characters. -/
def StyleError.message : StyleError → String
  | .unexpectedClose offset => "Unexpected '\x7d' at offset " ++ toString offset
  | .danglingContent text =>
    "Dangling content without a block: " ++ quotedString (text.take 40)
  | .blockWithoutSelector offset => "Block without selector at offset " ++ toString offset
  | .unclosedBlock offset => "Unclosed '\x7b' at offset " ++ toString offset
  | .unterminatedDeclaration prelude =>
    "Unterminated declaration before " ++ quotedString prelude
  | .nestedBlock prelude => "Nested block inside rule " ++ quotedString prelude
  | .emptySelector => "Empty selector"

/-- The body of a block and the text behind its closing brace, where `depth` further blocks are
open inside it. -/
def closeBlock? : Nat → Text → Option (Text × Text)
  | _, [] => none
  | depth, c :: s =>
    if c = '\x7b' then (closeBlock? (depth + 1) s).map fun (body, rest) => (c :: body, rest)
    else if c = '\x7d' then
      match depth with
      | 0 => some ([], s)
      | depth + 1 => (closeBlock? depth s).map fun (body, rest) => (c :: body, rest)
    else (closeBlock? depth s).map fun (body, rest) => (c :: body, rest)

theorem closeBlock?_eq_some {depth : Nat} {s body rest : Text}
    (h : closeBlock? depth s = some (body, rest)) : s = body ++ '\x7d' :: rest := by
  fun_induction closeBlock? depth s generalizing body rest with
  | case1 => cases h
  | case2 depth s ih =>
    obtain ⟨⟨b, r⟩, hb, he⟩ := Option.map_eq_some_iff.1 h
    cases he
    simp [ih hb]
  | case3 s => cases h; rfl
  | case4 s depth _ ih =>
    obtain ⟨⟨b, r⟩, hb, he⟩ := Option.map_eq_some_iff.1 h
    cases he
    simp [ih hb]
  | case5 depth c s _ _ ih =>
    obtain ⟨⟨b, r⟩, hb, he⟩ := Option.map_eq_some_iff.1 h
    cases he
    simp [ih hb]

/-- The at-rules whose block holds ordinary rules. -/
def groupNames : List Text :=
  ["media".toList, "supports".toList, "document".toList, "layer".toList, "container".toList]

/-- The name of an at-rule: what follows the `@` up to a space or a parenthesis, in lower case. -/
def atRuleName (prelude : Text) : Text :=
  lower ((prelude.drop 1).takeWhile fun c => c != ' ' && c != '(')

/-- Characters in front of the first brace. -/
def isOutsideBraces (c : Char) : Bool := c != '\x7b' && c != '\x7d'

/-- The selectors of an ordinary rule. -/
def selectors (prelude : Text) : List Text := (splitOn ',' prelude).map trim

/-- The ordinary rule with the given text in front of its block and the given block. -/
def parseRule (prelude body : Text) : Except StyleError Item :=
  if prelude.contains ';' then .error (.unterminatedDeclaration prelude)
  else if body.contains '\x7b' then .error (.nestedBlock prelude)
  else if (selectors prelude).any List.isEmpty then .error .emptySelector
  else .ok (.rule (selectors prelude) body)

/-- The items of `s`, which stands at `offset` in the whole sheet. -/
def parseItems (offset : Nat) : Text → Except StyleError (List Item)
  | [] => .ok []
  | c :: s =>
    if isBlank c then parseItems (offset + 1) s
    else
      match _hh : run isOutsideBraces (c :: s) with
      | (head, '\x7d' :: _) => .error (.unexpectedClose (offset + head.length))
      | (head, tail) =>
        if c = '@' ∧ ';' ∈ head then
          match _hs : breakAt? [';'] (c :: s) with
          | none => .ok []
          | some (statement, rest) => do
            let items ← parseItems (offset + statement.length + 1) rest
            return .statement (statement ++ [';']) :: items
        else
          match tail with
          | [] => .error (.danglingContent (trim (c :: s)))
          | _ :: inner =>
            let prelude := trim head
            let brace := offset + head.length
            if prelude.isEmpty then .error (.blockWithoutSelector brace)
            else
              match _hb : closeBlock? 0 inner with
              | none => .error (.unclosedBlock brace)
              | some (body, rest) => do
                let item ←
                  if c = '@' then
                    if atRuleName prelude ∈ groupNames then
                      Item.group prelude <$> parseItems (brace + 1) body
                    else pure (.untouched (head ++ '\x7b' :: body ++ ['\x7d']))
                  else parseRule prelude body
                let items ← parseItems (brace + body.length + 2) rest
                return item :: items
termination_by s => s.length
decreasing_by
  · simp
  · have := congrArg List.length (breakAt?_eq_some _hs)
    simp at this ⊢
    omega
  · have h₁ := congrArg List.length (eq_append_of_run _hh)
    have h₂ := congrArg List.length (closeBlock?_eq_some _hb)
    simp at h₁ h₂ ⊢
    omega
  · have h₁ := congrArg List.length (eq_append_of_run _hh)
    have h₂ := congrArg List.length (closeBlock?_eq_some _hb)
    simp at h₁ h₂ ⊢
    omega

/-- The tree of a style sheet. -/
def parse (s : Text) : Except StyleError (List Item) := parseItems 0 s

end SvgAssets.Stylesheet
