/-
# SvgAssets.TypeScript.Statement -- generated sources as statements

A generated source is a list of statements. What a source imports and what it exports is read off
its statements; its text is that of its statements, one behind the other.
-/
import SvgAssets.Text.Basic

namespace SvgAssets.TypeScript

/-- How the names of an import are set. -/
inductive Layout where
  /-- All names on one line. -/
  | line
  /-- Each name on a line of its own. -/
  | block

/-- A statement of a generated source. -/
inductive Statement where
  | importNames (layout : Layout) (names : List Text) (source : Text)
  | exportInterface (name body : Text)
  | exportConst (name value : Text)
  /-- Names of another source, exported again. -/
  | exportNames (names : List Text) (source : Text)
  /-- Code that exports one name. -/
  | exportCode (name code : Text)
  | code (code : Text)

namespace Statement

/-- The names that a statement exports. -/
def exports : Statement → List Text
  | .exportInterface name _ | .exportConst name _ | .exportCode name _ => [name]
  | .exportNames names _ => names
  | _ => []

/-- The text of a statement. -/
def text : Statement → Text
  | .importNames .line names source =>
    "import \x7b ".toList ++ [',', ' '].intercalate names ++ " \x7d from '".toList ++ source ++
      "';\n".toList
  | .importNames .block names source =>
    "import \x7b\n  ".toList ++ [',', '\n', ' ', ' '].intercalate names ++
      "\n\x7d from '".toList ++ source ++ "';\n".toList
  | .exportInterface name body =>
    "export interface ".toList ++ name ++ ' ' :: body ++ ['\n']
  | .exportConst name value =>
    "export const ".toList ++ name ++ " = ".toList ++ value ++ ";\n".toList
  | .exportNames names source =>
    "export \x7b ".toList ++ [',', ' '].intercalate names ++ " \x7d from '".toList ++ source ++
      "';\n".toList
  | .exportCode _ c | .code c => c

end Statement

/-- A generated source. -/
abbrev Source := List Statement

namespace Source

/-- The names that a source exports. -/
def exports (s : Source) : List Text := s.flatMap Statement.exports

/-- The names that a source imports from another one. -/
def importsFrom (source : Text) (s : Source) : List Text :=
  s.flatMap fun
    | .importNames _ names other => if other = source then names else []
    | _ => []

/-- The text of a source. -/
def text (s : Source) : Text := s.flatMap Statement.text

end Source

/-- Lines as the text of code. -/
def lines (ls : List String) : Text := ls.flatMap fun l => l.toList ++ ['\n']

end SvgAssets.TypeScript
