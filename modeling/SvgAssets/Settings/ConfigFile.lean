/-
# SvgAssets.Settings.ConfigFile -- settings from a JSON file

The names in a configuration file may have their words joined in any of the usual ways: by
underscores, by hyphens, or by capital letters. What is given for one run counts more than what the
file says.
-/
import SvgAssets.Json.Reader
import SvgAssets.Settings.Reading

namespace SvgAssets

namespace ConfigFile

/-- Why a configuration file could not be used. -/
inductive LoadError where
  | unreadable (e : ReadError)
  | json (e : Json.ReadError)
  | notTable (path : Text)

/-- The wording of an error. -/
def LoadError.message : LoadError → String
  | .unreadable e => e.message
  | .json e => e.message
  | .notTable path => "Config file " ++ String.ofList path ++ " must contain a JSON object"

/-- `s` with an underscore in front of every capital ASCII letter. -/
def markCapitals (s : Text) : Text := s.flatMap fun c => if c.isUpper then ['_', c] else [c]

/-- A name with its words joined by underscores. There is no underscore in front of the first
character. -/
def joinedName (name : Text) : Text :=
  let marked := name.take 1 ++ markCapitals (name.drop 1)
  Text.lower (marked.map fun c => if c = '-' then '_' else c)

/-- The entries of a configuration file. -/
def load (t : FileTree) (path : Text) : Except LoadError (Entries Value) :=
  match t.readText path with
  | .error e => .error (.unreadable e)
  | .ok s =>
    match Json.read s with
    | .error e => .error (.json e)
    | .ok (.table entries) =>
      .ok (Entries.ofPairs (entries.map fun (name, v) => (joinedName name, v)))
    | .ok _ => .error (.notTable path)

/-- The name of the file that is looked for. -/
def fileName : Text := "svgmint.json".toList

/-- The configuration file of a directory, if there is one. -/
def find? (t : FileTree) (directory : Text) : Option Text :=
  let path := Path.join directory fileName
  if t.isFile path then some path else none

end ConfigFile

/-- Why settings could not be made with a configuration file. -/
inductive Settings.BuildError where
  | config (e : ConfigFile.LoadError)
  | settings (e : Settings.ReadError)

/-- The wording of an error; of wrong settings only their number is told. -/
def Settings.BuildError.message : Settings.BuildError → String
  | .config e => e.message
  | .settings (.envFile e) => e.message
  | .settings (.invalid e) => e.message

/-- The settings for what is given for one run, with a configuration file. What is null is not
given, and neither is a file without a name. -/
def Settings.build (t : FileTree) (environment : Entries Text) (given : Entries Value)
    (configFile : Option Text) : Except Settings.BuildError Settings :=
  let configured : Except ConfigFile.LoadError (Entries Value) :=
    match configFile with
    | none | some [] => .ok []
    | some path => ConfigFile.load t path
  match configured with
  | .error e => .error (.config e)
  | .ok entries =>
    let arguments := given.foldl
      (fun entries (name, v) =>
        match v with
        | .null => entries
        | v => entries.set name v)
      entries
    match Settings.make t environment arguments with
    | .error e => .error (.settings e)
    | .ok settings => .ok settings

end SvgAssets
