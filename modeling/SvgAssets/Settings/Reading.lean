/-
# SvgAssets.Settings.Reading -- settings from several sources

A setting is looked up among the arguments of a run, then among the variables of the environment,
then in the file of variables of the current directory; otherwise it has its default. The names of
variables carry the name of the program in front, and the case of their letters does not count.
Settings that are texts have to be texts. Settings that are switches may be written in a few ways.
-/
import SvgAssets.Files.Reading
import SvgAssets.Settings.Basic
import SvgAssets.Settings.EnvFile
import SvgAssets.Value

namespace SvgAssets

/-- The settings that are wrong. -/
structure InvalidSettings where
  names : List Text
  deriving DecidableEq

/-- The wording of the first line of a report on wrong settings. -/
def InvalidSettings.message (e : InvalidSettings) : String :=
  toString e.names.length ++ " validation error" ++ (if e.names.length = 1 then "" else "s") ++
    " for Settings"

namespace Settings

/-- Where settings are looked up. -/
structure Sources where
  arguments : Entries Value
  environment : Entries Text
  file : Entries (Option Text)

/-- Entries under their names in small letters; of several the last one counts. -/
def caseless {α : Type} (entries : Entries α) : Entries α :=
  Entries.ofPairs (entries.map fun (name, a) => (Text.lower name, a))

/-- The variable for a setting. -/
def variableName (name : Text) : Text := "svgmint_".toList ++ name

/-- The variables for all settings, in capital and in small letters. -/
def variableNames : List Text :=
  let names := ["input", "output", "blueprint", "module", "log_level", "percent_fallback",
    "scope_by_module", "strict_xml", "manifest"].map fun name => variableName name.toList
  names.map Text.upper ++ names

/-- The value that the sources give a setting. -/
def Sources.get? (s : Sources) (name : Text) : Option Value :=
  match s.arguments.get? name with
  | some v => some v
  | none =>
    match (caseless s.environment).get? (variableName name) with
    | some t => some (.text t)
    | none => ((caseless s.file).get? (variableName name)).join.map .text

/-- The texts that stand for a switch that is on. -/
def onTexts : List Text := ["1", "on", "t", "true", "y", "yes"].map String.toList

/-- The texts that stand for a switch that is off. -/
def offTexts : List Text := ["0", "off", "f", "false", "n", "no"].map String.toList

/-- The switch that a value stands for. -/
def asSwitch? : Value → Option Bool
  | .bool b => some b
  | .number n =>
    if n.equal (.int 0) then some false
    else if n.equal (.int 1) then some true
    else none
  | .text t =>
    let t := t.map Char.toLower
    if t ∈ onTexts then some true else if t ∈ offTexts then some false else none
  | _ => none

/-- The text that a value stands for. -/
def asText? : Value → Option Text
  | .text t => some t
  | _ => none

/-- A setting: its value, or its name as that of a wrong one. -/
def check {α : Type} (s : Sources) (name : String) (fallback : α) (read? : Value → Option α) :
    Except Text α :=
  match s.get? name.toList with
  | none => .ok fallback
  | some v =>
    match read? v with
    | some a => .ok a
    | none => .error name.toList

/-- The name of a setting, if it is wrong. -/
def wrong {α : Type} : Except Text α → List Text
  | .ok _ => []
  | .error name => [name]

/-- The settings that the sources give, or all wrong ones. -/
def ofSources (s : Sources) : Except InvalidSettings Settings :=
  let d : Settings := {}
  let input := check s "input" d.input asText?
  let output := check s "output" d.output asText?
  let blueprint := check s "blueprint" d.blueprint asText?
  let moduleName := check s "module" d.moduleName asText?
  let logLevel := check s "log_level" d.logLevel asText?
  let percentFallback := check s "percent_fallback" d.percentFallback asSwitch?
  let scopeByModule := check s "scope_by_module" d.scopeByModule asSwitch?
  let strictXml := check s "strict_xml" d.strictXml asSwitch?
  let manifest := check s "manifest" d.manifest asSwitch?
  let result : Except Text Settings := do
    return {
      input := ← input, output := ← output, blueprint := ← blueprint, moduleName := ← moduleName,
      logLevel := ← logLevel, percentFallback := ← percentFallback,
      scopeByModule := ← scopeByModule, strictXml := ← strictXml, manifest := ← manifest }
  match result with
  | .ok settings => .ok settings
  | .error _ =>
    .error ⟨wrong input ++ wrong output ++ wrong blueprint ++ wrong moduleName ++ wrong logLevel ++
      wrong percentFallback ++ wrong scopeByModule ++ wrong strictXml ++ wrong manifest⟩

/-! ## In a directory -/

/-- Why settings could not be made. -/
inductive ReadError where
  /-- The file of variables could not be read. -/
  | envFile (e : SvgAssets.ReadError)
  | invalid (e : InvalidSettings)

/-- The file of variables. -/
def envFileName : Text := ".env".toList

/-- The variables of the file in the current directory, if there is one. -/
def fileVariables (t : FileTree) (environment : Entries Text) :
    Except SvgAssets.ReadError (Entries (Option Text)) :=
  if t.isFile envFileName then
    (t.readText envFileName).map (EnvFile.resolved environment)
  else .ok []

/-- The settings for the given arguments. -/
def make (t : FileTree) (environment : Entries Text) (arguments : Entries Value) :
    Except ReadError Settings :=
  match fileVariables t environment with
  | .error e => .error (.envFile e)
  | .ok file =>
    match ofSources ⟨arguments, environment, file⟩ with
    | .error e => .error (.invalid e)
    | .ok settings => .ok settings

end Settings

end SvgAssets
