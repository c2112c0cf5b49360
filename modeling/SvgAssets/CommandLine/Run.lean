/-
# SvgAssets.CommandLine.Run -- a call of the program

A call shows a text and ends, or it makes the settings and converts. The settings come from a
configuration file when one is named, or when neither an input nor an output is given and the
current directory has one.
-/
import SvgAssets.CommandLine.Arguments
import SvgAssets.Conversion.Run
import SvgAssets.Settings.ConfigFile

namespace SvgAssets.CommandLine

/-- What a call starts from. -/
structure Surroundings where
  tree : FileTree
  environment : Entries Text
  /-- The hashes for the conversion. -/
  supply : HashSupply

/-- How a call ended. -/
structure Outcome where
  /-- Zero on success, one when nothing could be converted, two when it is not clear what to do. -/
  exit : Nat
  stdout : String := ""
  stderr : String := ""
  /-- The least level that was shown. -/
  level : Level := .warning
  /-- The messages that were shown. -/
  reports : List Report := []
  tree : FileTree
  /-- What ended the call before its time. -/
  broken : Option ConversionError := none

/-- Errors that a call tells as its last message. Any other one breaks it off. -/
def isExpected : ConversionError → Bool
  | .inputMissing _ | .blueprint _ => true
  | _ => false

/-- Convert with given settings. -/
def convert (here : Surroundings) (settings : Settings) : Outcome :=
  let level := Level.ofSetting settings.logLevel
  let a := Conversion.run settings here.tree here.supply
  let shown (reports : List Report) : List Report :=
    reports.filter fun r => level.passes r.level
  match a.failure with
  | none => { exit := 0, level, reports := shown a.notices, tree := a.state.tree }
  | some e =>
    if isExpected e then
      { exit := 1, level, reports := shown (a.notices ++ [.refused e.message])
        tree := a.state.tree }
    else
      { exit := 1, level, reports := shown a.notices, tree := a.state.tree, broken := some e }

/-- Whether a text that is not empty is given for a setting. -/
def isGiven (given : Entries Value) (setting : String) : Bool :=
  match given.get? setting.toList with
  | some (.text t) => !t.isEmpty
  | _ => false

/-- The configuration file for a call; nothing when it is missing or when there is nothing to do. -/
def configFile (here : Surroundings) (given : Entries Value) : Option (Option Text) :=
  match given.get? Switch.configSetting with
  | some (.text path) => if here.tree.isFile path then some (some path) else none
  | _ =>
    if isGiven given "input" ∨ isGiven given "output" then some none
    else (ConfigFile.find? here.tree []).map some

/-- What a call comes to before anything is converted: its end, or the settings. -/
def prepare (here : Surroundings) (arguments : List Text) : Except Outcome Settings :=
  let ended (exit : Nat) (stdout stderr : String) : Except Outcome Settings :=
    .error { exit, stdout, stderr, tree := here.tree }
  match parse arguments with
  | .error e => ended 2 "" (usageText ++ "svgmint: error: " ++ e.message ++ "\n")
  | .ok .help => ended 0 helpText ""
  | .ok .version => ended 0 versionText ""
  | .ok (.proceed given) =>
    match configFile here given with
    | none => ended 2 helpText ""
    | some config =>
      let settings := given.filter fun (name, _) => name != Switch.configSetting
      match Settings.build here.tree here.environment settings config with
      | .error e => ended 2 "" ("svgmint: invalid configuration: " ++ e.message ++ "\n")
      | .ok settings => .ok settings

/-- Call the program. -/
def run (here : Surroundings) (arguments : List Text) : Outcome :=
  match prepare here arguments with
  | .error outcome => outcome
  | .ok settings => convert here settings

/-- The files that may hold settings for a call. -/
def settingsFiles (arguments : List Text) : List Text :=
  let named :=
    match parse arguments with
    | .ok (.proceed given) => (given.get? Switch.configSetting).bind Settings.asText?
    | _ => none
  [Settings.envFileName, ConfigFile.fileName] ++ named.toList

end SvgAssets.CommandLine
