/-
# SvgAssets.Conversion.Report -- what a conversion tells about itself

Every message has a level, which tells how much it matters; a threshold is set for those that are
shown.
-/
import SvgAssets.Files.Reading
import SvgAssets.Pipeline.Run
import SvgAssets.Text.Casing

namespace SvgAssets

/-! ## Levels -/

/-- How much a message matters. -/
inductive Level where
  | notSet
  | debug
  | info
  | warning
  | error
  | critical
  deriving DecidableEq

namespace Level

/-- The name of a level. -/
def name : Level → String
  | .notSet => "NOTSET"
  | .debug => "DEBUG"
  | .info => "INFO"
  | .warning => "WARNING"
  | .error => "ERROR"
  | .critical => "CRITICAL"

/-- The place of a level among all levels. -/
def rank : Level → Nat
  | .notSet => 0
  | .debug => 10
  | .info => 20
  | .warning => 30
  | .error => 40
  | .critical => 50

/-- The levels by their names, of which two have a second one. -/
def named : List (Text × Level) :=
  [("NOTSET".toList, .notSet), ("DEBUG".toList, .debug), ("INFO".toList, .info),
    ("WARNING".toList, .warning), ("WARN".toList, .warning), ("ERROR".toList, .error),
    ("CRITICAL".toList, .critical), ("FATAL".toList, .critical)]

/-- The level that a setting names in letters of any case. Any other text stands for `info`. -/
def ofSetting (setting : Text) : Level := (named.lookup (Text.upper setting)).getD .info

/-- Whether messages of a level are shown where at least `threshold` is asked for. -/
def passes (threshold level : Level) : Bool := threshold.rank ≤ level.rank

end Level

/-! ## Messages -/

/-- How much a notice of a stage matters. -/
def Pipeline.Notice.level : Pipeline.Notice → Level
  | .redeclared _ | .skipped _ _ => .warning
  | .failed _ _ _ => .error

/-- The wording of a notice. -/
def Pipeline.Notice.message : Pipeline.Notice → String
  | .redeclared r => r.message
  | .skipped stage s => "[" ++ String.ofList stage ++ "] " ++ s.message
  | .failed stage path message =>
    "[" ++ String.ofList stage ++ "] FAILED on " ++ String.ofList path ++ ": " ++ message

/-- A message of a conversion. -/
inductive Report where
  | started (input blueprint : Text)
  | unreadable (path : Text) (e : ReadError)
  | notice (n : Pipeline.Notice)
  | manifestWritten (path : Text)
  | finished (count : Nat) (output : Text)
  /-- The conversion was not possible, with the reason. -/
  | refused (message : String)

namespace Report

/-- How much a message matters. -/
def level : Report → Level
  | .started _ _ | .manifestWritten _ | .finished _ _ => .info
  | .unreadable _ _ => .warning
  | .notice n => n.level
  | .refused _ => .error

/-- The wording of a message. -/
def message : Report → String
  | .started input blueprint =>
    "Converting svg files from " ++ String.ofList input ++ " with the " ++
      String.ofList blueprint ++ " blueprint"
  | .unreadable path e => "Unable to read " ++ String.ofList path ++ ": " ++ e.message
  | .notice n => n.message
  | .manifestWritten path => "Manifest written to " ++ String.ofList path
  | .finished count output =>
    "Processed " ++ toString count ++ " svg's into: " ++ String.ofList output
  | .refused message => message

end Report

end SvgAssets
