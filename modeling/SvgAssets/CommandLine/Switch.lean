/-
# SvgAssets.CommandLine.Switch -- the options of the program

An option has one or two names. It shows a text and ends the program, or it takes a text for a
setting, or it turns a setting on or off.
-/
import SvgAssets.Blueprint.Angular

namespace SvgAssets.CommandLine

/-- What an option does. -/
inductive Effect where
  | help
  | version
  /-- Take a text, which may have to be one of several. -/
  | take (setting : Text) (choices : Option (List Text))
  | turn (setting : Text) (on : Bool)

/-- An option of the program. -/
structure Switch where
  names : List Text
  effect : Effect

namespace Switch

/-- Whether a text follows the option. -/
def takesText (s : Switch) : Bool :=
  match s.effect with
  | .take _ _ => true
  | _ => false

/-- All names of an option, as diagnostics show them. -/
def shown (s : Switch) : String := String.ofList (['/'].intercalate s.names)

/-- The levels that can be asked for. -/
def levelChoices : List Text := ["debug", "info", "warning", "error"].map String.toList

/-- The setting that holds the path of the configuration file. -/
def configSetting : Text := "config".toList

/-- The options, in the order in which they are listed. -/
def all : List Switch :=
  let named (names : List String) (effect : Effect) : Switch := ⟨names.map String.toList, effect⟩
  [named ["-h", "--help"] .help,
    named ["-i", "--input"] (.take "input".toList none),
    named ["-o", "--output"] (.take "output".toList none),
    named ["-b", "--blueprint"] (.take "blueprint".toList (some Blueprint.builtIn.names)),
    named ["-m", "--module"] (.take "module".toList none),
    named ["-c", "--config"] (.take configSetting none),
    named ["--manifest"] (.turn "manifest".toList true),
    named ["--strict"] (.turn "strict_xml".toList true),
    named ["--no-percent-fallback"] (.turn "percent_fallback".toList false),
    named ["--scope-by-module"] (.turn "scope_by_module".toList true),
    named ["--log-level"] (.take "log_level".toList (some levelChoices)),
    named ["--version"] .version]

/-- All options under all of their names. -/
def byName : List (Text × Switch) := all.flatMap fun s => s.names.map (·, s)

/-- The option of a name. -/
def find? (name : Text) : Option Switch := byName.lookup name

end Switch

/-! ## Fixed texts -/

/-- The name and the version of the program. -/
def versionText : String := "svgmint 0.1.0\n"

/-- How the program is called. -/
def usageText : String :=
  "usage: svgmint [-h] [-i INPUT] [-o OUTPUT] [-b \x7bangular,typescript\x7d]\n" ++
  "               [-m MODULE] [-c CONFIG] [--manifest] [--strict]\n" ++
  "               [--no-percent-fallback] [--scope-by-module]\n" ++
  "               [--log-level \x7bdebug,info,warning,error\x7d] [--version]\n"

/-- What the options mean. -/
def helpText : String :=
  usageText ++
  "\nCompile a directory of SVG files into TypeScript (or Angular) source modules\n" ++
  "\noptions:\n" ++
  "  -h, --help            show this help message and exit\n" ++
  "  -i INPUT, --input INPUT\n" ++
  "                        svg source dir (default ./svg)\n" ++
  "  -o OUTPUT, --output OUTPUT\n" ++
  "                        output dir (default ./svg-out)\n" ++
  "  -b \x7bangular,typescript\x7d, --blueprint \x7bangular,typescript\x7d\n" ++
  "                        output blueprint (default typescript)\n" ++
  "  -m MODULE, --module MODULE\n" ++
  "                        module name, used by the angular blueprint and\n" ++
  "                        manifest\n" ++
  "  -c CONFIG, --config CONFIG\n" ++
  "                        JSON config file (default ./svgmint.json when present)\n" ++
  "  --manifest            also write <module>.svgmint.json\n" ++
  "  --strict              skip files that are not well-formed XML\n" ++
  "  --no-percent-fallback\n" ++
  "                        keep bare viewBox dimensions instead of 100% x 100%\n" ++
  "  --scope-by-module     scope styles with the module name instead of a per-\n" ++
  "                        file hash\n" ++
  "  --log-level \x7bdebug,info,warning,error\x7d\n" ++
  "                        log verbosity\n" ++
  "  --version             show program's version number and exit\n"

end SvgAssets.CommandLine
