/-
# SvgAssets.Files.Path -- paths as texts

A path is a text whose names are separated by slashes; one that begins with a slash is absolute. All
operations here look at the text alone. The extension of a file begins at the last full stop of its
name, but the full stops at the beginning of a name begin no extension.
-/
import SvgAssets.Text.Casing

namespace SvgAssets.Path

/-- Whether a path is absolute. -/
def isAbsolute (path : Text) : Bool := path.head? == some '/'

/-- The path `name` as seen from a directory; an absolute path stands for itself. -/
def join (directory name : Text) : Text :=
  if isAbsolute name then name
  else if directory.isEmpty ∨ directory.getLast? = some '/' then directory ++ name
  else directory ++ '/' :: name

/-- The path that several names lead to from a directory. -/
def joinAll (directory : Text) (names : List Text) : Text := names.foldl join directory

/-- The part of a path behind its last slash. -/
def fileName (path : Text) : Text := (path.reverse.takeWhile (· != '/')).reverse

/-- The part of a path in front of its last name, without the slashes between them. -/
def directory (path : Text) : Text :=
  let head := Text.dropEndWhile (· != '/') path
  if head.all (· == '/') then head else Text.dropEndWhile (· == '/') head

/-- A file name, cut in front of its extension. -/
def splitExtension (name : Text) : Text × Text :=
  match Text.dropEndWhile (· != '.') name with
  | [] => (name, [])
  | c :: s =>
    let stem := (c :: s).dropLast
    if stem.all (· == '.') then (name, []) else (stem, name.drop stem.length)

/-- The name of the file at a path, without its extension. -/
def stem (path : Text) : Text := (splitExtension (fileName path)).1

/-- The extension of the file at a path, with its full stop. -/
def extension (path : Text) : Text := (splitExtension (fileName path)).2

/-- Whether the extension of a path is that of vector images, in letters of any case. -/
def isSvg (path : Text) : Bool := Text.lower (extension path) == ".svg".toList

/-- A file that is joined to a directory stands at the end of the path. -/
theorem suffix_join {directory name : Text} : name <:+ join directory name := by
  unfold join
  split
  · exact List.suffix_refl name
  · split
    · exact List.suffix_append directory name
    · exact (List.suffix_cons '/' name).trans (List.suffix_append directory ('/' :: name))

end SvgAssets.Path
