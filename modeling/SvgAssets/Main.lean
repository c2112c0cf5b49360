/-
# SvgAssets.Main -- the program

The files that a call needs are read into a tree, the call is made on the tree, and what it changed
is written back.
-/
import SvgAssets.CommandLine.Run

namespace SvgAssets.Program

/-- Read a file, or a directory with everything in it. -/
partial def readNode (entry : IO.FS.DirEntry) : IO FileNode := do
  if ← entry.path.isDir then
    let children ← entry.path.readDir
    let nodes ← children.toList.mapM fun child => do
      return (child.fileName.toList, ← readNode child)
    return .directory nodes
  else
    return .file (← IO.FS.readBinFile entry.path).toList

/-- The tree with the file at a path read into it, if there is one. -/
def addFile (t : FileTree) (path : Text) : IO FileTree := do
  try
    let content ← IO.FS.readBinFile (String.ofList path)
    return (t.write path content.toList).state
  catch _ => return t

/-- The tree with the directory at a path read into it, if there is one. -/
def addDirectory (t : FileTree) (path : Text) : IO FileTree := do
  let entry : IO.FS.DirEntry := ⟨String.ofList path, ""⟩
  if ← entry.path.isDir then return t.mount path (← readNode entry) else return t

/-- The variables of the environment that settings may come from. -/
def environment : IO (Entries Text) :=
  Settings.variableNames.filterMapM fun name => do
    return (← IO.getEnv (String.ofList name)).map fun value => (name, value.toList)

/-- A tree with nothing but the current directory. -/
def emptyTree : IO FileTree := do
  let current := (FileTree.names (toString (← IO.currentDir)).toList).drop 1
  return { FileTree.empty with
    top := FileNode.put (.directory []) current (.directory []), current }

/-- Write what has changed. -/
def writeChanges (before after : FileTree) : IO Unit := do
  for (path, content) in FileTree.changes before after ['/'] do
    IO.FS.createDirAll (String.ofList (Path.directory path))
    IO.FS.writeBinFile (String.ofList path) ⟨content.toArray⟩

/-- Make a call on the files of the current directory. -/
def call (arguments : List Text) (supply : HashSupply) : IO UInt32 := do
  let settingsTree ← (CommandLine.settingsFiles arguments).foldlM addFile (← emptyTree)
  let here : CommandLine.Surroundings := ⟨settingsTree, ← environment, supply⟩
  let tree ←
    match CommandLine.prepare here arguments with
    | .ok settings => addDirectory settingsTree settings.input
    | .error _ => pure settingsTree
  let outcome := CommandLine.run { here with tree } arguments
  IO.print outcome.stdout
  IO.eprint outcome.stderr
  for r in outcome.reports do
    IO.eprintln (r.level.name ++ " " ++ r.message)
  writeChanges tree outcome.tree
  match outcome.broken with
  | some e => IO.eprintln e.message
  | none => pure ()
  return UInt32.ofNat outcome.exit

end SvgAssets.Program

open SvgAssets in
/-- Convert as the arguments say, with hashes drawn at random. -/
def main (arguments : List String) : IO UInt32 := do
  let seed ← IO.rand 0 (UInt32.size - 1)
  match HashAllocator.ofSeed 6 (.int seed) with
  | .ok allocator => Program.call (arguments.map String.toList) (.allocator allocator)
  | .error e => do
    IO.eprintln e.message
    return 1
