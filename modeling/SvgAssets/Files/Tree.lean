/-
# SvgAssets.Files.Tree -- directories and the files in them

A tree of files is a value: a top directory, and the place in it that relative paths start from. A
place is the list of the names that lead to it from the top. A path is followed name by name; a full
stop stays where it is, two go back, and every name but the last has to be that of a directory.

What was put at a place is found there (`find?_put_self`), and other places keep what they hold
(`find?_put_of_not_related`).
-/
import SvgAssets.Attempt
import SvgAssets.Entries
import SvgAssets.Files.Path
import SvgAssets.Text.Order
import SvgAssets.Text.Quoted
import SvgAssets.Text.Utf8

namespace SvgAssets

/-- A file or a directory. -/
inductive FileNode where
  | file (content : Bytes)
  | directory (entries : List (Text × FileNode))
  deriving Inhabited

/-- A place in a tree: the names that lead to it from the top. -/
abbrev Place := List Text

/-- Why a file or a directory could not be used. -/
inductive FileFault where
  | missing
  | exists
  | notDirectory
  | isDirectory
  | nameTooLong
  /-- A path to be opened holds the character zero. -/
  | zeroInFile
  /-- A path to be made a directory holds the character zero. -/
  | zeroInDirectory
  deriving DecidableEq

/-- A path that could not be used. -/
structure FileError where
  fault : FileFault
  path : Text
  deriving DecidableEq

/-- The wording of an error. -/
def FileError.message (e : FileError) : String :=
  let numbered (n : Nat) (reason : String) : String :=
    "[Errno " ++ toString n ++ "] " ++ reason ++ ": " ++ String.ofList (Text.quoted e.path)
  match e.fault with
  | .missing => numbered 2 "No such file or directory"
  | .exists => numbered 17 "File exists"
  | .notDirectory => numbered 20 "Not a directory"
  | .isDirectory => numbered 21 "Is a directory"
  | .nameTooLong => numbered 36 "File name too long"
  | .zeroInFile => "embedded null byte"
  | .zeroInDirectory => "mkdir: embedded null character in path"

namespace FileNode

/-- What is at a place below a node. -/
def find? (node : FileNode) : Place → Option FileNode
  | [] => some node
  | name :: rest =>
    match node with
    | .file _ => none
    | .directory entries => (Entries.get? entries name).bind fun child => child.find? rest

/-- A node with `new` put at a place below it. Directories on the way are made; there is nothing
below a file. -/
def put (node : FileNode) (place : Place) (new : FileNode) : FileNode :=
  match place with
  | [] => new
  | name :: rest =>
    match node with
    | .file content => .file content
    | .directory entries =>
      let child := (Entries.get? entries name).getD (.directory [])
      .directory (Entries.set name (child.put rest new) entries)

/-- Whether no file stands on the way to a place. -/
def isOpen (node : FileNode) : Place → Bool
  | [] => true
  | name :: rest =>
    match node with
    | .file _ => false
    | .directory entries =>
      match Entries.get? entries name with
      | none => true
      | some child => child.isOpen rest

theorem isOpen_directory_nil (place : Place) : isOpen (.directory []) place = true := by
  cases place <;> rfl

theorem find?_put_self {new node : FileNode} {place : Place} (h : node.isOpen place = true) :
    (node.put place new).find? place = some new := by
  induction place generalizing node with
  | nil => simp [put, find?]
  | cons name rest ih =>
    cases node with
    | file => cases h
    | directory entries =>
      simp only [put, find?, Entries.get?_set_self, Option.bind_some]
      apply ih
      rw [isOpen] at h
      cases hc : Entries.get? entries name with
      | none => exact isOpen_directory_nil rest
      | some child => rw [hc] at h; exact h

/-- A place that is neither above nor below the changed one keeps what it holds. -/
theorem find?_put_of_not_related {new node : FileNode} {place other : Place}
    (h : ¬ place <+: other) (h' : ¬ other <+: place) :
    (node.put place new).find? other = node.find? other := by
  induction place generalizing node other with
  | nil => exact absurd (List.nil_prefix) h
  | cons name rest ih =>
    cases other with
    | nil => exact absurd (List.nil_prefix) h'
    | cons name' rest' =>
      cases node with
      | file => rfl
      | directory entries =>
        simp only [put, find?]
        by_cases hn : name' = name
        · subst hn
          simp only [Entries.get?_set_self, Option.bind_some]
          have hr : ¬ rest <+: rest' := fun hp => h (by simpa using hp)
          have hr' : ¬ rest' <+: rest := fun hp => h' (by simpa using hp)
          rw [ih hr hr']
          cases Entries.get? entries name' with
          | none =>
            cases rest' with
            | nil => exact absurd (List.nil_prefix) hr'
            | cons => rfl
          | some child => rfl
        · rw [Entries.get?_set_of_ne entries _ hn]

/-! ## Going through all files -/

/-- The files among entries, by name. -/
def fileNames : List (Text × FileNode) → List Text
  | [] => []
  | (name, .file _) :: rest => name :: fileNames rest
  | (_, .directory _) :: rest => fileNames rest

mutual

/-- The paths of all files below the directory at `path`: first its own files, then those of its
directories, both in the order of their names. -/
def filesBelow (path : Text) : FileNode → List Text
  | .file _ => []
  | .directory entries =>
    (Text.sort (fileNames entries)).map (Path.join path) ++
      ((filesByDirectory path entries).mergeSort fun a b => Text.le a.1 b.1).flatMap (·.2)

/-- The directories among entries, each with the paths of all files below it. -/
def filesByDirectory (path : Text) : List (Text × FileNode) → List (Text × List Text)
  | [] => []
  | (_, .file _) :: rest => filesByDirectory path rest
  | (name, .directory entries) :: rest =>
    (name, filesBelow (Path.join path name) (.directory entries)) :: filesByDirectory path rest

end

end FileNode

/-- A tree of files: its top, and the place that relative paths start from. -/
structure FileTree where
  top : FileNode
  current : Place

namespace FileTree

/-- Nothing but the top directory. -/
def empty : FileTree := ⟨.directory [], []⟩

/-- Names of more bytes cannot be used. -/
def maxNameLength : Nat := 255

/-- Whether a name has too many bytes. -/
def isTooLong (name : Text) : Bool := maxNameLength < (Utf8.encode name).length

/-- Whether a name stands for the directory it is used in. -/
def staysHere (name : Text) : Bool := name.isEmpty || name == ['.']

/-- The place that one name leads to from a place, and whether there is anything. -/
def next (t : FileTree) (place : Place) (name : Text) : Except FileFault (Place × Bool) :=
  match t.top.find? place with
  | some (.directory entries) =>
    if staysHere name then .ok (place, true)
    else if name = ['.', '.'] then .ok (place.dropLast, true)
    else if isTooLong name then .error .nameTooLong
    else .ok (place ++ [name], (Entries.get? entries name).isSome)
  | _ => .error .notDirectory

/-- Follow names to something that is there. -/
def follow (t : FileTree) (place : Place) : List Text → Except FileFault Place
  | [] => .ok place
  | name :: rest =>
    match t.next place name with
    | .error e => .error e
    | .ok (place, true) => t.follow place rest
    | .ok (_, false) => .error .missing

/-- The place from which a path is followed. -/
def start (t : FileTree) (path : Text) : Place := if Path.isAbsolute path then [] else t.current

/-- The names of a path. -/
def names (path : Text) : List Text := Text.splitOn '/' path

/-- The place of a path. -/
def locate (t : FileTree) (path : Text) : Except FileFault Place :=
  if path.isEmpty then .error .missing
  else if '\x00' ∈ path then .error .zeroInFile
  else t.follow (t.start path) (names path)

/-- What is at a path. -/
def node? (t : FileTree) (path : Text) : Option FileNode :=
  match t.locate path with
  | .ok place => t.top.find? place
  | .error _ => none

/-- Whether there is a directory at a path. -/
def isDirectory (t : FileTree) (path : Text) : Bool :=
  match t.node? path with
  | some (.directory _) => true
  | _ => false

/-- Whether there is a file at a path. -/
def isFile (t : FileTree) (path : Text) : Bool :=
  match t.node? path with
  | some (.file _) => true
  | _ => false

/-- The bytes of the file at a path. -/
def read (t : FileTree) (path : Text) : Except FileError Bytes :=
  match t.locate path with
  | .error fault => .error ⟨fault, path⟩
  | .ok place =>
    match t.top.find? place with
    | some (.file content) => .ok content
    | some (.directory _) => .error ⟨.isDirectory, path⟩
    | none => .error ⟨.missing, path⟩

/-- The paths of all files below the directory at a path. -/
def filesBelow (t : FileTree) (path : Text) : List Text :=
  match t.node? path with
  | some node => node.filesBelow path
  | none => []

/-! ## Writing -/

/-- The tree with `new` at a place. -/
def put (t : FileTree) (place : Place) (new : FileNode) : FileTree :=
  { t with top := t.top.put place new }

/-- A way into a tree: the part of the path that was followed, and its place. -/
structure Way where
  tree : FileTree
  path : Option Text
  place : Place

/-- Go on by one name; a directory is made where nothing is. -/
def Way.enter (w : Way) (name : Text) : Attempt FileError Empty Way :=
  let path :=
    match w.path with
    | none => name
    | some path => path ++ '/' :: name
  if '\x00' ∈ name then .fail w ⟨.zeroInDirectory, path⟩
  else
    match w.tree.next w.place name with
    | .error fault => .fail w ⟨fault, path⟩
    | .ok (place, true) => .done ⟨w.tree, some path, place⟩
    | .ok (place, false) => .done ⟨w.tree.put place (.directory []), some path, place⟩

/-- Make the directory at a path, and all directories on the way to it. -/
def makeDirectory (t : FileTree) (path : Text) : Attempt FileError Empty FileTree :=
  let a := Attempt.forEach Way.enter ⟨t, none, t.start path⟩ (names path)
  match a.failure, a.state.tree.top.find? a.state.place with
  | none, some (.file _) => .fail a.state.tree ⟨.exists, path⟩
  | _, _ => a.onState (·.tree)

/-- Write the file at a path, in a directory that is there. -/
def writeHere (t : FileTree) (path : Text) (content : Bytes) : Attempt FileError Empty FileTree :=
  let name := Path.fileName path
  if '\x00' ∈ path then .fail t ⟨.zeroInFile, path⟩
  else
    match t.follow (t.start path) (names path).dropLast with
    | .error fault => .fail t ⟨fault, path⟩
    | .ok place =>
      match t.next place name with
      | .error fault => .fail t ⟨fault, path⟩
      | .ok (place, _) =>
        match t.top.find? place with
        | some (.directory _) => .fail t ⟨.isDirectory, path⟩
        | _ => .done (t.put place (.file content))

/-- Write the file at a path; its directory is made first. -/
def write (t : FileTree) (path : Text) (content : Bytes) : Attempt FileError Empty FileTree :=
  let directory := Path.directory path
  let made := if directory.isEmpty then .done t else t.makeDirectory directory
  made.andThen fun t => t.writeHere path content

/-- The tree with a node put at a path, in place of a directory that is made for it. -/
def mount (t : FileTree) (path : Text) (node : FileNode) : FileTree :=
  let t := (t.makeDirectory path).state
  match t.locate path with
  | .ok place => t.put place node
  | .error _ => t

/-- The files below a directory of `after` that are not in `before`, or not with the same bytes, in
the order of their paths. -/
def changes (before after : FileTree) (directory : Text) : List (Text × Bytes) :=
  (Text.sort (after.filesBelow directory)).filterMap fun path =>
    match before.read path, after.read path with
    | .ok old, .ok new => if old = new then none else some (path, new)
    | _, .ok new => some (path, new)
    | _, .error _ => none

end FileTree

end SvgAssets
