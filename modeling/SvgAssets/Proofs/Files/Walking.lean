/-
# SvgAssets.Proofs.Files.Walking -- which files a walk finds, and in which order

A walk goes through the files of a directory by name and then through its directories by name. What
it finds is told here without a walk: its places are those of all files below the directory, each of
them once, and of two of them the one comes first that `WalksBefore` says (`exists_isWalk`). Since a
place is a list of names and a path a text, it is also shown that the path which the walk puts
together leads to the file at the place (`read_joinAll`).
-/
import Mathlib.Tactic.Choose
import SvgAssets.Proofs.Entries
import SvgAssets.Proofs.Files.Writing

namespace SvgAssets

/-- A file or a directory can have this name. -/
structure IsEntryName (name : Text) : Prop where
  notHere : FileTree.staysHere name = false
  notBack : name ≠ ['.', '.']
  slash : '/' ∉ name
  zero : '\x00' ∉ name
  short : FileTree.isTooLong name = false

instance (name : Text) : Decidable (IsEntryName name) :=
  decidable_of_iff (FileTree.staysHere name = false ∧ name ≠ ['.', '.'] ∧ '/' ∉ name ∧
      '\x00' ∉ name ∧ FileTree.isTooLong name = false)
    ⟨fun ⟨h₁, h₂, h₃, h₄, h₅⟩ => ⟨h₁, h₂, h₃, h₄, h₅⟩,
      fun h => ⟨h.notHere, h.notBack, h.slash, h.zero, h.short⟩⟩

/-- The first file comes before the second one in a walk. Where the ways to them part, files come
before what is in directories, and otherwise names decide. -/
inductive WalksBefore : Place → Place → Prop
  | files {name other : Text} : Text.le name other = true → name ≠ other →
    WalksBefore [name] [other]
  | fileFirst {name other : Text} {q : Place} : q ≠ [] → WalksBefore [name] (other :: q)
  | directories {name other : Text} {p q : Place} : Text.le name other = true → name ≠ other →
    p ≠ [] → q ≠ [] → WalksBefore (name :: p) (other :: q)
  | inside {name : Text} {p q : Place} : WalksBefore p q → WalksBefore (name :: p) (name :: q)

theorem WalksBefore.irrefl (p : Place) : ¬ WalksBefore p p := by
  intro h
  induction p with
  | nil => cases h
  | cons name p ih =>
    cases h with
    | files _ hne => exact hne rfl
    | fileFirst hq => exact hq rfl
    | directories _ hne => exact hne rfl
    | inside h => exact ih h

namespace FileNode

/-- In every directory below a node the names can be names, and no two are the same. -/
structure IsOrderly (node : FileNode) : Prop where
  names : ∀ p entries, node.find? p = some (.directory entries) →
    ∀ e ∈ entries, IsEntryName e.1
  nodup : ∀ p entries, node.find? p = some (.directory entries) → (Entries.names entries).Nodup

theorem isOrderly_file (content : Bytes) : (file content).IsOrderly := by
  constructor <;>
  · intro p entries hp
    cases p <;> cases hp

/-- A directory is orderly if its names are, and what is in it. -/
theorem isOrderly_directory {entries : List (Text × FileNode)}
    (hnames : ∀ e ∈ entries, IsEntryName e.1) (hnodup : (Entries.names entries).Nodup)
    (hbelow : ∀ e ∈ entries, e.2.IsOrderly) : (directory entries).IsOrderly := by
  have hchild {name : Text} {p : Place} {others : List (Text × FileNode)}
      (h : (directory entries).find? (name :: p) = some (.directory others)) :
      ∃ e ∈ entries, e.2.find? p = some (.directory others) := by
    obtain ⟨child, hget, hfind⟩ := Option.bind_eq_some_iff.1 h
    exact ⟨_, Entries.mem_of_get? hget, hfind⟩
  constructor
  · intro p others hp
    cases p with
    | nil => cases hp; exact hnames
    | cons name p =>
      obtain ⟨e, he, hfind⟩ := hchild hp
      exact (hbelow e he).names p others hfind
  · intro p others hp
    cases p with
    | nil => cases hp; exact hnodup
    | cons name p =>
      obtain ⟨e, he, hfind⟩ := hchild hp
      exact (hbelow e he).nodup p others hfind

/-- These are the places of all files below a node, in the order of a walk. -/
structure IsWalk (node : FileNode) (places : List Place) : Prop where
  ordered : places.Pairwise WalksBefore
  mem_iff : ∀ p, p ∈ places ↔ ∃ content, node.find? p = some (.file content)

theorem IsWalk.nodup {node : FileNode} {places : List Place} (h : node.IsWalk places) :
    places.Nodup := by
  refine h.ordered.imp ?_
  rintro p _ hbefore rfl
  exact hbefore.irrefl

/-- Whether a node is a directory. -/
def isDirectory : FileNode → Bool
  | .file _ => false
  | .directory _ => true

section

variable {entries : List (Text × FileNode)}

theorem IsOrderly.child (h : (directory entries).IsOrderly) {name : Text} {child : FileNode}
    (hchild : Entries.get? entries name = some child) : child.IsOrderly := by
  have hfind (p : Place) : (directory entries).find? (name :: p) = child.find? p := by
    rw [find?, hchild]
    rfl
  exact ⟨fun p others hp => h.names (name :: p) others ((hfind p).trans hp),
    fun p others hp => h.nodup (name :: p) others ((hfind p).trans hp)⟩

theorem mem_fileNames_iff {name : Text} :
    name ∈ fileNames entries ↔ ∃ content, (name, .file content) ∈ entries := by
  induction entries with
  | nil => simp [fileNames]
  | cons e rest ih =>
    obtain ⟨other, node⟩ := e
    cases node with
    | file content => simp [fileNames, ih, exists_or]
    | directory others => simp [fileNames, ih]

theorem fileNames_sublist (entries : List (Text × FileNode)) :
    (fileNames entries).Sublist (Entries.names entries) := by
  induction entries with
  | nil => exact .slnil
  | cons e rest ih =>
    obtain ⟨name, node⟩ := e
    cases node with
    | file content => exact ih.cons_cons name
    | directory others => exact ih.cons name

theorem filesByDirectory_eq (path : Text) (entries : List (Text × FileNode)) :
    filesByDirectory path entries = (entries.filter fun e => e.2.isDirectory).map fun e =>
      (e.1, e.2.filesBelow (Path.join path e.1)) := by
  induction entries with
  | nil => rfl
  | cons e rest ih =>
    obtain ⟨name, node⟩ := e
    cases node with
    | file content => exact ih
    | directory others => exact congrArg _ ih

/-- The directories among entries, by name. -/
def subdirectories (entries : List (Text × FileNode)) : List (Text × FileNode) :=
  (entries.filter fun e => e.2.isDirectory).mergeSort fun a b => Text.le a.1 b.1

theorem mem_subdirectories {e : Text × FileNode} :
    e ∈ subdirectories entries ↔ e ∈ entries ∧ e.2.isDirectory = true := by
  rw [subdirectories, List.mem_mergeSort, List.mem_filter]

/-- What is found below a directory: its files, and what is found below its directories. -/
theorem filesBelow_directory (path : Text) (entries : List (Text × FileNode)) :
    (directory entries).filesBelow path =
      (Text.sort (fileNames entries)).map (Path.join path) ++
        (subdirectories entries).flatMap fun e => e.2.filesBelow (Path.join path e.1) := by
  rw [filesBelow, filesByDirectory_eq, subdirectories, ← List.map_mergeSort, List.flatMap_map]
  intro a _ b _
  rfl

/-- Names of files in the order of a walk. -/
theorem pairwise_sort_fileNames (h : (Entries.names entries).Nodup) :
    (Text.sort (fileNames entries)).Pairwise fun name other =>
      Text.le name other = true ∧ name ≠ other :=
  (Text.pairwise_sort _).and ((Text.sort_perm _).nodup_iff.2 (h.sublist (fileNames_sublist _)))

/-- Directories in the order of a walk. -/
theorem pairwise_subdirectories (h : (Entries.names entries).Nodup) :
    (subdirectories entries).Pairwise fun e e' => Text.le e.1 e'.1 = true ∧ e.1 ≠ e'.1 := by
  have hsorted : (subdirectories entries).Pairwise fun e e' => Text.le e.1 e'.1 = true := by
    refine List.pairwise_mergeSort ?_ ?_ _
    · exact fun _ _ _ => Text.le_trans
    · exact fun _ _ => Text.le_total _ _
  refine hsorted.and (List.pairwise_map.1 (?_ : ((subdirectories entries).map Prod.fst).Nodup))
  have hperm := (List.mergeSort_perm (entries.filter fun e => e.2.isDirectory) fun a b =>
    Text.le a.1 b.1).map Prod.fst
  exact hperm.nodup_iff.2 (h.sublist (List.filter_sublist.map _))

/-- The files below a directory are those in it and those below the directories in it. -/
theorem find?_directory_eq_file_iff (h : (Entries.names entries).Nodup) {p : Place} :
    (∃ content, (directory entries).find? p = some (.file content)) ↔
      (∃ name, p = [name] ∧ name ∈ fileNames entries) ∨
        ∃ e ∈ subdirectories entries, ∃ q, p = e.1 :: q ∧
          ∃ content, e.2.find? q = some (.file content) := by
  cases p with
  | nil => simp [find?]
  | cons name q =>
    have hfind (content : Bytes) : (directory entries).find? (name :: q) = some (.file content) ↔
        ∃ child, (name, child) ∈ entries ∧ child.find? q = some (.file content) := by
      simp only [find?, Option.bind_eq_some_iff, Entries.get?_eq_some_iff h]
    simp only [hfind, mem_fileNames_iff, mem_subdirectories]
    constructor
    · rintro ⟨content, child, hchild, hfile⟩
      cases child with
      | file bytes =>
        cases q with
        | nil => exact .inl ⟨name, rfl, bytes, hchild⟩
        | cons => cases hfile
      | directory others => exact .inr ⟨_, ⟨hchild, rfl⟩, q, rfl, content, hfile⟩
    · rintro (⟨other, hp, content, hfile⟩ | ⟨⟨other, child⟩, ⟨hchild, -⟩, q', hp, content, hfile⟩)
      · cases hp
        exact ⟨content, _, hfile, rfl⟩
      · cases hp
        exact ⟨content, child, hchild, hfile⟩

end

/-- **A walk finds each file once, and in order.** -/
theorem exists_isWalk (entries : List (Text × FileNode)) (h : (directory entries).IsOrderly) :
    ∃ places, (directory entries).IsWalk places ∧
      ∀ path, (directory entries).filesBelow path = places.map (Path.joinAll path) := by
  have hnodup : (Entries.names entries).Nodup := h.nodup [] entries rfl
  have hbelow : ∀ e ∈ subdirectories entries, ∃ places, e.2.IsWalk places ∧
      ∀ path, e.2.filesBelow path = places.map (Path.joinAll path) := by
    rintro ⟨name, child⟩ he
    obtain ⟨hmem, hdirectory⟩ := mem_subdirectories.1 he
    cases child with
    | file content => cases hdirectory
    | directory others =>
      have : sizeOf others < sizeOf entries := by
        have hlt := List.sizeOf_lt_of_mem hmem
        simp only [Prod.mk.sizeOf_spec, directory.sizeOf_spec] at hlt
        omega
      exact exists_isWalk others (h.child ((Entries.get?_eq_some_iff hnodup).2 hmem))
  choose! below hwalk hpaths using hbelow
  -- A file in a directory below is not that directory itself.
  have hne : ∀ e ∈ subdirectories entries, ∀ q ∈ below e, q ≠ [] := by
    rintro ⟨name, child⟩ he q hq rfl
    obtain ⟨content, hfile⟩ := ((hwalk _ he).mem_iff []).1 hq
    cases hfile
    cases (mem_subdirectories.1 he).2
  refine ⟨(Text.sort (fileNames entries)).map (fun name => [name]) ++
    (subdirectories entries).flatMap fun e => (below e).map (e.1 :: ·), ⟨?_, ?_⟩, ?_⟩
  · rw [List.pairwise_append, List.pairwise_map, List.pairwise_flatMap]
    refine ⟨(pairwise_sort_fileNames hnodup).imp fun hlt => .files hlt.1 hlt.2, ⟨?_, ?_⟩, ?_⟩
    · exact fun e he => (hwalk e he).ordered.map _ fun _ _ => .inside
    · refine (pairwise_subdirectories hnodup).imp_of_mem ?_
      intro e e' he he' hlt p hp q hq
      obtain ⟨p', hp', rfl⟩ := List.mem_map.1 hp
      obtain ⟨q', hq', rfl⟩ := List.mem_map.1 hq
      exact .directories hlt.1 hlt.2 (hne e he p' hp') (hne e' he' q' hq')
    · intro p hp q hq
      obtain ⟨name, -, rfl⟩ := List.mem_map.1 hp
      obtain ⟨e, he, hq⟩ := List.mem_flatMap.1 hq
      obtain ⟨q', hq', rfl⟩ := List.mem_map.1 hq
      exact .fileFirst (hne e he q' hq')
  · intro p
    rw [find?_directory_eq_file_iff hnodup, List.mem_append, List.mem_map, List.mem_flatMap]
    refine or_congr ?_ ?_
    · simp only [(Text.sort_perm _).mem_iff, and_comm, eq_comm]
    · refine exists_congr fun e => and_congr_right fun he => ?_
      simp only [List.mem_map, (hwalk e he).mem_iff, and_comm, eq_comm]
  · intro path
    rw [filesBelow_directory, List.map_append, List.map_map, List.map_flatMap]
    congr 1
    refine List.flatMap_congr fun e he => ?_
    rw [hpaths e he, List.map_map]
    rfl
termination_by sizeOf entries

end FileNode

/-! ## Paths of a walk -/

namespace FileTree

theorem follow_append {t : FileTree} {p : Place} (path rest : List Text) :
    t.follow p (path ++ rest) = (t.follow p path).bind fun q => t.follow q rest := by
  induction path generalizing p with
  | nil => rfl
  | cons name path ih =>
    rw [List.cons_append, follow, follow]
    split
    · rfl
    · exact ih
    · rfl

section

variable {t : FileTree} {q : Place} {entries : List (Text × FileNode)} {name : Text}

/-- The name of an entry leads to it. -/
theorem follow_entry (hq : t.top.find? q = some (.directory entries)) (hname : IsEntryName name)
    (hentry : (Entries.get? entries name).isSome = true) :
    t.follow q [name] = .ok (q ++ [name]) := by
  have hnext : t.next q name = .ok (q ++ [name], true) := by
    rw [next, hq]
    simp only [hname.notHere, hname.notBack, hname.short, if_false, Bool.false_eq_true, hentry]
  rw [follow, hnext]
  rfl

/-- The names of the path of an entry are those of the directory and that of the entry, which takes
the place of the empty name behind a slash. -/
theorem names_join (hname : IsEntryName name) {path : Text} (hpath : path ≠ []) :
    names (Path.join path name) = names path ++ [name] ∨
      ∃ front, names path = front ++ [[]] ∧ names (Path.join path name) = front ++ [name] := by
  have hrelative : Path.isAbsolute name = false := isAbsolute_of_not_mem hname.slash
  have hsplit (front : Text) : names (front ++ '/' :: name) = names front ++ [name] := by
    rw [names, Text.splitOn_append_cons, Text.splitOn_eq_singleton hname.slash]
    rfl
  rw [Path.join, hrelative, if_neg Bool.false_ne_true]
  split
  · rename_i hopen
    obtain ⟨front, rfl⟩ := List.getLast?_eq_some_iff.1 (hopen.resolve_left (by simpa using hpath))
    refine .inr ⟨names front, ?_, ?_⟩
    · exact Text.splitOn_append_cons front []
    · rw [List.append_assoc]
      exact hsplit front
  · exact .inl (hsplit path)

theorem follow_join {p : Place} {path : Text} (hpath : path ≠ [])
    (hfollow : t.follow p (names path) = .ok q) (hname : IsEntryName name) :
    t.follow p (names (Path.join path name)) = t.follow q [name] := by
  rcases names_join hname hpath with hnames | ⟨front, hfront, hnames⟩
  · rw [hnames, follow_append, hfollow]
    rfl
  · rw [hnames, follow_append]
    rw [hfront, follow_append] at hfollow
    cases hr : t.follow p front with
    | error fault =>
      rw [hr] at hfollow
      cases hfollow
    | ok r =>
      rw [hr] at hfollow
      -- The empty name stays where it is.
      replace hfollow : t.follow r [[]] = .ok q := hfollow
      have hstay : r = q := by
        rw [eq_foldl_of_follow hfollow]
        rfl
      rw [hstay]
      rfl

/-- The path of an entry is that of its directory with its name behind it. -/
theorem locate_join {path : Text} (hpath : t.locate path = .ok q)
    (hq : t.top.find? q = some (.directory entries)) (hname : IsEntryName name)
    (hentry : (Entries.get? entries name).isSome = true) :
    t.locate (Path.join path name) = .ok (q ++ [name]) := by
  obtain ⟨hne, hzero, hfollow⟩ := locate_eq_ok_iff.1 hpath
  have hrelative : Path.isAbsolute name = false := isAbsolute_of_not_mem hname.slash
  have hstart : t.start (Path.join path name) = t.start path := by
    have habsolute : Path.isAbsolute (Path.join path name) = Path.isAbsolute path := by
      obtain ⟨c, rest, rfl⟩ := List.exists_cons_of_ne_nil hne
      rw [Path.join, hrelative, if_neg Bool.false_ne_true]
      split <;> rfl
    rw [start, start, habsolute]
  refine locate_eq_ok_iff.2 ⟨?_, ?_, ?_⟩
  · rw [Path.join, hrelative, if_neg Bool.false_ne_true]
    split <;> simp [hne]
  · rw [Path.join, hrelative, if_neg Bool.false_ne_true]
    split <;> simp [hzero, hname.zero]
  · rw [hstart, follow_join hne hfollow hname, follow_entry hq hname hentry]

end

/-- **The paths of a walk lead to what it finds.** -/
theorem locate_joinAll {t : FileTree} {p q : Place} {path : Text} {node : FileNode}
    (hpath : t.locate path = .ok q) (hq : t.top.find? q = some node) (horderly : node.IsOrderly)
    (hp : (node.find? p).isSome = true) : t.locate (Path.joinAll path p) = .ok (q ++ p) := by
  induction p generalizing path q node with
  | nil => rw [List.append_nil]; exact hpath
  | cons name p ih =>
    cases node with
    | file content => cases hp
    | directory entries =>
      rw [FileNode.find?] at hp
      cases hentry : Entries.get? entries name with
      | none =>
        rw [hentry] at hp
        cases hp
      | some child =>
        rw [hentry] at hp
        have hname : IsEntryName name :=
          horderly.names [] entries rfl (name, child) (Entries.mem_of_get? hentry)
        have hchild : t.top.find? (q ++ [name]) = some child := by
          rw [FileNode.find?_append_singleton hq, hentry]
        have hjoin := locate_join hpath hq hname (by rw [hentry]; rfl)
        have hrest := ih hjoin hchild (horderly.child hentry) hp
        rwa [List.append_assoc, List.singleton_append] at hrest

/-- What a walk finds is read through its path. -/
theorem read_joinAll {t : FileTree} {p q : Place} {path : Text} {node : FileNode} {content : Bytes}
    (hpath : t.locate path = .ok q) (hq : t.top.find? q = some node) (horderly : node.IsOrderly)
    (hp : node.find? p = some (.file content)) :
    t.read (Path.joinAll path p) = .ok content := by
  have hfile : t.top.find? (q ++ p) = some (.file content) := by
    rw [FileNode.find?_append, hq]
    exact hp
  exact read_eq_ok_iff.2 ⟨_, locate_joinAll hpath hq horderly (by rw [hp]; rfl), hfile⟩

end FileTree

end SvgAssets
