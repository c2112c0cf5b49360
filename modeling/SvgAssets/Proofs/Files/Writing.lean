/-
# SvgAssets.Proofs.Files.Writing -- what a write leaves as it is

A path leads to a place that its names alone decide, as long as it leads anywhere (`placeOf`). A
write puts the file at this place, where the path finds it afterwards (`read_write`). Whatever
becomes of it, a write makes directories at most where nothing was, no file at another place changes
(`keeps_write`), and none comes in there (`addsAt_write`). So a file can be read through every path
to it until another write goes to the same place.
-/
import SvgAssets.Files.Tree
import SvgAssets.Proofs.Text.Scanning
import SvgAssets.Proofs.Text.Splitting

namespace SvgAssets

/-! ## Places below a node -/

namespace FileNode

theorem find?_append (node : FileNode) (p q : Place) :
    node.find? (p ++ q) = (node.find? p).bind fun below => below.find? q := by
  induction p generalizing node with
  | nil => rfl
  | cons name p ih =>
    cases node with
    | file content => rfl
    | directory entries =>
      simp only [List.cons_append, find?]
      cases Entries.get? entries name with
      | none => rfl
      | some child => exact ih child

/-- There is nothing below a file. -/
theorem find?_append_cons_of_file {node : FileNode} {p q : Place} {content : Bytes} {name : Text}
    (h : node.find? p = some (.file content)) : node.find? (p ++ name :: q) = none := by
  rw [find?_append, h]
  rfl

theorem find?_append_singleton {node : FileNode} {p : Place} {entries : List (Text × FileNode)}
    (h : node.find? p = some (.directory entries)) (name : Text) :
    node.find? (p ++ [name]) = Entries.get? entries name := by
  rw [find?_append, h]
  cases hget : Entries.get? entries name with
  | none => simp [find?, hget]
  | some child => simp [find?, hget]

theorem isOpen_append_singleton {node : FileNode} {p : Place} {entries : List (Text × FileNode)}
    (h : node.find? p = some (.directory entries)) (name : Text) :
    node.isOpen (p ++ [name]) = true := by
  induction p generalizing node with
  | nil =>
    cases h
    simp only [List.nil_append, isOpen]
    cases Entries.get? entries name <;> rfl
  | cons first p ih =>
    cases node with
    | file content => cases h
    | directory others =>
      simp only [find?] at h
      cases hget : Entries.get? others first with
      | none =>
        rw [hget] at h
        cases h
      | some child =>
        rw [hget] at h
        simp only [List.cons_append, isOpen, hget]
        exact ih h

/-- What is put below a directory leaves the directory there. -/
theorem exists_find?_put_above {node new : FileNode} {p q : Place} {name : Text}
    {entries : List (Text × FileNode)} (h : node.find? p = some (.directory entries)) :
    ∃ others, (node.put (p ++ name :: q) new).find? p = some (.directory others) := by
  induction p generalizing node with
  | nil =>
    cases h
    exact ⟨_, rfl⟩
  | cons first p ih =>
    cases node with
    | file content => cases h
    | directory others =>
      simp only [find?] at h
      cases hget : Entries.get? others first with
      | none =>
        rw [hget] at h
        cases h
      | some child =>
        rw [hget] at h
        obtain ⟨e, he⟩ := ih h
        refine ⟨e, ?_⟩
        simpa [put, find?, hget] using he

theorem find?_directory_nil_ne_file {p : Place} {content : Bytes} :
    find? (.directory []) p ≠ some (.file content) := by
  cases p <;> nofun

/-- A file that is there behind a change was there before, or it came in by the change. -/
theorem file_of_put {node new : FileNode} {place p : Place} {content : Bytes}
    (h : (node.put place new).find? p = some (.file content)) :
    node.find? p = some (.file content) ∨
      ∃ q, p = place ++ q ∧ new.find? q = some (.file content) := by
  induction place generalizing node p with
  | nil => exact .inr ⟨p, rfl, h⟩
  | cons name place ih =>
    cases node with
    | file content' => exact .inl h
    | directory entries =>
      cases p with
      | nil => cases h
      | cons other p =>
        simp only [put, find?] at h ⊢
        by_cases hname : other = name
        · subst hname
          rw [Entries.get?_set_self, Option.bind_some] at h
          refine (ih h).imp (fun hchild => ?_) ?_
          · cases hget : Entries.get? entries other with
            | some child =>
              rw [hget] at hchild
              exact hchild
            | none =>
              rw [hget] at hchild
              exact absurd hchild find?_directory_nil_ne_file
          · rintro ⟨q, rfl, hq⟩
            exact ⟨q, rfl, hq⟩
        · rw [Entries.get?_set_of_ne _ _ hname] at h
          exact .inl h

end FileNode

namespace FileTree

/-! ## What is kept -/

/-- There is a directory at a place. -/
def IsDirectoryAt (t : FileTree) (p : Place) : Prop :=
  ∃ entries, t.top.find? p = some (.directory entries)

/-- Above a directory there are directories. -/
theorem IsDirectoryAt.of_append {t : FileTree} {p q : Place} (h : t.IsDirectoryAt (p ++ q)) :
    t.IsDirectoryAt p := by
  obtain ⟨entries, h⟩ := h
  cases q with
  | nil => exact ⟨entries, by rwa [List.append_nil] at h⟩
  | cons name q =>
    cases hp : t.top.find? p with
    | none =>
      rw [FileNode.find?_append, hp] at h
      cases h
    | some node =>
      cases node with
      | file content =>
        rw [FileNode.find?_append_cons_of_file hp] at h
        cases h
      | directory others => exact ⟨others, hp⟩

/-- Everything of a tree is still there in another one, and all files but the one at a place are the
same. -/
structure Keeps (q : Place) (t t' : FileTree) : Prop where
  current : t'.current = t.current
  directory : ∀ p, t.IsDirectoryAt p → t'.IsDirectoryAt p
  isSome : ∀ p, (t.top.find? p).isSome → (t'.top.find? p).isSome
  file : ∀ p content, p ≠ q → t.top.find? p = some (.file content) →
    t'.top.find? p = some (.file content)

theorem Keeps.refl (q : Place) (t : FileTree) : Keeps q t t :=
  ⟨rfl, fun _ => id, fun _ => id, fun _ _ _ => id⟩

theorem Keeps.trans {q : Place} {t t' t'' : FileTree} (h : Keeps q t t') (h' : Keeps q t' t'') :
    Keeps q t t'' where
  current := h'.current.trans h.current
  directory p hp := h'.directory p (h.directory p hp)
  isSome p hp := h'.isSome p (h.isSome p hp)
  file p content hne hp := h'.file p content hne (h.file p content hne hp)

section

variable {t : FileTree} {p : Place} {name : Text} {n : FileNode}

theorem find?_put_place (hp : t.IsDirectoryAt p) :
    (t.put (p ++ [name]) n).top.find? (p ++ [name]) = some n := by
  obtain ⟨entries, hp⟩ := hp
  exact FileNode.find?_put_self (FileNode.isOpen_append_singleton hp name)

/-- What is put into a directory, where no directory is, changes nothing at other places. -/
theorem find?_put_of_ne (hp : t.IsDirectoryAt p) (hfree : ¬ t.IsDirectoryAt (p ++ [name]))
    {o : Place} (hne : o ≠ p ++ [name]) (ho : (t.top.find? o).isSome) :
    (t.put (p ++ [name]) n).top.find? o = t.top.find? o ∨
      t.IsDirectoryAt o ∧ (t.put (p ++ [name]) n).IsDirectoryAt o := by
  by_cases hbelow : p ++ [name] <+: o
  · -- Nothing stands below a place where no directory is.
    exfalso
    obtain ⟨rest, rfl⟩ := hbelow
    cases rest with
    | nil => exact hne (List.append_nil _)
    | cons first rest =>
      obtain ⟨node, hnode⟩ := Option.isSome_iff_exists.1 ho
      rw [FileNode.find?_append] at hnode
      cases hplace : t.top.find? (p ++ [name]) with
      | none =>
        rw [hplace] at hnode
        cases hnode
      | some found =>
        cases found with
        | file content =>
          rw [hplace] at hnode
          cases hnode
        | directory entries => exact hfree ⟨entries, hplace⟩
  · by_cases habove : o <+: p ++ [name]
    · right
      rcases List.prefix_concat_iff.1 habove with rfl | ⟨rest, rfl⟩
      · exact absurd rfl hne
      · have hdirectory := hp.of_append
        refine ⟨hdirectory, ?_⟩
        obtain ⟨entries, hentries⟩ := hdirectory
        obtain ⟨first, others, hbehind⟩ : ∃ first others, rest ++ [name] = first :: others :=
          List.exists_cons_of_ne_nil (by simp)
        rw [List.append_assoc, hbehind]
        exact FileNode.exists_find?_put_above hentries
    · exact .inl (FileNode.find?_put_of_not_related hbelow habove)

theorem keeps_put (hp : t.IsDirectoryAt p) (hfree : ¬ t.IsDirectoryAt (p ++ [name])) :
    Keeps (p ++ [name]) t (t.put (p ++ [name]) n) where
  current := rfl
  directory o ho := by
    have hne : o ≠ p ++ [name] := by
      rintro rfl
      exact hfree ho
    obtain ⟨entries, hentries⟩ := ho
    rcases find?_put_of_ne (n := n) hp hfree hne (by rw [hentries]; rfl) with h | ⟨-, h⟩
    · exact ⟨entries, h.trans hentries⟩
    · exact h
  isSome o ho := by
    by_cases hne : o = p ++ [name]
    · rw [hne, find?_put_place hp]
      rfl
    · rcases find?_put_of_ne (n := n) hp hfree hne ho with h | ⟨-, _, h⟩
      · rwa [h]
      · rw [h]
        rfl
  file o content hne ho := by
    rcases find?_put_of_ne (n := n) hp hfree hne (by rw [ho]; rfl) with h | ⟨⟨_, h⟩, -⟩
    · rw [h, ho]
    · rw [ho] at h
      cases h

/-- Where nothing was, what is put in changes no file. -/
theorem keeps_put_of_none (hp : t.IsDirectoryAt p) (hnone : t.top.find? (p ++ [name]) = none)
    (q : Place) : Keeps q t (t.put (p ++ [name]) n) := by
  have hfree : ¬ t.IsDirectoryAt (p ++ [name]) := by
    rintro ⟨entries, h⟩
    rw [hnone] at h
    cases h
  obtain ⟨hcurrent, hdirectory, hisSome, hfile⟩ := keeps_put (n := n) hp hfree
  refine ⟨hcurrent, hdirectory, hisSome, fun o content _ ho => hfile o content ?_ ho⟩
  rintro rfl
  rw [hnone] at ho
  cases ho

end

/-! ## Places of paths -/

/-- The place that a name leads to. -/
def stepPlace (p : Place) (name : Text) : Place :=
  if staysHere name then p else if name = ['.', '.'] then p.dropLast else p ++ [name]

/-- The place that a path leads to, if it leads anywhere. -/
def placeOf (t : FileTree) (path : Text) : Place := (names path).foldl stepPlace (t.start path)

/-- Going on by a name leaves a directory, and where the name is an ordinary one it says whether
there is anything. -/
theorem next_eq_ok {t : FileTree} {p p' : Place} {name : Text} {found : Bool}
    (h : t.next p name = .ok (p', found)) :
    t.IsDirectoryAt p ∧ p' = stepPlace p name ∧
      (t.IsDirectoryAt p' ∧ found = true ∨
        p' = p ++ [name] ∧ found = (t.top.find? (p ++ [name])).isSome) := by
  unfold next at h
  split at h
  · rename_i entries hentries
    have hp : t.IsDirectoryAt p := ⟨entries, hentries⟩
    unfold stepPlace
    split at h
    · rename_i hstays
      cases h
      exact ⟨hp, (if_pos hstays).symm, .inl ⟨hp, rfl⟩⟩
    · rename_i hstays
      rw [if_neg hstays]
      split at h
      · rename_i hback
        cases h
        refine ⟨hp, (if_pos hback).symm, .inl ⟨?_, rfl⟩⟩
        rcases List.eq_nil_or_concat p with rfl | ⟨front, last, rfl⟩
        · exact hp
        · rw [List.concat_eq_append, List.dropLast_concat]
          rw [List.concat_eq_append] at hp
          exact hp.of_append
      · rename_i hback
        split at h
        · cases h
        · cases h
          rw [if_neg hback, FileNode.find?_append_singleton hentries]
          exact ⟨hp, rfl, .inr ⟨rfl, rfl⟩⟩
  · cases h

theorem eq_foldl_of_follow {t : FileTree} {p p' : Place} {path : List Text}
    (h : t.follow p path = .ok p') : p' = path.foldl stepPlace p := by
  induction path generalizing p with
  | nil =>
    cases h
    rfl
  | cons name path ih =>
    rw [follow] at h
    split at h
    · cases h
    · rename_i q hnext
      rw [List.foldl_cons, ← (next_eq_ok hnext).2.1]
      exact ih h
    · cases h

theorem IsDirectoryAt.isSome {t : FileTree} {p : Place} (h : t.IsDirectoryAt p) :
    (t.top.find? p).isSome = true := by
  obtain ⟨entries, h⟩ := h
  rw [h]
  rfl

/-- A name leads to the same place later on, and what is there then is found. -/
theorem next_of_keeps {q : Place} {t t' : FileTree} (hkeeps : Keeps q t t') {p p' : Place}
    {name : Text} {found : Bool} (h : t.next p name = .ok (p', found))
    (hthere : (t'.top.find? p').isSome = true) : t'.next p name = .ok (p', true) := by
  obtain ⟨others, hothers⟩ := hkeeps.directory p (next_eq_ok h).1
  obtain ⟨entries, hentries⟩ := (next_eq_ok h).1
  unfold next at h ⊢
  rw [hentries] at h
  rw [hothers]
  simp only at h ⊢
  split at h
  · rename_i hstays
    cases h
    rw [if_pos hstays]
  · rename_i hstays
    rw [if_neg hstays]
    split at h
    · rename_i hback
      cases h
      rw [if_pos hback]
    · rename_i hback
      rw [if_neg hback]
      split at h
      · cases h
      · rename_i hlong
        cases h
        rw [if_neg hlong, ← FileNode.find?_append_singleton hothers, hthere]

theorem follow_of_keeps {q : Place} {t t' : FileTree} (hkeeps : Keeps q t t') {p p' : Place}
    {path : List Text} (h : t.follow p path = .ok p') : t'.follow p path = .ok p' := by
  induction path generalizing p with
  | nil => exact h
  | cons name path ih =>
    rw [follow] at h ⊢
    split at h
    · cases h
    · rename_i r hnext
      have hthere : (t.top.find? r).isSome = true := by
        rcases (next_eq_ok hnext).2.2 with ⟨hr, -⟩ | ⟨rfl, hfound⟩
        · exact hr.isSome
        · exact hfound.symm
      rw [next_of_keeps hkeeps hnext (hkeeps.isSome r hthere)]
      exact ih h
    · cases h

theorem follow_append_singleton {t : FileTree} {p p' : Place} {path : List Text} {name : Text}
    (h : t.follow p path = .ok p') {p'' : Place} (hnext : t.next p' name = .ok (p'', true)) :
    t.follow p (path ++ [name]) = .ok p'' := by
  induction path generalizing p with
  | nil =>
    cases h
    rw [List.nil_append, follow, hnext]
    rfl
  | cons first path ih =>
    rw [follow] at h
    rw [List.cons_append, follow]
    split at h
    · cases h
    · exact ih h
    · cases h

theorem placeOf_of_keeps {q : Place} {t t' : FileTree} (h : Keeps q t t') (path : Text) :
    t'.placeOf path = t.placeOf path := by
  rw [placeOf, placeOf, start, start, h.current]

theorem locate_eq_ok_iff {t : FileTree} {path : Text} {p : Place} : t.locate path = .ok p ↔
    path ≠ [] ∧ '\x00' ∉ path ∧ t.follow (t.start path) (names path) = .ok p := by
  unfold locate
  split
  · rename_i hempty
    simp [List.isEmpty_iff.1 hempty]
  · rename_i hempty
    rw [List.isEmpty_iff] at hempty
    split
    · rename_i hzero
      simp [hzero]
    · rename_i hzero
      simp [hzero, hempty]

/-- A path that leads somewhere leads to its place. -/
theorem eq_placeOf_of_locate {t : FileTree} {path : Text} {p : Place}
    (h : t.locate path = .ok p) : p = t.placeOf path :=
  eq_foldl_of_follow (locate_eq_ok_iff.1 h).2.2

theorem locate_of_keeps {q : Place} {t t' : FileTree} (hkeeps : Keeps q t t') {path : Text}
    {p : Place} (h : t.locate path = .ok p) : t'.locate path = .ok p := by
  obtain ⟨hne, hzero, hfollow⟩ := locate_eq_ok_iff.1 h
  have hstart : t'.start path = t.start path := by
    rw [start, start, hkeeps.current]
  exact locate_eq_ok_iff.2 ⟨hne, hzero, hstart ▸ follow_of_keeps hkeeps hfollow⟩

theorem read_eq_ok_iff {t : FileTree} {path : Text} {content : Bytes} :
    t.read path = .ok content ↔
      ∃ p, t.locate path = .ok p ∧ t.top.find? p = some (.file content) := by
  unfold read
  cases t.locate path with
  | error fault => simp
  | ok p =>
    simp only [Except.ok.injEq, exists_eq_left']
    split <;> simp_all

/-- A file at another place is read as before. -/
theorem Keeps.read_eq {q : Place} {t t' : FileTree} (h : Keeps q t t') {path : Text}
    {content : Bytes} (hread : t.read path = .ok content) (hne : t.placeOf path ≠ q) :
    t'.read path = .ok content := by
  obtain ⟨p, hlocate, hfile⟩ := read_eq_ok_iff.1 hread
  rw [← eq_placeOf_of_locate hlocate] at hne
  exact read_eq_ok_iff.2 ⟨p, locate_of_keeps h hlocate, h.file p content hne hfile⟩

/-! ### The last name of a path -/

theorem exists_slash (path : Text) :
    '/' ∉ path ∨ ∃ front name, path = front ++ '/' :: name ∧ '/' ∉ name := by
  induction path with
  | nil => exact .inl List.not_mem_nil
  | cons c path ih =>
    rcases ih with h | ⟨front, name, rfl, h⟩
    · by_cases hc : c = '/'
      · exact .inr ⟨[], path, by rw [hc]; rfl, h⟩
      · exact .inl fun hmem => (List.mem_cons.1 hmem).elim (fun he => hc he.symm) h
    · exact .inr ⟨c :: front, name, rfl, h⟩

theorem fileName_append_cons {name : Text} (h : '/' ∉ name) (front : Text) :
    Path.fileName (front ++ '/' :: name) = name := by
  have hrun := Text.run_append_cons (q := (· != '/')) (t := front.reverse) (w := name.reverse)
    (c := '/') (fun c hc => by
      rw [bne_iff_ne]
      rintro rfl
      exact h (List.mem_reverse.1 hc)) rfl
  rw [Text.run, Prod.mk.injEq] at hrun
  rw [Path.fileName, List.reverse_append, List.reverse_cons, List.append_assoc,
    List.singleton_append, hrun.1, List.reverse_reverse]

theorem fileName_of_not_mem {path : Text} (h : '/' ∉ path) : Path.fileName path = path := by
  have hrun : Text.run (· != '/') path.reverse = (path.reverse, []) := by
    refine Text.run_eq_iff.2 ⟨(List.append_nil _).symm, fun c hc => ?_, by simp⟩
    rw [bne_iff_ne]
    rintro rfl
    exact h (List.mem_reverse.1 hc)
  rw [Text.run, Prod.mk.injEq] at hrun
  rw [Path.fileName, hrun.1, List.reverse_reverse]

/-- A text without slashes is no absolute path. -/
theorem isAbsolute_of_not_mem {name : Text} (h : '/' ∉ name) : Path.isAbsolute name = false := by
  cases name with
  | nil => rfl
  | cons c name =>
    rw [List.mem_cons, not_or] at h
    simpa [Path.isAbsolute] using Ne.symm h.1

theorem fileName_join {name : Text} (h : '/' ∉ name) (directory : Text) :
    Path.fileName (Path.join directory name) = name := by
  rw [Path.join, isAbsolute_of_not_mem h, if_neg Bool.false_ne_true]
  split
  · rename_i hopen
    rcases hopen with hempty | hslash
    · rw [List.isEmpty_iff.1 hempty]
      exact fileName_of_not_mem h
    · obtain ⟨front, rfl⟩ := List.getLast?_eq_some_iff.1 hslash
      rw [List.append_assoc]
      exact fileName_append_cons h front
  · exact fileName_append_cons h directory

/-- What ends a path, and holds no slash, ends its last name. -/
theorem suffix_fileName {s path : Text} (h : s <:+ path) (hslash : '/' ∉ s) :
    s <:+ Path.fileName path := by
  rcases exists_slash path with hpath | ⟨front, name, rfl, hname⟩
  · rwa [fileName_of_not_mem hpath]
  · rw [fileName_append_cons hname]
    rcases List.suffix_or_suffix_of_suffix h (List.suffix_append front ('/' :: name)) with h | h
    · rcases List.suffix_cons_iff.1 h with rfl | h
      · exact absurd (List.mem_cons_self ..) hslash
      · exact h
    · exact absurd (h.subset (List.mem_cons_self ..)) hslash

theorem names_eq (path : Text) : names path = (names path).dropLast ++ [Path.fileName path] := by
  rcases exists_slash path with h | ⟨front, name, rfl, h⟩
  · rw [names, Text.splitOn_eq_singleton h, fileName_of_not_mem h]
    rfl
  · rw [names, Text.splitOn_append_cons, Text.splitOn_eq_singleton h, fileName_append_cons h,
      List.dropLast_concat]

/-- A path ends at the place that its last name has in the directory in front of it. -/
theorem placeOf_eq (t : FileTree) (path : Text) :
    t.placeOf path =
      stepPlace ((names path).dropLast.foldl stepPlace (t.start path)) (Path.fileName path) := by
  rw [placeOf]
  conv => lhs; rw [names_eq, List.foldl_append]
  rfl

/-- Paths to the same place have the same last name, if it is an ordinary one. -/
theorem getLast?_placeOf {path : Text} (hstays : staysHere (Path.fileName path) = false)
    (hback : Path.fileName path ≠ ['.', '.']) (t : FileTree) :
    (t.placeOf path).getLast? = some (Path.fileName path) := by
  rw [placeOf_eq, stepPlace, hstays, if_neg Bool.false_ne_true, if_neg hback,
    List.getLast?_concat]

/-- A last name that does not end in a full stop is an ordinary one. -/
theorem getLast?_placeOf_of_getLast? {path : Text} {c : Char}
    (h : (Path.fileName path).getLast? = some c) (hc : c ≠ '.') (t : FileTree) :
    (t.placeOf path).getLast? = some (Path.fileName path) := by
  refine getLast?_placeOf ?_ ?_ t
  · rw [← Bool.not_eq_true]
    intro hstays
    simp only [staysHere, Bool.or_eq_true, List.isEmpty_iff, beq_iff_eq] at hstays
    rcases hstays with he | he
    · rw [he] at h
      cases h
    · rw [he] at h
      cases h
      exact hc rfl
  · intro he
    rw [he] at h
    cases h
    exact hc rfl

/-! ## Writing -/

theorem keeps_enter (q : Place) (w : Way) (name : Text) :
    Keeps q w.tree (w.enter name).state.tree := by
  unfold Way.enter
  simp only
  split
  · exact .refl q _
  · split
    · exact .refl q _
    · exact .refl q _
    · rename_i p hnext
      obtain ⟨hdirectory, -, ⟨-, hfound⟩ | ⟨rfl, hfound⟩⟩ := next_eq_ok hnext
      · cases hfound
      · exact keeps_put_of_none hdirectory (Option.isSome_eq_false_iff.1 hfound.symm |>
          Option.isNone_iff_eq_none.1) q

theorem keeps_makeDirectory (q : Place) (t : FileTree) (path : Text) :
    Keeps q t (t.makeDirectory path).state := by
  have hway : Keeps q t
      (Attempt.forEach Way.enter ⟨t, none, t.start path⟩ (names path)).state.tree := by
    refine Attempt.forEach_preserves (P := fun w : Way => Keeps q t w.tree) ?_ (.refl q t)
    exact fun name _ w hw => hw.trans (keeps_enter q w name)
  unfold makeDirectory
  simp only
  split
  · exact hway
  · exact hway

/-- A write in a directory that is there fails and changes nothing, or the path leads to a directory
and the file is put there under its last name, which is an ordinary one. -/
theorem writeHere_cases (t : FileTree) (path : Text) (content : Bytes) :
    (∃ e, t.writeHere path content = .fail t e) ∨
      ∃ p, '\x00' ∉ path ∧ t.follow (t.start path) (names path).dropLast = .ok p ∧
        t.IsDirectoryAt p ∧ ¬ t.IsDirectoryAt (p ++ [Path.fileName path]) ∧
        (∃ found, t.next p (Path.fileName path) = .ok (p ++ [Path.fileName path], found)) ∧
        t.writeHere path content = .done (t.put (p ++ [Path.fileName path]) (.file content)) := by
  unfold writeHere
  simp only
  split
  · exact .inl ⟨_, rfl⟩
  · rename_i hzero
    split
    · exact .inl ⟨_, rfl⟩
    · rename_i p hfollow
      split
      · exact .inl ⟨_, rfl⟩
      · rename_i p' found hnext
        split
        · exact .inl ⟨_, rfl⟩
        · rename_i hfree
          have hfree : ¬ t.IsDirectoryAt p' := by
            rintro ⟨entries, h⟩
            exact hfree entries h
          obtain ⟨hdirectory, -, ⟨h, -⟩ | ⟨rfl, -⟩⟩ := next_eq_ok hnext
          · exact absurd h hfree
          · exact .inr ⟨p, hzero, hfollow, hdirectory, hfree, ⟨found, hnext⟩, rfl⟩

theorem placeOf_of_writeHere {t : FileTree} {path : Text} {p p' : Place} {found : Bool}
    (hfollow : t.follow (t.start path) (names path).dropLast = .ok p)
    (hnext : t.next p (Path.fileName path) = .ok (p', found)) : t.placeOf path = p' := by
  rw [placeOf_eq, ← eq_foldl_of_follow hfollow, (next_eq_ok hnext).2.1]

theorem keeps_writeHere (t : FileTree) (path : Text) (content : Bytes) :
    Keeps (t.placeOf path) t (t.writeHere path content).state := by
  rcases t.writeHere_cases path content with ⟨e, h⟩ | ⟨p, -, hfollow, hp, hfree, ⟨_, hnext⟩, h⟩
  · rw [h]
    exact .refl _ t
  · rw [h, placeOf_of_writeHere hfollow hnext]
    exact keeps_put hp hfree

theorem read_writeHere {t : FileTree} {path : Text} {content : Bytes}
    (h : (t.writeHere path content).failure = none) :
    (t.writeHere path content).state.read path = .ok content := by
  have hkeeps := t.keeps_writeHere path content
  rcases t.writeHere_cases path content with
    ⟨e, he⟩ | ⟨p, hzero, hfollow, hp, hfree, ⟨found, hnext⟩, he⟩
  · rw [he] at h
    cases h
  · rw [he] at hkeeps ⊢
    change Keeps _ t (t.put (p ++ [Path.fileName path]) (.file content)) at hkeeps
    have hplace : (t.put (p ++ [Path.fileName path]) (.file content)).top.find?
        (p ++ [Path.fileName path]) = some (.file content) := find?_put_place hp
    have hempty : path.isEmpty = false := by
      rw [← Bool.not_eq_true, List.isEmpty_iff]
      rintro rfl
      -- The empty path leads to the directory itself.
      have hlength := congrArg List.length (next_eq_ok hnext).2.1
      simp [stepPlace, staysHere, Path.fileName] at hlength
    have hfound := follow_append_singleton (follow_of_keeps hkeeps hfollow)
      (next_of_keeps hkeeps hnext (by rw [hplace]; rfl))
    rw [← names_eq] at hfound
    have hlocate : (t.put (p ++ [Path.fileName path]) (.file content)).locate path =
        .ok (p ++ [Path.fileName path]) := by
      rw [locate, hempty, if_neg Bool.false_ne_true, if_neg hzero]
      exact hfound
    show read (t.put (p ++ [Path.fileName path]) (.file content)) path = _
    rw [read, hlocate]
    simp only [hplace]

/-- **Writing changes one file at most.** Whether a write succeeds or not, everything that was there
is still there, and the files at other places are the same. -/
theorem keeps_write (t : FileTree) (path : Text) (content : Bytes) :
    Keeps (t.placeOf path) t (t.write path content).state := by
  unfold write
  refine Attempt.andThen_preserves (P := fun t' => Keeps (t.placeOf path) t t') ?_ ?_
  · split
    · exact .refl _ t
    · exact keeps_makeDirectory _ t _
  · intro t' ht'
    have hkeeps := t'.keeps_writeHere path content
    rw [placeOf_of_keeps ht'] at hkeeps
    exact ht'.trans hkeeps

/-- What was written is read back. -/
theorem read_write {t : FileTree} {path : Text} {content : Bytes}
    (h : (t.write path content).failure = none) :
    (t.write path content).state.read path = .ok content := by
  unfold write at h ⊢
  rw [Attempt.failure_andThen_eq_none_iff] at h
  rw [Attempt.state_andThen_of_none h.1]
  exact read_writeHere h.2

/-- A file is still a file behind a write, also if the write is to it. -/
theorem exists_read_write {t : FileTree} {path other : Text} {bytes content : Bytes}
    (hread : t.read path = .ok bytes) (h : (t.write other content).failure = none) :
    ∃ bytes', (t.write other content).state.read path = .ok bytes' := by
  have hkeeps := t.keeps_write other content
  by_cases hplace : t.placeOf path = t.placeOf other
  · obtain ⟨p, hlocate, -⟩ := read_eq_ok_iff.1 hread
    obtain ⟨p', hlocate', hfile⟩ := read_eq_ok_iff.1 (read_write h)
    rw [eq_placeOf_of_locate hlocate', placeOf_of_keeps hkeeps, ← hplace,
      ← eq_placeOf_of_locate hlocate] at hfile
    exact ⟨content, read_eq_ok_iff.2 ⟨p, locate_of_keeps hkeeps hlocate, hfile⟩⟩
  · exact ⟨bytes, hkeeps.read_eq hread hplace⟩

/-! ## Files that come in -/

/-- Every file of a tree that is not at a place is a file of another one. -/
def AddsAt (q : Place) (t t' : FileTree) : Prop :=
  ∀ p content, p ≠ q → t'.top.find? p = some (.file content) →
    t.top.find? p = some (.file content)

theorem AddsAt.refl (q : Place) (t : FileTree) : AddsAt q t t := fun _ _ _ => id

theorem AddsAt.trans {q : Place} {t t' t'' : FileTree} (h : AddsAt q t t') (h' : AddsAt q t' t'') :
    AddsAt q t t'' :=
  fun p content hne hp => h p content hne (h' p content hne hp)

theorem addsAt_put_directory (q p : Place) (t : FileTree) :
    AddsAt q t (t.put p (.directory [])) := by
  intro p' content _ hp'
  rcases FileNode.file_of_put hp' with h | ⟨q', -, hq'⟩
  · exact h
  · exact absurd hq' FileNode.find?_directory_nil_ne_file

theorem addsAt_put_file (q : Place) (t : FileTree) (content : Bytes) :
    AddsAt q t (t.put q (.file content)) := by
  intro p content' hne hp
  rcases FileNode.file_of_put hp with h | ⟨q', rfl, hq'⟩
  · exact h
  · cases q' with
    | nil => exact absurd (List.append_nil q) hne
    | cons => cases hq'

theorem addsAt_makeDirectory (q : Place) (t : FileTree) (path : Text) :
    AddsAt q t (t.makeDirectory path).state := by
  have henter (w : Way) (name : Text) : AddsAt q w.tree (w.enter name).state.tree := by
    unfold Way.enter
    simp only
    split
    · exact .refl q _
    · split
      · exact .refl q _
      · exact .refl q _
      · exact addsAt_put_directory q _ _
  have hway : AddsAt q t
      (Attempt.forEach Way.enter ⟨t, none, t.start path⟩ (names path)).state.tree := by
    refine Attempt.forEach_preserves (P := fun w : Way => AddsAt q t w.tree) ?_ (.refl q t)
    exact fun name _ w hw => hw.trans (henter w name)
  unfold makeDirectory
  simp only
  split
  · exact hway
  · exact hway

theorem addsAt_writeHere (t : FileTree) (path : Text) (content : Bytes) :
    AddsAt (t.placeOf path) t (t.writeHere path content).state := by
  rcases t.writeHere_cases path content with ⟨e, h⟩ | ⟨p, -, hfollow, -, -, ⟨_, hnext⟩, h⟩
  · rw [h]
    exact .refl _ t
  · rw [h, placeOf_of_writeHere hfollow hnext]
    exact addsAt_put_file _ t content

/-- **A write makes one file at most**, at the place that its path leads to. -/
theorem addsAt_write (t : FileTree) (path : Text) (content : Bytes) :
    AddsAt (t.placeOf path) t (t.write path content).state := by
  unfold write
  refine (Attempt.andThen_preserves (P := fun t' => Keeps (t.placeOf path) t t' ∧
    AddsAt (t.placeOf path) t t') ?_ ?_).2
  · split
    · exact ⟨.refl _ t, .refl _ t⟩
    · exact ⟨keeps_makeDirectory _ t _, addsAt_makeDirectory _ t _⟩
  · rintro t' ⟨hkeeps, hadds⟩
    have hkeeps' := t'.keeps_writeHere path content
    have hadds' := t'.addsAt_writeHere path content
    rw [placeOf_of_keeps hkeeps] at hkeeps' hadds'
    exact ⟨hkeeps.trans hkeeps', hadds.trans hadds'⟩

end FileTree

end SvgAssets
