/-
# SvgAssets.Proofs.Template.Rebuilding -- flattening loses nothing

The flat table of a tidy tree, assigned path by path to an empty tree, gives back the tree, with its
names in their order and without any report (`assignAll_flatten`). Two facts carry this. Put one
after the other, the values of a tree build it up entry by entry (`putAll_nil_places`). And of the
places of its values none is above another (`pairwise_areApart_places`), so that no value meets
another one on its way.

Put in the tree itself, each value is met by itself alone; that changes nothing, and is not reported
where values agree with themselves, as the literals do that declarations give. So variables may be
merged into nothing, and nothing or themselves into them, without any effect (`flatten_lossless`).
-/
import SvgAssets.Proofs.Template.AssignmentLaws
import SvgAssets.Proofs.Template.SameShape

namespace SvgAssets.Template

open Text Descriptor

namespace VariableTree

/-! ## A tree is built up from its values -/

/-- What is put below other names leaves the first entry alone. -/
theorem putAll_cons_of_head?_ne {key : Text} {entries : List (List Text × Value)}
    (h : ∀ e ∈ entries, e.1.head? ≠ some key) (value : Value) (tree : VariableTree) :
    putAll ((key, value) :: tree) entries = (key, value) :: putAll tree entries := by
  induction entries generalizing tree with
  | nil => rfl
  | cons e rest ih =>
    obtain ⟨place, v⟩ := e
    rw [List.forall_mem_cons] at h
    have hput : put ((key, value) :: tree) (place, v) = (key, value) :: put tree (place, v) := by
      cases place with
      | nil => rfl
      | cons first keys =>
        have hfirst : key ≠ first := fun he => h.1 (by rw [he]; rfl)
        rw [put, put, Entries.get?, if_neg hfirst, Entries.set, if_neg hfirst]
    rw [putAll_cons, hput, ih h.2, putAll_cons]

/-- What is put below the only name is put in the table there. -/
theorem putAll_table_map_cons (key : Text) {entries : List (List Text × Value)}
    (h : ∀ e ∈ entries, e.1 ≠ []) (table : VariableTree) :
    putAll [(key, .table table)] (entries.map fun e => (key :: e.1, e.2)) =
      [(key, .table (putAll table entries))] := by
  induction entries generalizing table with
  | nil => rfl
  | cons e rest ih =>
    rw [List.forall_mem_cons] at h
    have hput : put [(key, .table table)] (key :: e.1, e.2) = [(key, .table (table.put e))] := by
      rw [put, putAt_of_ne_nil h.1, Entries.get?, if_pos rfl, Entries.set, if_pos rfl]
      rfl
    rw [List.map_cons, putAll_cons, hput, ih h.2, putAll_cons]

/-- Put below a name that is not there, values make up a table. -/
theorem putAll_nil_map_cons (key : Text) {entries : List (List Text × Value)} (hne : entries ≠ [])
    (h : ∀ e ∈ entries, e.1 ≠ []) :
    putAll [] (entries.map fun e => (key :: e.1, e.2)) = [(key, .table (putAll [] entries))] := by
  cases entries with
  | nil => exact absurd rfl hne
  | cons e rest =>
    rw [List.forall_mem_cons] at h
    have hput : put [] (key :: e.1, e.2) = [(key, .table (put [] e))] := by
      rw [put, putAt_of_ne_nil h.1]
      rfl
    rw [List.map_cons, putAll_cons, hput, putAll_table_map_cons key h.2, putAll_cons]

/-- **The values of a tidy tree build it up**, with its names in their order. -/
theorem putAll_nil_places {tree : VariableTree} (h : IsTidy tree) :
    putAll [] (places tree) = tree := by
  induction tree using treeInduction with
  | nil => rfl
  | leaf key value rest hvalue ih =>
    have hput : put [] ([key], value) = [(key, value)] := rfl
    rw [places_leaf key hvalue, putAll_cons, hput,
      putAll_cons_of_head?_ne fun e he => head?_ne_of_mem_places h.2.1 he, ih h.2.2.2]
  | table key entries rest ihentries ihrest =>
    obtain ⟨-, hkey, ⟨hne, hentries⟩, hrest⟩ := h
    rw [places_table, putAll_append, putAll_nil_map_cons key (places_ne_nil hentries hne)
      fun e he => (isEntry_of_mem_places hentries e he).ne_nil, ihentries hentries,
      putAll_cons_of_head?_ne fun e he => head?_ne_of_mem_places hkey he, ihrest hrest]

/-! ## Places of the values of a tree -/

theorem areApart_cons_iff {key : Text} {keys others : List Text} :
    AreApart (key :: keys) (key :: others) ↔ AreApart keys others := by
  rw [AreApart, AreApart, List.prefix_cons_inj, List.prefix_cons_inj]

/-- Places that begin with different names are apart. -/
theorem areApart_of_head?_ne {key : Text} {other : List Text} (hne : other ≠ [])
    (h : other.head? ≠ some key) (keys : List Text) : AreApart (key :: keys) other := by
  obtain ⟨first, others, rfl⟩ := List.exists_cons_of_ne_nil hne
  have hfirst : first ≠ key := fun he => h (by rw [he]; rfl)
  constructor
  · intro hbegins
    exact hfirst (List.cons_prefix_cons.1 hbegins).1.symm
  · intro hbegins
    exact hfirst (List.cons_prefix_cons.1 hbegins).1

/-- No value of a tidy tree stands above another or at its place. -/
theorem pairwise_areApart_places {tree : VariableTree} (h : IsTidy tree) :
    (places tree).Pairwise fun e e' => AreApart e.1 e'.1 := by
  have hothers {key : Text} {rest : VariableTree} (hkey : key ∉ rest.names) (hrest : IsTidy rest)
      (keys : List Text) : ∀ e ∈ places rest, AreApart (key :: keys) e.1 := by
    intro e he
    exact areApart_of_head?_ne (isEntry_of_mem_places hrest e he).ne_nil
      (head?_ne_of_mem_places hkey he) keys
  induction tree using treeInduction with
  | nil => exact List.Pairwise.nil
  | leaf key value rest hvalue ih =>
    rw [places_leaf key hvalue, List.pairwise_cons]
    exact ⟨hothers h.2.1 h.2.2.2 [], ih h.2.2.2⟩
  | table key entries rest ihentries ihrest =>
    obtain ⟨-, hkey, ⟨-, hentries⟩, hrest⟩ := h
    rw [places_table, List.pairwise_append, List.pairwise_map]
    refine ⟨?_, ihrest hrest, ?_⟩
    · exact (ihentries hentries).imp areApart_cons_iff.2
    · rw [List.forall_mem_map]
      exact fun e _ => hothers hkey hrest e.1

/-- Each value is found at the place that is listed for it. -/
theorem lookup?_of_mem_places {tree : VariableTree} (h : IsTidy tree) {e : List Text × Value}
    (he : e ∈ places tree) : tree.lookup? e.1 = some e.2 := by
  obtain ⟨front, back, hplaces⟩ := List.append_of_mem he
  have hpairwise := pairwise_areApart_places h
  rw [hplaces, List.pairwise_append, List.pairwise_cons] at hpairwise
  have hback : ∀ e' ∈ back, AreApart e'.1 e.1 := fun e' he' => (hpairwise.2.1.1 e' he').symm
  have hlast := lookup?_putAll_last front (isEntry_of_mem_places h e he).ne_nil hback e.2 []
  rwa [← hplaces, putAll_nil_places h] at hlast

/-! ## Values that meet nothing -/

/-- Put one after the other, none of the values meets anything to be reported for. -/
def AreSilent (tree : VariableTree) : List (List Text × Value) → Prop
  | [] => True
  | e :: rest => IsSilent tree e.1 e.2 ∧ AreSilent (tree.put e) rest

theorem isSilent_nil (place : List Text) (value : Value) : IsSilent [] place value := by
  constructor
  · intro front _ _ found hfound
    rw [lookup?_nil] at hfound
    cases hfound
  · intro found hfound
    rw [lookup?_nil] at hfound
    cases hfound

/-- What is put apart from its place does not stand in the way of a value. -/
theorem IsSilent.put {tree : VariableTree} {place : List Text} {value : Value}
    (h : IsSilent tree place value) {e : List Text × Value} (he : AreApart e.1 place)
    (hleaf : IsLeaf e.2) : IsSilent (tree.put e) place value := by
  constructor
  case above =>
    intro front hbegins hother found hfound hvalue
    obtain ⟨rfl, -⟩ | ⟨-, -, entries, rfl⟩ | hbefore := lookup?_put_cases hleaf hfound
    · exact absurd hbegins he.1
    · exact absurd hvalue id
    · exact h.above front hbegins hother found hbefore hvalue
  case there =>
    intro found hfound
    rw [lookup?_put_of_areApart tree he] at hfound
    exact h.there found hfound

/-- Values that meet nothing in a tree, and stand apart from each other, meet nothing. -/
theorem areSilent_of_pairwise {tree : VariableTree} {entries : List (List Text × Value)}
    (hapart : entries.Pairwise fun e e' => AreApart e.1 e'.1) (hleaf : ∀ e ∈ entries, IsLeaf e.2)
    (h : ∀ e ∈ entries, IsSilent tree e.1 e.2) : AreSilent tree entries := by
  induction entries generalizing tree with
  | nil => trivial
  | cons e rest ih =>
    rw [List.pairwise_cons] at hapart
    rw [List.forall_mem_cons] at hleaf h
    refine ⟨h.1, ih hapart.2 hleaf.2 ?_⟩
    intro e' he'
    exact (h.2 e' he').put (hapart.1 e' he') hleaf.1

theorem areSilent_nil_places {tree : VariableTree} (h : IsTidy tree) :
    AreSilent [] (places tree) :=
  areSilent_of_pairwise (pairwise_areApart_places h)
    (fun e he => (isEntry_of_mem_places h e he).isLeaf) fun _ _ => isSilent_nil _ _

/-! ## Values that are there already -/

/-- Putting a value where it stands changes nothing. -/
theorem put_of_lookup? {tree : VariableTree} {place : List Text} {value : Value}
    (h : tree.lookup? place = some value) : tree.put (place, value) = tree := by
  induction place generalizing tree with
  | nil => rfl
  | cons key keys ih =>
    rw [put]
    by_cases hkeys : keys = []
    · rw [hkeys] at h ⊢
      exact Entries.set_of_get? h
    · obtain ⟨entries, hget, hbelow⟩ := exists_table_of_lookup? hkeys h
      rw [putAt_of_ne_nil hkeys, hget]
      show tree.set key (.table (put entries (keys, value))) = tree
      rw [ih hbelow]
      exact Entries.set_of_get? hget

/-- Values that are there already are put without effect, and meet nothing if each agrees with
itself. -/
theorem putAll_of_lookup? {tree : VariableTree} {entries : List (List Text × Value)}
    (h : ∀ e ∈ entries, tree.lookup? e.1 = some e.2)
    (hagrees : ∀ e ∈ entries, e.2.agrees e.2 = true) :
    tree.putAll entries = tree ∧ AreSilent tree entries := by
  induction entries with
  | nil => exact ⟨rfl, trivial⟩
  | cons e rest ih =>
    rw [List.forall_mem_cons] at h hagrees
    obtain ⟨hrest, hsilent⟩ := ih h.2 hagrees.2
    have hput : tree.put e = tree := put_of_lookup? h.1
    refine ⟨?_, (isSilent_iff_of_lookup? h.1).2 hagrees.1, ?_⟩
    · rw [putAll_cons, hput, hrest]
    · rwa [hput]

/-! ## Assigning without a report -/

theorem assign_of_isSilent {tree : VariableTree} {x : Text × Value} (hx : IsAssignable x)
    (h : IsSilent tree (components x.1) x.2) :
    tree.assign x.1 x.2 = .done (tree.put (components x.1, x.2)) := by
  have hstate := state_assign hx.2 tree x.1
  have hnotices := (notices_assign_eq_nil_iff hx.2 hx.1).2 h
  have hfailure := (failure_assign hx.2 tree x.1).trans (if_neg hx.1)
  generalize tree.assign x.1 x.2 = a at hstate hnotices hfailure
  obtain ⟨state, notices, failure⟩ := a
  cases hstate
  cases hnotices
  cases hfailure
  rfl

/-- Steps that each assign a value somewhere in a state, where none of the values meets anything. -/
theorem forEach_of_areSilent {ε σ : Type} {step : σ → Text × Value → Attempt ε Redeclaration σ}
    (view : VariableTree → σ)
    (hstep : ∀ tree x, IsAssignable x → IsSilent tree (components x.1) x.2 →
      step (view tree) x = .done (view (tree.put (components x.1, x.2))))
    {entries : List (Text × Value)} (hentries : ∀ x ∈ entries, IsAssignable x)
    {tree : VariableTree} (h : AreSilent tree (entries.map fun x => (components x.1, x.2))) :
    Attempt.forEach step (view tree) entries =
      .done (view (tree.putAll (entries.map fun x => (components x.1, x.2)))) := by
  induction entries generalizing tree with
  | nil => rfl
  | cons x rest ih =>
    rw [List.forall_mem_cons] at hentries
    rw [Attempt.forEach, hstep tree x hentries.1 h.1, Attempt.done_andThen,
      ih hentries.2 h.2, List.map_cons, putAll_cons]

/-- Assigning many entries is assigning one after the other. -/
theorem assignAll_eq_forEach (tree : VariableTree) (entries : List (Text × Value)) :
    tree.assignAll entries = Attempt.forEach (fun tree x => tree.assign x.1 x.2) tree entries := by
  induction entries generalizing tree with
  | nil => rw [assignAll, Attempt.forEach]
  | cons x rest ih =>
    rw [assignAll, Attempt.forEach]
    congr 1
    funext tree
    exact ih tree

/-- **A flat table gives back its tree.** -/
theorem assignAll_flatten {tree : VariableTree} (h : IsTidy tree) :
    assignAll [] tree.flatten = .done tree := by
  have hsilent := areSilent_nil_places h
  rw [← map_flatten h] at hsilent
  rw [assignAll_eq_forEach]
  refine (forEach_of_areSilent id (fun _ _ => assign_of_isSilent)
    (isAssignable_of_mem_flatten h) hsilent).trans ?_
  rw [map_flatten h, putAll_nil_places h]
  rfl

end VariableTree

open VariableTree

/-! ## Merging without a report -/

namespace Variables

theorem forEach_assignType_of_areSilent {tree : VariableTree} (htree : IsTidy tree)
    {v : Variables} (h : AreSilent v.types (places tree)) :
    Attempt.forEach (fun v (path, value) => v.assignType path value) v tree.flatten =
      .done { v with types := v.types.putAll (places tree) } := by
  rw [← map_flatten htree] at h ⊢
  refine forEach_of_areSilent (fun types => { v with types }) ?_
    (isAssignable_of_mem_flatten htree) h
  intro types x hx hsilent
  show assignType { v with types } x.1 x.2 = _
  rw [assignType, assign_of_isSilent hx hsilent]
  rfl

theorem forEach_assignDefault_of_areSilent {tree : VariableTree} (htree : IsTidy tree)
    {v : Variables} (h : AreSilent v.defaults (places tree)) :
    Attempt.forEach (fun v (path, value) => v.assignDefault path value) v tree.flatten =
      .done { v with defaults := v.defaults.putAll (places tree) } := by
  rw [← map_flatten htree] at h ⊢
  refine forEach_of_areSilent (fun defaults => { v with defaults }) ?_
    (isAssignable_of_mem_flatten htree) h
  intro defaults x hx hsilent
  show assignDefault { v with defaults } x.1 x.2 = _
  rw [assignDefault, assign_of_isSilent hx hsilent]
  rfl

/-- Values that meet nothing are merged without a report. -/
theorem merge_of_areSilent {v other : Variables} (hother : other.AreTidy)
    (htypes : AreSilent v.types (places other.types))
    (hdefaults : AreSilent v.defaults (places other.defaults)) :
    v.merge other =
      .done ⟨v.types.putAll (places other.types), v.defaults.putAll (places other.defaults)⟩ := by
  rw [merge, forEach_assignType_of_areSilent hother.types htypes, Attempt.done_andThen]
  exact forEach_assignDefault_of_areSilent hother.defaults hdefaults

end Variables

/-! ## Literals -/

namespace VariableTree

/-- All values in the tree are literals. -/
def HoldsLiterals (tree : VariableTree) : Prop :=
  ∀ place value, tree.lookup? place = some value → IsLeaf value → value.Same value

theorem holdsLiterals_nil : HoldsLiterals [] := by
  intro place value hlookup
  rw [lookup?_nil] at hlookup
  cases hlookup

theorem HoldsLiterals.putAll {tree : VariableTree} (h : HoldsLiterals tree)
    {entries : List (List Text × Value)} (hentries : ∀ e ∈ entries, e.2.Same e.2) :
    HoldsLiterals (tree.putAll entries) := by
  induction entries generalizing tree with
  | nil => exact h
  | cons e rest ih =>
    rw [List.forall_mem_cons] at hentries
    refine ih ?_ hentries.2
    intro place value hlookup hvalue
    obtain ⟨-, rfl⟩ | ⟨-, -, entries, rfl⟩ | hbefore :=
      lookup?_put_cases (isLeaf_of_same hentries.1).1 hlookup
    · exact hentries.1
    · exact absurd hvalue id
    · exact h place value hbefore hvalue

theorem HoldsLiterals.same_of_mem_places {tree : VariableTree} (h : HoldsLiterals tree)
    (htidy : IsTidy tree) : ∀ e ∈ places tree, e.2.Same e.2 :=
  fun e he => h e.1 e.2 (lookup?_of_mem_places htidy he) (isEntry_of_mem_places htidy e he).isLeaf

/-- A tree of literals is put in itself without effect. -/
theorem HoldsLiterals.putAll_places {tree : VariableTree} (h : HoldsLiterals tree)
    (htidy : IsTidy tree) : tree.putAll (places tree) = tree ∧ AreSilent tree (places tree) := by
  refine putAll_of_lookup? (fun e he => lookup?_of_mem_places htidy he) fun e he => ?_
  have hsame := h.same_of_mem_places htidy e he
  exact (Value.agrees_iff_same hsame hsame).2 hsame

end VariableTree

/-- Declarations give literals, and merges keep them. -/
theorem Derived.holdsLiterals {v : Variables} (h : Derived v) :
    HoldsLiterals v.types ∧ HoldsLiterals v.defaults := by
  induction h with
  | empty => exact ⟨holdsLiterals_nil, holdsLiterals_nil⟩
  | @scan s hs =>
    have hsound := Variables.completed_forEach_declare_iff.1 hs
    rw [Variables.state_scan hs, Variables.foldl_put]
    constructor
    · exact holdsLiterals_nil.putAll (List.forall_mem_map.2 fun _ _ => .text _)
    · exact holdsLiterals_nil.putAll
        (List.forall_mem_map.2 fun d hd => same_of_literal (hsound d hd).literal_eq)
  | merge _ hother ihv ihother =>
    rw [(Variables.merge_of_areTidy hother.areTidy _).1]
    constructor
    · exact ihv.1.putAll (ihother.1.same_of_mem_places hother.areTidy.types)
    · exact ihv.2.putAll (ihother.2.same_of_mem_places hother.areTidy.defaults)

/-- **Flattening is lossless.** The flat table of a tidy tree, assigned to an empty tree, gives back
the tree, and nothing is reported. So merging the variables of a completed scan, or of any scans and
merges, into no variables reproduces them, and merging no variables or themselves into them changes
nothing; nothing is reported either. -/
theorem flatten_lossless :
    (∀ tree : VariableTree, IsTidy tree → assignAll [] tree.flatten = .done tree) ∧
      ∀ v, Derived v → Variables.empty.merge v = .done v ∧ v.merge .empty = .done v ∧
        v.merge v = .done v := by
  refine ⟨fun tree => assignAll_flatten, fun v hv => ⟨?_, rfl, ?_⟩⟩
  · have htidy := hv.areTidy
    rw [Variables.merge_of_areSilent htidy (areSilent_nil_places htidy.types)
      (areSilent_nil_places htidy.defaults)]
    show Attempt.done (⟨putAll [] _, putAll [] _⟩ : Variables) = _
    rw [putAll_nil_places htidy.types, putAll_nil_places htidy.defaults]
  · obtain ⟨htypes, htypes'⟩ := hv.holdsLiterals.1.putAll_places hv.areTidy.types
    obtain ⟨hdefaults, hdefaults'⟩ := hv.holdsLiterals.2.putAll_places hv.areTidy.defaults
    rw [Variables.merge_of_areSilent hv.areTidy htypes' hdefaults', htypes, hdefaults]

/-- A tree in which two names that begin alike hold a table and a value. -/
def nestedTree : VariableTree :=
  [("a".toList, .table [("b".toList, .int 1), ("c".toList, .list [.null])]),
    ("ab".toList, .text "a.b".toList)]

/-- A text with a place below another one, and with a name declared twice. -/
def mergedText : Text :=
  Declaration.text ⟨"red".toList, "a".toList⟩ ++ Declaration.text ⟨"1".toList, "a.b".toList⟩ ++
    Declaration.text ⟨"1.0".toList, "c".toList⟩ ++ Declaration.text ⟨"1".toList, "c".toList⟩

theorem flatten_lossless_nested :
    IsTidy nestedTree ∧ assignAll [] nestedTree.flatten = .done nestedTree ∧
      (scan mergedText).failure = none ∧
      (scan mergedText).state.merge (scan mergedText).state = .done (scan mergedText).state := by
  have htidy : IsTidy nestedTree := by
    simp [nestedTree, IsTidy, IsTidyValue, IsComponent, Entries.names, Value.int]
  have hscan : (scan mergedText).failure = none := by decide +kernel
  exact ⟨htidy, flatten_lossless.1 nestedTree htidy, hscan,
    (flatten_lossless.2 _ (.scan hscan)).2.2⟩

end SvgAssets.Template
