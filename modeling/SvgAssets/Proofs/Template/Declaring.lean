/-
# SvgAssets.Proofs.Template.Declaring -- declarations and merges as values put at places

A declaration that can be taken in puts a type and a default at one and the same place
(`declare_of_isSound`), and a scan comes to its end exactly when all its declarations can
(`completed_forEach_declare_iff`). Merging a tidy tree puts its values at their places; it never
fails (`merge_of_areTidy`). So where no declared place is above another, to take in a text is to
declare its variables one by one (`takeIn_of_completed`).
-/
import SvgAssets.Proofs.Template.Flattening

namespace SvgAssets.Template

open Text Descriptor VariableTree

/-! ## Types and defaults -/

/-- A default is a number or a text, as its type says. -/
theorem literal_cases {written : Text} {value : Value} (h : literal written = .ok value) :
    (typeOf written = .number ∧ ∃ n, value = .number n) ∨
      (typeOf written = .string ∧ ∃ t, value = .text t) := by
  rw [literal] at h
  rw [typeOf]
  cases hn : numeral? written with
  | none =>
    rw [hn] at h
    cases h
    exact .inr ⟨rfl, _, rfl⟩
  | some n =>
    refine .inl ⟨rfl, ?_⟩
    simp only [hn] at h
    split at h
    · split at h
      · cases h
      · cases h
        exact ⟨_, rfl⟩
    · cases h
      exact ⟨_, rfl⟩

theorem isLeaf_of_literal {written : Text} {value : Value} (h : literal written = .ok value) :
    IsLeaf value := by
  rcases literal_cases h with ⟨_, n, rfl⟩ | ⟨_, t, rfl⟩ <;> trivial

namespace Declaration

/-- The place of the declared variable. -/
def place (d : Declaration) : List Text := components d.path

/-- The type of the declared variable, at its place. -/
def typeEntry (d : Declaration) : List Text × Value := (d.place, .text (typeOf d.written).name)

/-- The default of the declared variable, at its place. -/
def defaultEntry (d : Declaration) : List Text × Value :=
  (d.place, (literal d.written).toOption.getD .null)

/-- The declaration can be taken in: its path names a place, and its default is no integer that is
too long. -/
structure IsSound (d : Declaration) : Prop where
  place_ne_nil : d.place ≠ []
  literal_eq : literal d.written = .ok d.defaultEntry.2

theorem IsSound.of_literal {d : Declaration} (hplace : d.place ≠ []) {value : Value}
    (h : literal d.written = .ok value) : d.IsSound := by
  refine ⟨hplace, ?_⟩
  rw [defaultEntry, h]
  rfl

theorem isEntry_typeEntry {d : Declaration} (h : d.IsSound) : IsEntry d.typeEntry :=
  ⟨h.place_ne_nil, fun _ => isComponent_of_mem_components, trivial⟩

theorem isEntry_defaultEntry {d : Declaration} (h : d.IsSound) : IsEntry d.defaultEntry :=
  ⟨h.place_ne_nil, fun _ => isComponent_of_mem_components, isLeaf_of_literal h.literal_eq⟩

end Declaration

/-! ## Assigning many values -/

namespace VariableTree

/-- A path that names a place, and a value that is no table. -/
def IsAssignable (x : Text × Value) : Prop := components x.1 ≠ [] ∧ IsLeaf x.2

/-- A flat table of a tidy tree lists nothing that cannot be assigned. -/
theorem isAssignable_of_mem_flatten {tree : VariableTree} (h : IsTidy tree) :
    ∀ x ∈ tree.flatten, IsAssignable x := by
  intro x hx
  have hmem : (components x.1, x.2) ∈ places tree := by
    rw [← map_flatten h]
    exact List.mem_map_of_mem (f := fun x : Text × Value => (components x.1, x.2)) hx
  have hentry := isEntry_of_mem_places h _ hmem
  exact ⟨hentry.ne_nil, hentry.isLeaf⟩

/-- Steps that each put a value in a tree somewhere in a state put all values there. -/
theorem forEach_of_puts {ε σ : Type} {step : σ → Text × Value → Attempt ε Redeclaration σ}
    (view : VariableTree → σ)
    (hstep : ∀ tree x, IsAssignable x →
      (step (view tree) x).state = view (tree.put (components x.1, x.2)) ∧
        (step (view tree) x).failure = none)
    {entries : List (Text × Value)} (hentries : ∀ x ∈ entries, IsAssignable x)
    (tree : VariableTree) :
    (Attempt.forEach step (view tree) entries).state =
        view (tree.putAll (entries.map fun x => (components x.1, x.2))) ∧
      (Attempt.forEach step (view tree) entries).failure = none := by
  induction entries generalizing tree with
  | nil => exact ⟨rfl, rfl⟩
  | cons x rest ih =>
    rw [List.forall_mem_cons] at hentries
    obtain ⟨hstate, hnone⟩ := hstep tree x hentries.1
    rw [Attempt.forEach, Attempt.state_andThen_of_none hnone, Attempt.failure_andThen_of_none hnone,
      hstate, List.map_cons, putAll_cons]
    exact ih hentries.2 _

end VariableTree

namespace Variables

/-- Both trees are tidy. -/
structure AreTidy (v : Variables) : Prop where
  types : IsTidy v.types
  defaults : IsTidy v.defaults

theorem areTidy_empty : Variables.empty.AreTidy := ⟨isTidy_nil, isTidy_nil⟩

/-! ## Declaring -/

/-- A type is put at the place that its path names. -/
theorem assignType_of_isLeaf {path : Text} (hplace : components path ≠ []) {value : Value}
    (hvalue : IsLeaf value) (v : Variables) :
    (v.assignType path value).state =
        { v with types := v.types.put (components path, value) } ∧
      (v.assignType path value).failure = none := by
  rw [assignType, state_assign hvalue, failure_assign hvalue, if_neg hplace]
  exact ⟨rfl, rfl⟩

/-- A default is put at the place that its path names. -/
theorem assignDefault_of_isLeaf {path : Text} (hplace : components path ≠ []) {value : Value}
    (hvalue : IsLeaf value) (v : Variables) :
    (v.assignDefault path value).state =
        { v with defaults := v.defaults.put (components path, value) } ∧
      (v.assignDefault path value).failure = none := by
  rw [assignDefault, state_assign hvalue, failure_assign hvalue, if_neg hplace]
  exact ⟨rfl, rfl⟩

/-- The variables behind a declaration. -/
def put (v : Variables) (d : Declaration) : Variables :=
  ⟨v.types.put d.typeEntry, v.defaults.put d.defaultEntry⟩

/-- A declaration that can be taken in is taken in. -/
theorem declare_of_isSound {d : Declaration} (h : d.IsSound) (v : Variables) :
    (v.declare d).state = v.put d ∧ (v.declare d).failure = none := by
  have hname : IsLeaf (.text (typeOf d.written).name) := trivial
  obtain ⟨hstate, hnone⟩ := assignType_of_isLeaf h.place_ne_nil hname v
  obtain ⟨hstate', hnone'⟩ := assignDefault_of_isLeaf h.place_ne_nil
    (isLeaf_of_literal h.literal_eq) (v.assignType d.path (.text (typeOf d.written).name)).state
  rw [declare, h.literal_eq, Attempt.state_andThen_of_none hnone,
    Attempt.failure_andThen_of_none hnone]
  refine ⟨?_, hnone'⟩
  rw [hstate', hstate]
  rfl

theorem isSound_of_declare {d : Declaration} {v : Variables}
    (h : (v.declare d).failure = none) : d.IsSound := by
  rw [declare, Attempt.failure_andThen_eq_none_iff] at h
  obtain ⟨htype, hdefault⟩ := h
  have hplace : d.place ≠ [] := by
    intro hnil
    have hname : IsLeaf (.text (typeOf d.written).name) := trivial
    have hfailure := failure_assign hname v.types d.path
    rw [if_pos (show components d.path = [] from hnil)] at hfailure
    rw [assignType, hfailure] at htype
    cases htype
  cases hliteral : literal d.written with
  | ok value => exact .of_literal hplace hliteral
  | error e =>
    rw [hliteral] at hdefault
    cases hdefault

theorem forEach_declare {ds : List Declaration} (h : ∀ d ∈ ds, d.IsSound) (v : Variables) :
    (Attempt.forEach declare v ds).state = ds.foldl put v ∧
      (Attempt.forEach declare v ds).failure = none :=
  Attempt.forEach_of_completes (fun d hd v => declare_of_isSound (h d hd) v) v

/-- Declarations are taken in together exactly when each of them can be. -/
theorem completed_forEach_declare_iff {ds : List Declaration} {v : Variables} :
    (Attempt.forEach declare v ds).failure = none ↔ ∀ d ∈ ds, d.IsSound := by
  constructor
  · intro h
    exact Attempt.forall_mem_of_forEach (fun _ _ hd => isSound_of_declare hd) h
  · intro h
    exact (forEach_declare h v).2

/-- Both trees are folds of their own. -/
theorem foldl_put (v : Variables) (ds : List Declaration) :
    ds.foldl put v = ⟨v.types.putAll (ds.map Declaration.typeEntry),
      v.defaults.putAll (ds.map Declaration.defaultEntry)⟩ := by
  induction ds generalizing v with
  | nil => rfl
  | cons d ds ih =>
    rw [List.foldl_cons, ih, Variables.put, List.map_cons, List.map_cons, putAll_cons, putAll_cons]

theorem areTidy_foldl_put {v : Variables} (hv : v.AreTidy) {ds : List Declaration}
    (h : ∀ d ∈ ds, d.IsSound) : (ds.foldl put v).AreTidy := by
  rw [foldl_put]
  constructor
  · apply hv.types.putAll
    exact List.forall_mem_map.2 fun d hd => Declaration.isEntry_typeEntry (h d hd)
  · apply hv.defaults.putAll
    exact List.forall_mem_map.2 fun d hd => Declaration.isEntry_defaultEntry (h d hd)

/-! ## Merging -/

/-- All values of a tidy tree are assigned as types. -/
theorem forEach_assignType {tree : VariableTree} (h : IsTidy tree) (v : Variables) :
    (Attempt.forEach (fun v (path, value) => v.assignType path value) v tree.flatten).state =
        { v with types := v.types.putAll (places tree) } ∧
      (Attempt.forEach (fun v (path, value) => v.assignType path value) v
        tree.flatten).failure = none := by
  rw [← map_flatten h]
  refine forEach_of_puts (fun types => { v with types }) ?_ (isAssignable_of_mem_flatten h) v.types
  intro types x hx
  exact assignType_of_isLeaf hx.1 hx.2 { v with types }

/-- All values of a tidy tree are assigned as defaults. -/
theorem forEach_assignDefault {tree : VariableTree} (h : IsTidy tree) (v : Variables) :
    (Attempt.forEach (fun v (path, value) => v.assignDefault path value) v tree.flatten).state =
        { v with defaults := v.defaults.putAll (places tree) } ∧
      (Attempt.forEach (fun v (path, value) => v.assignDefault path value) v
        tree.flatten).failure = none := by
  rw [← map_flatten h]
  refine forEach_of_puts (fun defaults => { v with defaults }) ?_ (isAssignable_of_mem_flatten h)
    v.defaults
  intro defaults x hx
  exact assignDefault_of_isLeaf hx.1 hx.2 { v with defaults }

/-- Merging tidy variables never fails, and puts their types and their defaults at their places. -/
theorem merge_of_areTidy {other : Variables} (h : other.AreTidy) (v : Variables) :
    (v.merge other).state =
        ⟨v.types.putAll (places other.types), v.defaults.putAll (places other.defaults)⟩ ∧
      (v.merge other).failure = none := by
  obtain ⟨hstate, hnone⟩ := forEach_assignType h.types v
  rw [merge, Attempt.state_andThen_of_none hnone, Attempt.failure_andThen_of_none hnone, hstate]
  exact forEach_assignDefault h.defaults _

/-! ## Taking in a text -/

theorem state_scan {s : Text} (h : (scan s).failure = none) :
    (scan s).state = (declarations s).foldl put .empty :=
  (forEach_declare (completed_forEach_declare_iff.1 h) _).1

theorem areTidy_scan {s : Text} (h : (scan s).failure = none) : (scan s).state.AreTidy := by
  rw [state_scan h]
  exact areTidy_foldl_put areTidy_empty (completed_forEach_declare_iff.1 h)

/-- **Taking in a text is declaring its variables.** The variables of the text are put together on
their own, flattened and assigned; where none of its places is above another, that leaves behind
what its declarations, taken in one by one, would have left. -/
theorem takeIn_of_completed {v : Variables} (hv : v.AreTidy) {s : Text}
    (hs : (scan s).failure = none)
    (hfree : ArePrefixFree ((declarations s).map Declaration.place)) :
    (v.takeIn s).state = (declarations s).foldl put v ∧ (v.takeIn s).failure = none := by
  have hsound := completed_forEach_declare_iff.1 hs
  obtain ⟨hmerge, hnone⟩ := merge_of_areTidy (areTidy_scan hs) v
  have htypes : v.types.putAll (places (putAll [] ((declarations s).map Declaration.typeEntry))) =
      v.types.putAll ((declarations s).map Declaration.typeEntry) := by
    apply putAll_places_putAll hv.types
    · exact List.forall_mem_map.2 fun d hd => Declaration.isEntry_typeEntry (hsound d hd)
    · rwa [List.map_map]
  have hdefaults : v.defaults.putAll
        (places (putAll [] ((declarations s).map Declaration.defaultEntry))) =
      v.defaults.putAll ((declarations s).map Declaration.defaultEntry) := by
    apply putAll_places_putAll hv.defaults
    · exact List.forall_mem_map.2 fun d hd => Declaration.isEntry_defaultEntry (hsound d hd)
    · rwa [List.map_map]
  simp only [takeIn, hs]
  refine ⟨?_, hnone⟩
  rw [hmerge, state_scan hs, foldl_put, foldl_put]
  show (⟨v.types.putAll (places (putAll [] _)), v.defaults.putAll (places (putAll [] _))⟩ :
    Variables) = _
  rw [htypes, hdefaults]

end Variables

end SvgAssets.Template
