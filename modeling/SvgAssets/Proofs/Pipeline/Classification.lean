/-
# SvgAssets.Proofs.Pipeline.Classification -- which records have variables

A record tells of its variables if there are any besides the reserved one, and this is decided by
the declarations that stand in the markup without styles and scripts and in the scoped styles. They
are merged into two trees, but the names at the top of both are always the first parts of the
declared paths, each where it comes first (`names_variablesOf`); no redeclaration removes or moves
one. So the two trees never disagree about whether there is something to tell
(`isDynamic_iff_declares`).
-/
import SvgAssets.Pipeline.Source
import SvgAssets.Proofs.Pipeline.Origin
import SvgAssets.Proofs.Template.SameShape

namespace SvgAssets

namespace Template

open VariableTree

/-- The first parts of the paths that a text declares. -/
def firstNames (s : Text) : List Text := (declarations s).filterMap fun d => d.place.head?

/-- Whether a text declares a variable besides the reserved one. -/
def DeclaresBeside (reserved s : Text) : Prop :=
  ∃ d ∈ declarations s, ∃ first, d.place.head? = some first ∧ first ≠ reserved

theorem declaresBeside_iff {reserved s : Text} :
    DeclaresBeside reserved s ↔ ∃ first ∈ firstNames s, first ≠ reserved := by
  unfold DeclaresBeside firstNames
  simp only [List.mem_filterMap]
  constructor
  · rintro ⟨d, hd, first, hfirst, hne⟩
    exact ⟨first, ⟨d, hd, hfirst⟩, hne⟩
  · rintro ⟨first, ⟨d, hd, hfirst⟩, hne⟩
    exact ⟨d, hd, first, hfirst, hne⟩

namespace Variables

/-- The names at the top of a tree that another one is merged into: those of the other tree come
behind, in their order. -/
theorem names_putAll_places (tree : VariableTree) {other : VariableTree} (h : IsTidy other) :
    (tree.putAll (places other)).names = tree.names ++ other.names.removeAll tree.names := by
  rw [names_putAll, List.removeAll, eraseDups_filter, eraseDups_heads_places h, List.removeAll]

theorem scan_of_takeIn {v : Variables} {s : Text} (h : (v.takeIn s).failure = none) :
    (scan s).failure = none := by
  cases hscan : (scan s).failure with
  | none => rfl
  | some e =>
    simp only [takeIn, hscan] at h
    cases h

/-- The names at the top of both trees of a scan. -/
theorem names_scan {s : Text} (h : (scan s).failure = none) :
    (scan s).state.types.names = (firstNames s).eraseDups ∧
      (scan s).state.defaults.names = (firstNames s).eraseDups := by
  have hheads (entry : Declaration → List Text × Value) (hentry : ∀ d, (entry d).1 = d.place) :
      (putAll [] ((declarations s).map entry)).names = (firstNames s).eraseDups := by
    rw [names_putAll_nil, heads, List.filterMap_map]
    congr 1
    exact List.filterMap_congr fun d _ => congrArg List.head? (hentry d)
  rw [state_scan h, foldl_put]
  exact ⟨hheads _ fun _ => rfl, hheads _ fun _ => rfl⟩

/-- Taking in a text puts its first names behind those that were there. -/
theorem names_takeIn {v : Variables} {s : Text} (h : (v.takeIn s).failure = none) :
    (v.takeIn s).state.types.names =
        v.types.names ++ (firstNames s).eraseDups.removeAll v.types.names ∧
      (v.takeIn s).state.defaults.names =
        v.defaults.names ++ (firstNames s).eraseDups.removeAll v.defaults.names := by
  have hscan := scan_of_takeIn h
  have htidy := areTidy_scan hscan
  obtain ⟨htypes, hdefaults⟩ := names_scan hscan
  have hstate : (v.takeIn s).state = (v.merge (scan s).state).state := by
    simp only [takeIn, hscan]
  rw [hstate, (merge_of_areTidy htidy v).1]
  exact ⟨by rw [names_putAll_places _ htidy.types, htypes],
    by rw [names_putAll_places _ htidy.defaults, hdefaults]⟩

end Variables

/-- The descriptor of a tree, member by member. -/
theorem describe_cons (name : Text) (value : Value) (rest : Entries Value) :
    describe ((name, value) :: rest) =
      '\x7b' :: name ++ ':' :: describeValue value ++
        rest.flatMap (fun (name, value) => ';' :: name ++ ':' :: describeValue value) ++
          ['\x7d'] := by
  have hmembers : describeMembers ((name, value) :: rest) = name ++ ':' :: describeValue value ++
      rest.flatMap fun (name, value) => ';' :: name ++ ':' :: describeValue value := by
    induction rest generalizing name value with
    | nil => simp [describeMembers]
    | cons x rest ih =>
      obtain ⟨next, nextValue⟩ := x
      rw [describeMembers, ih, List.flatMap_cons]
      · simp
      · exact nofun
  rw [describe, hmembers]
  simp

end Template

namespace Pipeline

open Template

/-- **The names at the top of both trees** are the first parts of the declared paths, in the order
of their first declarations. -/
theorem names_variablesOf {markup css : Text} (h : (variablesOf markup css).failure = none) :
    (variablesOf markup css).state.types.names =
        (firstNames markup ++ firstNames css).eraseDups ∧
      (variablesOf markup css).state.defaults.names =
        (firstNames markup ++ firstNames css).eraseDups := by
  obtain ⟨hmarkup, hcss⟩ := Attempt.failure_andThen_eq_none_iff.1 h
  obtain ⟨htypes, hdefaults⟩ := Variables.names_takeIn hmarkup
  obtain ⟨htypes', hdefaults'⟩ := Variables.names_takeIn hcss
  have hempty : Entries.names Variables.empty.types = [] ∧
      Entries.names Variables.empty.defaults = [] := ⟨rfl, rfl⟩
  have hall (names : List Text) : names.removeAll [] = names := List.filter_true _
  -- What the markup declares comes first, and of the styles what the markup does not declare.
  have hboth : (firstNames markup).eraseDups ++
      (firstNames css).eraseDups.removeAll (firstNames markup).eraseDups =
        (firstNames markup ++ firstNames css).eraseDups := by
    rw [List.eraseDups_append, List.removeAll, List.removeAll, eraseDups_filter]
    congr 1
    apply List.filter_congr
    intro name _
    simp
  rw [variablesOf, Attempt.state_andThen_of_none hmarkup]
  rw [hempty.1, hall, List.nil_append] at htypes
  rw [hempty.2, hall, List.nil_append] at hdefaults
  rw [htypes', hdefaults', htypes, hdefaults]
  exact ⟨hboth, hboth⟩

/-- An asset has variables to tell of exactly if its markup or its styles declare one besides the
reserved one. -/
theorem isDynamic_iff_declares {config : Config} {a : Asset} {markup css : Text}
    (hvariables : a.declared = (variablesOf markup css).state)
    (h : (variablesOf markup css).failure = none) :
    a.isDynamic config = true ↔ DeclaresBeside config.instanceVariable markup ∨
      DeclaresBeside config.instanceVariable css := by
  rw [Asset.isDynamic, hvariables, (names_variablesOf h).1, List.any_eq_true, declaresBeside_iff,
    declaresBeside_iff]
  simp only [List.mem_eraseDups, List.mem_append, bne_iff_ne, or_and_right, exists_or]

/-- **Which records tell of variables, and what they tell.** Let the declarations of the markup
without styles and scripts and then those of the scoped styles be taken in. The record has an
interface exactly if it has defaults, and that is the case exactly if one of the declarations is of
a variable besides the reserved one. The defaults are then those that were taken in, in their order
and without the reserved variable, and at their end the reserved variable with the integer zero. The
interface begins with the reserved variable, as a number, and goes on with the types of the other
variables in their order. The order of both is that of the first declarations. -/
theorem classification {config : Config} {source : Source}
    {a : Attempt StageFailure Notice Progress} (hprocess : builtIn.process config source = .ok a)
    {r : AssetRecord} (hresult : a.state.result? = some r) :
    ∃ css, Stylesheet.ofDocument source.svg ((Asset.ofSource source).scopeId config)
        config.instanceVariable = .ok css ∧
      let markup := Markup.removeScripts (Markup.removeStyles source.svg)
      let merged := (Variables.empty.takeIn markup).andThen fun v => v.takeIn css
      let isOther : Text × Value → Bool := fun x => x.1 != config.instanceVariable
      merged.failure = none ∧
      merged.state.types.names = (firstNames markup ++ firstNames css).eraseDups ∧
      merged.state.defaults.names = (firstNames markup ++ firstNames css).eraseDups ∧
      (r.interface.isSome = true ↔ r.defaults.isSome = true) ∧
      (r.defaults.isSome = true ↔ DeclaresBeside config.instanceVariable markup ∨
        DeclaresBeside config.instanceVariable css) ∧
      (∀ defaults, r.defaults = some defaults →
        defaults = merged.state.defaults.filter isOther ++ [(config.instanceVariable, .int 0)]) ∧
      ∀ interface, r.interface = some interface →
        interface = '\x7b' :: config.instanceVariable ++ ":number".toList ++
          (merged.state.types.filter isOther).flatMap
            (fun (name, type) => ';' :: name ++ ':' :: describeValue type) ++ ['\x7d'] := by
  obtain ⟨g, css, hmade⟩ := exists_isMadeFrom hprocess hresult
  obtain ⟨htypes, hdefaults⟩ := names_variablesOf hmade.scanned
  have hdynamic : (finishedAsset config source g css).isDynamic config = true ↔ _ :=
    isDynamic_iff_declares rfl hmade.scanned
  refine ⟨css, hmade.styles, hmade.scanned, htypes, hdefaults, ?_⟩
  rw [hmade.record, ← bareMarkup, ← hdynamic]
  by_cases h : (finishedAsset config source g css).isDynamic config = true
  · have hboth : ((finishedAsset config source g css).assemble config).defaults =
          some ((finishedAsset config source g css).allDefaults config) ∧
        ((finishedAsset config source g css).assemble config).interface =
          some (describe ((finishedAsset config source g css).allTypes config)) :=
      ⟨if_pos h, if_pos h⟩
    rw [hboth.1, hboth.2, h]
    refine ⟨by simp, by simp, ?_, ?_⟩
    · rintro defaults ⟨⟩
      rfl
    · rintro interface ⟨⟩
      rw [Asset.allTypes, describe_cons]
      rfl
  · have hnone : ((finishedAsset config source g css).assemble config).defaults = none ∧
        ((finishedAsset config source g css).assemble config).interface = none :=
      ⟨if_neg h, if_neg h⟩
    rw [hnone.1, hnone.2]
    simp [h]

/-- An image that declares the reserved variable as a text, a variable in its markup and another one
in its styles. -/
def declaringMarkup : Text :=
  ("<svg width=\"1\" height=\"1\"><style>.a\x7br:\x7b\x7b5|c\x7d\x7d\x7d</style>" ++
    "<g id=\"\x7b\x7bx|uuid\x7d\x7d\" fill=\"\x7b\x7bred|a.b\x7d\x7d\"/></svg>").toList

theorem classification_reserved_declared :
    ∃ a r defaults, builtIn.process {} (.ofText "svg/a.svg".toList declaringMarkup "h1".toList) =
        .ok a ∧ a.state.result? = some r ∧
      r.interface = some "\x7buuid:number;a:\x7bb:string\x7d;c:number\x7d".toList ∧
      r.defaults = some defaults ∧ defaults.getLast? = some ("uuid".toList, .int 0) ∧
      DeclaresBeside "uuid".toList (Markup.removeScripts (Markup.removeStyles
        (Source.ofText "svg/a.svg".toList declaringMarkup "h1".toList).svg)) := by
  obtain ⟨a, r, hprocess, hresult, hinterface⟩ :=
    exists_result_of_any (x := builtIn.process {} (.ofText "svg/a.svg".toList declaringMarkup
      "h1".toList)) (p := fun r => r.interface ==
        some "\x7buuid:number;a:\x7bb:string\x7d;c:number\x7d".toList) (by decide +kernel)
  rw [beq_iff_eq] at hinterface
  obtain ⟨css, -, -, -, -, hboth, -, hdefaults, -⟩ := classification hprocess hresult
  obtain ⟨defaults, hsome⟩ := Option.isSome_iff_exists.1 (hboth.1 (hinterface ▸ rfl))
  refine ⟨a, r, defaults, hprocess, hresult, hinterface, hsome, ?_, ?_⟩
  · rw [hdefaults defaults hsome, List.getLast?_append]
    rfl
  · rw [declaresBeside_iff]
    decide +kernel

end Pipeline

end SvgAssets
