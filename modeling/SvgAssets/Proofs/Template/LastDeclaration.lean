/-
# SvgAssets.Proofs.Template.LastDeclaration -- what the variables of many texts come to

Texts are scanned one after the other, and what each declares is merged into what was there. Where
no declared place is above another, the two trees that result are those of all declarations taken
in one by one (`takeIn_records_last`): each place has what its last declaration gives, there is
nothing else, and in every table the names stand in the order in which they were first declared.
Nothing of this depends on how the declarations are spread over texts.
-/
import SvgAssets.Proofs.Template.Declaring

namespace SvgAssets.Template

open Text Descriptor VariableTree

namespace VariableTree

/-! ## The names in a table -/

/-- The table at a place; at the empty place stands the tree itself. -/
def tableAt? (tree : VariableTree) : List Text → Option VariableTree
  | [] => some tree
  | key :: keys =>
    match tree.lookup? (key :: keys) with
    | some (.table entries) => some entries
    | _ => none

/-- The name that comes behind `front` in a place that lies below it. -/
def nextName (front place : List Text) : Option Text :=
  if front <+: place then place[front.length]? else none

theorem exists_of_tableAt?_cons {tree node : VariableTree} {key : Text} {keys : List Text}
    (h : tree.tableAt? (key :: keys) = some node) :
    ∃ entries, tree.get? key = some (.table entries) ∧ tableAt? entries keys = some node := by
  rw [tableAt?] at h
  cases keys with
  | nil =>
    rw [lookup?] at h
    split at h
    · rename_i entries hget
      exact ⟨entries, hget, h⟩
    · cases h
  | cons next keys =>
    rw [lookup?] at h
    cases hget : tree.get? key with
    | none =>
      rw [hget] at h
      cases h
    | some value =>
      rw [hget] at h
      cases value with
      | table entries => exact ⟨entries, rfl, h⟩
      | _ => cases h

theorem filterMap_nextName_nil (entries : List (List Text × Value)) :
    (entries.filterMap fun e => nextName [] e.1) = heads entries := by
  apply List.filterMap_congr
  intro e _
  simp [nextName, List.head?_eq_getElem?]

theorem filterMap_nextName_cons (key : Text) (front : List Text)
    (entries : List (List Text × Value)) :
    (entries.filterMap fun e => nextName (key :: front) e.1) =
      (below key entries).filterMap fun e => nextName front e.1 := by
  rw [below, List.filterMap_filterMap]
  apply List.filterMap_congr
  rintro ⟨place, value⟩ _
  cases place with
  | nil => simp [nextName]
  | cons first keys =>
    by_cases h : first = key
    · simp [nextName, h]
    · simp [nextName, h, Ne.symm h]

/-- Where no place is above another, the names in a table are those that were put there, in the
order in which they came first. -/
theorem names_of_tableAt? {entries : List (List Text × Value)}
    (hfree : ArePrefixFree (entries.map (·.1))) (hleaf : ∀ e ∈ entries, IsLeaf e.2)
    {front : List Text} {node : VariableTree}
    (h : (putAll [] entries).tableAt? front = some node) :
    node.names = (entries.filterMap fun e => nextName front e.1).eraseDups := by
  induction front generalizing entries with
  | nil =>
    cases h
    rw [filterMap_nextName_nil, names_putAll_nil]
  | cons key front ih =>
    obtain ⟨table, hget, htable⟩ := exists_of_tableAt?_cons h
    have hbelow : ∀ e ∈ below key entries, IsLeaf e.2 := fun e he =>
      hleaf (key :: e.1, e.2) (mem_below.1 he)
    have hne : below key entries ≠ [] := by
      intro hnil
      rw [get?_putAll, hnil] at hget
      cases hget
    rw [get?_putAll] at hget
    rw [filterMap_nextName_cons]
    rcases (hfree.below key).eq_nil_or_ne_nil with hnil | hplaces
    · -- A value stands at the name, and no table.
      rw [putAllAt_of_eq_nil hne hnil, Option.some.injEq] at hget
      have hvalue := hbelow _ (List.getLast_mem hne)
      rw [hget] at hvalue
      exact absurd hvalue id
    · rw [putAllAt_of_ne_nil hne hplaces] at hget
      cases hget
      exact ih (hfree.below key) hbelow htable

end VariableTree

/-! ## What a tree records -/

/-- The last declaration of a place. -/
def lastAt? (ds : List Declaration) (place : List Text) : Option Declaration :=
  ds.reverse.find? fun d => d.place == place

/-- A declared place has a last declaration, behind which it is not declared any more. -/
theorem exists_lastAt? {ds : List Declaration} {d : Declaration} (h : d ∈ ds) :
    ∃ front last back, lastAt? ds d.place = some last ∧ ds = front ++ last :: back ∧
      last.place = d.place ∧ ∀ later ∈ back, later.place ≠ d.place := by
  have hsome : (lastAt? ds d.place).isSome := by
    rw [lastAt?, List.find?_isSome]
    exact ⟨d, List.mem_reverse.2 h, by simp⟩
  obtain ⟨last, hlast⟩ := Option.isSome_iff_exists.1 hsome
  obtain ⟨hplace, back, front, hds, hback⟩ := List.find?_eq_some_iff_append.1 hlast
  refine ⟨front.reverse, last, back.reverse, hlast, ?_, by simpa using hplace, ?_⟩
  · rw [← List.reverse_reverse ds, hds]
    simp
  · intro later hlater
    simpa using hback later (List.mem_reverse.1 hlater)

/-- The tree records the declarations, where `gives` is what a declaration gives its variable. -/
structure Records (tree : VariableTree) (gives : Declaration → Value → Prop)
    (ds : List Declaration) : Prop where
  /-- At a declared place stands what its last declaration gives. -/
  last : ∀ d ∈ ds, ∃ last value, lastAt? ds d.place = some last ∧ gives last value ∧
    tree.lookup? d.place = some value
  /-- All other places have at most a table. -/
  only : ∀ place value, tree.lookup? place = some value → IsLeaf value → ∃ d ∈ ds, d.place = place
  /-- In every table the names stand in the order in which they were first declared. -/
  order : ∀ front table, tree.tableAt? front = some table →
    table.names = (ds.filterMap fun d => nextName front d.place).eraseDups

theorem records_putAll {ds : List Declaration} {entry : Declaration → List Text × Value}
    {gives : Declaration → Value → Prop} (hplace : ∀ d, (entry d).1 = d.place)
    (hentry : ∀ d ∈ ds, IsEntry (entry d)) (hgives : ∀ d ∈ ds, gives d (entry d).2)
    (hfree : ArePrefixFree (ds.map Declaration.place)) :
    Records (putAll [] (ds.map entry)) gives ds := by
  have hplaces : (ds.map entry).map (·.1) = ds.map Declaration.place := by
    rw [List.map_map]
    exact List.map_congr_left fun d _ => hplace d
  have hleaf : ∀ e ∈ ds.map entry, IsLeaf e.2 :=
    List.forall_mem_map.2 fun d hd => (hentry d hd).isLeaf
  constructor
  case last =>
    intro d hd
    obtain ⟨front, last, back, hlast, rfl, hsame, hback⟩ := exists_lastAt? hd
    have hmem : last ∈ front ++ last :: back := by simp
    refine ⟨last, (entry last).2, hlast, hgives last hmem, ?_⟩
    rw [List.map_append, List.map_cons, ← hsame, ← hplace last]
    refine lookup?_putAll_last _ (hentry last hmem).ne_nil ?_ _ _
    refine List.forall_mem_map.2 fun later hlater => ?_
    -- Another place that is declared later is neither above nor below.
    have hlater' : later ∈ front ++ last :: back := by simp [hlater]
    have hother : later.place ≠ last.place := hsame ▸ hback later hlater
    rw [hplace, hplace]
    constructor
    · intro hprefix
      exact hother (hfree _ (List.mem_map_of_mem hlater') _ (List.mem_map_of_mem hmem) hprefix)
    · intro hprefix
      exact hother
        (hfree _ (List.mem_map_of_mem hmem) _ (List.mem_map_of_mem hlater') hprefix).symm
  case only =>
    intro place value hlookup hvalue
    obtain ⟨e, he, rfl⟩ := exists_mem_of_lookup? hleaf hvalue hlookup
    obtain ⟨d, hd, rfl⟩ := List.mem_map.1 he
    exact ⟨d, hd, (hplace d).symm⟩
  case order =>
    intro front table htable
    rw [names_of_tableAt? (by rwa [hplaces]) hleaf htable, List.filterMap_map]
    congr 1
    exact List.filterMap_congr fun d _ => congrArg (nextName front) (hplace d)

/-- Both trees record the declarations that they come from. -/
theorem records_foldl_put {ds : List Declaration} (hsound : ∀ d ∈ ds, d.IsSound)
    (hfree : ArePrefixFree (ds.map Declaration.place)) :
    Records (ds.foldl Variables.put .empty).types
        (fun d value => value = .text (typeOf d.written).name) ds ∧
      Records (ds.foldl Variables.put .empty).defaults
        (fun d value => literal d.written = .ok value) ds := by
  rw [Variables.foldl_put]
  constructor
  · exact records_putAll (fun _ => rfl) (fun d hd => Declaration.isEntry_typeEntry (hsound d hd))
      (fun _ _ => rfl) hfree
  · exact records_putAll (fun _ => rfl)
      (fun d hd => Declaration.isEntry_defaultEntry (hsound d hd))
      (fun d hd => (hsound d hd).literal_eq) hfree

/-! ## Many texts -/

/-- Taking in texts one after the other is declaring all their variables. -/
theorem forEach_takeIn {texts : List Text} (hscan : ∀ s ∈ texts, (scan s).failure = none)
    (hfree : ArePrefixFree ((texts.flatMap declarations).map Declaration.place)) {v : Variables}
    (hv : v.AreTidy) :
    (Attempt.forEach Variables.takeIn v texts).state =
        (texts.flatMap declarations).foldl Variables.put v ∧
      (Attempt.forEach Variables.takeIn v texts).failure = none := by
  induction texts generalizing v with
  | nil => exact ⟨rfl, rfl⟩
  | cons s rest ih =>
    rw [List.forall_mem_cons] at hscan
    rw [List.flatMap_cons, List.map_append] at hfree
    obtain ⟨hstate, hnone⟩ := Variables.takeIn_of_completed hv hscan.1
      fun place hplace other hother =>
        hfree place (List.mem_append_left _ hplace) other (List.mem_append_left _ hother)
    rw [Attempt.forEach, Attempt.state_andThen_of_none hnone,
      Attempt.failure_andThen_of_none hnone, hstate, List.flatMap_cons, List.foldl_append]
    refine ih hscan.2 (fun place hplace other hother =>
      hfree place (List.mem_append_right _ hplace) other (List.mem_append_right _ hother)) ?_
    exact Variables.areTidy_foldl_put hv (Variables.completed_forEach_declare_iff.1 hscan.1)

/-- **The last declaration wins, and nothing else is lost.** Scan texts one after the other, and
merge what each of them declares into what was there. Where all scans come to their end and no
declared place is above another, the types and the defaults record the declarations of all texts,
and both are what the declarations leave behind when they are taken in one by one. -/
theorem takeIn_records_last (texts : List Text) (hscan : ∀ s ∈ texts, (scan s).failure = none)
    (hfree : ArePrefixFree ((texts.flatMap declarations).map Declaration.place)) :
    let ds := texts.flatMap declarations
    let merged := Attempt.forEach Variables.takeIn .empty texts
    let direct := Attempt.forEach Variables.declare .empty ds
    merged.failure = none ∧ direct.failure = none ∧ merged.state = direct.state ∧
      Records merged.state.types (fun d value => value = .text (typeOf d.written).name) ds ∧
      Records merged.state.defaults (fun d value => literal d.written = .ok value) ds := by
  intro ds merged direct
  have hsound : ∀ d ∈ ds, d.IsSound := by
    intro d hd
    obtain ⟨s, hs, hd⟩ := List.mem_flatMap.1 hd
    exact Variables.completed_forEach_declare_iff.1 (hscan s hs) d hd
  obtain ⟨hmerged, hnone⟩ := forEach_takeIn hscan hfree Variables.areTidy_empty
  obtain ⟨hdirect, hnone'⟩ := Variables.forEach_declare hsound .empty
  refine ⟨hnone, hnone', hmerged.trans hdirect.symm, ?_⟩
  rw [hmerged]
  exact records_foldl_put hsound hfree

/-- Two texts: the second declares `c` and `a.b` once more, in the other order. -/
def twoTexts : List Text :=
  [Declaration.text ⟨"red".toList, "a.b".toList⟩ ++ Declaration.text ⟨"1".toList, "c".toList⟩ ++
      Declaration.text ⟨"x".toList, "a..d".toList⟩,
    Declaration.text ⟨"2".toList, "c".toList⟩ ++ Declaration.text ⟨"blue".toList, " a.b ".toList⟩]

theorem takeIn_records_last_two_texts :
    (∀ s ∈ twoTexts, (scan s).failure = none) ∧
      ArePrefixFree ((twoTexts.flatMap declarations).map Declaration.place) ∧
      (Attempt.forEach Variables.takeIn .empty twoTexts).failure = none ∧
      (Attempt.forEach Variables.takeIn .empty twoTexts).state.defaults.lookup? [['a'], ['b']] =
        some (.text "blue".toList) ∧
      (Attempt.forEach Variables.takeIn .empty twoTexts).state.types.names = [['a'], ['c']] := by
  have hscan : ∀ s ∈ twoTexts, (scan s).failure = none := by decide +kernel
  have hfree : ArePrefixFree ((twoTexts.flatMap declarations).map Declaration.place) := by
    rw [ArePrefixFree]
    decide +kernel
  obtain ⟨hnone, -, -, htypes, hdefaults⟩ := takeIn_records_last twoTexts hscan hfree
  refine ⟨hscan, hfree, hnone, ?_, ?_⟩
  · have hlast : lastAt? (twoTexts.flatMap declarations) [['a'], ['b']] =
        some ⟨"blue".toList, " a.b ".toList⟩ := by
      decide +kernel
    have hmem : ⟨"red".toList, "a.b".toList⟩ ∈ twoTexts.flatMap declarations := by
      decide +kernel
    have hplace : Declaration.place ⟨"red".toList, "a.b".toList⟩ = [['a'], ['b']] := by
      decide +kernel
    obtain ⟨last, value, hlast', hvalue, hlookup⟩ := hdefaults.last _ hmem
    rw [hplace] at hlast' hlookup
    cases hlast.symm.trans hlast'
    have hliteral : literal "blue".toList = .ok (.text "blue".toList) := rfl
    cases hliteral.symm.trans hvalue
    exact hlookup
  · refine (htypes.order [] _ rfl).trans ?_
    decide +kernel

end SvgAssets.Template
