/-
# SvgAssets.Proofs.Conversion.Context -- whether the interface of a record fits its defaults

A record tells of its variables twice. The defaults stay a tree; the interface is written as a
descriptor, and the tree that is read back from it is what the module declares. The two are kept in
step up to the descriptor. A name with a colon comes back from it as another one, and all others
come back as they were, so colons decide for which records interface and defaults have the same
places (`contextAgrees_iff`).
-/
import SvgAssets.Proofs.Conversion.Rendering
import SvgAssets.Proofs.Template.ColonFreeNames

namespace SvgAssets

open Template Template.Descriptor

/-- The interface of the record, as it is read back, and its defaults have the same places, and at
each a number faces the type of numbers, and a text that of texts. -/
def AssetRecord.ContextAgrees (r : AssetRecord) : Prop :=
  ∃ descriptor tree defaults, r.interface = some descriptor ∧ read descriptor = .ok tree ∧
    r.defaults = some defaults ∧
      ∀ place, ShapeAt (VariableTree.lookup? tree place) (VariableTree.lookup? defaults place)

/-- Whatever place has a default is found in the interface, so there is no colon on the way to
it. -/
theorem AssetRecord.ContextAgrees.colon_notMem {r : AssetRecord} (h : r.ContextAgrees)
    {defaults : Entries Value} (hdefaults : r.defaults = some defaults) {place : List Text}
    {value : Value} (hlookup : VariableTree.lookup? defaults place = some value) :
    ∀ key ∈ place, ':' ∉ key := by
  obtain ⟨descriptor, tree, _, -, hread, hd, hagree⟩ := h
  obtain rfl := Option.some.inj (hdefaults.symm.trans hd)
  have hshape := hagree place
  rw [hlookup] at hshape
  obtain ⟨found, hfound⟩ := hshape.exists_type
  exact (read_areColonFree hread).colon_notMem hfound

namespace Pipeline.Asset

variable {a : Asset} {config : Config}

theorem reserved_notMem (config : Config) (tree : Entries Value) :
    config.instanceVariable ∉ Entries.names (unreserved config tree) := by
  intro h
  obtain ⟨x, hx, hname⟩ := List.mem_map.1 h
  have hne : (x.1 != config.instanceVariable) = true := (List.mem_filter.1 hx).2
  rw [hname, bne_self_eq_false] at hne
  cases hne

/-- Every type faces its default, the reserved ones included. -/
theorem shapeAt_allTypes (h : SameShape a.declared.types a.declared.defaults) (key : Text) :
    ShapeAt (Entries.get? (a.allTypes config) key) (Entries.get? (a.allDefaults config) key) := by
  rw [allTypes, allDefaults, Entries.get?, Entries.get?_append]
  by_cases hkey : config.instanceVariable = key
  · subst hkey
    rw [if_pos rfl, Entries.get?_eq_none_iff.2 (reserved_notMem config _), Entries.get?, if_pos rfl]
    exact .leaf (.number _)
  · rw [if_neg hkey, Entries.get?, if_neg hkey, Entries.get?, Option.or_none]
    exact (h.filter (· != config.instanceVariable)).get? key

theorem areColonFree_allDefaults :
    AreColonFree (a.allDefaults config) ↔
      AreColonFree (unreserved config a.declared.defaults) ∧ ':' ∉ config.instanceVariable := by
  rw [allDefaults, areColonFree_iff, areColonFree_iff, List.forall_mem_append,
    List.forall_mem_singleton]
  exact and_congr_right fun _ => and_iff_left trivial

/-- The record of an asset with types and defaults in step has an interface that agrees with its
defaults exactly if no name in it is cut off by a colon, and the first does not begin with the brace
that closes the interface. -/
theorem contextAgrees_assemble_iff (hdynamic : a.isDynamic config = true)
    (hbrace : AreBraceFree a.declared.types) (htidy : a.declared.AreTidy)
    (hshape : SameShape a.declared.types a.declared.defaults) :
    (a.assemble config).ContextAgrees ↔
      AreColonFree (a.allDefaults config) ∧ config.instanceVariable.head? ≠ some '\x7d' := by
  have hinterface : (a.assemble config).interface = some (describe (a.allTypes config)) :=
    if_pos hdynamic
  have hdefaults : (a.assemble config).defaults = some (a.allDefaults config) := if_pos hdynamic
  constructor
  · intro hagrees
    have hplace : ∀ place value, VariableTree.lookup? (a.allDefaults config) place = some value →
        ∀ key ∈ place, ':' ∉ key :=
      fun _ _ hlookup => hagrees.colon_notMem hdefaults hlookup
    refine ⟨areColonFree_allDefaults.2 ⟨?_, ?_⟩, ?_⟩
    · refine areColonFree_of_lookup? (htidy.defaults.filter _) ?_
      intro place value hlookup
      exact hplace place value (VariableTree.lookup?_append_left hlookup _)
    · refine hplace [config.instanceVariable] (.int 0) ?_ _ (List.mem_singleton_self _)
      rw [VariableTree.lookup?, allDefaults, Entries.get?_append,
        Entries.get?_eq_none_iff.2 (reserved_notMem config _), Entries.get?, if_pos rfl]
      rfl
    · intro hhead
      obtain ⟨descriptor, tree, -, hi, hread, -⟩ := hagrees
      obtain rfl := Option.some.inj (hinterface.symm.trans hi)
      exact not_read_describe_cons hhead _ _ ⟨tree, hread⟩
  · rintro ⟨hcolon, hhead⟩
    obtain ⟨hcolon, hreserved⟩ := areColonFree_allDefaults.1 hcolon
    have hunreserved := hshape.filter (· != config.instanceVariable)
    have hdescribable := hunreserved.areDescribable (htidy.types.filter _) (hbrace.filter _)
      (hunreserved.areColonFree_iff.2 hcolon)
    refine ⟨_, a.allTypes config, _, hinterface, ?_, hdefaults, ?_⟩
    · exact hdescribable.read_describe_cons (unreserved_ne_nil_iff.2 hdynamic)
        (reserved_notMem config _) hreserved hhead (Text.forall_mem_of_all rfl)
    · exact shapeAt_lookup? (shapeAt_allTypes hshape)

end Pipeline.Asset

namespace Conversion

/-- **When a module declares the variables that it has defaults for.** The interface of a record
that has variables is read back with the places of the defaults, and with numbers where these are
numbers, exactly if no name among the defaults, at any depth, holds a colon, and the instance
variable does not begin with a closing brace. -/
theorem contextAgrees_iff {config : Pipeline.Config} {source : Pipeline.Source}
    {a : Attempt Pipeline.StageFailure Pipeline.Notice Pipeline.Progress}
    (hprocess : Pipeline.builtIn.process config source = .ok a) {r : AssetRecord}
    (hresult : a.state.result? = some r) (hdynamic : r.isDynamic = true) :
    r.ContextAgrees ↔
      (∀ defaults, r.defaults = some defaults → AreColonFree defaults) ∧
        config.instanceVariable.head? ≠ some '\x7d' := by
  obtain ⟨hrecord, hbrace⟩ := Pipeline.result_builtIn hprocess hresult
  have hderived := Pipeline.declared_of_result (P := Derived) .empty (fun _ s h => h.takeIn s)
    hprocess hresult
  have hasset : a.state.asset.isDynamic config = true := by
    by_contra hstatic
    have hnone : r.defaults = none := by
      rw [hrecord]
      exact if_neg hstatic
    rw [AssetRecord.isDynamic, hnone] at hdynamic
    cases hdynamic
  have hdefaults : r.defaults = some (a.state.asset.allDefaults config) := by
    rw [hrecord]
    exact if_pos hasset
  rw [hdefaults]
  simp only [Option.some.injEq, forall_eq']
  rw [hrecord]
  exact Pipeline.Asset.contextAgrees_assemble_iff hasset hbrace hderived.areTidy
    hderived.sameShape

/-- The defaults of the image whose variable is `a.b` hold no colon, so its interface agrees with
them. -/
theorem contextAgrees_iff_nested :
    ∃ a r, Pipeline.builtIn.process {}
        (.ofText "svg/a.svg".toList (markupWith "a.b".toList) "h1".toList) = .ok a ∧
      a.state.result? = some r ∧ r.isDynamic = true ∧ r.ContextAgrees := by
  have hrun : (match Pipeline.builtIn.process {}
        (.ofText "svg/a.svg".toList (markupWith "a.b".toList) "h1".toList) with
      | .ok a => a.state.result?.any fun r =>
          r.isDynamic && r.defaults.all fun defaults => decide (AreColonFree defaults)
      | .error _ => false) = true := by
    decide +kernel
  split at hrun
  · rename_i a hprocess
    obtain ⟨r, hresult, hcolon⟩ := (Option.any_eq_true _ _).1 hrun
    rw [Bool.and_eq_true, Option.all_eq_true] at hcolon
    refine ⟨a, r, hprocess, hresult, hcolon.1, ?_⟩
    refine (contextAgrees_iff hprocess hresult hcolon.1).2 ⟨?_, by decide⟩
    intro defaults hdefaults
    exact of_decide_eq_true (hcolon.2 defaults hdefaults)
  · cases hrun

/-- The interface of the image whose variable is `a:b` declares a variable `a` in its place. -/
theorem not_contextAgrees_colon :
    ∃ a r, Pipeline.builtIn.process {}
        (.ofText "svg/a.svg".toList (markupWith "a:b".toList) "h1".toList) = .ok a ∧
      a.state.result? = some r ∧ r.isDynamic = true ∧ ¬ r.ContextAgrees := by
  have hrun : (match Pipeline.builtIn.process {}
        (.ofText "svg/a.svg".toList (markupWith "a:b".toList) "h1".toList) with
      | .ok a => a.state.result?.any fun r =>
          r.defaults.any fun defaults => (VariableTree.lookup? defaults ["a:b".toList]).isSome
      | .error _ => false) = true := by
    decide +kernel
  split at hrun
  · rename_i a hprocess
    obtain ⟨r, hresult, hany⟩ := (Option.any_eq_true _ _).1 hrun
    obtain ⟨defaults, hdefaults, hsome⟩ := (Option.any_eq_true _ _).1 hany
    obtain ⟨value, hvalue⟩ := Option.isSome_iff_exists.1 hsome
    refine ⟨a, r, hprocess, hresult, ?_, ?_⟩
    · rw [AssetRecord.isDynamic, hdefaults]
      rfl
    · intro hagrees
      have hcolon := hagrees.colon_notMem hdefaults hvalue _ (List.mem_singleton_self _)
      exact hcolon (by decide)
  · cases hrun

end Conversion

end SvgAssets
