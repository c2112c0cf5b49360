/-
# SvgAssets.Proofs.Angular.Exports -- what the sources of a module export and import

Whether an asset is dynamic is decided four times: its source asks for the description of its
variables, and the line in the index, the component and the lists of components ask for the
defaults. A record that was assembled has both or neither (`interface_assemble_isSome_iff`), so all
four agree, and every name that is imported is exported (`sources_agree`).
-/
import SvgAssets.Blueprint.Angular
import SvgAssets.Proofs.Conversion.Rendering

namespace SvgAssets

/-! ## Exports of an asset -/

namespace AssetRecord

open TypeScript

/-- The index exports the type of the variables of an asset. -/
def ExportsContext (r : AssetRecord) : Prop := r.contextSymbol ∈ r.reexport.exports

instance (r : AssetRecord) : Decidable r.ExportsContext := inferInstanceAs (Decidable (_ ∈ _))

theorem contextSymbol_ne_symbol (r : AssetRecord) : r.contextSymbol ≠ r.symbol := by
  intro h
  have hlength := congrArg List.length h
  rw [contextSymbol, List.length_append] at hlength
  have hpos : 0 < "Context".toList.length := by decide
  omega

/-- The index exports the type of the variables exactly for dynamic assets. -/
theorem exportsContext_iff {r : AssetRecord} : r.ExportsContext ↔ r.isDynamic = true := by
  unfold ExportsContext reexport Statement.exports
  cases r.isDynamic with
  | true => simp
  | false => simpa using r.contextSymbol_ne_symbol

/-- A description that is not missing is not empty, and there is one exactly for dynamic assets. -/
structure IsConsistent (r : AssetRecord) : Prop where
  interface_ne_nil : r.interface ≠ some []
  isSome_interface : r.interface.isSome = r.isDynamic

/-- The source of a consistent record exports what the index exports again. -/
theorem IsConsistent.exports_perm {r : AssetRecord} (h : r.IsConsistent) {source : Source}
    (hsource : r.assetSource = .ok source) : source.exports.Perm r.reexport.exports := by
  have hinterface := h.isSome_interface
  unfold assetSource at hsource
  split at hsource
  · rename_i hnone
    cases hsource
    rw [hnone] at hinterface
    simp [Source.exports, constant, reexport, Statement.exports, ← hinterface]
  · rename_i hnil
    exact absurd hnil h.interface_ne_nil
  · rename_i descriptor _ hsome
    rw [hsome] at hinterface
    cases hread : Template.Descriptor.read descriptor with
    | error e =>
      rw [hread] at hsource
      cases hsource
    | ok types =>
      rw [hread] at hsource
      cases hsource
      simpa [Source.exports, constant, reexport, Statement.exports, ← hinterface] using
        List.Perm.swap ..

end AssetRecord

/-- A record that was assembled is consistent: it has a description and defaults, or neither. -/
theorem Pipeline.Asset.isConsistent_assemble (a : Asset) (config : Config) :
    (a.assemble config).IsConsistent where
  interface_ne_nil := by
    show (if _ then some (Template.describe (a.allTypes config)) else none) ≠ some []
    split
    · simpa using describe_ne_nil _
    · simp
  isSome_interface := by
    unfold assemble AssetRecord.isDynamic
    cases a.isDynamic config <;> rfl

/-! ## Files of a module -/

namespace Angular

open TypeScript Blueprint

/-- The file of the source of an asset. -/
def sourceFile (settings : Settings) (r : AssetRecord) (source : Source) : GeneratedFile :=
  ⟨modulePath settings ["assets".toList, sourceName r], source.text⟩

/-- The file of the component of an asset. -/
def componentFile (settings : Settings) (r : AssetRecord) : GeneratedFile :=
  ⟨modulePath settings ["components".toList, r.name ++ ".component.ts".toList],
    (component r (selector settings r)).text⟩

/-- A component is written for a record exactly if the index exports the type of its variables. -/
theorem assetFiles_eq {settings : Settings} {r : AssetRecord} {source : Source}
    (h : r.assetSource = .ok source) :
    angular.assetFiles settings r =
      .ok (sourceFile settings r source ::
        if r.ExportsContext then [componentFile settings r] else []) := by
  have htext : r.sourceText = .ok source.text := by rw [AssetRecord.sourceText, h]
  show (r.sourceText >>= _) = _
  rw [htext]
  show (if r.isDynamic = true then _ else _) = _
  by_cases hdynamic : r.isDynamic = true
  · rw [if_pos hdynamic, if_pos (AssetRecord.exportsContext_iff.2 hdynamic)]
    rfl
  · rw [if_neg hdynamic, if_neg (mt AssetRecord.exportsContext_iff.1 hdynamic)]
    rfl

/-! ## Names in code -/

/-- Code that exports a name declares it, as a function or as a class. -/
def Declares : Statement → Prop
  | .exportCode name code =>
    "export function ".toList ++ name ++ ['('] <:+: code ∨
      "export class ".toList ++ name ++ [' '] <:+: code
  | _ => True

theorem isInfix_lines {w : Text} {l : String} {ls : List String} (hl : l ∈ ls)
    (hw : w <+: l.toList) : w <:+: lines ls := by
  obtain ⟨front, back, rfl⟩ := List.append_of_mem hl
  have hline : l.toList <:+: lines (front ++ l :: back) :=
    ⟨lines front, ['\n'] ++ lines back, by simp [lines]⟩
  exact hw.isInfix.trans hline

theorem declares_assetIndex (records : List AssetRecord) (classPrefix : Text) :
    ∀ x ∈ assetIndex records classPrefix, Declares x := by
  have htemplate : Declares (templateHelper classPrefix) :=
    .inl (isInfix_lines (List.mem_cons_of_mem _ (List.mem_cons_self ..)) (by decide +kernel))
  have hviewBox : Declares viewBoxHelper :=
    .inl (isInfix_lines (List.mem_cons_of_mem _ (List.mem_cons_self ..)) (by decide +kernel))
  intro x hx
  rw [assetIndex, List.mem_append, barrel, List.mem_map] at hx
  rcases hx with ⟨r, -, rfl⟩ | hx
  · trivial
  · simp only [List.mem_cons, List.not_mem_nil, or_false] at hx
    rcases hx with rfl | rfl
    · exact htemplate
    · exact hviewBox

theorem declares_component (r : AssetRecord) (selector : Text) :
    ∀ x ∈ component r selector, Declares x := by
  have hline : "export class " ++ String.ofList r.symbol ++ "Component implements OnInit \x7b" ∈
      componentCode r selector :=
    List.mem_of_getElem? (i := 6) rfl
  have hclass : Declares (.exportCode (componentSymbol r) (lines (componentCode r selector))) := by
    refine .inr (isInfix_lines hline ?_)
    simp [componentSymbol]
  simp only [component, List.forall_mem_cons]
  exact ⟨trivial, trivial, hclass, List.forall_mem_nil _⟩

theorem declares_ngModule (components : List AssetRecord) (moduleName : Text) :
    ∀ x ∈ ngModule components moduleName, Declares x := by
  have hline : "export class " ++ String.ofList (moduleSymbol moduleName) ++ " \x7b\x7d" ∈
      moduleCode (components.map componentSymbol) moduleName :=
    List.mem_of_getElem? (i := 8) rfl
  have hclass : Declares (.exportCode (moduleSymbol moduleName)
      (lines (moduleCode (components.map componentSymbol) moduleName))) := by
    refine .inr (isInfix_lines hline ?_)
    simp
  intro x hx
  simp only [ngModule, List.mem_append, List.mem_cons, List.not_mem_nil, or_false] at hx
  rcases hx with ((rfl | rfl) | hx) | rfl
  · trivial
  · trivial
  · split at hx
    · cases hx
    · rw [List.mem_singleton] at hx
      subst hx
      trivial
  · exact hclass

/-- The code of the module stands at its end. -/
theorem exists_text_ngModule (components : List AssetRecord) (moduleName : Text) :
    ∃ front, Source.text (ngModule components moduleName) =
      front ++ lines (moduleCode (components.map componentSymbol) moduleName) := by
  have hcode (name code : Text) : (Statement.exportCode name code).text = code := rfl
  rw [Source.text, ngModule, List.flatMap_append, List.flatMap_singleton, hcode]
  exact ⟨_, rfl⟩

/-- The module declares and exports the components by a list of their names. -/
theorem isInfix_text_ngModule (components : List AssetRecord) (moduleName : Text) :
    "const components = [".toList ++ [',', ' '].intercalate (components.map componentSymbol) ++
      "];".toList <:+: Source.text (ngModule components moduleName) := by
  have hline : "const components = [" ++
      String.ofList ([',', ' '].intercalate (components.map componentSymbol)) ++ "];" ∈
        moduleCode (components.map componentSymbol) moduleName :=
    List.mem_cons_of_mem _ (List.mem_cons_self ..)
  have hcode : "const components = [".toList ++
      [',', ' '].intercalate (components.map componentSymbol) ++ "];".toList <:+:
        lines (moduleCode (components.map componentSymbol) moduleName) := by
    refine isInfix_lines hline ?_
    simp
  obtain ⟨front, htext⟩ := exists_text_ngModule components moduleName
  rw [htext]
  exact hcode.trans (List.suffix_append ..).isInfix

/-! ## Agreement -/

/-- The names that a source exports again, with the sources that they are taken from. -/
def reexports (source : Source) : List (Text × List Text) :=
  source.filterMap fun
    | .exportNames names other => some (other, names)
    | _ => none

/-- The names that the components of some assets export, in their order. -/
def componentNames (settings : Settings) (components : List AssetRecord) : List Text :=
  components.flatMap fun r => Source.exports (component r (selector settings r))

theorem componentNames_eq (settings : Settings) (components : List AssetRecord) :
    componentNames settings components = components.map componentSymbol := by
  rw [componentNames, List.map_eq_flatMap]
  rfl

theorem reexports_componentIndex (settings : Settings) (components : List AssetRecord) :
    reexports (componentIndex components) = components.map fun r =>
      ("./".toList ++ r.name ++ ".component".toList,
        Source.exports (component r (selector settings r))) := by
  rw [reexports, componentIndex, List.filterMap_map]
  exact congrFun List.filterMap_eq_map components

/-- The assets that the index exports the type of the variables of. -/
def withContext (records : List AssetRecord) : List AssetRecord :=
  records.filter fun r => r.ExportsContext

theorem withContext_eq (records : List AssetRecord) :
    withContext records = records.filter AssetRecord.isDynamic := by
  refine List.filter_congr fun r _ => ?_
  rw [Bool.eq_iff_iff, decide_eq_true_iff]
  exact AssetRecord.exportsContext_iff

/-- The sources of a module agree about the names in them. -/
structure SourcesAgree (settings : Settings) (records : List AssetRecord) : Prop where
  /-- The index exports the names that the source of an asset exports. There is a component for the
  asset if and only if the type of its variables is one of them. -/
  assets : ∀ r ∈ records, ∃ source, r.assetSource = .ok source ∧
    source.exports.Perm r.reexport.exports ∧
    angular.assetFiles settings r =
      .ok (sourceFile settings r source ::
        if r.ExportsContext then [componentFile settings r] else [])
  /-- The index of the assets exports what the components import from it. -/
  imports : ∀ r ∈ withContext records,
    ∀ name ∈ Source.importsFrom assetsPath (component r (selector settings r)),
      name ∈ Source.exports (assetIndex records (classPrefix settings))
  /-- The indexes and the module are made of the components that are written. -/
  indexes : angular.indexFiles settings records =
    .ok [⟨modulePath settings ["assets".toList, "index.ts".toList],
        Source.text (assetIndex records (classPrefix settings))⟩,
      ⟨modulePath settings ["components".toList, "index.ts".toList],
        Source.text (componentIndex (withContext records))⟩,
      ⟨modulePath settings [Naming.kebabCase settings.moduleName ++ ".module.ts".toList],
        Source.text (ngModule (withContext records) settings.moduleName)⟩]
  /-- The index of the components exports what the components export, file by file. -/
  exported : reexports (componentIndex (withContext records)) =
    (withContext records).map fun r =>
      ("./".toList ++ r.name ++ ".component".toList,
        Source.exports (component r (selector settings r)))
  /-- The module imports and lists the names of the components in the same order. -/
  listed : Source.importsFrom "./components".toList
      (ngModule (withContext records) settings.moduleName) =
        componentNames settings (withContext records) ∧
    "const components = [".toList ++
      [',', ' '].intercalate (componentNames settings (withContext records)) ++ "];".toList <:+:
        Source.text (ngModule (withContext records) settings.moduleName)
  /-- What code is said to export it declares. -/
  declared : ∀ x ∈ assetIndex records (classPrefix settings) ++
    records.flatMap (fun r => component r (selector settings r)) ++
      ngModule (withContext records) settings.moduleName, Declares x

/-- The index of the assets exports the asset, its type and the two functions. -/
theorem mem_exports_assetIndex {records : List AssetRecord} {r : AssetRecord} {name : Text}
    (hr : r ∈ withContext records) (classPrefix : Text)
    (hname : name ∈ [r.symbol, r.contextSymbol, "getNgSvgTemplate".toList,
      "getSVGViewbox".toList]) :
    name ∈ Source.exports (assetIndex records classPrefix) := by
  obtain ⟨hmem, hcontext⟩ := List.mem_filter.1 hr
  have hdynamic : r.isDynamic = true :=
    AssetRecord.exportsContext_iff.1 (of_decide_eq_true hcontext)
  have hreexport : r.reexport.exports = [r.symbol, r.contextSymbol] := by
    rw [AssetRecord.reexport, if_pos hdynamic, Statement.exports]
  rw [Source.exports, assetIndex, List.flatMap_append, List.mem_append]
  simp only [List.mem_cons, List.not_mem_nil, or_false] at hname
  rcases hname with rfl | rfl | rfl | rfl
  · exact .inl (List.mem_flatMap.2 ⟨r.reexport, List.mem_map_of_mem hmem, by simp [hreexport]⟩)
  · exact .inl (List.mem_flatMap.2 ⟨r.reexport, List.mem_map_of_mem hmem, by simp [hreexport]⟩)
  · exact .inr (List.mem_cons_self ..)
  · exact .inr (List.mem_cons_of_mem _ (List.mem_cons_self ..))

theorem importsFrom_component (r : AssetRecord) (selector : Text) :
    Source.importsFrom assetsPath (component r selector) =
      [r.symbol, r.contextSymbol, "getNgSvgTemplate".toList, "getSVGViewbox".toList] := by
  have hother : "@angular/core".toList ≠ assetsPath := by decide
  simp only [Source.importsFrom, component, List.flatMap_cons, List.flatMap_nil, if_neg hother,
    if_true, List.nil_append, List.append_nil]

theorem importsFrom_ngModule (components : List AssetRecord) (moduleName : Text) :
    Source.importsFrom "./components".toList (ngModule components moduleName) =
      components.map componentSymbol := by
  have hcore : "@angular/core".toList ≠ "./components".toList := by decide
  have hcommon : "@angular/common".toList ≠ "./components".toList := by decide
  simp only [Source.importsFrom, ngModule, List.flatMap_append, List.flatMap_cons, List.flatMap_nil,
    if_neg hcore, if_neg hcommon, List.nil_append, List.append_nil]
  split
  · rename_i hnil
    rw [List.isEmpty_iff.1 hnil, List.flatMap_nil]
  · simp only [List.flatMap_singleton, if_true]

/-- **The sources of a module agree.** For all assets whose sources can be rendered, the index, the
components, their index and the module agree about what there is and what it is called. -/
theorem sources_agree (settings : Settings) (contexts : List (Pipeline.Asset × Pipeline.Config))
    (hrender : ∀ x ∈ contexts, ∃ source, (x.1.assemble x.2).assetSource = .ok source) :
    SourcesAgree settings (contexts.map fun x => x.1.assemble x.2) where
  assets := by
    intro r hr
    obtain ⟨x, hx, rfl⟩ := List.mem_map.1 hr
    obtain ⟨source, hsource⟩ := hrender x hx
    have hconsistent := x.1.isConsistent_assemble x.2
    exact ⟨source, hsource, hconsistent.exports_perm hsource, assetFiles_eq hsource⟩
  imports := by
    intro r hr name hname
    rw [importsFrom_component] at hname
    exact mem_exports_assetIndex hr (classPrefix settings) hname
  indexes := by
    rw [withContext_eq]
    rfl
  exported := by
    exact reexports_componentIndex settings _
  listed := by
    rw [componentNames_eq]
    exact ⟨importsFrom_ngModule .., isInfix_text_ngModule ..⟩
  declared := by
    intro x hx
    rw [List.mem_append, List.mem_append, List.mem_flatMap] at hx
    rcases hx with (hx | ⟨r, -, hx⟩) | hx
    · exact declares_assetIndex _ _ x hx
    · exact declares_component r _ x hx
    · exact declares_ngModule _ _ x hx

/-- An asset without markup that declares some variables with texts as defaults. -/
def assetWith (name : Text) (fills : List (Text × Text)) : Pipeline.Asset where
  source := ⟨"svg/".toList ++ name ++ ".svg".toList, name, [], "h1".toList, []⟩
  geometry := none
  declared := ⟨fills.map fun v => (v.1, .text "string".toList),
    fills.map fun v => (v.1, .text v.2)⟩
  ids := []
  record := none

/-- A dynamic asset and a static one. -/
def twoAssets : List (Pipeline.Asset × Pipeline.Config) :=
  [(assetWith "my-icon".toList [("fill".toList, "red".toList)], {}),
    (assetWith "logo".toList [], {})]

theorem sources_agree_two_assets :
    (∀ x ∈ twoAssets, ∃ source, (x.1.assemble x.2).assetSource = .ok source) ∧
      SourcesAgree {} (twoAssets.map fun x => x.1.assemble x.2) ∧
      componentNames {} (withContext (twoAssets.map fun x => x.1.assemble x.2)) =
        ["MyIconComponent".toList] := by
  have hall : twoAssets.all (fun x => (x.1.assemble x.2).assetSource.toOption.isSome) = true := by
    decide +kernel
  have hrender : ∀ x ∈ twoAssets, ∃ source, (x.1.assemble x.2).assetSource = .ok source := by
    intro x hx
    have hsome := List.all_eq_true.1 hall x hx
    cases h : (x.1.assemble x.2).assetSource with
    | error e => rw [h] at hsome; cases hsome
    | ok source => exact ⟨source, rfl⟩
  exact ⟨hrender, sources_agree {} twoAssets hrender, by decide +kernel⟩

end Angular

end SvgAssets
