/-
# SvgAssets.Proofs.Conversion.Rendering -- which assets stop a conversion

An image that the stages cannot work on is left out, and the conversion goes on. Rendering comes
behind the stages: it reads the description of the variables back, and where that fails the whole
conversion stops. This module says for which assets it fails. The description can be read exactly if
its braces match as far as a reader sees them (`Asset.IsPrintable`), which with the usual instance
variable means that no table of variables has a name that ends in a type, as `a:` does. Nothing else
about an image stops a conversion (`stops_iff`).
-/
import SvgAssets.Conversion.Run
import SvgAssets.Proofs.Pipeline.BuiltInPlan

namespace SvgAssets

open Template Template.Descriptor

namespace Pipeline.Asset

/-! ## Assets that can be rendered -/

/-- The description of the variables can be read back: the instance variable opens as many objects
as the names of the other variables close too many, and one more. -/
def IsPrintable (a : Asset) (config : Config) : Prop :=
  a.isDynamic config = true →
    openBehind config.instanceVariable =
      hiddenIn false (unreserved config a.declared.types) + 1

theorem unreserved_ne_nil_iff {a : Asset} {config : Config} :
    unreserved config a.declared.types ≠ [] ↔ a.isDynamic config = true := by
  unfold unreserved isDynamic Entries.names
  rw [List.any_map, List.any_eq_true, Ne, List.filter_eq_nil_iff]
  simp

/-- An instance variable without braces opens one object, so no brace may be hidden. -/
theorem isPrintable_iff_areVisible {a : Asset} {config : Config}
    (h : HasNoBrace config.instanceVariable) :
    a.IsPrintable config ↔ AreVisible (unreserved config a.declared.types) := by
  unfold IsPrintable
  rw [openBehind_of_not_brace h, ← unreserved_ne_nil_iff, ← hiddenIn_eq_zero_iff]
  by_cases hnil : unreserved config a.declared.types = []
  · simp [hnil, hiddenIn]
  · simp only [Ne, hnil, not_false_eq_true, forall_const]
    omega

end Pipeline.Asset

/-! ## Records -/

/-- A record can be rendered if it has no variables or its description can be read. -/
theorem AssetRecord.sourceText_isOk_iff {r : AssetRecord} :
    (∃ text, r.sourceText = .ok text) ↔
      ∀ descriptor, r.interface = some descriptor → descriptor ≠ [] →
        ∃ tree, Descriptor.read descriptor = .ok tree := by
  unfold sourceText assetSource
  cases hinterface : r.interface with
  | none => simp
  | some descriptor =>
    simp only [Option.some.injEq, forall_eq']
    cases descriptor with
    | nil => simp
    | cons c s =>
      cases hread : Descriptor.read (c :: s) with
      | error e => simp [hread, bind, Except.bind]
      | ok tree => simp [hread, bind, Except.bind, pure, Except.pure]

theorem describe_ne_nil (tree : Entries Value) : describe tree ≠ [] := by
  unfold describe
  simp

/-- The record of an asset whose names hold no braces can be rendered exactly if the asset is
printable. -/
theorem sourceText_assemble_isOk_iff {a : Pipeline.Asset} {config : Pipeline.Config}
    (h : AreBraceFree a.declared.types) :
    (∃ text, (a.assemble config).sourceText = .ok text) ↔ a.IsPrintable config := by
  rw [AssetRecord.sourceText_isOk_iff]
  unfold Pipeline.Asset.IsPrintable
  by_cases hdynamic : a.isDynamic config = true
  · have hinterface : (a.assemble config).interface = some (describe (a.allTypes config)) :=
      if_pos hdynamic
    have hnumber : ∀ c ∈ "number".toList, isTypeChar c = true ∧ c ≠ '\x7b' :=
      Text.forall_mem_of_all rfl
    have hread := read_describe_isOk_iff hnumber (Pipeline.Asset.unreserved_ne_nil_iff.2 hdynamic)
      (h.filter fun entry => entry.1 != config.instanceVariable) config.instanceVariable
    rw [hinterface]
    constructor
    · intro hall _
      exact hread.1 (hall _ rfl (describe_ne_nil _))
    · intro hopen descriptor hdescriptor _
      cases hdescriptor
      exact hread.2 (hopen hdynamic)
  · have hinterface : (a.assemble config).interface = none := if_neg hdynamic
    rw [hinterface]
    simp [hdynamic]

/-! ## Blueprints -/

namespace Blueprint

/-- Steps of which the second never fails succeed together if the first does. -/
theorem exists_bind_eq_ok_iff {ε α β : Type} {x : Except ε α} {f : α → Except ε β}
    (hf : ∀ a, ∃ b, f a = .ok b) : (∃ b, (x >>= f) = .ok b) ↔ ∃ a, x = .ok a := by
  cases x with
  | error e => simp [bind, Except.bind]
  | ok a => simpa [bind, Except.bind] using hf a

theorem eq_of_get_builtIn {name : Text} {b : Blueprint} (h : builtIn.get name = .ok b) :
    b = angular ∨ b = typeScript := by
  unfold Catalog.get at h
  split at h
  · rename_i b' hfind
    cases h
    have hmem := List.mem_of_find?_eq_some hfind
    simpa [builtIn] using hmem
  · cases h

/-- The files of a record can be generated exactly if the record can be rendered. -/
theorem assetFiles_isOk_iff {name : Text} {b : Blueprint} (h : builtIn.get name = .ok b)
    (settings : Settings) (r : AssetRecord) :
    (∃ files, b.assetFiles settings r = .ok files) ↔ ∃ text, r.sourceText = .ok text := by
  rcases eq_of_get_builtIn h with rfl | rfl
  · refine exists_bind_eq_ok_iff fun text => ?_
    -- The component of a dynamic asset cannot fail.
    show ∃ files, (if r.isDynamic = true then _ else _) = Except.ok files
    split
    · exact ⟨_, rfl⟩
    · exact ⟨_, rfl⟩
  · exact exists_bind_eq_ok_iff fun text => ⟨_, rfl⟩

theorem indexFiles_isOk {name : Text} {b : Blueprint} (h : builtIn.get name = .ok b)
    (settings : Settings) (records : List AssetRecord) :
    ∃ files, b.indexFiles settings records = .ok files := by
  rcases eq_of_get_builtIn h with rfl | rfl
  · exact ⟨_, rfl⟩
  · exact ⟨_, rfl⟩

/-- What is written, once it could be generated, fails for the files alone. -/
theorem failure_writeFiles_ok {t : FileTree} {files : List GeneratedFile} {e : OutputError}
    (h : (writeFiles t (.ok files)).failure = some e) : ∃ f, e = .file f := by
  obtain ⟨front, file, back, -, -, hfile⟩ := Attempt.failure_forEach_eq_some_iff.1 h
  obtain ⟨f, -, rfl⟩ := Option.map_eq_some_iff.1 hfile
  exact ⟨f, rfl⟩

end Blueprint

/-! ## Conversions -/

namespace ConversionError

/-- The error comes from the surroundings: there is no further hash, or a file cannot be written. -/
def IsOutside : ConversionError → Prop
  | .noHash _ | .output (.file _) => True
  | _ => False

/-- The error comes from a record that cannot be rendered. -/
def IsRender : ConversionError → Prop
  | .output (.render _) => True
  | _ => False

instance : DecidablePred IsRender
  | .output (.render _) => .isTrue trivial
  | .output (.file _) | .inputMissing _ | .blueprint _ | .noHash _ | .plan _ => .isFalse id

theorem IsOutside.not_isRender {e : ConversionError} (h : e.IsOutside) : ¬ e.IsRender := by
  intro hrender
  unfold IsRender at hrender
  split at hrender
  · exact h
  · exact hrender

end ConversionError

namespace Conversion

/-- Writing fails for the surroundings, or because there is nothing to write. -/
theorem failure_write {c : Conversion} {files : Except RenderError (List GeneratedFile)}
    {e : ConversionError} (h : (c.write files).failure = some e) :
    e.IsOutside ∨ e.IsRender ∧ ¬ ∃ fs, files = .ok fs := by
  obtain ⟨e', he', rfl⟩ := Option.map_eq_some_iff.1 h
  cases files with
  | error e =>
    cases he'
    exact .inr ⟨trivial, by simp⟩
  | ok fs =>
    obtain ⟨f, rfl⟩ := Blueprint.failure_writeFiles_ok he'
    exact .inl trivial

theorem failure_write_ok {c : Conversion} {files : List GeneratedFile} {e : ConversionError}
    (h : (c.write (.ok files)).failure = some e) : e.IsOutside :=
  (failure_write h).resolve_right fun hrender => hrender.2 ⟨files, rfl⟩

theorem failure_writeManifest {settings : Settings} {c : Conversion} {e : ConversionError}
    (h : (writeManifest settings c).failure = some e) : e.IsOutside := by
  unfold writeManifest at h
  split at h
  · rw [Attempt.failure_andThen_eq_some_iff] at h
    rcases h with h | ⟨-, h⟩
    · exact failure_write_ok h
    · cases h
  · cases h

/-- The image at a path passes all stages, and the asset that they leave behind is not
printable. -/
def Unprintable (settings : Settings) (c : Conversion) (path : Text) : Prop :=
  ∃ source supply a r, Pipeline.Source.load c.tree path c.supply = .ok (source, supply) ∧
    Pipeline.builtIn.process settings.pipeline source = .ok a ∧ a.state.result? = some r ∧
      ¬ a.state.asset.IsPrintable settings.pipeline

section

variable {settings : Settings} {blueprint : Blueprint} {c : Conversion} {path : Text}

/-- An image stops a conversion for the surroundings, or because it is not printable. -/
theorem failure_convertFile (hblueprint : Blueprint.builtIn.get settings.blueprint = .ok blueprint)
    {e : ConversionError} (h : (convertFile settings blueprint c path).failure = some e) :
    e.IsOutside ∨ e.IsRender ∧ Unprintable settings c path := by
  unfold convertFile at h
  split at h
  · cases h
  · cases h
    exact .inl trivial
  · rename_i source supply hload
    simp only at h
    split at h
    · rename_i e' hprocess
      -- The built-in stages always have a plan.
      unfold Pipeline.Registry.process Pipeline.Registry.run at hprocess
      rw [Pipeline.plan_builtIn] at hprocess
      cases hprocess
    · rename_i a hprocess
      split at h
      · cases h
      · rename_i r hresult
        obtain ⟨rfl, hfree⟩ := Pipeline.result_builtIn hprocess hresult
        rw [Attempt.failure_andThen_of_none rfl, Attempt.failure_andThen_eq_some_iff] at h
        have hwrite := h.resolve_right fun hdone => nomatch hdone.2
        refine (failure_write hwrite).imp_right (And.imp_right fun hfiles => ?_)
        rw [Blueprint.assetFiles_isOk_iff hblueprint, sourceText_assemble_isOk_iff hfree] at hfiles
        exact ⟨source, supply, a, _, hload, hprocess, hresult, hfiles⟩

/-- An image that is not printable stops the conversion. -/
theorem Unprintable.failure_convertFile
    (hblueprint : Blueprint.builtIn.get settings.blueprint = .ok blueprint)
    (h : Unprintable settings c path) :
    ∃ e, (convertFile settings blueprint c path).failure = some e ∧ e.IsRender := by
  obtain ⟨source, supply, a, r, hload, hprocess, hresult, hprintable⟩ := h
  obtain ⟨rfl, hfree⟩ := Pipeline.result_builtIn hprocess hresult
  rw [← sourceText_assemble_isOk_iff hfree,
    ← Blueprint.assetFiles_isOk_iff hblueprint settings] at hprintable
  cases hfiles : blueprint.assetFiles settings (a.state.asset.assemble settings.pipeline) with
  | ok files => exact absurd ⟨files, hfiles⟩ hprintable
  | error e =>
    refine ⟨.output (.render e), ?_, trivial⟩
    unfold convertFile
    simp only [hload, hprocess, hresult, hfiles]
    rfl

/-- Behind the images a conversion stops for the surroundings alone. -/
theorem failure_convertAll (hblueprint : Blueprint.builtIn.get settings.blueprint = .ok blueprint)
    {paths : List Text} {e : ConversionError}
    (h : (convertAll settings blueprint c paths).failure = some e) :
    (Attempt.forEach (convertFile settings blueprint) c paths).failure = some e ∨ e.IsOutside := by
  unfold convertAll at h
  rw [Attempt.failure_andThen_eq_some_iff] at h
  rcases h with h | ⟨-, h⟩
  · exact .inl h
  · -- What is left is to write files that can always be generated.
    right
    obtain ⟨files, hfiles⟩ := Blueprint.indexFiles_isOk hblueprint settings
      (Attempt.forEach (convertFile settings blueprint) c paths).state.records
    rw [hfiles, Attempt.failure_andThen_eq_some_iff] at h
    rcases h with h | ⟨-, h⟩
    · exact failure_write_ok h
    · rw [Attempt.failure_andThen_eq_some_iff] at h
      rcases h with h | ⟨-, h⟩
      · exact failure_writeManifest h
      · cases h

theorem failure_run (hblueprint : Blueprint.builtIn.get settings.blueprint = .ok blueprint)
    {tree : FileTree} (htree : tree.isDirectory settings.input = true) (supply : HashSupply) :
    (run settings tree supply).failure =
      (convertAll settings blueprint (start tree supply) (images tree settings)).failure := by
  unfold run
  simp only [htree, if_true, hblueprint]
  exact Attempt.failure_andThen_of_none rfl _

end

/-- **What stops a conversion.** The record that comes out of the stages can be rendered exactly if
the asset that they leave behind is printable, which under an instance variable without braces means
that no table among its variables has a name that ends in a type. A conversion into a known shape
stops for the surroundings, or because a record cannot be rendered; and it stops for the latter
exactly if it comes to an image that is not printable. -/
theorem stops_iff (config : Pipeline.Config) (settings : Settings) {tree : FileTree}
    {blueprint : Blueprint} (htree : tree.isDirectory settings.input = true)
    (hblueprint : Blueprint.builtIn.get settings.blueprint = .ok blueprint)
    (supply : HashSupply) :
    (∀ source a r, Pipeline.builtIn.process config source = .ok a → a.state.result? = some r →
      ((∃ text, r.sourceText = .ok text) ↔ a.state.asset.IsPrintable config)) ∧
    (HasNoBrace config.instanceVariable → ∀ a : Pipeline.Asset,
      (a.IsPrintable config ↔ AreVisible (Pipeline.Asset.unreserved config a.declared.types))) ∧
    (∀ e, (run settings tree supply).failure = some e → e.IsOutside ∨ e.IsRender) ∧
    ((∃ e, (run settings tree supply).failure = some e ∧ e.IsRender) ↔
      ∃ front path back, images tree settings = front ++ path :: back ∧
        let a := Attempt.forEach (convertFile settings blueprint) (start tree supply) front
        a.failure = none ∧ Unprintable settings a.state path) := by
  refine ⟨?_, ?_, ?_, ?_⟩
  · intro source a r hprocess hresult
    obtain ⟨rfl, hfree⟩ := Pipeline.result_builtIn hprocess hresult
    exact sourceText_assemble_isOk_iff hfree
  · intro hconfig a
    exact Pipeline.Asset.isPrintable_iff_areVisible hconfig
  · intro e he
    rw [failure_run hblueprint htree] at he
    rcases failure_convertAll hblueprint he with he | he
    · obtain ⟨front, path, back, -, -, hpath⟩ := Attempt.failure_forEach_eq_some_iff.1 he
      exact (failure_convertFile hblueprint hpath).imp_right And.left
    · exact .inl he
  · rw [failure_run hblueprint htree]
    constructor
    · rintro ⟨e, he, hrender⟩
      have he := (failure_convertAll hblueprint he).resolve_right fun h => h.not_isRender hrender
      obtain ⟨front, path, back, himages, hfront, hpath⟩ :=
        Attempt.failure_forEach_eq_some_iff.1 he
      have hpath := (failure_convertFile hblueprint hpath).resolve_left fun h =>
        h.not_isRender hrender
      exact ⟨front, path, back, himages, hfront, hpath.2⟩
    · rintro ⟨front, path, back, himages, hfront, hpath⟩
      obtain ⟨e, he, hrender⟩ := hpath.failure_convertFile hblueprint
      refine ⟨e, Attempt.failure_andThen_of_some ?_ _, hrender⟩
      exact Attempt.failure_forEach_eq_some_iff.2 ⟨front, path, back, himages, hfront, he⟩

/-- The markup of an image with one variable. -/
def markupWith (variableName : Text) : Text :=
  "<svg width=\"1\" height=\"1\" fill=\"\x7b\x7bred|".toList ++ variableName ++
    "\x7d\x7d\"/>".toList

/-- A tree of files that holds this image alone. -/
def treeWith (variableName : Text) : FileTree :=
  ⟨.directory [("svg".toList,
    .directory [("a.svg".toList, .file (Utf8.encode (markupWith variableName)))])], []⟩

/-- The instances are the image whose variable is `a.b`, which is rendered, and the conversion of
the one whose variable is `a:.b`, which comes to an image that is not printable. -/
theorem stops_iff_one_variable :
    (∃ a r text, Pipeline.builtIn.process {}
        (.ofText "svg/a.svg".toList (markupWith "a.b".toList) "h1".toList) = .ok a ∧
      a.state.result? = some r ∧ r.sourceText = .ok text) ∧
    ∃ c path, Unprintable { input := "svg".toList } c path ∧ c.tree = treeWith "a:.b".toList := by
  have hdirectory : (treeWith "a:.b".toList).isDirectory "svg".toList = true := by
    decide +kernel
  obtain ⟨hrender, -, -, hstop⟩ :=
    stops_iff {} { input := "svg".toList } hdirectory rfl (.listed [] 0)
  constructor
  · have hrun : (match Pipeline.builtIn.process {}
          (.ofText "svg/a.svg".toList (markupWith "a.b".toList) "h1".toList) with
        | .ok a => a.state.result?.isSome && decide (openBehind "uuid".toList =
            hiddenIn false (Pipeline.Asset.unreserved {} a.state.asset.declared.types) + 1)
        | .error _ => false) = true := by
      decide +kernel
    split at hrun
    · rename_i a hprocess
      rw [Bool.and_eq_true, Option.isSome_iff_exists, decide_eq_true_iff] at hrun
      obtain ⟨⟨r, hresult⟩, hopen⟩ := hrun
      obtain ⟨text, htext⟩ := (hrender _ a r hprocess hresult).2 fun _ => hopen
      exact ⟨a, r, text, hprocess, hresult, htext⟩
    · cases hrun
  · have hrun : ((run { input := "svg".toList } (treeWith "a:.b".toList)
        (.listed [] 0)).failure.any fun e => decide e.IsRender) = true := by
      decide +kernel
    obtain ⟨e, he, hrender⟩ := (Option.any_eq_true _ _).1 hrun
    obtain ⟨front, path, back, himages, -, hpath⟩ := hstop.1 ⟨e, he, of_decide_eq_true hrender⟩
    have hone : images (treeWith "a:.b".toList) { input := "svg".toList } =
        ["svg/a.svg".toList] := by
      decide +kernel
    rw [hone] at himages
    -- No image stands in front of the only one.
    cases front with
    | nil => exact ⟨_, path, hpath, rfl⟩
    | cons x front =>
      have hlength := congrArg List.length himages
      simp at hlength

/-- The image whose variable is `a:.b` passes all stages and cannot be rendered. -/
theorem sourceText_typed_table :
    ∃ a r, Pipeline.builtIn.process {}
        (.ofText "svg/a.svg".toList (markupWith "a:.b".toList) "h1".toList) = .ok a ∧
      a.state.result? = some r ∧ ¬ ∃ text, r.sourceText = .ok text := by
  have hrun : (match Pipeline.builtIn.process {}
        (.ofText "svg/a.svg".toList (markupWith "a:.b".toList) "h1".toList) with
      | .ok a => a.state.result?.any fun r => r.sourceText.toOption.isNone
      | .error _ => false) = true := by
    decide +kernel
  split at hrun
  · rename_i a hprocess
    obtain ⟨r, hresult, hnone⟩ := (Option.any_eq_true _ _).1 hrun
    refine ⟨a, r, hprocess, hresult, ?_⟩
    rintro ⟨text, htext⟩
    rw [htext] at hnone
    cases hnone
  · cases hrun

end Conversion

end SvgAssets
