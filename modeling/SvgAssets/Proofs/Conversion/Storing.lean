/-
# SvgAssets.Proofs.Conversion.Storing -- which sources a conversion leaves in the files

All sources of a conversion go to one directory, each under the name of its record, and images of
different directories may have the same name. A write keeps every file but the one it goes to
(`FileTree.keeps_write`), and paths to the same place have the same last name, so a source is lost
exactly to a later record of its name or, for the name `index`, to the index. The file of a name
holds the source of the last record that has it (`stored_iff`).
-/
import SvgAssets.Proofs.Conversion.Rendering
import SvgAssets.Proofs.Files.Writing
import SvgAssets.Proofs.Text.Spacing

namespace SvgAssets

/-! ## Names of records -/

namespace Naming

/-- The name of an asset is one name of a path. -/
theorem slash_not_mem_safeName (stem : Text) : '/' ∉ safeName stem := by
  intro h
  unfold safeName at h
  simp only at h
  split at h
  · exact absurd h (by decide)
  · have hmem := Text.dropAround_isInfix.subset h
    exact absurd (Text.eq_mark_of_mem_collapseRuns hmem (by decide)) (by decide)

end Naming

namespace Pipeline

/-- The built-in stages leave the name of the source as it is. -/
theorem work_name : ∀ s ∈ builtInStages, ∀ x : Subject,
    (s.work x).state.asset.source.name = x.asset.source.name := by
  have hwork : ∀ work : Work, (∀ config a, (work config a).state.source.name = a.source.name) →
      ∀ x : Subject, (work.onSubject x).state.asset.source.name = x.asset.source.name :=
    fun work h x => h x.config x.asset
  simp only [builtInStages, List.forall_mem_cons]
  refine ⟨hwork _ ?signature, hwork _ ?strictXml, hwork _ ?geometry, hwork _ ?styles,
    hwork _ fun _ _ => rfl, hwork _ fun _ _ => rfl, hwork _ fun _ _ => rfl,
    hwork _ fun _ _ => rfl, hwork _ ?namespacing, hwork _ fun _ _ => rfl,
    hwork _ fun _ _ => rfl, by simp⟩
  case signature =>
    intro config a
    unfold Work.signature
    split <;> rfl
  case strictXml =>
    intro config a
    unfold Work.strictXml
    split <;> rfl
  case geometry =>
    intro config a
    unfold Work.geometry
    split <;> rfl
  case styles =>
    intro config a
    unfold Work.styles
    split <;> rfl
  case namespacing =>
    intro config a
    unfold Work.namespacing
    split <;> rfl

/-- A source is named after its file. -/
theorem name_of_load {t : FileTree} {path : Text} {supply supply' : HashSupply} {source : Source}
    (h : Source.load t path supply = .ok (source, supply')) :
    source.name = Naming.safeName (Path.stem path) := by
  unfold Source.load at h
  split at h
  · cases h
  · split at h
    · cases h
    · cases h
      rfl

/-- A record has the name of the source that it was made of. -/
theorem name_of_result {config : Config} {source : Source}
    {a : Attempt StageFailure Notice Progress} (hprocess : builtIn.process config source = .ok a)
    {r : AssetRecord} (hresult : a.state.result? = some r) : r.name = source.name := by
  obtain ⟨rfl, -⟩ := result_builtIn hprocess hresult
  obtain ⟨plan, hplan, rfl⟩ := Registry.exists_plan_of_run hprocess
  show (Progress.runStages (.ofSource config source) plan).state.asset.source.name = source.name
  rw [plan_builtIn] at hplan
  obtain rfl := Except.ok.inj hplan
  refine Attempt.forEach_preserves
    (P := fun p : Progress => p.asset.source.name = source.name) ?_ rfl
  intro s hs p hp
  show (p.runStage s).state.asset.source.name = source.name
  rw [(Progress.runStage_of_work p s).2, work_name s (List.mem_filter.1 hs).1]
  exact hp

end Pipeline

/-! ## Texts of generated files -/

theorem Utf8.encode_injective {s t : Text} (h : Utf8.encode s = Utf8.encode t) : s = t := by
  have hbytes : (String.ofList s).toByteArray = (String.ofList t).toByteArray := by
    rw [String.toByteArray_ofList, String.toByteArray_ofList]
    exact congrArg List.toByteArray h
  exact String.ofList_injective (String.toByteArray_inj.1 hbytes)

/-- The text of a source begins like that of its first statement. -/
theorem TypeScript.Source.prefix_text_cons {front : Text} {x : TypeScript.Statement}
    (h : front <+: x.text) (s : TypeScript.Source) : front <+: TypeScript.Source.text (x :: s) := by
  rw [TypeScript.Source.text, List.flatMap_cons]
  exact h.trans (List.prefix_append _ _)

theorem TypeScript.Statement.prefix_text_exportConst (name value : Text) :
    "export c".toList <+: (exportConst name value).text := by
  unfold TypeScript.Statement.text
  simp only [List.append_assoc]
  exact (show "export c".toList <+: "export const ".toList from ⟨"onst ".toList, rfl⟩).trans
    (List.prefix_append _ _)

/-- The source of an asset begins with the export of its constant or of the type of its
variables. -/
theorem AssetRecord.prefix_sourceText {r : AssetRecord} {text : Text}
    (h : r.sourceText = .ok text) :
    "export c".toList <+: text ∨ "export i".toList <+: text := by
  have hconstant : "export c".toList <+: TypeScript.Source.text [r.constant] :=
    TypeScript.Source.prefix_text_cons (TypeScript.Statement.prefix_text_exportConst _ _) []
  unfold sourceText at h
  split at h
  · cases h
  · rename_i source hsource
    cases h
    unfold assetSource at hsource
    split at hsource
    · cases hsource
      exact .inl hconstant
    · cases hsource
      exact .inl hconstant
    · rename_i descriptor _ _
      cases hread : Template.Descriptor.read descriptor with
      | error e =>
        rw [hread] at hsource
        cases hsource
      | ok types =>
        rw [hread] at hsource
        cases hsource
        refine .inr (TypeScript.Source.prefix_text_cons ?_ _)
        unfold TypeScript.Statement.text
        simp only [List.append_assoc]
        have hword : "export i".toList <+: "export interface ".toList := ⟨"nterface ".toList, rfl⟩
        exact hword.trans (List.prefix_append _ _)

/-- The index of at least one asset begins with a list of names. -/
theorem TypeScript.prefix_barrel (r : AssetRecord) (records : List AssetRecord) :
    "export \x7b".toList <+: (TypeScript.barrel (r :: records)).text := by
  rw [TypeScript.barrel, List.map_cons]
  refine TypeScript.Source.prefix_text_cons ?_ _
  unfold AssetRecord.reexport TypeScript.Statement.text
  simp only [List.append_assoc]
  exact (show "export \x7b".toList <+: "export \x7b ".toList from ⟨" ".toList, rfl⟩).trans
    (List.prefix_append _ _)

/-- No source of an asset is the text of an index that lists an asset. -/
theorem AssetRecord.sourceText_ne_barrel {r : AssetRecord} {records : List AssetRecord}
    (h : r ∈ records) (r' : AssetRecord) :
    r'.sourceText ≠ .ok (TypeScript.barrel records).text := by
  intro htext
  cases records with
  | nil => cases h
  | cons first records =>
    have hbarrel := TypeScript.prefix_barrel first records
    -- Texts of one length that begin the same text are the same.
    rcases prefix_sourceText htext with hsource | hsource
    · exact absurd ((List.prefix_of_prefix_length_le hsource hbarrel (by decide)).eq_of_length
        (by decide)) (by decide)
    · exact absurd ((List.prefix_of_prefix_length_le hsource hbarrel (by decide)).eq_of_length
        (by decide)) (by decide)

namespace Conversion

/-! ## Records and their files -/

/-- The file that the source of a record goes to. -/
def sourcePath (settings : Settings) (r : AssetRecord) : Text :=
  Path.join settings.output (Blueprint.sourceName r)

/-- The file that the index goes to. -/
def indexPath (settings : Settings) : Text := Path.join settings.output "index.ts".toList

/-- The file of a record holds its source. -/
def Stored (settings : Settings) (t : FileTree) (r : AssetRecord) : Prop :=
  ∃ text, r.sourceText = .ok text ∧ t.read (sourcePath settings r) = .ok (Utf8.encode text)

/-- A record is the last one of its name. -/
def IsLatest (records : List AssetRecord) (r : AssetRecord) : Prop :=
  ∃ front back, records = front ++ r :: back ∧ ∀ other ∈ back, other.name ≠ r.name

theorem IsLatest.mem {records : List AssetRecord} {r : AssetRecord} (h : IsLatest records r) :
    r ∈ records := by
  obtain ⟨front, back, rfl, -⟩ := h
  simp

/-- Behind one more record the latest ones are this record and those of other names. -/
theorem IsLatest.of_append_singleton {records : List AssetRecord} {new r : AssetRecord}
    (h : IsLatest (records ++ [new]) r) : r = new ∨ IsLatest records r ∧ new.name ≠ r.name := by
  obtain ⟨front, back, hrecords, hback⟩ := h
  rcases List.eq_nil_or_concat back with rfl | ⟨others, last, rfl⟩
  · exact .inl (List.append_inj_right' hrecords rfl |> List.singleton_inj.1).symm
  · rw [List.concat_eq_append, ← List.cons_append, ← List.append_assoc] at hrecords
    obtain ⟨rfl, hlast⟩ := List.append_inj' hrecords rfl
    obtain rfl := List.singleton_inj.1 hlast
    refine .inr ⟨⟨front, others, rfl, ?_⟩, hback new (by simp)⟩
    intro other hother
    exact hback other (by simp [hother])

theorem IsLatest.cons {records : List AssetRecord} {r : AssetRecord} (h : IsLatest records r)
    (first : AssetRecord) : IsLatest (first :: records) r := by
  obtain ⟨front, back, rfl, hback⟩ := h
  exact ⟨first :: front, back, rfl, hback⟩

/-- Every name has a latest record. -/
theorem exists_isLatest {records : List AssetRecord} {r : AssetRecord} (h : r ∈ records) :
    ∃ last, IsLatest records last ∧ last.name = r.name := by
  induction records generalizing r with
  | nil => cases h
  | cons first records ih =>
    by_cases hlater : ∃ other ∈ records, other.name = r.name
    · obtain ⟨other, hother, hname⟩ := hlater
      obtain ⟨last, hlast, hlastName⟩ := ih hother
      exact ⟨last, hlast.cons first, hlastName.trans hname⟩
    · rcases List.mem_cons.1 h with rfl | h
      · exact ⟨r, ⟨[], records, rfl, fun other hother hname => hlater ⟨other, hother, hname⟩⟩, rfl⟩
      · exact absurd ⟨r, h, rfl⟩ hlater

/-! ## Places of the files -/

/-- The source of a record goes to a place with a name of its own. -/
theorem getLast?_placeOf_sourcePath {r : AssetRecord} (h : '/' ∉ r.name) (settings : Settings)
    (t : FileTree) :
    (t.placeOf (sourcePath settings r)).getLast? = some (r.name ++ ".ts".toList) := by
  have hname : Path.fileName (sourcePath settings r) = r.name ++ ".ts".toList :=
    FileTree.fileName_join (by simpa [Blueprint.sourceName] using h) settings.output
  rw [FileTree.getLast?_placeOf_of_getLast? (c := 's') (by rw [hname]; simp) (by decide), hname]

theorem name_eq_of_placeOf_eq {r r' : AssetRecord} (hr : '/' ∉ r.name) (hr' : '/' ∉ r'.name)
    {settings : Settings} {t : FileTree}
    (h : t.placeOf (sourcePath settings r) = t.placeOf (sourcePath settings r')) :
    r.name = r'.name := by
  have hlast := getLast?_placeOf_sourcePath hr settings t
  rw [h, getLast?_placeOf_sourcePath hr', Option.some.injEq] at hlast
  exact (List.append_cancel_right hlast).symm

theorem getLast?_placeOf_indexPath (settings : Settings) (t : FileTree) :
    (t.placeOf (indexPath settings)).getLast? = some "index.ts".toList := by
  have hname : Path.fileName (indexPath settings) = "index.ts".toList :=
    FileTree.fileName_join (by decide) settings.output
  rw [FileTree.getLast?_placeOf_of_getLast? (c := 's') (by rw [hname]; rfl) (by decide), hname]

/-- No source has the place of the manifest. -/
theorem placeOf_ne_placeOf_manifestPath {path : Text} (name : Text) {t : FileTree}
    (h : (t.placeOf path).getLast? = some (name ++ ".ts".toList)) (settings : Settings) :
    t.placeOf path ≠ t.placeOf settings.manifestPath := by
  intro hplace
  have hsuffix : ".svgmint.json".toList <:+ Path.fileName settings.manifestPath :=
    FileTree.suffix_fileName ((List.suffix_append _ _).trans Path.suffix_join) (by decide)
  obtain ⟨front, hfront⟩ := hsuffix
  have hlast : (Path.fileName settings.manifestPath).getLast? = some 'n' := by
    rw [← hfront]
    simp
  rw [hplace, FileTree.getLast?_placeOf_of_getLast? hlast (by decide), Option.some.injEq] at h
  rw [h] at hlast
  simp at hlast

/-- A source is still stored behind a write to another place. -/
theorem Stored.of_keeps {settings : Settings} {q : Place} {t t' : FileTree} {r : AssetRecord}
    (h : Stored settings t r) (hkeeps : FileTree.Keeps q t t')
    (hne : t.placeOf (sourcePath settings r) ≠ q) : Stored settings t' r := by
  obtain ⟨text, htext, hread⟩ := h
  exact ⟨text, htext, hkeeps.read_eq hread hne⟩

section

variable {settings : Settings} {t : FileTree} {r r' : AssetRecord}

theorem sourcePath_congr (hname : r.name = r'.name) :
    sourcePath settings r = sourcePath settings r' := by
  rw [sourcePath, sourcePath, Blueprint.sourceName, Blueprint.sourceName, hname]

/-- A file holds one source. -/
theorem Stored.sourceText_eq (h : Stored settings t r) (h' : Stored settings t r')
    (hname : r.name = r'.name) : r.sourceText = r'.sourceText := by
  obtain ⟨text, htext, hread⟩ := h
  obtain ⟨text', htext', hread'⟩ := h'
  rw [← sourcePath_congr hname] at hread'
  have hsame := hread.symm.trans hread'
  rw [htext, htext', Utf8.encode_injective (Except.ok.inj hsame)]

theorem Stored.of_sourceText_eq (h : Stored settings t r) (hname : r.name = r'.name)
    (hsource : r.sourceText = r'.sourceText) : Stored settings t r' := by
  obtain ⟨text, htext, hread⟩ := h
  exact ⟨text, hsource ▸ htext, sourcePath_congr hname ▸ hread⟩

end

/-! ## Steps of a conversion -/

section

variable {settings : Settings} {c : Conversion}

/-- What is written is read back, and all other files are kept. -/
theorem write_singleton (f : GeneratedFile) :
    FileTree.Keeps (c.tree.placeOf f.path) c.tree (c.write (.ok [f])).state.tree ∧
      (c.write (.ok [f])).state.records = c.records ∧
      ((c.write (.ok [f])).failure = none →
        (c.write (.ok [f])).state.tree.read f.path = .ok (Utf8.encode f.content)) := by
  have hstate : (c.write (.ok [f])).state.tree = (c.tree.writeText f.path f.content).state := by
    show (Attempt.andThen _ Attempt.done).state = _
    rw [Attempt.andThen_done]
    rfl
  refine ⟨?_, rfl, ?_⟩
  · rw [hstate]
    exact FileTree.keeps_write _ _ _
  · intro h
    rw [hstate]
    refine FileTree.read_write ?_
    have h : ((Attempt.andThen (Blueprint.writeFile c.tree f) Attempt.done).failure.map
      ConversionError.output) = none := h
    rw [Attempt.andThen_done, Option.map_eq_none_iff] at h
    exact Option.map_eq_none_iff.1 h

theorem assetFiles_typeScript (settings : Settings) (r : AssetRecord) :
    Blueprint.typeScript.assetFiles settings r =
      r.sourceText.map fun text => [⟨sourcePath settings r, text⟩] := by
  show (r.sourceText >>= fun _ => _) = _
  cases r.sourceText <;> rfl

/-- Where a conversion does not stop at an image, the image is left out and no file changes, or its
record comes behind the others and its source is stored. -/
theorem convertFile_cases {path : Text}
    (h : (convertFile settings Blueprint.typeScript c path).failure = none) :
    let c' := (convertFile settings Blueprint.typeScript c path).state
    c'.tree = c.tree ∧ c'.records = c.records ∨
      ∃ r, '/' ∉ r.name ∧ c'.records = c.records ++ [r] ∧ Stored settings c'.tree r ∧
        FileTree.Keeps (c.tree.placeOf (sourcePath settings r)) c.tree c'.tree := by
  unfold convertFile at h ⊢
  split at h
  · exact .inl ⟨rfl, rfl⟩
  · cases h
  · rename_i source supply hload
    simp only at h ⊢
    split at h
    · cases h
    · rename_i a hprocess
      split at h
      · exact .inl ⟨rfl, rfl⟩
      · rename_i r hresult
        rw [Attempt.failure_andThen_of_none rfl, Attempt.failure_andThen_eq_none_iff] at h
        rw [Attempt.state_andThen_of_none rfl, Attempt.state_andThen_of_none h.1]
        rw [assetFiles_typeScript] at h ⊢
        cases htext : r.sourceText with
        | error e =>
          rw [htext] at h
          cases h.1
        | ok text =>
          rw [htext] at h
          obtain ⟨hkeeps, hrecords, hread⟩ :=
            write_singleton (c := { c with supply }) ⟨sourcePath settings r, text⟩
          refine .inr ⟨r, ?_, congrArg (· ++ [r]) hrecords, ⟨text, htext, hread h.1⟩, hkeeps⟩
          rw [Pipeline.name_of_result hprocess hresult, Pipeline.name_of_load hload]
          exact Naming.slash_not_mem_safeName _

end

/-- The latest records of all names are stored, and each name is one name of a path. -/
structure StoresLatest (settings : Settings) (c : Conversion) : Prop where
  slash : ∀ r ∈ c.records, '/' ∉ r.name
  stored : ∀ r, IsLatest c.records r → Stored settings c.tree r

theorem StoresLatest.convertFile {settings : Settings} {c : Conversion} {path : Text}
    (h : StoresLatest settings c)
    (hend : (convertFile settings Blueprint.typeScript c path).failure = none) :
    StoresLatest settings (convertFile settings Blueprint.typeScript c path).state := by
  rcases convertFile_cases hend with ⟨htree, hrecords⟩ | ⟨new, hslash, hrecords, hnew, hkeeps⟩
  · exact ⟨by rw [hrecords]; exact h.slash, by rw [hrecords, htree]; exact h.stored⟩
  · constructor
    · rw [hrecords]
      intro r hr
      rcases List.mem_append.1 hr with hr | hr
      · exact h.slash r hr
      · exact List.mem_singleton.1 hr ▸ hslash
    · rw [hrecords]
      intro r hr
      rcases hr.of_append_singleton with rfl | ⟨hr, hname⟩
      · exact hnew
      · refine (h.stored r hr).of_keeps hkeeps fun hplace => hname ?_
        exact name_eq_of_placeOf_eq (h.slash r hr.mem) hslash hplace |>.symm

/-! ## Whole conversions -/

/-- Behind the images the index is written, and then the manifest if it is asked for. -/
theorem run_typeScript {settings : Settings} {tree : FileTree} {supply : HashSupply}
    (hblueprint : settings.blueprint = "typescript".toList)
    (hend : (run settings tree supply).failure = none) :
    tree.isDirectory settings.input = true ∧
      let converted := Attempt.forEach (convertFile settings Blueprint.typeScript)
        (start tree supply) (images tree settings)
      let index := converted.state.write
        (.ok [⟨indexPath settings, (TypeScript.barrel converted.state.records).text⟩])
      converted.failure = none ∧ index.failure = none ∧
        (writeManifest settings index.state).failure = none ∧
        (run settings tree supply).state = (writeManifest settings index.state).state := by
  unfold run at hend ⊢
  simp only at hend ⊢
  split at hend
  · rename_i hdirectory
    have hget : Blueprint.builtIn.get settings.blueprint = .ok Blueprint.typeScript := by
      rw [hblueprint]
      rfl
    rw [hget] at hend ⊢
    rw [if_pos hdirectory]
    simp only at hend ⊢
    rw [Attempt.failure_andThen_of_none rfl, convertAll, Attempt.failure_andThen_eq_none_iff,
      Attempt.failure_andThen_eq_none_iff, Attempt.failure_andThen_eq_none_iff] at hend
    obtain ⟨himages, hindex, hmanifest, -⟩ := hend
    refine ⟨hdirectory, himages, hindex, hmanifest, ?_⟩
    rw [Attempt.state_andThen_of_none rfl, convertAll, Attempt.state_andThen_of_none himages,
      Attempt.state_andThen_of_none hindex, Attempt.state_andThen_of_none hmanifest]
    rfl
  · cases hend

theorem exists_of_run {settings : Settings} {tree : FileTree} {supply : HashSupply}
    (hblueprint : settings.blueprint = "typescript".toList)
    (hend : (run settings tree supply).failure = none) :
    ∃ c : Conversion, StoresLatest settings c ∧
      let index := c.write (.ok [⟨indexPath settings, (TypeScript.barrel c.records).text⟩])
      index.failure = none ∧
        (run settings tree supply).state = (writeManifest settings index.state).state := by
  obtain ⟨-, himages, hindex, -, hstate⟩ := run_typeScript hblueprint hend
  refine ⟨_, ?_, hindex, hstate⟩
  refine Attempt.forEach_preserves_of_none (P := StoresLatest settings) ?_ himages ?_
  · exact fun path _ c hstep hc => hc.convertFile hstep
  · constructor
    · exact fun r hr => absurd hr List.not_mem_nil
    · exact fun r hr => absurd hr.mem List.not_mem_nil

theorem keeps_writeManifest (settings : Settings) (c : Conversion) :
    FileTree.Keeps (c.tree.placeOf settings.manifestPath) c.tree
        (writeManifest settings c).state.tree ∧
      (writeManifest settings c).state.records = c.records := by
  unfold writeManifest
  split
  · obtain ⟨hkeeps, hrecords, -⟩ := write_singleton (c := c) (Manifest.file settings c.records)
    exact Attempt.andThen_preserves (P := fun c' : Conversion =>
      FileTree.Keeps (c.tree.placeOf settings.manifestPath) c.tree c'.tree ∧
        c'.records = c.records) ⟨hkeeps, hrecords⟩ fun _ h => h
  · exact ⟨.refl _ _, rfl⟩

/-- The index is in its file, and with it the sources of the latest records of all other names. -/
theorem stored_of_run {settings : Settings} {tree : FileTree} {supply : HashSupply}
    (hblueprint : settings.blueprint = "typescript".toList)
    (hend : (run settings tree supply).failure = none) :
    let c := (run settings tree supply).state
    c.tree.read (indexPath settings) =
        .ok (Utf8.encode (TypeScript.barrel c.records).text) ∧
      ∀ r, IsLatest c.records r → r.name ≠ "index".toList → Stored settings c.tree r := by
  obtain ⟨c, hstores, hindex, hstate⟩ := exists_of_run hblueprint hend
  obtain ⟨hkeeps, hrecords, hread⟩ :=
    write_singleton (c := c) ⟨indexPath settings, (TypeScript.barrel c.records).text⟩
  obtain ⟨hkeeps', hrecords'⟩ := keeps_writeManifest settings
    (c.write (.ok [⟨indexPath settings, (TypeScript.barrel c.records).text⟩])).state
  intro c'
  rw [← hstate] at hkeeps' hrecords'
  rw [hrecords] at hrecords'
  refine ⟨?_, ?_⟩
  · rw [hrecords']
    refine hkeeps'.read_eq (hread hindex) ?_
    exact placeOf_ne_placeOf_manifestPath "index".toList
      (getLast?_placeOf_indexPath settings _) settings
  · rw [hrecords']
    intro r hr hname
    have hslash := hstores.slash r hr.mem
    refine ((hstores.stored r hr).of_keeps hkeeps fun hplace => hname ?_).of_keeps hkeeps' ?_
    · have hlast := getLast?_placeOf_sourcePath hslash settings c.tree
      rw [hplace, getLast?_placeOf_indexPath, Option.some.injEq] at hlast
      exact (List.append_cancel_right (hlast : "index".toList ++ ".ts".toList = _)).symm
    · exact placeOf_ne_placeOf_manifestPath r.name (getLast?_placeOf_sourcePath hslash settings _)
        settings

/-- **The file of a name holds the source of the last record that has it.** When a conversion into
plain sources comes to its end, the index is in its file. The source of a record is in its file
exactly if the record is not named `index` and the last record of its name has the same source. So
no source is lost exactly if there is no such name and the records that share a name share their
source. -/
theorem stored_iff_latest {settings : Settings} {tree : FileTree} {supply : HashSupply}
    (hblueprint : settings.blueprint = "typescript".toList)
    (hend : (run settings tree supply).failure = none) :
    let c := (run settings tree supply).state
    c.tree.read (indexPath settings) = .ok (Utf8.encode (TypeScript.barrel c.records).text) ∧
    (∀ r ∈ c.records, Stored settings c.tree r ↔ r.name ≠ "index".toList ∧
      ∃ last, IsLatest c.records last ∧ last.name = r.name ∧ last.sourceText = r.sourceText) ∧
    ((∀ r ∈ c.records, Stored settings c.tree r) ↔
      (∀ r ∈ c.records, r.name ≠ "index".toList) ∧
        ∀ r ∈ c.records, ∀ other ∈ c.records, r.name = other.name →
          r.sourceText = other.sourceText) := by
  intro c
  obtain ⟨hindex, hlatest⟩ := stored_of_run hblueprint hend
  have hstored : ∀ r ∈ c.records, Stored settings c.tree r ↔ r.name ≠ "index".toList ∧
      ∃ last, IsLatest c.records last ∧ last.name = r.name ∧ last.sourceText = r.sourceText := by
    intro r hr
    constructor
    · intro hr'
      have hname : r.name ≠ "index".toList := by
        intro hname
        obtain ⟨text, htext, hread⟩ := hr'
        have hpath : sourcePath settings r = indexPath settings := by
          rw [sourcePath, Blueprint.sourceName, hname]
          rfl
        rw [hpath, hindex] at hread
        rw [← Utf8.encode_injective (Except.ok.inj hread)] at htext
        exact AssetRecord.sourceText_ne_barrel hr r htext
      obtain ⟨last, hlast, hlastName⟩ := exists_isLatest hr
      have hlastStored := hlatest last hlast (hlastName ▸ hname)
      exact ⟨hname, last, hlast, hlastName,
        hlastStored.sourceText_eq hr' hlastName⟩
    · rintro ⟨hname, last, hlast, hlastName, hsource⟩
      exact (hlatest last hlast (hlastName ▸ hname)).of_sourceText_eq hlastName hsource
  refine ⟨hindex, hstored, ?_, ?_⟩
  · intro hall
    refine ⟨fun r hr => ((hstored r hr).1 (hall r hr)).1, ?_⟩
    exact fun r hr other hother => (hall r hr).sourceText_eq (hall other hother)
  · rintro ⟨hname, hsource⟩ r hr
    obtain ⟨last, hlast, hlastName⟩ := exists_isLatest hr
    exact (hstored r hr).2 ⟨hname r hr, last, hlast, hlastName,
      hsource last hlast.mem r hr hlastName⟩

/-- Plain sources of the images below `svg`, written to `out`. -/
def plainSettings : Settings := { input := "svg".toList, output := "out".toList }

/-- Two images of the given names, the second one in a directory beside the first. -/
def twoImages (first second : Text) : FileTree :=
  let image (name : Text) (width : Char) : Text × FileNode :=
    (name ++ ".svg".toList, .file (Utf8.encode
      ("<svg width=\"".toList ++ width :: "\" height=\"1\"/>".toList)))
  ⟨.directory [("svg".toList,
    .directory [image first '1', ("more".toList, .directory [image second '2'])])], []⟩

/-- The instance is the conversion of images with different names, both of which are stored. -/
theorem stored_iff_latest_two_names :
    let c := (run plainSettings (twoImages "icon".toList "logo".toList) (.listed [] 0)).state
    c.records.map AssetRecord.name = ["icon".toList, "logo".toList] ∧
      ∀ r ∈ c.records, Stored plainSettings c.tree r := by
  intro c
  have hend : (run plainSettings (twoImages "icon".toList "logo".toList)
      (.listed [] 0)).failure.isNone = true := by
    decide +kernel
  have hnames : c.records.map AssetRecord.name = ["icon".toList, "logo".toList] := by
    decide +kernel
  obtain ⟨-, -, hall⟩ := stored_iff_latest rfl (Option.isNone_iff_eq_none.1 hend)
  refine ⟨hnames, hall.2 ⟨?_, ?_⟩⟩
  · intro r hr hname
    have hmem := List.mem_map_of_mem (f := AssetRecord.name) hr
    rw [hname] at hmem
    exact absurd (hnames ▸ hmem) (by decide)
  · intro r hr other hother hname
    have hnodup : (c.records.map AssetRecord.name).Nodup := by
      rw [hnames]
      decide
    rw [List.inj_on_of_nodup_map hnodup hr hother hname]

/-- Of two images with the same name the first one is not stored, though the conversion comes to
its end. -/
theorem not_stored_same_name :
    let a := run plainSettings (twoImages "icon".toList "icon".toList) (.listed [] 0)
    a.failure = none ∧ ∃ r ∈ a.state.records, ¬ Stored plainSettings a.state.tree r := by
  intro a
  have hrun : (a.failure.isNone && a.state.records.any fun r =>
      r.sourceText.toOption.any fun text =>
        (a.state.tree.read (sourcePath plainSettings r)).toOption !=
          some (Utf8.encode text)) = true := by
    decide +kernel
  rw [Bool.and_eq_true, Option.isNone_iff_eq_none, List.any_eq_true] at hrun
  obtain ⟨hfailure, r, hr, hsource⟩ := hrun
  refine ⟨hfailure, r, hr, ?_⟩
  rintro ⟨text, htext, hread⟩
  rw [htext, hread] at hsource
  simp [Except.toOption] at hsource

end Conversion

end SvgAssets
