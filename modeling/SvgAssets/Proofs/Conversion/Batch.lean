/-
# SvgAssets.Proofs.Conversion.Batch -- what a conversion makes of a directory

A conversion goes through the images below a directory, hands each one that can be read a hash, and
keeps the records of those that the stages accept. This module says what comes out in terms of the
directory alone. The images are found by their places, and the walk puts them in order
(`FileNode.IsWalk`); the hashes are those that the supply gives one after the other, one for each
image that is UTF-8; the records are those of the accepted ones (`batch_filter`). What is written
are the sources of these records, their index and their manifest, and nothing is left of an image
that was passed over.

Files are written while later images are still to be read. No image is lost to that, because the
name of a written file never is that of an image (`placeOf_ne_of_isSvg`).
-/
import Mathlib.Data.List.Forall2
import SvgAssets.Proofs.Conversion.Storing
import SvgAssets.Proofs.Files.Walking
import SvgAssets.Proofs.Hash.Allocation
import SvgAssets.Proofs.Pipeline.Origin

namespace SvgAssets

/-! ## Hashes of a supply -/

namespace HashSupply

/-- A supply gives these hashes one after the other, and then another supply is left. -/
inductive Gives : HashSupply → List Text → HashSupply → Prop
  | nil (supply : HashSupply) : Gives supply [] supply
  | cons {supply supply' last : HashSupply} {hash : Text} {hashes : List Text} :
    supply.next = .ok (hash, supply') → Gives supply' hashes last →
      Gives supply (hash :: hashes) last

theorem next_allocator_eq_ok_iff {a : HashAllocator} {hash : Text} {supply : HashSupply} :
    (allocator a).next = .ok (hash, supply) ↔
      ∃ b, a.allocate = .ok (hash, b) ∧ supply = .allocator b := by
  have hnext : (allocator a).next = a.allocate >>= fun x => pure (x.1, .allocator x.2) := rfl
  rw [hnext]
  cases a.allocate with
  | error e => simp [bind, Except.bind]
  | ok found =>
    obtain ⟨hash', b⟩ := found
    simp only [bind, Except.bind, pure, Except.pure, Except.ok.injEq, Prod.mk.injEq]
    constructor
    · rintro ⟨rfl, rfl⟩
      exact ⟨b, ⟨rfl, rfl⟩, rfl⟩
    · rintro ⟨_, ⟨rfl, rfl⟩, rfl⟩
      exact ⟨rfl, rfl⟩

/-- The hashes of an allocator differ from each other and from those that it gave before. -/
theorem Gives.nodup {a : HashAllocator} {hashes : List Text} {last : HashSupply}
    (h : Gives (.allocator a) hashes last) : hashes.Nodup ∧ ∀ hash ∈ hashes, hash ∉ a.used := by
  generalize hsupply : HashSupply.allocator a = supply at h
  induction h generalizing a with
  | nil => exact ⟨List.nodup_nil, by simp⟩
  | @cons supply supply' last hash hashes hnext _ ih =>
    subst hsupply
    obtain ⟨b, hcall, rfl⟩ := next_allocator_eq_ok_iff.1 hnext
    obtain ⟨-, hfinds, -, hused⟩ := Allocator.allocate_eq_ok_iff.1 hcall
    obtain ⟨hnodup, hnew⟩ := ih rfl
    rw [hused] at hnew
    refine ⟨List.nodup_cons.2 ⟨fun hmem => hnew hash hmem (List.mem_cons_self ..), hnodup⟩, ?_⟩
    rw [List.forall_mem_cons]
    exact ⟨hfinds.not_mem, fun other hother hmem =>
      hnew other hother (List.mem_cons_of_mem _ hmem)⟩

end HashSupply

/-! ## Names of images -/

namespace Text

/-- A character that is its own small letter stays at the end of a text in lower case. -/
theorem getLast?_lowerFrom_concat {c : Char} (hc : lowerChar c = [c]) (hsigma : c ≠ 'Σ')
    (before front : Text) : (lowerFrom before (front ++ [c])).getLast? = some c := by
  induction front generalizing before with
  | nil =>
    rw [List.nil_append, lowerFrom, if_neg hsigma, hc]
    rfl
  | cons d front ih =>
    rw [List.cons_append, lowerFrom]
    simp only [List.getLast?_append, ih, Option.some_or]

end Text

namespace Path

theorem extension_suffix_fileName (path : Text) : extension path <:+ fileName path := by
  unfold extension splitExtension
  split
  · exact List.nil_suffix
  · simp only
    split
    · exact List.nil_suffix
    · exact List.drop_suffix _ _

/-- A character at the end of the name of an image that is its own small letter is a `g`. -/
theorem getLast?_fileName_of_isSvg {path : Text} (h : isSvg path = true) :
    ∃ c, (fileName path).getLast? = some c ∧
      (Text.lowerChar c = [c] → c ≠ 'Σ' → c = 'g') := by
  have hlower : Text.lower (extension path) = ".svg".toList := by simpa [isSvg] using h
  cases hlast : (extension path).getLast? with
  | none =>
    rw [List.getLast?_eq_none_iff.1 hlast] at hlower
    cases hlower
  | some c =>
    obtain ⟨front, hfront⟩ := extension_suffix_fileName path
    refine ⟨c, ?_, fun hc hsigma => ?_⟩
    · rw [← hfront, List.getLast?_append, hlast, Option.some_or]
    · obtain ⟨stem, hstem⟩ := List.getLast?_eq_some_iff.1 hlast
      have hend := Text.getLast?_lowerFrom_concat hc hsigma [] stem
      rw [← hstem, ← Text.lower, hlower] at hend
      exact (Option.some.inj hend).symm

end Path

namespace Conversion

/-- An image and a generated file are at different places. -/
theorem placeOf_ne_of_isSvg {path written : Text} {c : Char} (h : Path.isSvg path = true)
    (hwritten : (Path.fileName written).getLast? = some c) (hc : c = 's' ∨ c = 'n')
    (t : FileTree) : t.placeOf path ≠ t.placeOf written := by
  obtain ⟨d, hd, hsmall⟩ := Path.getLast?_fileName_of_isSvg h
  have hstop : d ≠ '.' := by
    rintro rfl
    exact absurd (hsmall (by decide +kernel) (by decide)) (by decide)
  have hc' : c ≠ '.' ∧ c ≠ 'g' ∧ Text.lowerChar c = [c] ∧ c ≠ 'Σ' := by
    rcases hc with rfl | rfl <;> decide +kernel
  intro hplace
  have hname := FileTree.getLast?_placeOf_of_getLast? hd hstop t
  rw [hplace, FileTree.getLast?_placeOf_of_getLast? hwritten hc'.1, Option.some.injEq] at hname
  rw [← hname, hwritten, Option.some.injEq] at hd
  subst hd
  exact hc'.2.1 (hsmall hc'.2.2.1 hc'.2.2.2)

/-! ## One image -/

/-- The path and the text of an image, if its file is UTF-8. -/
def readImage? (t : FileTree) (path : Text) : Option (Text × Text) :=
  (t.readText path).toOption.map fun content => (path, content)

/-- The record that the stages make of an image under a hash, if they accept it. -/
def recordOf? (config : Pipeline.Config) (image : Text × Text) (hash : Text) :
    Option AssetRecord :=
  Pipeline.record? (Pipeline.builtIn.process config (.ofText image.1 image.2 hash))

/-- The file is the source of a record, under the name of the record in the output directory. -/
structure IsSourceOf (settings : Settings) (r : AssetRecord) (f : GeneratedFile) : Prop where
  path : f.path = Path.join settings.output (r.name ++ ".ts".toList)
  content : r.sourceText = .ok f.content

theorem hash_of_recordOf {config : Pipeline.Config} {image : Text × Text} {hash : Text}
    {r : AssetRecord} (h : recordOf? config image hash = some r) : r.hash = hash := by
  obtain ⟨a, hprocess, hresult⟩ := Pipeline.record?_eq_some_iff.1 h
  obtain ⟨g, css, hmade⟩ := Pipeline.exists_isMadeFrom hprocess hresult
  rw [hmade.record]
  rfl

theorem name_of_recordOf {config : Pipeline.Config} {image : Text × Text} {hash : Text}
    {r : AssetRecord} (h : recordOf? config image hash = some r) :
    r.name = Naming.safeName (Path.stem image.1) := by
  obtain ⟨a, hprocess, hresult⟩ := Pipeline.record?_eq_some_iff.1 h
  exact Pipeline.name_of_result hprocess hresult

theorem IsSourceOf.getLast?_fileName {settings : Settings} {r : AssetRecord} {f : GeneratedFile}
    {stem : Text} (h : IsSourceOf settings r f) (hname : r.name = Naming.safeName stem) :
    (Path.fileName f.path).getLast? = some 's' := by
  have hslash : '/' ∉ r.name ++ ".ts".toList := by
    rw [hname, List.mem_append, not_or]
    exact ⟨Naming.slash_not_mem_safeName stem, by decide⟩
  rw [h.path, FileTree.fileName_join hslash, List.getLast?_append]
  rfl

section

variable {settings : Settings} {c : Conversion} {path : Text}

/-- **What becomes of one image.** Where a conversion does not stop at it, the image cannot be read
and nothing changes; or it takes a hash, and then it is either passed over, or its source is written
and its record comes behind the others. -/
theorem convertFile_eq (h : (convertFile settings Blueprint.typeScript c path).failure = none) :
    let c' := (convertFile settings Blueprint.typeScript c path).state
    readImage? c.tree path = none ∧ c' = c ∨
      ∃ image hash supply, readImage? c.tree path = some image ∧
        c.supply.next = .ok (hash, supply) ∧
        (recordOf? settings.pipeline image hash = none ∧ c' = { c with supply } ∨
          ∃ r f, recordOf? settings.pipeline image hash = some r ∧ IsSourceOf settings r f ∧
            (Blueprint.writeFile c.tree f).failure = none ∧
            c' = ⟨(Blueprint.writeFile c.tree f).state, supply, c.records ++ [r]⟩) := by
  unfold convertFile Pipeline.Source.load at h ⊢
  unfold readImage?
  cases hread : c.tree.readText path with
  | error e => exact .inl ⟨rfl, rfl⟩
  | ok content =>
  rw [hread] at h
  cases hnext : c.supply.next with
  | error e =>
    rw [hnext] at h
    cases h
  | ok found =>
  obtain ⟨hash, supply⟩ := found
  rw [hnext] at h
  refine .inr ⟨(path, content), hash, supply, rfl, rfl, ?_⟩
  simp only at h ⊢
  unfold recordOf?
  cases hprocess : Pipeline.builtIn.process settings.pipeline (.ofText path content hash) with
  | error e =>
    rw [hprocess] at h
    cases h
  | ok a =>
  rw [hprocess] at h
  simp only at h ⊢
  cases hresult : a.state.result? with
  | none => exact .inl ⟨hresult, rfl⟩
  | some r =>
  rw [hresult] at h
  simp only at h ⊢
  rw [Attempt.failure_andThen_of_none rfl, Attempt.failure_andThen_eq_none_iff] at h
  rw [Attempt.state_andThen_of_none rfl, Attempt.state_andThen_of_none h.1]
  rw [assetFiles_typeScript] at h ⊢
  cases htext : r.sourceText with
  | error e =>
    rw [htext] at h
    cases h.1
  | ok text =>
  rw [htext] at h
  have hone : Blueprint.writeFiles c.tree (.ok [⟨sourcePath settings r, text⟩]) =
      Blueprint.writeFile c.tree ⟨sourcePath settings r, text⟩ := Attempt.andThen_done _
  have hwrite : (Blueprint.writeFiles c.tree
      (.ok [⟨sourcePath settings r, text⟩])).failure = none := Option.map_eq_none_iff.1 h.1
  rw [hone] at hwrite
  refine .inr ⟨r, _, hresult, ⟨rfl, htext⟩, hwrite, ?_⟩
  rw [← hone]
  rfl

end

/-! ## All images -/

/-- The records of the images that the stages accept, each under its hash. -/
def acceptedRecords (config : Pipeline.Config) (images : List (Text × Text))
    (hashes : List Text) : List AssetRecord :=
  (images.zip hashes).filterMap fun x => recordOf? config x.1 x.2

/-- The hashes of records are among those handed out, in the same order. -/
theorem sublist_hashes (config : Pipeline.Config) (images : List (Text × Text))
    (hashes : List Text) :
    ((acceptedRecords config images hashes).map (·.hash)).Sublist hashes := by
  induction images generalizing hashes with
  | nil => exact List.nil_sublist _
  | cons image images ih =>
    cases hashes with
    | nil => exact .slnil
    | cons hash hashes =>
      rw [acceptedRecords, List.zip_cons_cons, List.filterMap_cons]
      split
      · exact (ih hashes).cons hash
      · rename_i r hr
        rw [List.map_cons, hash_of_recordOf hr]
        exact (ih hashes).cons_cons hash

/-- A file that can be read keeps its text when another one is written. -/
theorem readImage?_of_keeps {q : Place} {t t' : FileTree} {path : Text} {bytes : Bytes}
    (hkeeps : FileTree.Keeps q t t') (hread : t.read path = .ok bytes) (hne : t.placeOf path ≠ q) :
    readImage? t' path = readImage? t path := by
  rw [readImage?, readImage?, FileTree.readText, FileTree.readText, hread,
    hkeeps.read_eq hread hne]

/-- **What becomes of a list of images.** Where a conversion does not stop, the images that are
UTF-8 take hashes one after the other, the records of those that are accepted come behind the
others, and their sources are written and nothing else. -/
theorem forEach_convertFile {settings : Settings} {c : Conversion} {paths : List Text}
    (hpaths : ∀ path ∈ paths, Path.isSvg path = true ∧ ∃ bytes, c.tree.read path = .ok bytes)
    (hend : (Attempt.forEach (convertFile settings Blueprint.typeScript) c paths).failure = none) :
    let c' := (Attempt.forEach (convertFile settings Blueprint.typeScript) c paths).state
    let images := paths.filterMap (readImage? c.tree)
    ∃ hashes sources, c.supply.Gives hashes c'.supply ∧ hashes.length = images.length ∧
      List.Forall₂ (IsSourceOf settings) (acceptedRecords settings.pipeline images hashes) sources ∧
      c'.records = c.records ++ acceptedRecords settings.pipeline images hashes ∧
      (Attempt.forEach Blueprint.writeFile c.tree sources).failure = none ∧
      c'.tree = (Attempt.forEach Blueprint.writeFile c.tree sources).state := by
  induction paths generalizing c with
  | nil => exact ⟨[], [], .nil _, rfl, .nil, (List.append_nil _).symm, rfl, rfl⟩
  | cons path paths ih =>
    rw [List.forall_mem_cons] at hpaths
    rw [Attempt.forEach, Attempt.failure_andThen_eq_none_iff] at hend
    intro c' images
    obtain ⟨hstep, hend⟩ := hend
    have hc' : c' = (Attempt.forEach (convertFile settings Blueprint.typeScript)
        (convertFile settings Blueprint.typeScript c path).state paths).state :=
      Attempt.state_andThen_of_none hstep _
    rw [hc']
    rcases convertFile_eq hstep with ⟨himage, hstate⟩ | ⟨image, hash, supply, himage, hnext, hcase⟩
    · have himages : images = paths.filterMap (readImage? c.tree) :=
        List.filterMap_cons_none himage
      rw [hstate] at hend ⊢
      rw [himages]
      exact ih hpaths.2 hend
    have himages : images = image :: paths.filterMap (readImage? c.tree) :=
      List.filterMap_cons_some himage
    rw [himages]
    rcases hcase with ⟨hnone, hstate⟩ | ⟨r, f, hsome, hsource, hwrite, hstate⟩
    · rw [hstate] at hend ⊢
      obtain ⟨hashes, sources, hgives, hlength, hsources, hrecords, hwritten, htree⟩ :=
        ih (c := { c with supply }) hpaths.2 hend
      have haccepted : acceptedRecords settings.pipeline
          (image :: paths.filterMap (readImage? c.tree)) (hash :: hashes) =
            acceptedRecords settings.pipeline (paths.filterMap (readImage? c.tree)) hashes :=
        List.filterMap_cons_none hnone
      refine ⟨hash :: hashes, sources, .cons hnext hgives, congrArg (· + 1) hlength, ?_, ?_,
        hwritten, htree⟩
      · rw [haccepted]
        exact hsources
      · rw [haccepted]
        exact hrecords
    · rw [hstate] at hend ⊢
      -- The images that are left are read as before.
      have hkept : ∀ path ∈ paths, readImage? (Blueprint.writeFile c.tree f).state path =
            readImage? c.tree path ∧
          ∃ bytes, (Blueprint.writeFile c.tree f).state.read path = .ok bytes := by
        intro path hpath
        obtain ⟨hsvg, bytes, hread⟩ := hpaths.2 path hpath
        have hkeeps : FileTree.Keeps (c.tree.placeOf f.path) c.tree
            (Blueprint.writeFile c.tree f).state := FileTree.keeps_write _ _ _
        have hne : c.tree.placeOf path ≠ c.tree.placeOf f.path :=
          placeOf_ne_of_isSvg hsvg (hsource.getLast?_fileName (name_of_recordOf hsome)) (.inl rfl) _
        exact ⟨readImage?_of_keeps hkeeps hread hne, bytes, hkeeps.read_eq hread hne⟩
      obtain ⟨hashes, sources, hgives, hlength, hsources, hrecords, hwritten, htree⟩ :=
        ih (c := ⟨(Blueprint.writeFile c.tree f).state, supply, c.records ++ [r]⟩)
          (fun path hpath => ⟨(hpaths.2 path hpath).1, (hkept path hpath).2⟩) hend
      rw [List.filterMap_congr fun path hpath => (hkept path hpath).1] at hlength hsources hrecords
      have haccepted : acceptedRecords settings.pipeline
          (image :: paths.filterMap (readImage? c.tree)) (hash :: hashes) =
            r :: acceptedRecords settings.pipeline (paths.filterMap (readImage? c.tree)) hashes :=
        List.filterMap_cons_some hsome
      refine ⟨hash :: hashes, f :: sources, .cons hnext hgives, congrArg (· + 1) hlength, ?_, ?_,
        ?_, ?_⟩
      · rw [haccepted]
        exact .cons hsource hsources
      · rw [haccepted, hrecords, List.append_assoc]
        rfl
      · rw [Attempt.forEach, Attempt.failure_andThen_of_none hwrite]
        exact hwritten
      · rw [Attempt.forEach, Attempt.state_andThen_of_none hwrite]
        exact htree

/-! ## The files that are written -/

/-- What is written behind the sources of records: an index with a line for each of them, and, if it
is asked for, a manifest with an entry for each of them. -/
def closingFiles (settings : Settings) (records : List AssetRecord) : List GeneratedFile :=
  ⟨Path.join settings.output "index.ts".toList,
      records.flatMap fun r => r.reexport.text⟩ ::
    if settings.manifest then
      [⟨settings.manifestPath,
        Json.print 0 (.table
          [("module".toList, .text settings.moduleName),
            ("exports".toList, .list (records.map fun r => .text r.name)),
            ("files".toList, .list (records.map fun r => .table (r.toTable [.path])))]) ++ ['\n']⟩]
    else []

/-- When files are written, each of them can be read, and files at other places stay what they are,
and none comes in there. -/
theorem forEach_writeFile {t : FileTree} {files : List GeneratedFile}
    (h : (Attempt.forEach Blueprint.writeFile t files).failure = none) :
    let t' := (Attempt.forEach Blueprint.writeFile t files).state
    (∀ path bytes, t.read path = .ok bytes → ∃ bytes', t'.read path = .ok bytes') ∧
      (∀ f ∈ files, ∃ bytes, t'.read f.path = .ok bytes) ∧
      ∀ p, p ∉ files.map (fun f => t.placeOf f.path) → ∀ content,
        t'.top.find? p = some (.file content) ↔ t.top.find? p = some (.file content) := by
  induction files generalizing t with
  | nil => exact ⟨fun _ bytes hread => ⟨bytes, hread⟩, by simp, fun _ _ _ => .rfl⟩
  | cons f files ih =>
    intro t'
    rw [Attempt.forEach, Attempt.failure_andThen_eq_none_iff] at h
    obtain ⟨hwrite, hfiles⟩ := h
    have hstate : t' = (Attempt.forEach Blueprint.writeFile
        (t.writeText f.path f.content).state files).state :=
      Attempt.state_andThen_of_none hwrite _
    have hwrite : (t.write f.path (Utf8.encode f.content)).failure = none :=
      Option.map_eq_none_iff.1 hwrite
    have hkeeps := t.keeps_write f.path (Utf8.encode f.content)
    have hadds := t.addsAt_write f.path (Utf8.encode f.content)
    obtain ⟨hread, hwritten, hothers⟩ := ih hfiles
    rw [hstate]
    refine ⟨?_, ?_, ?_⟩
    · intro path bytes hpath
      obtain ⟨bytes', hpath'⟩ := FileTree.exists_read_write hpath hwrite
      exact hread path bytes' hpath'
    · rw [List.forall_mem_cons]
      exact ⟨hread _ _ (FileTree.read_write hwrite), hwritten⟩
    · intro p hp content
      rw [List.map_cons, List.mem_cons, not_or] at hp
      have hplaces : files.map (fun other =>
          (Blueprint.writeFile t f).state.placeOf other.path) =
            files.map fun other => t.placeOf other.path :=
        List.map_congr_left fun other _ => FileTree.placeOf_of_keeps hkeeps other.path
      refine (hothers p ?_ content).trans ⟨hadds p content hp.1, hkeeps.file p content hp.1⟩
      rw [hplaces]
      exact hp.2

/-! ## Whole conversions -/

/-- The image at a place below a node: its path and its text, if its file is named like an image and
is UTF-8. -/
def imageAt? (input : Text) (node : FileNode) (place : Place) : Option (Text × Text) :=
  match node.find? place with
  | some (.file bytes) =>
    if Path.isSvg (Path.joinAll input place) then
      (Utf8.decode bytes).toOption.map fun content =>
        (Path.joinAll input place, Text.unifyLineBreaks content)
    else none
  | _ => none

/-- The input of a conversion is a directory with a walk. -/
theorem exists_walk_of_isDirectory {settings : Settings} {tree : FileTree}
    (hdirectory : tree.isDirectory settings.input = true)
    (horderly : ∀ node, tree.node? settings.input = some node → node.IsOrderly) :
    ∃ node places, tree.node? settings.input = some node ∧ node.IsWalk places ∧
      (∀ place ∈ places, ∀ bytes, node.find? place = some (.file bytes) →
        tree.read (Path.joinAll settings.input place) = .ok bytes) ∧
      images tree settings =
        (places.map (Path.joinAll settings.input)).filter Path.isSvg := by
  unfold FileTree.isDirectory at hdirectory
  split at hdirectory
  · rename_i entries hnode
    have horder := horderly _ hnode
    obtain ⟨places, hwalk, hpaths⟩ := FileNode.exists_isWalk entries horder
    refine ⟨_, places, hnode, hwalk, ?_, ?_⟩
    · intro place _ bytes hfile
      unfold FileTree.node? at hnode
      split at hnode
      · rename_i q hlocate
        exact FileTree.read_joinAll hlocate hnode horder hfile
      · cases hnode
    · rw [images, FileTree.filesBelow, hnode, ← hpaths]
  · cases hdirectory

/-- The images that can be read are told by the directory alone. -/
theorem filterMap_readImage? {input : Text} {tree : FileTree} {node : FileNode}
    {places : List Place} (hwalk : node.IsWalk places)
    (hread : ∀ place ∈ places, ∀ bytes, node.find? place = some (.file bytes) →
      tree.read (Path.joinAll input place) = .ok bytes) :
    ((places.map (Path.joinAll input)).filter Path.isSvg).filterMap (readImage? tree) =
      places.filterMap (imageAt? input node) := by
  rw [List.filterMap_filter, List.filterMap_map]
  refine List.filterMap_congr fun place hplace => ?_
  obtain ⟨bytes, hfile⟩ := (hwalk.mem_iff place).1 hplace
  simp only [Function.comp_apply, imageAt?, hfile]
  split
  · rw [readImage?, FileTree.readText, hread place hplace bytes hfile]
    cases hdecode : Utf8.decode bytes <;> simp [hdecode, Except.toOption]
  · rfl

/-- The manifest is one more file, if it is asked for. -/
theorem writeManifest_eq (settings : Settings) (c : Conversion) :
    let written := Attempt.forEach Blueprint.writeFile c.tree
      (if settings.manifest then [Manifest.file settings c.records] else [])
    (writeManifest settings c).state = { c with tree := written.state } ∧
      (writeManifest settings c).failure = written.failure.map .output := by
  unfold writeManifest
  split
  · constructor
    · exact Attempt.andThen_preserves (P := fun c' : Conversion => c' = _) rfl fun _ h => h
    · cases hfailure : (c.write (.ok [Manifest.file settings c.records])).failure with
      | none => exact (Attempt.failure_andThen_of_none hfailure _).trans hfailure.symm
      | some e => exact (Attempt.failure_andThen_of_some hfailure _).trans hfailure.symm
  · exact ⟨rfl, rfl⟩

/-- Behind the sources the index and the manifest are written. -/
theorem run_closing {settings : Settings} {c : Conversion}
    (hindex : (c.write (.ok [⟨indexPath settings,
      (TypeScript.barrel c.records).text⟩])).failure = none)
    (hmanifest : (writeManifest settings (c.write (.ok [⟨indexPath settings,
      (TypeScript.barrel c.records).text⟩])).state).failure = none) :
    let closed := Attempt.forEach Blueprint.writeFile c.tree (closingFiles settings c.records)
    closed.failure = none ∧
      (writeManifest settings (c.write (.ok [⟨indexPath settings,
        (TypeScript.barrel c.records).text⟩])).state).state = { c with tree := closed.state } := by
  have hfiles : closingFiles settings c.records =
      [⟨indexPath settings, (TypeScript.barrel c.records).text⟩] ++
        if settings.manifest then [Manifest.file settings c.records] else [] := by
    rw [TypeScript.Source.text, TypeScript.barrel, List.flatMap_map]
    rfl
  have hindex : (Attempt.forEach Blueprint.writeFile c.tree
      [⟨indexPath settings, (TypeScript.barrel c.records).text⟩]).failure = none :=
    Option.map_eq_none_iff.1 hindex
  obtain ⟨hstate, hfailure⟩ := writeManifest_eq settings (c.write (.ok [⟨indexPath settings,
    (TypeScript.barrel c.records).text⟩])).state
  rw [hfailure, Option.map_eq_none_iff] at hmanifest
  dsimp only
  rw [hstate, hfiles, Attempt.forEach_append, Attempt.failure_andThen_of_none hindex,
    Attempt.state_andThen_of_none hindex]
  exact ⟨hmanifest, rfl⟩

/-- **What a conversion makes of a directory.** Let the names below the input be names of files, and
let a conversion into plain sources come to its end. Then there is an order of the files below the
input, which is that of a walk and has each of them once. Those of them that are named like images
and are UTF-8, and no others, take the hashes that the supply gives, one after the other, which are
all different when they come from an allocator. The records are those of the images that the stages
accept under their hashes, in this order. The files that are written are one source for each record,
under its name, then the index with a line for each record and, if it is asked for, the manifest
with an entry for each record. All of them are there, and at other places there are the same files
as before. -/
theorem batch_filter {settings : Settings} {tree : FileTree} {supply : HashSupply}
    (hblueprint : settings.blueprint = "typescript".toList)
    (horderly : ∀ node, tree.node? settings.input = some node → node.IsOrderly)
    (hend : (run settings tree supply).failure = none) :
    ∃ node places hashes sources, tree.node? settings.input = some node ∧ node.IsWalk places ∧
      places.Nodup ∧
      let c := (run settings tree supply).state
      let images := places.filterMap (imageAt? settings.input node)
      let written := sources ++ closingFiles settings c.records
      supply.Gives hashes c.supply ∧ hashes.length = images.length ∧
      c.records = acceptedRecords settings.pipeline images hashes ∧
      (∀ a, supply = .allocator a → hashes.Nodup ∧ (c.records.map (·.hash)).Nodup) ∧
      List.Forall₂ (IsSourceOf settings) c.records sources ∧
      (Attempt.forEach Blueprint.writeFile tree written).failure = none ∧
      c.tree = (Attempt.forEach Blueprint.writeFile tree written).state ∧
      (∀ f ∈ written, ∃ bytes, c.tree.read f.path = .ok bytes) ∧
      ∀ p, p ∉ written.map (fun f => tree.placeOf f.path) → ∀ content,
        c.tree.top.find? p = some (.file content) ↔ tree.top.find? p = some (.file content) := by
  obtain ⟨hdirectory, hconverted, hindex, hmanifest, hstate⟩ := run_typeScript hblueprint hend
  obtain ⟨node, places, hnode, hwalk, hread, hpaths⟩ :=
    exists_walk_of_isDirectory hdirectory horderly
  have hreadable : ∀ path ∈ images tree settings, Path.isSvg path = true ∧
      ∃ bytes, tree.read path = .ok bytes := by
    intro path hpath
    rw [hpaths] at hpath
    obtain ⟨hpath, hsvg⟩ := List.mem_filter.1 hpath
    obtain ⟨place, hplace, rfl⟩ := List.mem_map.1 hpath
    obtain ⟨bytes, hfile⟩ := (hwalk.mem_iff place).1 hplace
    exact ⟨hsvg, bytes, hread place hplace bytes hfile⟩
  obtain ⟨hashes, sources, hgives, hlength, hsources, hrecords, hwritten, htree⟩ :=
    forEach_convertFile (c := start tree supply) hreadable hconverted
  obtain ⟨hclosed, hfinal⟩ := run_closing hindex hmanifest
  rw [hfinal] at hstate
  have himages : (images tree settings).filterMap (readImage? (start tree supply).tree) =
      places.filterMap (imageAt? settings.input node) := by
    rw [hpaths]
    exact filterMap_readImage? hwalk hread
  rw [himages] at hlength hsources hrecords
  generalize (Attempt.forEach (convertFile settings Blueprint.typeScript) (start tree supply)
    (images tree settings)).state = converted at *
  -- What is written are the sources, and then the files of all records together.
  have hrecords : (run settings tree supply).state.records =
      acceptedRecords settings.pipeline (places.filterMap (imageAt? settings.input node))
        hashes := by
    rw [hstate]
    exact hrecords
  have hwritten : (Attempt.forEach Blueprint.writeFile tree sources).failure = none := hwritten
  have hall : (Attempt.forEach Blueprint.writeFile tree (sources ++
      closingFiles settings (run settings tree supply).state.records)).failure = none := by
    rw [Attempt.forEach_append, Attempt.failure_andThen_of_none hwritten, hstate]
    rw [htree] at hclosed
    exact hclosed
  have htree : (run settings tree supply).state.tree = (Attempt.forEach Blueprint.writeFile tree
      (sources ++ closingFiles settings (run settings tree supply).state.records)).state := by
    rw [Attempt.forEach_append, Attempt.state_andThen_of_none hwritten, hstate, htree]
    rfl
  obtain ⟨-, hthere, hothers⟩ := forEach_writeFile hall
  rw [← htree] at hthere hothers
  refine ⟨node, places, hashes, sources, hnode, hwalk, hwalk.nodup, ?_, hlength, hrecords, ?_, ?_,
    hall, htree, hthere, hothers⟩
  · rw [hstate]
    exact hgives
  · rintro a rfl
    rw [hrecords]
    exact ⟨hgives.nodup.1, hgives.nodup.1.sublist (sublist_hashes _ _ _)⟩
  · rw [hrecords]
    exact hsources

/-- Bytes that are no text, below them a text that is no image, and below that an image. -/
def mixedEntries : List (Text × FileNode) :=
  [("a.svg".toList, .file [0xff]), ("more".toList, .directory
    [("b.svg".toList, .file (Utf8.encode "<p/>".toList)), ("more".toList, .directory
      [("c.SVG".toList, .file (Utf8.encode "<svg width=\"1\" height=\"1\"/>".toList))])])]

/-- The second image takes a hash and is left out, the first one does not even take a hash. -/
theorem batch_filter_mixed_entries :
    let tree : FileTree := ⟨.directory [("svg".toList, .directory mixedEntries)], []⟩
    let a := run plainSettings tree (.listed [] 0)
    a.failure = none ∧
      a.state.records.map (fun r => (r.name, r.hash)) = [("c".toList, "h00002".toList)] ∧
      ∃ places hashes, (FileNode.directory mixedEntries).IsWalk places ∧
        (HashSupply.listed [] 0).Gives hashes a.state.supply ∧
        a.state.records = acceptedRecords plainSettings.pipeline
          (places.filterMap (imageAt? plainSettings.input (.directory mixedEntries))) hashes := by
  intro tree a
  have hend : a.failure.isNone = true := by decide +kernel
  have hrecords : a.state.records.map (fun r => (r.name, r.hash)) =
      [("c".toList, "h00002".toList)] := by
    decide +kernel
  have horderly : (FileNode.directory mixedEntries).IsOrderly := by
    refine FileNode.isOrderly_directory (by decide +kernel) (by decide) ?_
    refine List.forall_mem_cons.2 ⟨FileNode.isOrderly_file _, List.forall_mem_singleton.2 ?_⟩
    refine FileNode.isOrderly_directory (by decide +kernel) (by decide) ?_
    refine List.forall_mem_cons.2 ⟨FileNode.isOrderly_file _, List.forall_mem_singleton.2 ?_⟩
    refine FileNode.isOrderly_directory (by decide +kernel) (by decide) ?_
    exact List.forall_mem_singleton.2 (FileNode.isOrderly_file _)
  rw [Option.isNone_iff_eq_none] at hend
  have hinput : tree.node? plainSettings.input = some (.directory mixedEntries) := rfl
  obtain ⟨node, places, hashes, sources, hnode, hwalk, -, hgives, -, haccepted, -⟩ :=
    batch_filter rfl (fun node hnode => Option.some.inj (hinput.symm.trans hnode) ▸ horderly) hend
  cases hinput.symm.trans hnode
  exact ⟨hend, hrecords, places, hashes, hwalk, hgives, haccepted⟩

end Conversion

end SvgAssets
