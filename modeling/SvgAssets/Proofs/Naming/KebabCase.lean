/-
# SvgAssets.Proofs.Naming.KebabCase -- the normal form of selectors

A name in kebab case is made of the words of a text: runs of ASCII letters and digits, cut where a
capital letter stands behind a small letter or a digit. Each word is put in lower case, and one
hyphen stands between two of them (`kebabCase_eq`). What comes out is a row of such words again, in
which there is nothing left to cut or to put in lower case: the names in this form are those that
kebab case leaves as they are (`kebabCase_eq_self_iff`).

Selectors, the scope of styles, the class of images and the files of a module are named by the name
of the module in kebab case. So these names do not change if the module is called by its name in
kebab case from the beginning, however often it is put in this form (`kebabCase_normalForm`).
-/
import Mathlib.Logic.Function.Iterate
import SvgAssets.Blueprint.Angular
import SvgAssets.Pipeline.Asset
import SvgAssets.Proofs.Files.Writing
import SvgAssets.Proofs.Text.CharacterClasses
import SvgAssets.Proofs.Text.Words

namespace SvgAssets.Naming

open Text

/-! ## Characters -/

section

variable {c : Char}

theorem isAlphanum_iff :
    c.isAlphanum = true ↔ (c.isUpper = true ∨ c.isLower = true) ∨ c.isDigit = true := by
  show (c.isUpper || c.isLower || c.isDigit) = true ↔ _
  rw [Bool.or_eq_true, Bool.or_eq_true]

theorem ascii_of_isAlphanum (h : c.isAlphanum = true) : c.toNat < 0x80 := by
  rcases isAlphanum_iff.1 h with (hupper | hlower) | hdigit
  · have hle : c.val ≤ 'Z'.val := (of_decide_eq_true hupper).2
    exact Nat.lt_of_le_of_lt (UInt32.le_iff_toNat_le.1 hle) (by decide)
  · have hle : c.val ≤ 'z'.val := of_decide_eq_true (Bool.and_eq_true_iff.1 hlower).2
    exact Nat.lt_of_le_of_lt (UInt32.le_iff_toNat_le.1 hle) (by decide)
  · have hle : c.val ≤ '9'.val := of_decide_eq_true (Bool.and_eq_true_iff.1 hdigit).2
    exact Nat.lt_of_le_of_lt (UInt32.le_iff_toNat_le.1 hle) (by decide)

theorem isAlphanum_of_isLowerOrDigit (h : isLowerOrDigit c = true) : c.isAlphanum = true := by
  rw [isLowerOrDigit, Bool.or_eq_true] at h
  exact isAlphanum_iff.2 (h.imp_left .inr)

theorem isLowerOrDigit_toLower (h : c.isAlphanum = true) : isLowerOrDigit c.toLower = true := by
  have hall : ∀ c : Char, c.toNat < 0x80 → c.isAlphanum = true →
      isLowerOrDigit c.toLower = true := by
    intro c
    apply forall_ascii (P := fun c => c.isAlphanum = true → isLowerOrDigit c.toLower = true)
    decide
  exact hall c (ascii_of_isAlphanum h) h

/-- Small letters and digits are no capital letters and stay in lower case. -/
theorem not_isUpper_of_isLowerOrDigit (h : isLowerOrDigit c = true) :
    c.isUpper = false ∧ c.toLower = c := by
  have hall : ∀ c : Char, c.toNat < 0x80 → isLowerOrDigit c = true →
      c.isUpper = false ∧ c.toLower = c := by
    intro c
    apply forall_ascii (P := fun c => isLowerOrDigit c = true → c.isUpper = false ∧ c.toLower = c)
    decide
  exact hall c (ascii_of_isAlphanum (isAlphanum_of_isLowerOrDigit h)) h

theorem map_toLower_eq_self {w : Text} (h : ∀ c ∈ w, isLowerOrDigit c = true) :
    w.map Char.toLower = w := by
  have hlower : w.map Char.toLower = w.map id :=
    List.map_congr_left fun c hc => (not_isUpper_of_isLowerOrDigit (h c hc)).2
  rw [hlower, List.map_id]

end

/-! ## Words of names -/

/-- Words of small letters and digits, with one hyphen between two of them and none at the ends. -/
def IsKebab (s : Text) : Prop :=
  ∃ ws : List Text, (∀ w ∈ ws, IsWord isLowerOrDigit w) ∧ s = ['-'].intercalate ws

/-- **What kebab case is.** The words of the text, cut in front of capital letters, are put in lower
case and get hyphens between them. -/
theorem kebabCase_eq (s : Text) : kebabCase s =
    ['-'].intercalate ((words Char.isAlphanum (hyphenateWords s)).map (·.map Char.toLower)) := by
  have hascii : ∀ c ∈ ['-'].intercalate (words Char.isAlphanum (hyphenateWords s)),
      c.toNat < 0x80 := by
    intro c hc
    rcases mem_intercalate hc with rfl | ⟨w, hw, hc⟩
    · decide
    · exact ascii_of_isAlphanum ((isWord_of_mem_words w hw).chars c hc)
  rw [kebabCase, trimHyphens, dropAround_collapseRuns (by decide), lower_of_ascii hascii,
    map_intercalate]
  rfl

example : kebabCase "myHTMLIcon  name.v2".toList = "my-htmlicon-name-v2".toList := by decide +kernel

theorem isKebab_kebabCase (s : Text) : IsKebab (kebabCase s) := by
  refine ⟨_, fun w hw => ?_, kebabCase_eq s⟩
  obtain ⟨v, hv, rfl⟩ := List.mem_map.1 hw
  have hword := isWord_of_mem_words v hv
  refine ⟨List.map_eq_nil_iff.not.2 hword.ne_nil, fun c hc => ?_⟩
  obtain ⟨d, hd, rfl⟩ := List.mem_map.1 hc
  exact isLowerOrDigit_toLower (hword.chars d hd)

/-- Words are cut in front of capital letters only. -/
theorem hyphenateWords_eq_self {s : Text} (h : ∀ c ∈ s, c.isUpper = false) :
    hyphenateWords s = s := by
  fun_induction hyphenateWords s with
  | case1 a b s hcut ih =>
    rw [List.forall_mem_cons, List.forall_mem_cons] at h
    rw [h.2.1, Bool.and_false] at hcut
    cases hcut
  | case2 a b s hcut ih =>
    rw [List.forall_mem_cons] at h
    rw [ih h.2]
  | case3 => rfl

theorem IsKebab.chars {s : Text} (h : IsKebab s) :
    ∀ c ∈ s, isLowerOrDigit c = true ∨ c = '-' := by
  obtain ⟨ws, hws, rfl⟩ := h
  intro c hc
  rcases mem_intercalate hc with rfl | ⟨w, hw, hc⟩
  · exact .inr rfl
  · exact .inl ((hws w hw).chars c hc)

/-- A name in kebab case is left as it is. -/
theorem IsKebab.kebabCase_eq {s : Text} (h : IsKebab s) : kebabCase s = s := by
  have hupper : ∀ c ∈ s, c.isUpper = false := by
    intro c hc
    rcases h.chars c hc with hlower | rfl
    · exact (not_isUpper_of_isLowerOrDigit hlower).1
    · decide
  obtain ⟨ws, hws, rfl⟩ := h
  have hwords : ∀ w ∈ ws, IsWord Char.isAlphanum w := fun w hw =>
    ⟨(hws w hw).ne_nil, fun c hc => isAlphanum_of_isLowerOrDigit ((hws w hw).chars c hc)⟩
  have hlower : ws.map (·.map Char.toLower) = ws.map id :=
    List.map_congr_left fun w hw => map_toLower_eq_self (hws w hw).chars
  rw [Naming.kebabCase_eq, hyphenateWords_eq_self hupper, words_intercalate (by decide) hwords,
    hlower, List.map_id]

theorem kebabCase_eq_self_iff {s : Text} : kebabCase s = s ↔ IsKebab s := by
  constructor
  · intro h
    rw [← h]
    exact isKebab_kebabCase s
  · exact IsKebab.kebabCase_eq

theorem kebabCase_kebabCase (s : Text) : kebabCase (kebabCase s) = kebabCase s :=
  (isKebab_kebabCase s).kebabCase_eq

theorem kebabCase_iterate (n : Nat) (s : Text) : kebabCase (kebabCase^[n] s) = kebabCase s := by
  induction n with
  | zero => rfl
  | succ n ih => rw [Function.iterate_succ_apply', kebabCase_kebabCase, ih]

/-! ## Names derived from the name of the module -/

/-- The names of the files at the paths of generated files. -/
def fileNames (files : List GeneratedFile) : List Text := files.map fun f => Path.fileName f.path

/-- What is named after the module has this name: the elements that show assets, the class of images
and the scope of styles that are put under the module, and the file of the module. -/
structure IsNamedBy (name : Text) (settings : Settings) : Prop where
  selector (r : AssetRecord) : Angular.selector settings r = name ++ '-' :: kebabCase r.name
  classPrefix : settings.scopeByModule = true → Angular.classPrefix settings = name
  scopeId (a : Pipeline.Asset) :
    settings.scopeByModule = true → a.scopeId settings.pipeline = name
  indexFiles (records : List AssetRecord) :
    (Blueprint.angular.indexFiles settings records).map fileNames =
      .ok ["index.ts".toList, "index.ts".toList, name ++ ".module.ts".toList]

theorem fileName_modulePath {name : Text} (h : '/' ∉ name) (settings : Settings)
    (names : List Text) : Path.fileName (Angular.modulePath settings (names ++ [name])) = name := by
  rw [Angular.modulePath, Path.joinAll, ← List.cons_append, List.foldl_concat]
  exact FileTree.fileName_join h _

theorem isNamedBy_kebabCase (settings : Settings) :
    IsNamedBy (kebabCase settings.moduleName) settings where
  selector _ := rfl
  classPrefix h := if_pos h
  scopeId _ h := if_pos h
  indexFiles records := by
    have hindex (directory : Text) :
        Path.fileName (Angular.modulePath settings [directory, "index.ts".toList]) =
          "index.ts".toList :=
      fileName_modulePath (by decide) settings [directory]
    have hslash : '/' ∉ kebabCase settings.moduleName ++ ".module.ts".toList := by
      rw [List.mem_append, not_or]
      refine ⟨fun hmem => ?_, by decide⟩
      rcases (isKebab_kebabCase settings.moduleName).chars '/' hmem with h | h <;>
        exact absurd h (by decide)
    have hmodule : Path.fileName (Angular.modulePath settings
        [kebabCase settings.moduleName ++ ".module.ts".toList]) =
          kebabCase settings.moduleName ++ ".module.ts".toList :=
      fileName_modulePath hslash settings []
    show Except.ok _ = _
    rw [fileNames, List.map_cons, List.map_cons, List.map_singleton, hindex, hindex, hmodule]

/-- The settings with the name of the module put in kebab case `n` times. -/
def recased (settings : Settings) (n : Nat) : Settings :=
  { settings with moduleName := kebabCase^[n] settings.moduleName }

/-- **Kebab case reaches a normal form**: words with single hyphens between them, which are the
texts that it leaves as they are. So what is named after the module keeps its name, however often
the name of the module is put in this form. -/
theorem kebabCase_normalForm :
    (∀ s : Text, IsKebab (kebabCase s) ∧ kebabCase (kebabCase s) = kebabCase s ∧
        (kebabCase s = s ↔ IsKebab s)) ∧
      ∀ (settings : Settings) (n : Nat),
        IsNamedBy (kebabCase settings.moduleName) (recased settings n) := by
  refine ⟨fun s => ⟨isKebab_kebabCase s, kebabCase_kebabCase s, kebabCase_eq_self_iff⟩,
    fun settings n => ?_⟩
  have hname : kebabCase (recased settings n).moduleName = kebabCase settings.moduleName :=
    kebabCase_iterate n settings.moduleName
  rw [← hname]
  exact isNamedBy_kebabCase (recased settings n)

end SvgAssets.Naming
