/-
# SvgAssets.Proofs.Template.References -- which references name a variable

Normalisation leaves a reference in the place of each declaration, with the path as it was written
but for white space around it. Whoever fills in the references splits them at every dot. The scan
has left out what is empty between two dots; so a reference to a declared variable is found, and
leads to the last default of its place, exactly when its path has no empty part
(`reference_resolves`). With two dots in a row, or a dot at an end, it leads nowhere
(`reference_unresolved`).
-/
import SvgAssets.Proofs.Template.LastDeclaration

namespace SvgAssets.Template

open Text Descriptor VariableTree

/-! ## Declarations one by one -/

/-- What stands in front of a text makes no difference to its declarations. -/
theorem scanFrom_declaration (prev prev' : Option Char) (s : Text) :
    Declaration.pattern.scanFrom prev s = Declaration.pattern.scanFrom prev' s :=
  Declaration.pattern.scanFrom_congr (fun _ _ _ => rfl) prev prev' s

theorem scan_of_read {s rest : Text} {d : Declaration} (h : Declaration.read s = some (d, rest)) :
    Declaration.pattern.scan s = .token d :: Declaration.pattern.scan rest := by
  have hread : Declaration.pattern.read none s = some (d, rest) := h
  rw [Pattern.scan, Pattern.scanFrom_of_read _ hread]
  exact congrArg _ (scanFrom_declaration _ _ rest)

theorem scan_of_none {c : Char} {s : Text} (h : Declaration.read (c :: s) = none) :
    Declaration.pattern.scan (c :: s) = .plain c :: Declaration.pattern.scan s := by
  have hread : Declaration.pattern.read none (c :: s) = none := h
  rw [Pattern.scan, Pattern.scanFrom_of_none _ hread]
  exact congrArg _ (scanFrom_declaration _ _ s)

theorem declarations_text_append {d : Declaration} (h : d.IsProper) (s : Text) :
    declarations (d.text ++ s) = d :: declarations s := by
  rw [declarations, Pattern.tokens, scan_of_read (Declaration.read_text_append h s)]
  rfl

theorem normalize_text_append {d : Declaration} (h : d.IsProper) (s : Text) :
    normalize (d.text ++ s) = d.reference ++ normalize s := by
  rw [normalize, Pattern.replace, scan_of_read (Declaration.read_text_append h s)]
  rfl

theorem declarations_cons {c : Char} {s : Text} (h : Declaration.read (c :: s) = none) :
    declarations (c :: s) = declarations s := by
  rw [declarations, Pattern.tokens, scan_of_none h]
  rfl

theorem normalize_cons {c : Char} {s : Text} (h : Declaration.read (c :: s) = none) :
    normalize (c :: s) = c :: normalize s := by
  rw [normalize, Pattern.replace, scan_of_none h]
  rfl

theorem declarations_nil : declarations [] = [] := by
  rw [declarations, Pattern.tokens, Pattern.scan, Pattern.scanFrom]
  rfl

theorem normalize_nil : normalize [] = [] := by
  rw [normalize, Pattern.replace, Pattern.scan, Pattern.scanFrom]
  rfl

/-- The declaration `d` stands in `s` between the texts `before` and `behind`, with the declarations
`front` before it and `back` behind it, and normalisation leaves its reference there. -/
structure IsSplit (s : Text) (front : List Declaration) (d : Declaration) (back : List Declaration)
    (before behind : Text) : Prop where
  text : s = before ++ d.text ++ behind
  front : declarations before = front
  back : declarations behind = back
  normalize : normalize s = normalize before ++ d.reference ++ normalize behind

/-- Each declaration stands between two texts that are scanned and normalised as on their own. -/
theorem exists_isSplit {s : Text} {front back : List Declaration} {d : Declaration}
    (h : declarations s = front ++ d :: back) :
    ∃ before behind, IsSplit s front d back before behind := by
  induction hn : s.length using Nat.strongRecOn generalizing s front with
  | ind n ih =>
    cases s with
    | nil =>
      rw [declarations_nil] at h
      exact absurd h (by simp)
    | cons c s =>
      cases hread : Declaration.read (c :: s) with
      | none =>
        rw [declarations_cons hread] at h
        obtain ⟨before, behind, hsplit⟩ := ih s.length (by simp [← hn]) h rfl
        -- No declaration begins here: one that did would be read in the whole text as well.
        have hnone : Declaration.read (c :: before) = none := by
          rw [Option.eq_none_iff_forall_ne_some]
          rintro ⟨d', rest⟩ hr
          obtain ⟨hd', he⟩ := Declaration.read_eq_some_iff.1 hr
          have hlong : c :: s = d'.text ++ (rest ++ d.text ++ behind) := by
            rw [hsplit.text, ← List.cons_append, ← List.cons_append, he]
            simp
          rw [hlong, Declaration.read_text_append hd'] at hread
          cases hread
        refine ⟨c :: before, behind, ?_, ?_, hsplit.back, ?_⟩
        · rw [hsplit.text]
          rfl
        · rw [declarations_cons hnone, hsplit.front]
        · rw [normalize_cons hread, normalize_cons hnone, hsplit.normalize]
          rfl
      | some found =>
        obtain ⟨first, rest⟩ := found
        obtain ⟨hfirst, he⟩ := Declaration.read_eq_some_iff.1 hread
        rw [he, declarations_text_append hfirst] at h
        cases front with
        | nil =>
          cases h
          refine ⟨[], rest, ?_, declarations_nil, rfl, ?_⟩
          · rw [he, List.nil_append]
          · rw [he, normalize_text_append hfirst, normalize_nil, List.nil_append]
        | cons d' front =>
          rw [List.cons_append, List.cons.injEq] at h
          obtain ⟨rfl, h⟩ := h
          have hlt : rest.length < n := by
            rw [← hn, he, List.length_append]
            simp [Declaration.text]
          obtain ⟨before, behind, hsplit⟩ := ih rest.length hlt h rfl
          refine ⟨first.text ++ before, behind, ?_, ?_, hsplit.back, ?_⟩
          · rw [he, hsplit.text]
            simp
          · rw [declarations_text_append hfirst, hsplit.front]
          · rw [he, normalize_text_append hfirst, normalize_text_append hfirst, hsplit.normalize]
            simp

/-! ## Looking up references -/

/-- Where no part of a path is empty, its parts are its components. -/
theorem components_eq_splitOn {path : Text} (h : [] ∉ splitOn '.' path) :
    components path = splitOn '.' path := by
  rw [components, List.filter_eq_self]
  intro part hpart
  cases part with
  | nil => exact absurd hpart h
  | cons c part => rfl

/-- **A reference leads to the last default of its place, or nowhere.** In a text that is scanned to
its end, and in which no declared place is above another, normalisation puts in the place of each
declaration a reference to its path. Split at every dot, this path leads to the literal of the last
declaration of the same place when it has no empty part, and leads nowhere when it has one. -/
theorem reference_resolves {s : Text} (hscan : (scan s).failure = none)
    (hfree : ArePrefixFree ((declarations s).map Declaration.place))
    {front back : List Declaration} {d : Declaration} (hd : declarations s = front ++ d :: back) :
    (∃ before behind, IsSplit s front d back before behind) ∧
      ([] ∉ splitOn '.' d.path → ∃ last value,
        lastAt? (declarations s) d.place = some last ∧ literal last.written = .ok value ∧
        (scan s).state.defaults.lookup? (splitOn '.' d.path) = some value) ∧
      ([] ∈ splitOn '.' d.path →
        (scan s).state.defaults.lookup? (splitOn '.' d.path) = none) := by
  have hsound := Variables.completed_forEach_declare_iff.1 hscan
  have htidy := Variables.areTidy_scan hscan
  have hrecords : Records (scan s).state.defaults (fun d value => literal d.written = .ok value)
      (declarations s) := by
    rw [Variables.state_scan hscan]
    exact (records_foldl_put hsound hfree).2
  have hmem : d ∈ declarations s := by simp [hd]
  refine ⟨exists_isSplit hd, ?_, ?_⟩
  · intro hparts
    rw [← components_eq_splitOn hparts]
    exact hrecords.last d hmem
  · intro hempty
    rw [Option.eq_none_iff_forall_ne_some]
    intro value hlookup
    exact (htidy.defaults.isComponent_of_lookup? hlookup [] hempty).1 rfl

/-- A text that declares one variable twice, with white space around and within its path. -/
def spacedText : Text :=
  Declaration.text ⟨"red".toList, " a. b".toList⟩ ++ Declaration.text ⟨"1".toList, "c".toList⟩ ++
    Declaration.text ⟨"blue".toList, "a. b ".toList⟩

theorem reference_resolves_spaced :
    (scan spacedText).failure = none ∧
      ArePrefixFree ((declarations spacedText).map Declaration.place) ∧
      declarations spacedText =
        [] ++ ⟨"red".toList, " a. b".toList⟩ :: (declarations spacedText).drop 1 ∧
      (scan spacedText).state.defaults.lookup?
          (splitOn '.' (Declaration.path ⟨"red".toList, " a. b".toList⟩)) =
        some (.text "blue".toList) := by
  have hscan : (scan spacedText).failure = none := by decide +kernel
  have hfree : ArePrefixFree ((declarations spacedText).map Declaration.place) := by
    rw [ArePrefixFree]
    decide +kernel
  have hsplit : declarations spacedText =
      [] ++ ⟨"red".toList, " a. b".toList⟩ :: (declarations spacedText).drop 1 := by
    decide +kernel
  have hlast : lastAt? (declarations spacedText)
      (Declaration.place ⟨"red".toList, " a. b".toList⟩) =
        some ⟨"blue".toList, "a. b ".toList⟩ := by
    decide +kernel
  have hliteral : literal "blue".toList = .ok (.text "blue".toList) := rfl
  refine ⟨hscan, hfree, hsplit, ?_⟩
  obtain ⟨-, hresolves, -⟩ := reference_resolves hscan hfree hsplit
  obtain ⟨last, value, hlast', hvalue, hlookup⟩ := hresolves (by decide +kernel)
  cases hlast.symm.trans hlast'
  cases hliteral.symm.trans hvalue
  exact hlookup

/-- A text whose only declaration has two dots in a row in its path. -/
def doubleDotText : Text := Declaration.text ⟨"red".toList, "a..b".toList⟩

/-- The reference that normalisation leaves for a path with two dots in a row names no variable,
though the scan has taken the declaration in. -/
theorem reference_unresolved :
    (scan doubleDotText).failure = none ∧
      ArePrefixFree ((declarations doubleDotText).map Declaration.place) ∧
      declarations doubleDotText = [⟨"red".toList, "a..b".toList⟩] ∧
      normalize doubleDotText = Declaration.reference ⟨"red".toList, "a..b".toList⟩ ∧
      ((scan doubleDotText).state.defaults.lookup? [['a'], ['b']]).isSome ∧
      (scan doubleDotText).state.defaults.lookup?
        (splitOn '.' (Declaration.path ⟨"red".toList, "a..b".toList⟩)) = none := by
  refine ⟨by decide +kernel, ?_, by decide +kernel, by decide +kernel, by decide +kernel, ?_⟩
  · rw [ArePrefixFree]
    decide +kernel
  · rw [← Option.isNone_iff_eq_none]
    decide +kernel

end SvgAssets.Template
