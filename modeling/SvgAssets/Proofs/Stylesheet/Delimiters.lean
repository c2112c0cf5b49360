/-
# SvgAssets.Proofs.Stylesheet.Delimiters -- what minifying does around braces and semicolons

Minifying drops the white space beside a mark and looks at nothing across it, with two exceptions: a
number may begin behind a colon, and a semicolon is dropped in front of a closing brace. So a text
is minified piece by piece around its delimiters (`packedFrom_append_mark`,
`packedFrom_append_semicolon`), and what a closing brace does to the text in front of it is to take
its last semicolon away (`packedFrom_append_close`).
-/
import SvgAssets.Proofs.Stylesheet.Packing

namespace SvgAssets.Stylesheet

open Text

/-! ## Trimmed ends -/

theorem trimStart_cons_of_not_blank {c : Char} (hc : isBlank c = false) (s : Text) :
    trimStart (c :: s) = c :: s :=
  List.dropWhile_cons_of_neg (by simp [hc])

theorem trimStart_append_cons {c : Char} (hc : isBlank c = false) (s t : Text) :
    trimStart (s ++ c :: t) = trimStart s ++ c :: t := by
  rw [trimStart, List.dropWhile_append]
  split
  · rename_i hnil
    rw [trimStart, List.isEmpty_iff.1 hnil]
    exact trimStart_cons_of_not_blank hc t
  · rfl

theorem trimEnd_append_cons {c : Char} (hc : isBlank c = false) (s t : Text) :
    trimEnd (s ++ c :: t) = s ++ c :: trimEnd t := by
  obtain ⟨w, ht, hw⟩ := exists_eq_trimEnd_append t
  have hlast := getLast?_dropEndWhile (q := isBlank) (s := t)
  conv => lhs; rw [ht, ← List.cons_append, ← List.append_assoc]
  refine dropEndWhile_append (fun d hd => ?_) hw
  rw [List.getLast?_append, List.getLast?_cons, Option.some_or] at hd
  obtain rfl := Option.some.inj hd
  cases h : (trimEnd t).getLast? with
  | none => exact hc
  | some e => exact hlast e h

theorem trimEnd_blanks {w : Text} (hw : ∀ c ∈ w, isBlank c = true) : trimEnd w = [] :=
  dropEndWhile_append (v := []) nofun hw

theorem mem_of_mem_trimEnd {c : Char} {s : Text} (h : c ∈ trimEnd s) : c ∈ s := by
  obtain ⟨w, hs, -⟩ := exists_eq_trimEnd_append s
  rw [hs]
  exact List.mem_append_left _ h

theorem head?_trimStart (s : Text) : ∀ c ∈ (trimStart s).head?, isBlank c = false :=
  ((run_eq_iff (q := isBlank)).1 rfl).2.2

theorem trimStart_blanks_append {w s : Text} (hw : ∀ c ∈ w, isBlank c = true)
    (hs : ∀ c ∈ s.head?, isBlank c = false) : trimStart (w ++ s) = s := by
  rw [trimStart, List.dropWhile_append_of_pos hw]
  cases s with
  | nil => rfl
  | cons c s => exact trimStart_cons_of_not_blank (hs c rfl) s

/-! ## Space around marks -/

/-- A text with single spaces, none of them beside punctuation. -/
def tightened (s : Text) : Text := tighten isMark isBlank false (squeezeBlanks s)

theorem spaced_eq (s : Text) : spaced s = replaceAll ';' ['\x7d'] ['\x7d'] (tightened s) := rfl

theorem not_isBlank_of_forall_isMark : ∀ c, isMark c = true → isBlank c = false :=
  fun _ => not_isBlank_of_isMark

theorem tightened_append_mark {m : Char} (hm : isMark m = true) (s t : Text) :
    tightened (s ++ m :: t) = tightened (trimEnd s) ++ m :: tightened (trimStart t) := by
  rw [tightened, squeezeBlanks, collapseRuns_append_cons (not_isBlank_of_isMark hm),
    tighten_append_mark not_isBlank_of_forall_isMark hm, tighten_true not_isBlank_of_forall_isMark,
    dropEndWhile_collapseRuns rfl, dropWhile_collapseRuns rfl]
  rfl

theorem trimStart_tightened (s : Text) : trimStart (tightened s) = tightened (trimStart s) := by
  rw [trimStart, tightened, dropWhile_tighten, squeezeBlanks, dropWhile_collapseRuns rfl]
  rfl

/-- A text that does not end with white space ends as before. -/
theorem exists_tightened_append_singleton {c : Char} (hc : isBlank c = false) (s : Text) :
    ∃ w, tightened (s ++ [c]) = w ++ [c] := by
  rw [tightened, squeezeBlanks, collapseRuns_append_cons hc]
  cases hm : isMark c with
  | true => exact ⟨_, tighten_append_mark not_isBlank_of_forall_isMark hm _⟩
  | false => exact ⟨_, tighten_append_cons hm hc _⟩

/-! ## Semicolons -/

/-- A text without the white space at its end and one semicolon in front of it. -/
def dropSemicolon (s : Text) : Text :=
  if (trimEnd s).getLast? = some ';' then trimEnd (trimEnd s).dropLast else trimEnd s

theorem spaced_append_mark {m : Char} (hm : isMark m = true) (hsemi : m ≠ ';') (hclose : m ≠ '\x7d')
    (s t : Text) : spaced (s ++ m :: t) = spaced (trimEnd s) ++ m :: spaced (trimStart t) := by
  rw [spaced_eq, tightened_append_mark hm, replaceAll_append_cons (by simp [hsemi, hclose])]
  rfl

theorem head?_tightened {s : Text} (h : ∀ c ∈ s.head?, isBlank c = false) :
    (tightened s).head? = s.head? := by
  cases s with
  | nil => rfl
  | cons c s =>
    have hc := h c rfl
    rw [tightened, squeezeBlanks, collapseRuns, if_neg (by simp [hc]), head?_tighten_cons hc]
    rfl

theorem head?_spaced {s : Text} (h : ∀ c ∈ s.head?, isBlank c = false ∧ c ≠ ';') :
    (spaced s).head? = s.head? := by
  have hhead := head?_tightened fun c hc => (h c hc).1
  rw [spaced_eq]
  cases htight : tightened s with
  | nil =>
    rw [htight] at hhead
    rw [replaceAll, ← hhead]
  | cons d w =>
    rw [htight] at hhead
    have hd : d ≠ ';' := (h d hhead.symm).2
    rw [replaceAll_cons fun hprefix => hd (List.cons_prefix_cons.1 hprefix).1.symm, ← hhead]
    rfl

theorem spaced_append_semicolon {s t : Text} (h : (trimStart t).head? ≠ some '\x7d') :
    spaced (s ++ ';' :: t) = spaced (trimEnd s) ++ ';' :: spaced (trimStart t) := by
  have hhead : (tightened (trimStart t)).head? ≠ some '\x7d' := by
    rw [head?_tightened (head?_trimStart t)]
    exact h
  have hnot : ¬ [';', '\x7d'] <+: ';' :: tightened (trimStart t) := by
    intro hprefix
    obtain ⟨-, u, hu⟩ := List.cons_prefix_cons.1 hprefix
    rw [← hu] at hhead
    exact hhead rfl
  rw [spaced_eq, tightened_append_mark rfl, replaceAll_append_of_not_across (by simp),
    replaceAll_cons hnot]
  rfl

/-- **A closing brace takes the last semicolon of the text in front of it away.** -/
theorem spaced_append_close (s t : Text) :
    spaced (s ++ '\x7d' :: t) = spaced (dropSemicolon s) ++ '\x7d' :: spaced (trimStart t) := by
  have hnot : ∀ u, ¬ [';', '\x7d'] <+: '\x7d' :: u := fun u hprefix =>
    absurd (List.cons_prefix_cons.1 hprefix).1 (by decide)
  have hblank := getLast?_dropEndWhile (q := isBlank) (s := s)
  rw [spaced_eq, tightened_append_mark rfl, dropSemicolon]
  split
  · rename_i hsemi
    obtain ⟨u, hu⟩ := List.getLast?_eq_some_iff.1 hsemi
    have hend : tightened (trimEnd s) = tightened (trimEnd u) ++ [';'] := by
      rw [hu, tightened_append_mark rfl]
      rfl
    rw [hend, hu, List.dropLast_concat, List.append_assoc, List.singleton_append,
      replaceAll_append_of_not_across (by simp)]
    exact congrArg _ (replaceAll_of_isPrefix _)
  · rename_i hsemi
    have hend : (tightened (trimEnd s)).getLast? ≠ some ';' := by
      rcases List.eq_nil_or_concat (trimEnd s) with hnil | ⟨u, d, hu⟩
      · rw [hnil]
        exact nofun
      · rw [List.concat_eq_append] at hu
        obtain ⟨w, hw⟩ := exists_tightened_append_singleton (c := d)
          (hblank d (by rw [← trimEnd, hu]; simp)) u
        rw [hu, hw]
        rw [hu] at hsemi
        simpa using hsemi
    rw [replaceAll_append_of_not_across fun hlast => absurd hlast hend, replaceAll_cons (hnot _)]
    rfl

/-! ## Minified pieces -/

/-- What minifying makes of a text without comments that stands behind `prev`, before its ends are
trimmed. -/
def packedFrom (prev : Option Char) (s : Text) : Text := dropZeroUnits prev (spaced s)

theorem packedFrom_none (s : Text) : packedFrom none s = packed s := rfl

theorem packedFrom_nil (prev : Option Char) : packedFrom prev [] = [] := by
  rw [packedFrom, spaced_nil, dropZeroUnits]

theorem head?_packedFrom {s : Text} (h : ∀ c ∈ s.head?, isBlank c = false ∧ c ≠ ';')
    (prev : Option Char) : (packedFrom prev s).head? = s.head? :=
  (head?_dropZeroUnits prev (spaced s)).trans (head?_spaced h)

theorem packedFrom_cons {c : Char} (hblank : isBlank c = false) (hmark : isMark c = false)
    (hzero : c ≠ '0') (prev : Option Char) (s : Text) :
    packedFrom prev (c :: s) = c :: packed s := by
  have hcolon : c ≠ ':' := by
    rintro rfl
    exact absurd hmark (by decide)
  rw [packedFrom, spaced_cons hblank hmark, dropZeroUnits_of_ne hzero,
    dropZeroUnits_behind hblank hcolon]
  rfl

/-- White space in front of a character that is no mark becomes one space. -/
theorem packed_blanks_append {w : Text} (hne : w ≠ []) (hw : ∀ c ∈ w, isBlank c = true) {c : Char}
    (hblank : isBlank c = false) (hmark : isMark c = false) (s : Text) :
    packed (w ++ c :: s) = ' ' :: packedFrom (some ' ') (c :: s) := by
  have hspace : spaced w = [' '] := by
    rw [spaced_eq, tightened, squeezeBlanks, collapseRuns_of_forall hne hw]
    exact replaceAll_eq_self (s := [' ']) (by decide)
  rw [packed, spaced_append_cons hblank hmark, hspace, List.singleton_append,
    dropZeroUnits_none_cons, packedFrom, spaced_cons hblank hmark]

theorem isMark_cases {m : Char} (h : isMark m = true) :
    m ≠ '0' ∧ isUnitLetter m = false ∧ isWordChar m = false :=
  of_isMark (P := fun m => m ≠ '0' ∧ isUnitLetter m = false ∧ isWordChar m = false) rfl h

theorem dropZeroUnits_append_mark {m : Char} (hm : isMark m = true) (hcolon : m ≠ ':')
    (prev : Option Char) (s t : Text) :
    dropZeroUnits prev (s ++ m :: t) = dropZeroUnits prev s ++ m :: dropZeroUnits none t := by
  obtain ⟨hzero, hunit, hword⟩ := isMark_cases hm
  rw [dropZeroUnits_append_cons hzero hunit hword,
    dropZeroUnits_behind (not_isBlank_of_isMark hm) hcolon]

/-- **A text is minified piece by piece** around a mark that is no colon, semicolon or closing
brace. -/
theorem packedFrom_append_mark {m : Char} (hm : isMark m = true) (hcolon : m ≠ ':')
    (hsemi : m ≠ ';') (hclose : m ≠ '\x7d') (prev : Option Char) (s t : Text) :
    packedFrom prev (s ++ m :: t) = packedFrom prev (trimEnd s) ++ m :: packed (trimStart t) := by
  rw [packedFrom, spaced_append_mark hm hsemi hclose, dropZeroUnits_append_mark hm hcolon]
  rfl

/-- **A text is minified piece by piece** around a semicolon, unless a closing brace comes behind
it. -/
theorem packedFrom_append_semicolon {s t : Text} (h : (trimStart t).head? ≠ some '\x7d')
    (prev : Option Char) :
    packedFrom prev (s ++ ';' :: t) =
      packedFrom prev (trimEnd s) ++ ';' :: packed (trimStart t) := by
  rw [packedFrom, spaced_append_semicolon h, dropZeroUnits_append_mark rfl (by decide)]
  rfl

/-- **A text is minified piece by piece** around a closing brace, which takes the last semicolon in
front of it away. -/
theorem packedFrom_append_close (prev : Option Char) (s t : Text) :
    packedFrom prev (s ++ '\x7d' :: t) =
      packedFrom prev (dropSemicolon s) ++ '\x7d' :: packed (trimStart t) := by
  rw [packedFrom, spaced_append_close, dropZeroUnits_append_mark rfl (by decide)]
  rfl

theorem dropZeroUnits_append_blank {w : Text} (hw : ∀ c ∈ w, isBlank c = true) (prev : Option Char)
    (s : Text) : ∃ prev', dropZeroUnits prev (w ++ s) = w ++ dropZeroUnits prev' s := by
  induction w generalizing prev with
  | nil => exact ⟨prev, rfl⟩
  | cons c w ih =>
    obtain ⟨hc, hw⟩ := List.forall_mem_cons.1 hw
    have hzero : c ≠ '0' := by
      rintro rfl
      exact absurd hc (by decide)
    obtain ⟨prev', hrest⟩ := ih hw (some c)
    exact ⟨prev', by rw [List.cons_append, dropZeroUnits_of_ne hzero, hrest, List.cons_append]⟩

theorem trimStart_spaced (s : Text) : trimStart (spaced s) = spaced (trimStart s) := by
  rw [spaced_eq, spaced_eq, ← trimStart_tightened]
  generalize tightened s = t
  induction t using replaceAll_induct ';' ['\x7d'] with
  | nil => rw [replaceAll, trimStart, List.dropWhile_nil, replaceAll]
  | found t ih =>
    rw [replaceAll_of_isPrefix, List.singleton_append, List.cons_append,
      trimStart_cons_of_not_blank rfl, trimStart_cons_of_not_blank rfl, ← List.cons_append,
      replaceAll_of_isPrefix, List.singleton_append]
  | kept c t hnot ih =>
    rw [replaceAll_cons hnot]
    cases hc : isBlank c with
    | true =>
      rw [trimStart, trimStart, List.dropWhile_cons_of_pos hc, List.dropWhile_cons_of_pos hc]
      exact ih
    | false =>
      rw [trimStart_cons_of_not_blank hc, trimStart_cons_of_not_blank hc, replaceAll_cons hnot]

/-- White space at the start stays white space, and the rest is minified by itself. -/
theorem exists_packedFrom_eq (prev : Option Char) (s : Text) :
    ∃ w prev', (∀ c ∈ w, isBlank c = true) ∧
      packedFrom prev s = w ++ packedFrom prev' (trimStart s) := by
  have hsplit : (spaced s).takeWhile isBlank ++ spaced (trimStart s) = spaced s := by
    rw [← trimStart_spaced]
    exact List.takeWhile_append_dropWhile
  have hblank : ∀ c ∈ (spaced s).takeWhile isBlank, isBlank c = true := fun c hc =>
    List.all_eq_true.1 List.all_takeWhile c hc
  obtain ⟨prev', hrest⟩ := dropZeroUnits_append_blank hblank prev (spaced (trimStart s))
  rw [hsplit] at hrest
  exact ⟨_, prev', hblank, hrest⟩

end SvgAssets.Stylesheet
