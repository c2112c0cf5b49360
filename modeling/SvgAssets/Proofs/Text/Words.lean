/-
# SvgAssets.Proofs.Text.Words -- words with line breaks in them

A word is a longest run of characters of one class. Where line breaks are dropped, a word goes on
behind a line break that has nothing else beside it. This is all that can happen to the words of a
text: they stay as they are if and only if no line break alone stands between two characters of
words (`words_dropLineBreaks_iff`).

Where every run of other characters becomes one mark, and the marks at both ends are dropped, the
words of the text are left with one mark between them (`dropAround_collapseRuns`), and they are its
words as before (`words_intercalate`).
-/
import SvgAssets.Proofs.Text.Spacing
import SvgAssets.Proofs.Text.Splitting
import SvgAssets.Text.LineBreak

namespace SvgAssets.Text

/-! ## Dropping line breaks -/

theorem isLineBreak_iff {c : Char} : isLineBreak c = true ↔ c = '\n' ∨ c = '\r' := by
  simp [isLineBreak]

theorem isBlank_of_isLineBreak {c : Char} (h : isLineBreak c = true) : isBlank c = true := by
  rcases isLineBreak_iff.1 h with rfl | rfl <;> decide

@[simp] theorem dropLineBreaks_nil : dropLineBreaks [] = [] := rfl

theorem dropLineBreaks_cons_of_pos {c : Char} (h : isLineBreak c = true) (s : Text) :
    dropLineBreaks (c :: s) = dropLineBreaks s := by
  simp [dropLineBreaks, h]

theorem dropLineBreaks_cons_of_neg {c : Char} (h : isLineBreak c = false) (s : Text) :
    dropLineBreaks (c :: s) = c :: dropLineBreaks s := by
  simp [dropLineBreaks, h]

theorem dropLineBreaks_append (s t : Text) :
    dropLineBreaks (s ++ t) = dropLineBreaks s ++ dropLineBreaks t :=
  List.filter_append ..

theorem dropLineBreaks_eq_self {s : Text} (h : ∀ c ∈ s, isLineBreak c = false) :
    dropLineBreaks s = s :=
  List.filter_eq_self.2 fun c hc => by simp [h c hc]

/-- A run that does not end at line breaks. -/
theorem run_dropLineBreaks {q : Char → Bool} (hq : ∀ c, isLineBreak c = true → q c = true)
    (s : Text) :
    run q (dropLineBreaks s) = (dropLineBreaks (run q s).1, dropLineBreaks (run q s).2) := by
  induction s with
  | nil => rfl
  | cons c s ih =>
    simp only [run, Prod.mk.injEq] at ih ⊢
    cases hc : isLineBreak c with
    | true => simp [dropLineBreaks_cons_of_pos hc, hq c hc, ih]
    | false =>
      rw [dropLineBreaks_cons_of_neg hc]
      cases hqc : q c <;> simp [hqc, ih, dropLineBreaks_cons_of_neg hc]

/-- No line break follows such a run. -/
theorem isLineBreak_head?_run {q : Char → Bool} (hq : ∀ c, isLineBreak c = true → q c = true)
    (s : Text) : ∀ c ∈ (run q s).2.head?, isLineBreak c = false := by
  intro c hc
  have hnot : q c = false := by
    have hhead := List.head?_dropWhile_not q s
    simp only [run, Option.mem_def] at hc
    rw [hc] at hhead
    exact hhead
  rw [← Bool.not_eq_true]
  intro hbreak
  rw [hq c hbreak] at hnot
  cases hnot

/-! ## Words -/

section Words

variable (p : Char → Bool)

/-- The word that a text begins with, and the words behind it. -/
def wordsFrom : Text → Text × List Text
  | [] => ([], [])
  | c :: s =>
    let (word, behind) := wordsFrom s
    if p c then (c :: word, behind) else ([], if word.isEmpty then behind else word :: behind)

/-- The words of a text. -/
def words (s : Text) : List Text :=
  let (word, behind) := wordsFrom p s
  if word.isEmpty then behind else word :: behind

/-- No line break alone stands between two characters of words, where `inWord` says whether the
text itself stands behind one. -/
def keepsWords (inWord : Bool) : Text → Bool
  | [] => true
  | c :: s =>
    if isLineBreak c then !(inWord && (dropLineBreaks s).head?.any p) && keepsWords false s
    else keepsWords (p c) s

variable {p}

theorem wordsFrom_cons_of_pos {c : Char} (h : p c = true) (s : Text) :
    wordsFrom p (c :: s) = (c :: (wordsFrom p s).1, (wordsFrom p s).2) := by
  simp [wordsFrom, h]

theorem wordsFrom_cons_of_neg {c : Char} (h : p c = false) (s : Text) :
    wordsFrom p (c :: s) = ([], words p s) := by
  simp [wordsFrom, words, h]

theorem words_cons_of_neg {c : Char} (h : p c = false) (s : Text) :
    words p (c :: s) = words p s := by
  rw [words, wordsFrom_cons_of_neg h]
  rfl

theorem words_cons_of_pos {c : Char} (h : p c = true) (s : Text) :
    words p (c :: s) = (c :: (wordsFrom p s).1) :: (wordsFrom p s).2 := by
  rw [words, wordsFrom_cons_of_pos h]
  rfl

/-- A text begins with a word if it begins with a character of words. -/
theorem wordsFrom_eq_nil_iff {s : Text} {ws : List Text} :
    wordsFrom p s = ([], ws) ↔ s.head?.any p = false ∧ words p s = ws := by
  cases s with
  | nil => simp [wordsFrom, words]
  | cons c s =>
    cases hc : p c with
    | true => simp [wordsFrom_cons_of_pos hc, hc]
    | false => simp [wordsFrom_cons_of_neg hc, words_cons_of_neg hc, hc]

/-- In front of a character of the text it does not matter what stands further in front. -/
theorem keepsWords_of_neg {c : Char} (hc : isLineBreak c = false) (inWord : Bool) (s : Text) :
    keepsWords p inWord (c :: s) = keepsWords p (p c) s := by
  simp [keepsWords, hc]

theorem keepsWords_of_head? {s : Text} {inWord : Bool} (hs : keepsWords p false s = true)
    (hhead : inWord = true → (dropLineBreaks s).head?.any p = false) :
    keepsWords p inWord s = true := by
  cases s with
  | nil => rfl
  | cons c s =>
    cases hc : isLineBreak c with
    | false => rwa [keepsWords_of_neg hc] at hs ⊢
    | true =>
      rw [dropLineBreaks_cons_of_pos hc] at hhead
      have hbehind : keepsWords p false s = true := by simpa [keepsWords, hc] using hs
      cases inWord with
      | false => exact hs
      | true => simp [keepsWords, hc, hbehind, hhead rfl]

theorem keepsWords_cons_of_pos {c : Char} {s : Text} {inWord : Bool} (hc : isLineBreak c = true) :
    keepsWords p inWord (c :: s) = true ↔
      (inWord = true → (dropLineBreaks s).head?.any p = false) ∧ keepsWords p false s = true := by
  cases inWord <;> simp [keepsWords, hc]

theorem keepsWords_true_iff {s : Text} (hp : ∀ c, p c = true → isLineBreak c = false) :
    (words p (dropLineBreaks s) = words p s ↔ keepsWords p false s = true) ∧
      (wordsFrom p (dropLineBreaks s) = wordsFrom p s ↔ keepsWords p true s = true) := by
  induction s with
  | nil => simp [keepsWords]
  | cons c s ih =>
    obtain ⟨ihWords, ihFrom⟩ := ih
    cases hbreak : isLineBreak c with
    | true =>
      have hc : p c = false := by
        rw [← Bool.not_eq_true]
        intro hpc
        rw [hp c hpc] at hbreak
        cases hbreak
      rw [dropLineBreaks_cons_of_pos hbreak, words_cons_of_neg hc, wordsFrom_cons_of_neg hc,
        wordsFrom_eq_nil_iff, ihWords]
      simp [keepsWords, hbreak]
    | false =>
      rw [dropLineBreaks_cons_of_neg hbreak, keepsWords_of_neg hbreak, keepsWords_of_neg hbreak]
      cases hc : p c with
      | true =>
        rw [words_cons_of_pos hc, words_cons_of_pos hc, wordsFrom_cons_of_pos hc,
          wordsFrom_cons_of_pos hc, ← ihFrom]
        simp [Prod.ext_iff]
      | false =>
        rw [words_cons_of_neg hc, words_cons_of_neg hc, wordsFrom_cons_of_neg hc,
          wordsFrom_cons_of_neg hc, ← ihWords]
        simp

/-- **Words and line breaks.** The words stay as they are if and only if no line break alone stands
between two of their characters. -/
theorem words_dropLineBreaks_iff (hp : ∀ c, p c = true → isLineBreak c = false) {s : Text} :
    words p (dropLineBreaks s) = words p s ↔ keepsWords p false s = true :=
  (keepsWords_true_iff hp).1

end Words

/-! ## Words with marks between them -/

/-- A run of characters of the class `p`, with at least one. -/
structure IsWord (p : Char → Bool) (w : Text) : Prop where
  ne_nil : w ≠ []
  chars : ∀ c ∈ w, p c = true

section

variable {p : Char → Bool} {mark : Char}

theorem forall_isWord {first : Text} {others : List Text} (hfirst : ∀ c ∈ first, p c = true)
    (hothers : ∀ w ∈ others, IsWord p w) :
    ∀ w ∈ if first.isEmpty then others else first :: others, IsWord p w := by
  split
  · exact hothers
  · rename_i hne
    exact List.forall_mem_cons.2 ⟨⟨by simpa using hne, hfirst⟩, hothers⟩

theorem wordsFrom_spec (s : Text) :
    (∀ c ∈ (wordsFrom p s).1, p c = true) ∧ ∀ w ∈ (wordsFrom p s).2, IsWord p w := by
  induction s with
  | nil => exact ⟨nofun, nofun⟩
  | cons c s ih =>
    cases hc : p c with
    | true =>
      rw [wordsFrom_cons_of_pos hc]
      exact ⟨List.forall_mem_cons.2 ⟨hc, ih.1⟩, ih.2⟩
    | false =>
      rw [wordsFrom_cons_of_neg hc]
      exact ⟨nofun, forall_isWord ih.1 ih.2⟩

theorem isWord_of_mem_words {s : Text} : ∀ w ∈ words p s, IsWord p w :=
  forall_isWord (wordsFrom_spec s).1 (wordsFrom_spec s).2

/-! ### The words of a text put together -/

theorem wordsFrom_append {w : Text} (hw : ∀ c ∈ w, p c = true) (t : Text) :
    wordsFrom p (w ++ t) = (w ++ (wordsFrom p t).1, (wordsFrom p t).2) := by
  induction w with
  | nil => rfl
  | cons c w ih =>
    rw [List.forall_mem_cons] at hw
    rw [List.cons_append, wordsFrom_cons_of_pos hw.1, ih hw.2, List.cons_append]

/-- A text begins with a word that has no more of its characters behind it. -/
theorem words_append {w : Text} (hw : IsWord p w) {t : Text} (ht : t.head?.any p = false) :
    words p (w ++ t) = w :: words p t := by
  have hrest : wordsFrom p t = ([], words p t) := wordsFrom_eq_nil_iff.2 ⟨ht, rfl⟩
  rw [words, wordsFrom_append hw.chars, hrest, List.append_nil]
  exact if_neg (by simpa using hw.ne_nil)

/-- Words that are put together with marks are the words of what comes out. -/
theorem words_intercalate (hmark : p mark = false) {ws : List Text} (h : ∀ w ∈ ws, IsWord p w) :
    words p ([mark].intercalate ws) = ws := by
  induction ws with
  | nil => rfl
  | cons w ws ih =>
    rw [List.forall_mem_cons] at h
    have hrest := ih h.2
    cases ws with
    | nil =>
      have hword := words_append h.1 (t := []) rfl
      rw [List.append_nil] at hword
      rwa [List.intercalate_singleton]
    | cons v ws =>
      rw [List.intercalate_cons_cons, List.append_assoc, List.singleton_append,
        words_append h.1 (by simpa using hmark), words_cons_of_neg hmark, hrest]

/-! ### One mark for each run of other characters -/

/-- Marks in front are dropped as if they went on from a run. -/
theorem dropWhile_mark_collapseRuns {q : Char → Bool} (hmark : q mark = true) (s : Text) :
    (collapseRuns q mark false s).dropWhile (· == mark) = collapseRuns q mark true s := by
  have hkept : ∀ c t, q c = false → (c :: t).dropWhile (· == mark) = c :: t := by
    intro c t hc
    apply List.dropWhile_cons_of_neg
    rw [beq_iff_eq]
    rintro rfl
    exact absurd (hc.symm.trans hmark) Bool.false_ne_true
  cases s with
  | nil => rfl
  | cons c s =>
    rw [collapseRuns, collapseRuns]
    cases hc : q c with
    | false => exact hkept c _ hc
    | true =>
      rw [if_pos rfl, if_neg Bool.false_ne_true, if_pos rfl, if_pos rfl,
        List.dropWhile_cons, if_pos (beq_self_eq_true mark)]
      have hfirst : ∀ d ∈ (collapseRuns q mark true s).head?, q d = false :=
        not_of_head?_collapseRuns
      cases hrest : collapseRuns q mark true s with
      | nil => rfl
      | cons d t =>
        rw [hrest] at hfirst
        exact hkept d t (hfirst d rfl)

/-- What is left of a text behind a character of a word, and behind one of a run. -/
theorem dropEndWhile_mark_collapseRuns (hmark : p mark = false) (s : Text) :
    dropEndWhile (· == mark) (collapseRuns (fun c => !p c) mark false s) =
        (wordsFrom p s).1 ++ (wordsFrom p s).2.flatMap (mark :: ·) ∧
      dropEndWhile (· == mark) (collapseRuns (fun c => !p c) mark true s) =
        [mark].intercalate (words p s) := by
  induction s with
  | nil => exact ⟨rfl, rfl⟩
  | cons c s ih =>
    obtain ⟨ihWord, ihRun⟩ := ih
    rw [collapseRuns, collapseRuns]
    cases hc : p c with
    | true =>
      have hne : ¬ (c == mark) = true := by
        rw [beq_iff_eq]
        rintro rfl
        exact absurd (hmark.symm.trans hc) Bool.false_ne_true
      rw [wordsFrom_cons_of_pos hc, words_cons_of_pos hc, intercalate_cons]
      simp [dropEndWhile_cons, hne, ihWord]
    | false =>
      rw [wordsFrom_cons_of_neg hc, words_cons_of_neg hc]
      refine ⟨?_, ihRun⟩
      show dropEndWhile (· == mark) (mark :: collapseRuns (fun c => !p c) mark true s) =
        (words p s).flatMap (mark :: ·)
      rw [dropEndWhile_cons, ihRun]
      have hwords := isWord_of_mem_words (p := p) (s := s)
      cases hs : words p s with
      | nil => simp
      | cons w ws =>
        -- A word is left, so the mark in front of it stays.
        rw [hs, List.forall_mem_cons] at hwords
        rw [intercalate_cons, List.flatMap_cons, if_neg, List.cons_append]
        simp [hwords.1.ne_nil]

/-- **The words of a text, with one mark between them**, are left where each run of other characters
becomes one mark and the marks at both ends are dropped. -/
theorem dropAround_collapseRuns (hmark : p mark = false) (s : Text) :
    dropAround (· == mark) (collapseRuns (fun c => !p c) mark false s) =
      [mark].intercalate (words p s) := by
  rw [dropAround, dropWhile_mark_collapseRuns (by simp [hmark])]
  exact (dropEndWhile_mark_collapseRuns hmark s).2

end

end SvgAssets.Text
