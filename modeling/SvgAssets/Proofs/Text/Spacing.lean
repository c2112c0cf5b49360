/-
# SvgAssets.Proofs.Text.Spacing -- texts without superfluous space

Making one space of every run and dropping the space beside marks lead to a normal form that can be
read off the neighbours in a text: no two spaces stand in a row, and no space stands beside a mark.
What comes out is in normal form, and a text in normal form is left as it is, so doing it once is
enough. A character that is neither a space nor a mark is a fixed point of both: what stands in
front of it and what stands behind it are worked on separately.
-/
import Mathlib.Data.List.Chain
import SvgAssets.Proofs.Text.Scanning
import SvgAssets.Text.Spacing

namespace SvgAssets.Text

attribute [grind =] collapseRuns leadsTo tighten

/-! ## Neighbours -/

/-- Not both of two neighbours are of the class `p`. -/
def NotBoth (p : Char → Bool) (c d : Char) : Prop := ¬ (p c = true ∧ p d = true)

/-- Of two neighbours none is a mark while the other is a space. -/
def NotBeside (isMark isSpace : Char → Bool) (c d : Char) : Prop :=
  ¬ (isSpace c = true ∧ isMark d = true) ∧ ¬ (isMark c = true ∧ isSpace d = true)

/-! ## Runs made single -/

section

variable {p : Char → Bool} {mark : Char} {inRun : Bool} {s : Text}

/-- Within a run nothing more of it comes out. -/
theorem not_of_head?_collapseRuns : ∀ c ∈ (collapseRuns p mark true s).head?, p c = false := by
  induction s with
  | nil => simp [collapseRuns]
  | cons c s ih =>
    rw [collapseRuns]
    split
    · exact ih
    · rename_i hc
      simpa using hc

theorem isChain_collapseRuns : (collapseRuns p mark inRun s).IsChain (NotBoth p) := by
  induction s generalizing inRun with
  | nil => exact .nil
  | cons c s ih =>
    rw [collapseRuns]
    split
    · split
      · exact ih
      · refine List.isChain_cons.2 ⟨?_, ih⟩
        intro d hd hboth
        rw [not_of_head?_collapseRuns d hd] at hboth
        exact absurd hboth.2 Bool.false_ne_true
    · rename_i hc
      exact List.isChain_cons.2 ⟨fun d _ hboth => hc hboth.1, ih⟩

theorem eq_mark_of_mem_collapseRuns {c : Char} (h : c ∈ collapseRuns p mark inRun s)
    (hc : p c = true) : c = mark := by
  induction s generalizing inRun with
  | nil => cases h
  | cons d s ih =>
    rw [collapseRuns] at h
    split at h
    · split at h
      · exact ih h
      · exact (List.mem_cons.1 h).elim id ih
    · rename_i hd
      rcases List.mem_cons.1 h with rfl | h
      · exact absurd hc hd
      · exact ih h

theorem mem_of_mem_collapseRuns {c : Char} (h : c ∈ collapseRuns p mark inRun s) :
    c ∈ s ∨ c = mark := by
  induction s generalizing inRun with
  | nil => cases h
  | cons d s ih =>
    rw [collapseRuns] at h
    split at h
    · split at h
      · exact (ih h).imp_left (List.mem_cons_of_mem d)
      · rcases List.mem_cons.1 h with h | h
        · exact .inr h
        · exact (ih h).imp_left (List.mem_cons_of_mem d)
    · rcases List.mem_cons.1 h with rfl | h
      · exact .inl (by simp)
      · exact (ih h).imp_left (List.mem_cons_of_mem d)

theorem collapseRuns_eq_self (hmark : ∀ c ∈ s, p c = true → c = mark)
    (hchain : s.IsChain (NotBoth p)) (hrun : inRun = true → ∀ c ∈ s.head?, p c = false) :
    collapseRuns p mark inRun s = s := by
  induction s generalizing inRun with
  | nil => rfl
  | cons c s ih =>
    obtain ⟨hnext, hchain⟩ := List.isChain_cons.1 hchain
    have hmark' : ∀ d ∈ s, p d = true → d = mark := fun d hd => hmark d (List.mem_cons_of_mem c hd)
    rw [collapseRuns]
    split
    · rename_i hc
      have hfirst : inRun = false := by
        rw [← Bool.not_eq_true]
        intro hr
        rw [hrun hr c rfl] at hc
        cases hc
      have hrest : collapseRuns p mark true s = s := by
        refine ih hmark' hchain fun _ d hd => ?_
        rw [← Bool.not_eq_true]
        exact fun hp => hnext d hd ⟨hc, hp⟩
      rw [hfirst, if_neg Bool.false_ne_true, hrest, hmark c (by simp) hc]
    · have hrest : collapseRuns p mark false s = s :=
        ih hmark' hchain fun h => absurd h Bool.false_ne_true
      rw [hrest]

theorem collapseRuns_ne_nil (h : s ≠ []) : collapseRuns p mark false s ≠ [] := by
  cases s with
  | nil => exact absurd rfl h
  | cons c s =>
    rw [collapseRuns, if_neg Bool.false_ne_true]
    split <;> simp

theorem collapseRuns_append_cons {c : Char} (hc : p c = false) (t : Text) :
    collapseRuns p mark inRun (s ++ c :: t) =
      collapseRuns p mark inRun s ++ c :: collapseRuns p mark false t := by
  induction s generalizing inRun with
  | nil => simp [collapseRuns, hc]
  | cons d s ih =>
    rw [List.cons_append, collapseRuns, collapseRuns]
    split
    · split
      · exact ih
      · rw [ih, List.cons_append]
    · rw [ih, List.cons_append]

theorem length_collapseRuns_le : (collapseRuns p mark inRun s).length ≤ s.length := by
  induction s generalizing inRun with
  | nil => exact Nat.le_refl _
  | cons c s ih =>
    have hle : ∀ b, (collapseRuns p mark b s).length ≤ s.length := fun b => ih
    rw [collapseRuns]
    split
    · split
      · exact Nat.le_succ_of_le (hle true)
      · exact Nat.succ_le_succ (hle true)
    · exact Nat.succ_le_succ (hle false)

/-- Characters outside of runs are kept, each in its place. -/
theorem filter_collapseRuns {q : Char → Bool} (hmark : q mark = false)
    (hq : ∀ c, p c = true → q c = false) : (collapseRuns p mark inRun s).filter q = s.filter q := by
  induction s generalizing inRun with
  | nil => rfl
  | cons c s ih =>
    rw [collapseRuns]
    split
    · rename_i hc
      rw [List.filter_cons_of_neg (by simp [hq c hc])]
      split
      · exact ih
      · rw [List.filter_cons_of_neg (by simp [hmark]), ih]
    · rw [List.filter_cons, List.filter_cons, ih]

theorem collapseRuns_true_of_forall (h : ∀ c ∈ s, p c = true) :
    collapseRuns p mark true s = [] := by
  induction s with
  | nil => rfl
  | cons c s ih =>
    rw [List.forall_mem_cons] at h
    rw [collapseRuns, if_pos h.1, if_pos rfl, ih h.2]

/-- A run becomes one mark. -/
theorem collapseRuns_of_forall (hne : s ≠ []) (h : ∀ c ∈ s, p c = true) :
    collapseRuns p mark false s = [mark] := by
  obtain ⟨c, s, rfl⟩ := List.exists_cons_of_ne_nil hne
  rw [List.forall_mem_cons] at h
  rw [collapseRuns, if_pos h.1, if_neg Bool.false_ne_true, collapseRuns_true_of_forall h.2]

theorem mem_collapseRuns_of_forall (hmark : p mark = true) (h : ∀ c ∈ s, p c = true) :
    ∀ c ∈ collapseRuns p mark inRun s, p c = true := by
  intro c hc
  rcases mem_of_mem_collapseRuns hc with hc | rfl
  · exact h c hc
  · exact hmark

/-- A run at the start is one however it is written. -/
theorem dropWhile_collapseRuns (hmark : p mark = true) :
    (collapseRuns p mark inRun s).dropWhile p = collapseRuns p mark false (s.dropWhile p) := by
  induction s generalizing inRun with
  | nil => rfl
  | cons c s ih =>
    rw [collapseRuns]
    cases hc : p c with
    | true =>
      rw [List.dropWhile_cons_of_pos hc, if_pos rfl]
      split
      · exact ih
      · rw [List.dropWhile_cons_of_pos hmark, ih]
    | false =>
      have hc' : ¬ p c = true := by simp [hc]
      rw [if_neg Bool.false_ne_true, List.dropWhile_cons_of_neg hc', List.dropWhile_cons_of_neg hc',
        collapseRuns, if_neg hc']

theorem dropEndWhile_collapseRuns (hmark : p mark = true) :
    dropEndWhile p (collapseRuns p mark inRun s) =
      collapseRuns p mark inRun (dropEndWhile p s) := by
  obtain ⟨w, hs, hw⟩ := exists_eq_dropEndWhile_append p s
  have hlast := getLast?_dropEndWhile (q := p) (s := s)
  generalize dropEndWhile p s = u at hs hlast
  subst hs
  rcases List.eq_nil_or_concat u with rfl | ⟨v, d, rfl⟩
  · exact dropEndWhile_append (v := []) (by simp) (mem_collapseRuns_of_forall hmark hw)
  · rw [List.concat_eq_append] at hlast ⊢
    have hd : p d = false := hlast d (by simp)
    rw [List.append_assoc, List.singleton_append, collapseRuns_append_cons hd,
      collapseRuns_append_cons hd, collapseRuns, List.append_cons]
    exact dropEndWhile_append (by simpa using hd) (mem_collapseRuns_of_forall hmark hw)

end

/-! ## Space beside marks -/

section

variable {isMark isSpace : Char → Bool} {behindMark : Bool} {s : Text}

theorem leadsTo_cons_of_space {c : Char} (hc : isSpace c = true) :
    leadsTo isMark isSpace (c :: s) = leadsTo isMark isSpace s := by
  rw [leadsTo, List.dropWhile_cons_of_pos hc, leadsTo]

theorem leadsTo_cons_of_not_space {c : Char} (hc : isSpace c = false) :
    leadsTo isMark isSpace (c :: s) = isMark c := by
  rw [leadsTo, List.dropWhile_cons_of_neg (by simp [hc])]

/-- In a text without space beside marks, no space leads to a mark. -/
theorem leadsTo_eq_false_of_isChain {c : Char} (hc : isSpace c = true)
    (h : (c :: s).IsChain (NotBeside isMark isSpace)) : leadsTo isMark isSpace s = false := by
  induction s generalizing c with
  | nil => rfl
  | cons d s ih =>
    obtain ⟨hnext, hchain⟩ := List.isChain_cons.1 h
    cases hd : isSpace d with
    | true => rw [leadsTo_cons_of_space hd, ih hd hchain]
    | false =>
      rw [leadsTo_cons_of_not_space hd, ← Bool.not_eq_true]
      exact fun hmark => (hnext d rfl).1 ⟨hc, hmark⟩

theorem tighten_eq_self (h : s.IsChain (NotBeside isMark isSpace))
    (hhead : behindMark = true → ∀ c ∈ s.head?, isSpace c = false) :
    tighten isMark isSpace behindMark s = s := by
  induction s generalizing behindMark with
  | nil => rfl
  | cons c s ih =>
    obtain ⟨hnext, hchain⟩ := List.isChain_cons.1 h
    have hrest : tighten isMark isSpace false s = s := ih hchain fun hb => nomatch hb
    rw [tighten]
    split
    · rename_i hmark
      rw [ih hchain]
      intro _ d hd
      rw [← Bool.not_eq_true]
      exact fun hspace => (hnext d hd).2 ⟨hmark, hspace⟩
    · split
      · rename_i hspace
        have hbehind : ¬ behindMark = true := by
          intro hb
          rw [hhead hb c rfl] at hspace
          cases hspace
        rw [if_neg hbehind, leadsTo_eq_false_of_isChain hspace h, if_neg Bool.false_ne_true, hrest]
      · rw [hrest]

theorem tighten_sublist : (tighten isMark isSpace behindMark s).Sublist s := by
  induction s generalizing behindMark with
  | nil => exact .slnil
  | cons c s ih =>
    rw [tighten]
    split
    · exact ih.cons_cons c
    · split
      · split
        · exact ih.cons c
        · split
          · exact ih.cons c
          · exact ih.cons_cons c
      · exact ih.cons_cons c

/-- Characters that are no spaces are kept, each in its place. -/
theorem filter_tighten {q : Char → Bool} (hq : ∀ c, isSpace c = true → q c = false) :
    (tighten isMark isSpace behindMark s).filter q = s.filter q := by
  induction s generalizing behindMark with
  | nil => rfl
  | cons c s ih =>
    rw [tighten]
    split
    · rw [List.filter_cons, List.filter_cons, ih]
    · split
      · rename_i hspace
        have hdrop : (c :: s).filter q = s.filter q :=
          List.filter_cons_of_neg (by simp [hq c hspace])
        split
        · rw [ih, hdrop]
        · split
          · rw [ih, hdrop]
          · rw [List.filter_cons, List.filter_cons, ih]
      · rw [List.filter_cons, List.filter_cons, ih]

theorem leadsTo_append_cons {c : Char} (hmark : isMark c = false) (hspace : isSpace c = false)
    (t : Text) : leadsTo isMark isSpace (s ++ c :: t) = leadsTo isMark isSpace s := by
  induction s with
  | nil => rw [List.nil_append, leadsTo_cons_of_not_space hspace, hmark]; rfl
  | cons d s ih =>
    rw [List.cons_append]
    cases hd : isSpace d with
    | true => rw [leadsTo_cons_of_space hd, leadsTo_cons_of_space hd, ih]
    | false => rw [leadsTo_cons_of_not_space hd, leadsTo_cons_of_not_space hd]

theorem tighten_append_cons {c : Char} (hmark : isMark c = false) (hspace : isSpace c = false)
    (t : Text) :
    tighten isMark isSpace behindMark (s ++ c :: t) =
      tighten isMark isSpace behindMark s ++ c :: tighten isMark isSpace false t := by
  induction s generalizing behindMark with
  | nil => simp [tighten, hmark, hspace]
  | cons d s ih =>
    rw [List.cons_append, tighten, tighten, leadsTo_append_cons hmark hspace]
    split
    · rw [ih, List.cons_append]
    · split
      · split
        · exact ih
        · split
          · exact ih
          · rw [ih, List.cons_append]
      · rw [ih, List.cons_append]

/-- What is no space stays in front. -/
theorem head?_tighten_cons {c : Char} (hc : isSpace c = false) :
    (tighten isMark isSpace behindMark (c :: s)).head? = some c := by
  grind

/-- Behind a mark as elsewhere, if no space comes first. -/
theorem tighten_behind (h : ∀ c ∈ s.head?, isSpace c = false) :
    tighten isMark isSpace true s = tighten isMark isSpace false s := by
  cases s with
  | nil => rfl
  | cons c s =>
    have hc := h c rfl
    grind

/-- A mark comes first only if the text leads to one. -/
theorem leadsTo_of_head?_tighten {m : Char}
    (hm : m ∈ (tighten isMark isSpace false s).head?) (hmark : isMark m = true)
    (hspace : isSpace m = false) : leadsTo isMark isSpace s = true := by
  cases s with
  | nil => cases hm
  | cons c s =>
    cases hc : isSpace c with
    | true =>
      rw [leadsTo_cons_of_space hc, ← Bool.not_eq_false]
      intro hleads
      have hfirst : (tighten isMark isSpace false (c :: s)).head? = some c := by
        rw [tighten, if_pos hc, if_neg Bool.false_ne_true, hleads, if_neg Bool.false_ne_true]
        split <;> rfl
      obtain rfl : c = m := by simpa [hfirst] using hm
      exact absurd (hc.symm.trans hspace) (by decide)
    | false =>
      obtain rfl : c = m := by simpa [head?_tighten_cons hc] using hm
      rw [leadsTo_cons_of_not_space hc, hmark]

theorem leadsTo_append_of_not_space {c : Char} (hc : isSpace c = false) (t : Text) :
    leadsTo isMark isSpace (s ++ c :: t) = leadsTo isMark isSpace (s ++ [c]) := by
  induction s with
  | nil => rw [List.nil_append, List.nil_append, leadsTo_cons_of_not_space hc,
      leadsTo_cons_of_not_space hc]
  | cons d s ih =>
    rw [List.cons_append, List.cons_append]
    cases hd : isSpace d with
    | true => rw [leadsTo_cons_of_space hd, leadsTo_cons_of_space hd, ih]
    | false => rw [leadsTo_cons_of_not_space hd, leadsTo_cons_of_not_space hd]

/-- A text is tightened piece by piece behind what is no space. -/
theorem tighten_append_of_not_space {c : Char} (hc : isSpace c = false) (t : Text) :
    tighten isMark isSpace behindMark (s ++ c :: t) =
      tighten isMark isSpace behindMark (s ++ [c]) ++ tighten isMark isSpace (isMark c) t := by
  induction s generalizing behindMark with
  | nil =>
    cases hm : isMark c with
    | true => simp [tighten, hm]
    | false => simp [tighten, hm, hc]
  | cons d s ih =>
    rw [List.cons_append, List.cons_append, tighten, tighten, leadsTo_append_of_not_space hc]
    split
    · rw [ih, List.cons_append]
    · split
      · split
        · exact ih
        · split
          · exact ih
          · rw [ih, List.cons_append]
      · rw [ih, List.cons_append]

theorem dropWhile_tighten : (tighten isMark isSpace behindMark s).dropWhile isSpace =
    tighten isMark isSpace false (s.dropWhile isSpace) := by
  induction s generalizing behindMark with
  | nil => rfl
  | cons c s ih =>
    cases hc : isSpace c with
    | true =>
      rw [List.dropWhile_cons_of_pos hc, tighten]
      split
      · rw [List.dropWhile_cons_of_pos hc, ih]
      · split
        · exact ih
        · split
          · exact ih
          · rw [List.dropWhile_cons_of_pos hc, ih]
    | false =>
      have hc' : ¬ isSpace c = true := by simp [hc]
      have hfirst : ∀ b w, (if isMark c then c :: tighten isMark isSpace true w
          else c :: tighten isMark isSpace false w) = tighten isMark isSpace b (c :: w) := by
        intro b w
        rw [tighten, if_neg hc']
      rw [List.dropWhile_cons_of_neg hc', ← hfirst, ← hfirst]
      split <;> rw [List.dropWhile_cons_of_neg hc']

/-! ### Spaces and marks of different classes -/

variable (hdisjoint : ∀ c, isMark c = true → isSpace c = false)

include hdisjoint

/-- Space that leads to a mark is dropped. -/
theorem tighten_of_leadsTo (h : leadsTo isMark isSpace s = true) :
    ∃ m t, isMark m = true ∧ t <:+ s ∧
      tighten isMark isSpace behindMark s = m :: tighten isMark isSpace true t := by
  induction s generalizing behindMark with
  | nil => cases h
  | cons c s ih =>
    cases hspace : isSpace c with
    | false =>
      rw [leadsTo_cons_of_not_space hspace] at h
      exact ⟨c, s, h, List.suffix_cons c s, by rw [tighten, if_pos h]⟩
    | true =>
      rw [leadsTo_cons_of_space hspace] at h
      have hmark : ¬ isMark c = true := fun hm => by
        rw [hdisjoint c hm] at hspace
        cases hspace
      cases behindMark with
      | true =>
        obtain ⟨m, t, hm, ht, he⟩ := @ih true h
        refine ⟨m, t, hm, ht.trans (List.suffix_cons c s), ?_⟩
        rw [tighten, if_neg hmark, if_pos hspace, if_pos rfl, he]
      | false =>
        obtain ⟨m, t, hm, ht, he⟩ := @ih false h
        refine ⟨m, t, hm, ht.trans (List.suffix_cons c s), ?_⟩
        rw [tighten, if_neg hmark, if_pos hspace, if_neg Bool.false_ne_true, if_pos h, he]

theorem tighten_ne_nil (h : s ≠ []) : tighten isMark isSpace false s ≠ [] := by
  cases s with
  | nil => exact absurd rfl h
  | cons c s =>
    rw [tighten]
    split
    · simp
    · split
      · rw [if_neg Bool.false_ne_true]
        split
        · rename_i hleads
          obtain ⟨m, t, -, -, he⟩ := tighten_of_leadsTo hdisjoint hleads
          rw [he]
          simp
        · simp
      · simp

/-- Behind a mark no space comes first. -/
theorem not_of_head?_tighten :
    ∀ c ∈ (tighten isMark isSpace true s).head?, isSpace c = false := by
  induction s with
  | nil => simp [tighten]
  | cons c s ih =>
    rw [tighten]
    split
    · rename_i hmark
      simpa using hdisjoint c hmark
    · split
      · exact ih
      · rename_i hspace
        simpa using hspace

theorem isChain_tighten :
    (tighten isMark isSpace behindMark s).IsChain (NotBeside isMark isSpace) := by
  induction s generalizing behindMark with
  | nil => exact .nil
  | cons c s ih =>
    rw [tighten]
    split
    · rename_i hmark
      refine List.isChain_cons.2 ⟨fun d hd => ⟨?_, ?_⟩, ih⟩
      · rw [hdisjoint c hmark]
        exact fun h => absurd h.1 Bool.false_ne_true
      · rw [not_of_head?_tighten hdisjoint d hd]
        exact fun h => absurd h.2 Bool.false_ne_true
    · rename_i hmark
      split
      · rename_i hspace
        split
        · exact ih
        · split
          · exact ih
          · rename_i hleads
            refine List.isChain_cons.2 ⟨fun d hd => ⟨fun h => hleads ?_, fun h => hmark h.1⟩, ih⟩
            exact leadsTo_of_head?_tighten hd h.2 (hdisjoint d h.2)
      · rename_i hspace
        exact List.isChain_cons.2 ⟨fun d _ => ⟨fun h => hspace h.1, fun h => hmark h.1⟩, ih⟩

/-- What comes first is a mark, or what came first before. -/
theorem head?_tighten {d : Char} (hd : d ∈ (tighten isMark isSpace false s).head?) :
    isMark d = true ∨ d ∈ s.head? := by
  cases s with
  | nil => cases hd
  | cons c s =>
    rw [tighten] at hd
    split at hd
    · exact .inr hd
    · split at hd
      · rw [if_neg Bool.false_ne_true] at hd
        split at hd
        · rename_i hleads
          obtain ⟨m, t, hm, -, he⟩ := tighten_of_leadsTo hdisjoint hleads
          rw [he] at hd
          obtain rfl : m = d := by simpa using hd
          exact .inl hm
        · exact .inr hd
      · exact .inr hd

/-- A relation of neighbours that every mark stands in with everything is kept. -/
theorem isChain_tighten_of_isChain {R : Char → Char → Prop}
    (hmark : ∀ c m, isMark m = true → R c m ∧ R m c) (h : s.IsChain R) :
    (tighten isMark isSpace behindMark s).IsChain R := by
  induction s generalizing behindMark with
  | nil => exact .nil
  | cons c s ih =>
    obtain ⟨hnext, hchain⟩ := List.isChain_cons.1 h
    have hfirst : ∀ d ∈ (tighten isMark isSpace false s).head?, R c d := fun d hd =>
      (head?_tighten hdisjoint hd).elim (fun hm => (hmark c d hm).1) (hnext d)
    rw [tighten]
    split
    · rename_i hm
      exact List.isChain_cons.2 ⟨fun d _ => (hmark d c hm).2, ih hchain⟩
    · split
      · split
        · exact ih hchain
        · split
          · exact ih hchain
          · exact List.isChain_cons.2 ⟨hfirst, ih hchain⟩
      · exact List.isChain_cons.2 ⟨hfirst, ih hchain⟩

/-! ### Cuts at marks -/

theorem leadsTo_spaces {w : Text} (hw : ∀ c ∈ w, isSpace c = true) {m : Char}
    (hm : isMark m = true) (t : Text) : leadsTo isMark isSpace (w ++ m :: t) = true := by
  rw [leadsTo, List.dropWhile_append_of_pos hw,
    List.dropWhile_cons_of_neg (by simp [hdisjoint m hm])]
  exact hm

theorem tighten_spaces {w : Text} (hw : ∀ c ∈ w, isSpace c = true) {m : Char}
    (hm : isMark m = true) (t : Text) :
    tighten isMark isSpace behindMark (w ++ m :: t) = m :: tighten isMark isSpace true t := by
  induction w generalizing behindMark with
  | nil => rw [List.nil_append, tighten, if_pos hm]
  | cons c w ih =>
    obtain ⟨hc, hw⟩ := List.forall_mem_cons.1 hw
    have hmark : ¬ isMark c = true := fun h => by
      rw [hdisjoint c h] at hc
      cases hc
    rw [List.cons_append, tighten, if_neg hmark, if_pos hc, leadsTo_spaces hdisjoint hw hm,
      if_pos rfl, ih hw, ih hw, ite_self]

/-- **A text is tightened piece by piece around marks**, and the space around them is dropped. -/
theorem tighten_append_mark {m : Char} (hm : isMark m = true) (t : Text) :
    tighten isMark isSpace behindMark (s ++ m :: t) =
      tighten isMark isSpace behindMark (dropEndWhile isSpace s) ++
        m :: tighten isMark isSpace true t := by
  obtain ⟨w, hs, hw⟩ := exists_eq_dropEndWhile_append isSpace s
  have hlast := getLast?_dropEndWhile (q := isSpace) (s := s)
  generalize dropEndWhile isSpace s = u at hs hlast
  subst hs
  rcases List.eq_nil_or_concat u with rfl | ⟨v, d, rfl⟩
  · rw [List.nil_append, tighten_spaces hdisjoint hw hm, tighten, List.nil_append]
  · rw [List.concat_eq_append] at hlast ⊢
    have hd : isSpace d = false := hlast d (by simp)
    rw [List.append_assoc, List.append_assoc, List.singleton_append,
      tighten_append_of_not_space hd, tighten_spaces hdisjoint hw hm]

theorem tighten_true : tighten isMark isSpace true s =
    tighten isMark isSpace false (s.dropWhile isSpace) := by
  induction s with
  | nil => rfl
  | cons c s ih =>
    cases hc : isSpace c with
    | true =>
      have hmark : ¬ isMark c = true := fun h => by
        rw [hdisjoint c h] at hc
        cases hc
      rw [List.dropWhile_cons_of_pos hc, tighten, if_neg hmark, if_pos hc, if_pos rfl, ih]
    | false =>
      rw [List.dropWhile_cons_of_neg (by simp [hc])]
      exact tighten_behind fun d hd => by
        obtain rfl : c = d := by simpa using hd
        exact hc

end

end SvgAssets.Text
