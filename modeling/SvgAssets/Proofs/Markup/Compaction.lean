/-
# SvgAssets.Proofs.Markup.Compaction -- compacting compacted markup

Of the passes that compacting makes, the last three undo nothing of each other: where no white space
stands between tags, compacting tags puts none there, and trimming touches no tag. So they leave
markup that has been compacted as it is. The first three take comments, the prolog and document
types out, and a later pass can uncover one of these: `<` and `!--` may have stood apart before.
Compacting is done with exactly when this has not happened
(`compact_compact_eq_iff`); each such token that is left makes a second compacting go on.
-/
import SvgAssets.Proofs.Markup.TagCompaction

namespace SvgAssets.Markup

open Text

/-! ## Between tags -/

section

variable {behindTag : Bool} {s : Text}

theorem leadsTo_joinTags :
    leadsTo (· == '<') isBlank (joinTags false s) = leadsTo (· == '<') isBlank s := by
  induction s with
  | nil => rfl
  | cons c s ih =>
    rw [joinTags, Bool.and_false, Bool.false_and, if_neg Bool.false_ne_true]
    cases hc : isBlank c with
    | false => rw [leadsTo_cons_of_not_space hc, leadsTo_cons_of_not_space hc]
    | true =>
      have hne : (c == '>') = false := by
        rw [beq_eq_false_iff_ne]
        rintro rfl
        cases hc
      rw [leadsTo_cons_of_space hc, leadsTo_cons_of_space hc, hne, ih]

theorem length_joinTags_le : (joinTags behindTag s).length ≤ s.length := by
  induction s generalizing behindTag with
  | nil => exact Nat.le_refl _
  | cons c s ih =>
    have hle : ∀ b, (joinTags b s).length ≤ s.length := fun b => ih
    rw [joinTags]
    split
    · exact Nat.le_succ_of_le (hle true)
    · exact Nat.succ_le_succ (hle _)

/-- Nothing is joined in a text when its first character is kept and nothing is joined behind it. -/
theorem joinTags_cons_eq_self_iff {c : Char} :
    joinTags behindTag (c :: s) = c :: s ↔
      (isBlank c && behindTag && leadsTo (· == '<') isBlank s) = false ∧
        joinTags (c == '>') s = s := by
  rw [joinTags]
  split
  · rename_i hdrop
    simp only [hdrop, Bool.true_eq_false, false_and, iff_false]
    intro h
    have := congrArg List.length h
    have hle := @length_joinTags_le true s
    rw [List.length_cons] at this
    omega
  · rename_i hkeep
    rw [Bool.not_eq_true] at hkeep
    simp [hkeep]

theorem joinTags_joinTags :
    joinTags behindTag (joinTags behindTag s) = joinTags behindTag s := by
  induction s generalizing behindTag with
  | nil => rfl
  | cons c s ih =>
    rw [joinTags]
    split
    · rename_i hdrop
      simp only [Bool.and_eq_true] at hdrop
      rw [hdrop.1.2, ih]
    · rename_i hkeep
      rw [Bool.not_eq_true] at hkeep
      refine joinTags_cons_eq_self_iff.2 ⟨?_, ih⟩
      cases hc : isBlank c with
      | false => rfl
      | true =>
        have hne : (c == '>') = false := by
          rw [beq_eq_false_iff_ne]
          rintro rfl
          cases hc
        rw [hne, leadsTo_joinTags, ← hkeep, hc]

/-- Where only white space is left, no tag follows. -/
theorem leadsTo_append_singleton {c : Char} (hc : isBlank c = true) :
    leadsTo (· == '<') isBlank (s ++ [c]) = leadsTo (· == '<') isBlank s := by
  induction s with
  | nil => exact leadsTo_cons_of_space hc
  | cons d s ih =>
    rw [List.cons_append]
    cases hd : isBlank d with
    | false => rw [leadsTo_cons_of_not_space hd, leadsTo_cons_of_not_space hd]
    | true => rw [leadsTo_cons_of_space hd, leadsTo_cons_of_space hd, ih]

theorem joinTags_of_append_singleton {c : Char} (hc : isBlank c = true)
    (h : joinTags behindTag (s ++ [c]) = s ++ [c]) : joinTags behindTag s = s := by
  induction s generalizing behindTag with
  | nil => rfl
  | cons d s ih =>
    rw [List.cons_append, joinTags_cons_eq_self_iff, leadsTo_append_singleton hc] at h
    exact joinTags_cons_eq_self_iff.2 ⟨h.1, ih h.2⟩

/-- Trimming leaves nothing to be joined. -/
theorem joinTags_trim (h : joinTags false s = s) : joinTags false (trim s) = trim s := by
  refine dropAround_induct (P := fun s => joinTags false s = s) ?_ ?_ h
  · intro c w hc h
    have hne : (c == '>') = false := by
      rw [beq_eq_false_iff_ne]
      rintro rfl
      cases hc
    have hrest := (joinTags_cons_eq_self_iff.1 h).2
    rwa [hne] at hrest
  · exact fun c w hc h => joinTags_of_append_singleton hc h

/-- Where no tag ends, nothing is joined. -/
theorem joinTags_append {w : Text} (h : '>' ∉ w) (t : Text) :
    joinTags false (w ++ t) = w ++ joinTags false t := by
  induction w with
  | nil => rfl
  | cons c w ih =>
    rw [List.mem_cons, not_or] at h
    have hne : (c == '>') = false := beq_eq_false_iff_ne.2 (Ne.symm h.1)
    rw [List.cons_append, joinTags, Bool.and_false, Bool.false_and, if_neg Bool.false_ne_true, hne,
      ih h.2, List.cons_append]

/-- Within a tag nothing is joined. -/
theorem joinTags_append_closing {w t : Text} (h : '>' ∉ w) :
    joinTags false (w ++ '>' :: t) = w ++ '>' :: joinTags true t := by
  rw [joinTags_append h]
  rfl

end

/-! ## Tags -/

namespace AnyTag

/-- The inside is not empty and holds no angle bracket. -/
structure IsProper (t : AnyTag) : Prop where
  inner_ne_nil : t.inner ≠ []
  inner_chars : ∀ c ∈ t.inner, (c != '<' && c != '>') = true

theorem read_eq_some_iff {s rest : Text} {t : AnyTag} :
    read s = some (t, rest) ↔ t.IsProper ∧ s = t.text ++ rest := by
  constructor
  · intro h
    refine ⟨?_, text_of_read h⟩
    simp only [read, Option.bind_eq_bind, Option.bind_eq_some_iff, after?_eq_some_iff] at h
    obtain ⟨s₁, rfl, s₂, h₂, h⟩ := h
    split at h
    · cases h
    · rename_i hne
      cases h
      exact ⟨by simpa using hne, ((run_eq_iff (q := fun c => c != '<' && c != '>')).1 rfl).2.1⟩
  · rintro ⟨h, rfl⟩
    obtain ⟨inner⟩ := t
    have hrun := run_append_cons (t := rest) h.inner_chars
      (show ('>' != '<' && '>' != '>') = false from rfl)
    have hne := h.inner_ne_nil
    simp only at hrun hne
    simp [read, text, hrun, hne, after?]

theorem read_cons_of_ne {c : Char} (h : c ≠ '<') (s : Text) : read (c :: s) = none := by
  simp [read, after?, h.symm]

theorem IsProper.gt_notMem {t : AnyTag} (h : t.IsProper) : '>' ∉ t.inner := fun hmem =>
  absurd (h.inner_chars _ hmem) (by decide)

/-- What the compacted inside of a tag is made of. -/
theorem IsProper.compactTag_chars {t : AnyTag} (h : t.IsProper) :
    ∀ c ∈ compactTag t.inner, (c != '<' && c != '>') = true := by
  intro c hc
  rcases mem_of_mem_compactTag hc with hc | rfl
  · exact h.inner_chars c hc
  · decide

theorem length_compacted_le (t : AnyTag) : t.compacted.length ≤ t.text.length := by
  have hle := length_compactTag_le t.inner
  simp only [compacted, text, List.cons_append, List.length_cons, List.length_append]
  omega

end AnyTag

/-- Markup with its tags compacted. -/
abbrev compactTags (s : Text) : Text := AnyTag.pattern.replace AnyTag.compacted s

theorem compactTags_nil : compactTags [] = [] := by
  rw [compactTags, Pattern.replace, Pattern.scan, Pattern.scanFrom]
  rfl

theorem compactTags_of_read {s rest : Text} {t : AnyTag} (h : AnyTag.read s = some (t, rest)) :
    compactTags s = t.compacted ++ compactTags rest := by
  rw [compactTags, Pattern.replace, Pattern.scan, Pattern.scanFrom_of_read AnyTag.pattern h,
    Pattern.scanFrom_congr _ (fun _ _ _ => rfl) _ none]
  rfl

theorem compactTags_of_none {c : Char} {s : Text} (h : AnyTag.read (c :: s) = none) :
    compactTags (c :: s) = c :: compactTags s := by
  rw [compactTags, Pattern.replace, Pattern.scan, Pattern.scanFrom_of_none AnyTag.pattern h,
    Pattern.scanFrom_congr _ (fun _ _ _ => rfl) _ none]
  rfl

theorem compactTags_cons_of_ne {c : Char} (h : c ≠ '<') (s : Text) :
    compactTags (c :: s) = c :: compactTags s :=
  compactTags_of_none (AnyTag.read_cons_of_ne h s)

/-- An induction over the tags of a text. -/
theorem compactTags_induct {P : Text → Prop} (nil : P [])
    (tag : ∀ (t : AnyTag) rest, t.IsProper → P rest → P (t.text ++ rest))
    (char : ∀ c s, AnyTag.read (c :: s) = none → P s → P (c :: s)) (s : Text) : P s := by
  fun_induction Pattern.scanFrom AnyTag.pattern none s with
  | case1 => exact nil
  | case2 prev c s t rest h ih =>
    obtain ⟨ht, hs⟩ := AnyTag.read_eq_some_iff.1 h
    rw [hs]
    exact tag t rest ht ih
  | case3 prev c s h ih => exact char c s h ih

theorem compactTags_text_append {t : AnyTag} (h : t.IsProper) (rest : Text) :
    compactTags (t.text ++ rest) = t.compacted ++ compactTags rest :=
  compactTags_of_read (AnyTag.read_eq_some_iff.2 ⟨h, rfl⟩)

/-- In front of the first opening bracket there is no tag. -/
theorem compactTags_append {w : Text} (hw : '<' ∉ w) (s : Text) :
    compactTags (w ++ s) = w ++ compactTags s := by
  induction w with
  | nil => rfl
  | cons c w ih =>
    rw [List.mem_cons, not_or] at hw
    rw [List.cons_append, compactTags_cons_of_ne (Ne.symm hw.1), ih hw.2, List.cons_append]

/-- An angle bracket that opens stays where it is. -/
theorem head?_compactTags_cons (s : Text) : (compactTags ('<' :: s)).head? = some '<' := by
  cases h : AnyTag.read ('<' :: s) with
  | none => rw [compactTags_of_none h, List.head?_cons]
  | some found => rw [compactTags_of_read h]; rfl

/-- The text in front of the first opening bracket is kept. -/
theorem exists_of_compactTags_eq {s w u : Text} (hw : '<' ∉ w) (h : compactTags s = w ++ u) :
    ∃ t, s = w ++ t ∧ compactTags t = u := by
  induction w generalizing s with
  | nil => exact ⟨s, rfl, h⟩
  | cons c w ih =>
    rw [List.mem_cons, not_or] at hw
    cases s with
    | nil =>
      rw [compactTags_nil] at h
      cases h
    | cons d s =>
      by_cases hd : d = '<'
      · have hhead := head?_compactTags_cons s
        rw [hd] at h
        rw [h] at hhead
        exact absurd (by simpa using hhead.symm) hw.1
      · rw [compactTags_cons_of_ne hd, List.cons_append, List.cons.injEq] at h
        obtain ⟨t, rfl, ht⟩ := ih hw.2 h.2
        exact ⟨t, by rw [h.1, List.cons_append], ht⟩

/-- No tag begins where none began before. -/
theorem read_cons_compactTags {c : Char} {s : Text} (h : AnyTag.read (c :: s) = none) :
    AnyTag.read (c :: compactTags s) = none := by
  rw [Option.eq_none_iff_forall_ne_some]
  rintro ⟨t, rest⟩ hr
  obtain ⟨ht, he⟩ := AnyTag.read_eq_some_iff.1 hr
  rw [AnyTag.text, List.cons_append, List.cons_append, List.cons.injEq, List.append_assoc] at he
  obtain ⟨rfl, he⟩ := he
  have hclean : '<' ∉ t.inner ++ ['>'] := by
    intro hmem
    rcases List.mem_append.1 hmem with hmem | hmem
    · exact absurd (ht.inner_chars _ hmem) (by decide)
    · simp at hmem
  obtain ⟨u, rfl, -⟩ := exists_of_compactTags_eq (u := rest) hclean (by simpa using he)
  have hread : AnyTag.read (t.text ++ u) = some (t, u) := AnyTag.read_eq_some_iff.2 ⟨ht, rfl⟩
  rw [AnyTag.text, List.cons_append, List.cons_append] at hread
  rw [h] at hread
  cases hread

theorem compactTags_compactTags (s : Text) : compactTags (compactTags s) = compactTags s := by
  induction s using compactTags_induct with
  | nil => rw [compactTags_nil, compactTags_nil]
  | tag t rest ht ih =>
    rw [compactTags_text_append ht]
    by_cases hne : compactTag t.inner = []
    · -- Two brackets with nothing between them are no tag.
      have hempty : t.compacted = ['<', '>'] := by
        rw [AnyTag.compacted, hne]
        rfl
      have hnone : AnyTag.read ('<' :: '>' :: compactTags rest) = none := by
        rw [Option.eq_none_iff_forall_ne_some]
        rintro ⟨t', rest'⟩ hr
        obtain ⟨ht', he⟩ := AnyTag.read_eq_some_iff.1 hr
        obtain ⟨c, w, hw⟩ := List.exists_cons_of_ne_nil ht'.inner_ne_nil
        simp only [AnyTag.text, hw, List.cons_append, List.cons.injEq, true_and] at he
        exact absurd (ht'.inner_chars c (by simp [hw])) (by rw [← he.1]; decide)
      rw [hempty, List.cons_append, List.cons_append, List.nil_append, compactTags_of_none hnone,
        compactTags_cons_of_ne (by decide), ih]
    · have hproper : AnyTag.IsProper ⟨compactTag t.inner⟩ := ⟨hne, ht.compactTag_chars⟩
      have htext : t.compacted = AnyTag.text ⟨compactTag t.inner⟩ := rfl
      have hagain : AnyTag.compacted ⟨compactTag t.inner⟩ = t.compacted := by
        rw [AnyTag.compacted, compactTag_compactTag, AnyTag.compacted]
      rw [htext, compactTags_text_append hproper, hagain, ih, htext]
  | char c s h ih =>
    rw [compactTags_of_none h, compactTags_of_none (read_cons_compactTags h), ih]

/-! ## Tags and the text between them -/

theorem leadsTo_compactTags (s : Text) :
    leadsTo (· == '<') isBlank (compactTags s) = leadsTo (· == '<') isBlank s := by
  induction s with
  | nil => rw [compactTags_nil]
  | cons c s ih =>
    by_cases hc : c = '<'
    · obtain ⟨w, hw⟩ : ∃ w, compactTags (c :: s) = '<' :: w := by
        have hhead := head?_compactTags_cons s
        rw [hc]
        cases h : compactTags ('<' :: s) with
        | nil => rw [h] at hhead; cases hhead
        | cons d w =>
          rw [h] at hhead
          exact ⟨w, by rw [Option.some.inj hhead]⟩
      rw [hw, hc, leadsTo_cons_of_not_space (by decide), leadsTo_cons_of_not_space (by decide)]
    · rw [compactTags_cons_of_ne hc]
      cases hblank : isBlank c with
      | false => rw [leadsTo_cons_of_not_space hblank, leadsTo_cons_of_not_space hblank]
      | true => rw [leadsTo_cons_of_space hblank, leadsTo_cons_of_space hblank, ih]

/-- Compacting tags leaves nothing to be joined. -/
theorem joinTags_compactTags {behindTag : Bool} {s : Text} (h : joinTags behindTag s = s) :
    joinTags behindTag (compactTags s) = compactTags s := by
  induction s using compactTags_induct generalizing behindTag with
  | nil => rw [compactTags_nil]; rfl
  | tag t rest ht ih =>
    rw [AnyTag.text, List.cons_append, List.cons_append, List.append_assoc, List.singleton_append,
      joinTags_cons_eq_self_iff] at h
    have hrest : joinTags true rest = rest := by
      have := h.2
      rw [show ('<' == '>') = false from rfl, joinTags_append_closing ht.gt_notMem] at this
      simpa using this
    have hclean : '>' ∉ compactTag t.inner := fun hmem =>
      absurd (ht.compactTag_chars _ hmem) (by decide)
    rw [compactTags_text_append ht, AnyTag.compacted, List.cons_append, List.cons_append,
      List.append_assoc, List.singleton_append, joinTags_cons_eq_self_iff]
    refine ⟨rfl, ?_⟩
    rw [show ('<' == '>') = false from rfl, joinTags_append_closing hclean, ih hrest]
  | char c s hnone ih =>
    rw [compactTags_of_none hnone]
    obtain ⟨hkeep, hrest⟩ := joinTags_cons_eq_self_iff.1 h
    exact joinTags_cons_eq_self_iff.2 ⟨by rw [leadsTo_compactTags, hkeep], ih hrest⟩

/-- A character at the end that is no bracket belongs to no tag. -/
theorem compactTags_append_singleton {c : Char} (h : (c != '<' && c != '>') = true) (s : Text) :
    compactTags (s ++ [c]) = compactTags s ++ [c] := by
  have hne : c ≠ '<' ∧ c ≠ '>' := by simpa using h
  induction s using compactTags_induct with
  | nil => rw [List.nil_append, compactTags_cons_of_ne hne.1, compactTags_nil, List.nil_append]
  | tag t rest ht ih =>
    rw [List.append_assoc, compactTags_text_append ht, compactTags_text_append ht, ih,
      List.append_assoc]
  | char d s hnone ih =>
    have hnone' : AnyTag.read (d :: (s ++ [c])) = none := by
      rw [Option.eq_none_iff_forall_ne_some]
      rintro ⟨t, rest⟩ hr
      obtain ⟨ht, he⟩ := AnyTag.read_eq_some_iff.1 hr
      -- The tag ends with a bracket, so the last character stands behind it.
      rcases List.eq_nil_or_concat rest with rfl | ⟨rest, e, rfl⟩
      · have hlast := congrArg List.getLast? he
        rw [← List.cons_append, AnyTag.text, List.append_nil, List.getLast?_concat,
          List.getLast?_concat] at hlast
        exact hne.2 (Option.some.inj hlast)
      · rw [List.concat_eq_append, ← List.append_assoc, ← List.cons_append] at he
        obtain ⟨he, -⟩ := List.append_inj' he rfl
        have hread := AnyTag.read_eq_some_iff.2 ⟨ht, he⟩
        rw [hnone] at hread
        cases hread
    rw [List.cons_append, compactTags_of_none hnone', compactTags_of_none hnone, ih,
      List.cons_append]

/-- Trimming leaves no tag to be compacted. -/
theorem compactTags_trim {s : Text} (h : compactTags s = s) : compactTags (trim s) = trim s := by
  have hbracket : ∀ {c : Char}, isBlank c = true → (c != '<' && c != '>') = true := by
    intro c hc
    have hopen : c ≠ '<' := by
      rintro rfl
      cases hc
    have hclose : c ≠ '>' := by
      rintro rfl
      cases hc
    simp [hopen, hclose]
  refine dropAround_induct (P := fun s => compactTags s = s) ?_ ?_ h
  · intro c w hc h
    have hne := hbracket hc
    rw [compactTags_cons_of_ne (by rintro rfl; cases hne), List.cons.injEq] at h
    exact h.2
  · intro c w hc h
    rw [compactTags_append_singleton (hbracket hc)] at h
    exact List.append_cancel_right h

/-! ## Documents -/

/-- No comment, no prolog and no document type stands in a text. -/
structure IsBare (s : Text) : Prop where
  comments : comment.tokens s = []
  prologs : Prolog.pattern.tokens s = []
  doctypes : Doctype.pattern.tokens s = []

/-- The comments, the prolog and document types taken out. -/
def stripped (s : Text) : Text := Doctype.pattern.erase (Prolog.pattern.erase (comment.erase s))

theorem compact_eq (s : Text) : compact s = trim (compactTags (joinTags false (stripped s))) := rfl

theorem length_erase_le {α : Type} (p : Pattern α) (s : Text) : (p.erase s).length ≤ s.length :=
  p.length_replace_le (fun _ => Nat.zero_le _) s

theorem IsBare.stripped_eq {s : Text} (h : IsBare s) : stripped s = s := by
  rw [stripped, Pattern.erase, Pattern.erase, Pattern.erase,
    comment.replace_of_tokens_eq_nil h.comments,
    Prolog.pattern.replace_of_tokens_eq_nil h.prologs,
    Doctype.pattern.replace_of_tokens_eq_nil h.doctypes]

/-- Only texts that hold nothing to be taken out do not get shorter. -/
theorem isBare_of_length_le {s : Text} (h : s.length ≤ (stripped s).length) : IsBare s := by
  have hcomments : comment.tokens s = [] := by
    by_contra hne
    have hlt := comment.length_erase_lt hne
    have hprologs := length_erase_le Prolog.pattern (comment.erase s)
    have hdoctypes := length_erase_le Doctype.pattern (Prolog.pattern.erase (comment.erase s))
    rw [stripped] at h
    omega
  have hsame : comment.erase s = s := comment.replace_of_tokens_eq_nil hcomments _
  have hprologs : Prolog.pattern.tokens s = [] := by
    by_contra hne
    have hlt := Prolog.pattern.length_erase_lt hne
    have hdoctypes := length_erase_le Doctype.pattern (Prolog.pattern.erase s)
    rw [stripped, hsame] at h
    omega
  refine ⟨hcomments, hprologs, ?_⟩
  by_contra hne
  have hlt := Doctype.pattern.length_erase_lt hne
  rw [stripped, hsame,
    show Prolog.pattern.erase s = s from Prolog.pattern.replace_of_tokens_eq_nil hprologs _] at h
  omega

theorem length_compact_le (s : Text) : (compact s).length ≤ (stripped s).length := by
  have htrim : (compact s).length ≤ (compactTags (joinTags false (stripped s))).length :=
    dropAround_isInfix.length_le
  have htags : (compactTags (joinTags false (stripped s))).length ≤
      (joinTags false (stripped s)).length :=
    AnyTag.pattern.length_replace_le AnyTag.length_compacted_le _
  have hjoin := @length_joinTags_le false (stripped s)
  omega

/-- **Compacting is done once exactly when it uncovers nothing.** A second compacting leaves
compacted markup as it is if no comment, no prolog and no document type stands in it, and changes it
in all other cases, whatever the text it was made from. -/
theorem compact_compact_eq_iff (s : Text) :
    compact (compact s) = compact s ↔ IsBare (compact s) := by
  constructor
  · intro h
    refine isBare_of_length_le ?_
    have hle := length_compact_le (compact s)
    rwa [h] at hle
  · intro h
    have hjoined : joinTags false (compact s) = compact s := by
      rw [compact_eq]
      exact joinTags_trim (joinTags_compactTags joinTags_joinTags)
    have htags : compactTags (compact s) = compact s := by
      rw [compact_eq]
      exact compactTags_trim (compactTags_compactTags _)
    have htrim : trim (compact s) = compact s := dropAround_dropAround
    rw [compact_eq (compact s), h.stripped_eq, hjoined, htags, htrim]

/-- A space behind the bracket hides a comment from the first pass. -/
theorem compact_uncovers_comment :
    compact (compact "<g>< !-- a --></g>".toList) ≠ compact "<g>< !-- a --></g>".toList := by
  decide +kernel

end SvgAssets.Markup
