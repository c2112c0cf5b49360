/-
# SvgAssets.Proofs.Stylesheet.MinifiedGrammar -- the style sheets that are accepted once minified

Minifying keeps the braces of a text and works piece by piece around its delimiters, so a text and
its minified form are read in the same steps. Two things change. White space behind the name of an
at-rule becomes a space or is dropped, so a block may become a group, or cease to be one; and the
last semicolon in a block is taken away, also that of a statement. A text is accepted once minified
exactly if it is in the grammar with these two changes (`scope_minify_iff`); so a group that ends
with a statement is accepted as it stands and refused when minified
(`minified_group_loses_statement`).
-/
import SvgAssets.Proofs.Stylesheet.Delimiters
import SvgAssets.Proofs.Stylesheet.ScopedText

namespace SvgAssets.Stylesheet

open Text

variable {r : Reading} {s : Text}

/-! ## Braces alone -/

theorem forall_outside_iff : (∀ c ∈ s, isOutsideBraces c = true) ↔ braces s = [] := by
  rw [braces, List.filter_eq_nil_iff]
  simp

theorem braces_append (s t : Text) : braces (s ++ t) = braces s ++ braces t :=
  List.filter_append s t

theorem braces_of_blank {w : Text} (hw : ∀ c ∈ w, isBlank c = true) : braces w = [] :=
  forall_outside_iff.1 fun c hc => isOutsideBraces_of_isBlank (hw c hc)

/-- Whether a block is closed depends on the braces alone. -/
theorem closeBlock?_braces (depth : Nat) (s : Text) :
    closeBlock? depth (braces s) =
      (closeBlock? depth s).map fun (body, rest) => (braces body, braces rest) := by
  induction s generalizing depth with
  | nil => simp [braces, closeBlock?]
  | cons c s ih =>
    by_cases hopen : c = '\x7b'
    · subst hopen
      have hcons : braces ('\x7b' :: s) = '\x7b' :: braces s := rfl
      rw [hcons, closeBlock?_cons_open, closeBlock?_cons_open, ih, Option.map_map, Option.map_map]
      rfl
    · by_cases hclose : c = '\x7d'
      · subst hclose
        have hcons : braces ('\x7d' :: s) = '\x7d' :: braces s := rfl
        rw [hcons]
        cases depth with
        | zero => simp [closeBlock?, braces]
        | succ depth =>
          rw [closeBlock?_cons_close, closeBlock?_cons_close, ih, Option.map_map, Option.map_map]
          rfl
      · have hout : isOutsideBraces c = true := by simp [isOutsideBraces, hopen, hclose]
        have hcons : ∀ w, braces (c :: w) = braces w := fun w =>
          List.filter_cons_of_neg (by simp [hout])
        rw [hcons, closeBlock?_cons_of_outside hout, ih, Option.map_map]
        congr 1
        funext x
        simp [hcons]

theorem closeBlock?_eq_none_of_braces {t : Text} (he : braces s = braces t)
    (h : closeBlock? 0 s = none) : closeBlock? 0 t = none := by
  have hs := closeBlock?_braces 0 s
  rw [he, h, closeBlock?_braces, Option.map_none, Option.map_eq_none_iff] at hs
  exact hs

/-- Whether braces are paired depends on the braces alone. -/
theorem Balanced.of_braces {t : Text} (he : braces s = braces t) (h : Balanced s) : Balanced t := by
  have hs := closeBlock?_braces 0 (s ++ ['\x7d'])
  have ht := closeBlock?_braces 0 (t ++ ['\x7d'])
  have hbraces : braces (s ++ ['\x7d']) = braces (t ++ ['\x7d']) := by
    rw [braces_append, braces_append, he]
  rw [hbraces, closeBlock?_body h, ht] at hs
  obtain ⟨⟨body, rest⟩, hclose, hpair⟩ := Option.map_eq_some_iff.1 hs
  obtain ⟨hbody, hsplit⟩ := closeBlock?_eq_some_iff.1 hclose
  -- Nothing is left behind the brace that was put behind the text, so the body is the whole text.
  rcases List.eq_nil_or_concat rest with rfl | ⟨w, d, rfl⟩
  · obtain ⟨rfl, -⟩ := List.append_inj' hsplit rfl
    exact hbody
  · rw [List.concat_eq_append] at hsplit hpair
    have hd : d = '\x7d' := by
      have hlast := congrArg List.getLast? hsplit
      rw [List.getLast?_concat, ← List.cons_append, ← List.append_assoc, List.getLast?_concat]
        at hlast
      exact (Option.some.inj hlast).symm
    have hnil := (Prod.mk.inj hpair).2
    rw [braces_append, hd] at hnil
    exact absurd hnil (List.append_ne_nil_of_right_ne_nil _ (by decide))

theorem opensFirst_iff_braces : OpensFirst s ↔ (braces s).head? ≠ some '\x7d' := by
  rw [OpensFirst]
  cases hrun : run isOutsideBraces s with
  | mk v w =>
    obtain ⟨rfl, hout, hhead⟩ := run_eq_iff.1 hrun
    rw [braces_append, forall_outside_iff.1 hout, List.nil_append]
    cases w with
    | nil => rfl
    | cons c w => rw [braces, List.filter_cons_of_pos (by simpa using hhead c rfl)]; rfl

@[simp] theorem braces_trimStart (s : Text) : braces (trimStart s) = braces s := by
  have hsplit : s.takeWhile isBlank ++ trimStart s = s := List.takeWhile_append_dropWhile
  conv => rhs; rw [← hsplit]
  rw [braces_append, braces_of_blank fun c hc => List.all_eq_true.1 List.all_takeWhile c hc,
    List.nil_append]

@[simp] theorem braces_trimEnd (s : Text) : braces (trimEnd s) = braces s := by
  obtain ⟨w, hs, hw⟩ := exists_eq_trimEnd_append s
  conv => rhs; rw [hs]
  rw [braces_append, braces_of_blank hw, List.append_nil]

@[simp] theorem braces_dropSemicolon (s : Text) : braces (dropSemicolon s) = braces s := by
  rw [dropSemicolon]
  split
  · rename_i hsemi
    obtain ⟨u, hu⟩ := List.getLast?_eq_some_iff.1 hsemi
    have hs := braces_trimEnd s
    rw [hu, braces_append] at hs
    rw [hu, List.dropLast_concat, braces_trimEnd, ← hs]
    exact (List.append_nil _).symm
  · exact braces_trimEnd s

theorem isOutsideBraces_of_isUnitLetter {c : Char} (h : isUnitLetter c = true) :
    isOutsideBraces c = true :=
  isOutsideBraces_of_class rfl rfl h

@[simp] theorem braces_packedFrom (prev : Option Char) (s : Text) :
    braces (packedFrom prev s) = braces s := by
  rw [braces, packedFrom, filter_dropZeroUnits, filter_spaced]
  · exact fun c hc => by simp [isOutsideBraces_of_isBlank hc]
  · rfl
  · exact fun c hc => by simp [isOutsideBraces_of_isUnitLetter hc]

/-! ## Preludes -/

theorem isPreludeChar_of_mem_packedFrom {s : Text} (hs : ∀ c ∈ s, isPreludeChar c = true)
    (prev : Option Char) : ∀ c ∈ packedFrom prev s, isPreludeChar c = true := by
  intro c hc
  rcases mem_of_mem_spaced ((dropZeroUnits_sublist _ _).subset hc) with hc | rfl
  · exact hs c hc
  · rfl

theorem not_isBlank_and_ne_of_head? {p : Text} (hp : ∀ c ∈ p, isPreludeChar c = true)
    (hhead : ∀ c ∈ p.head?, isBlank c = false) : ∀ c ∈ p.head?, isBlank c = false ∧ c ≠ ';' := by
  intro c hc
  refine ⟨hhead c hc, ?_⟩
  rintro rfl
  exact absurd (hp ';' (List.mem_of_mem_head? hc)) (by decide)

/-- A text in front of a delimiter begins as before. -/
theorem head?_packedFrom_trimEnd {p : Text} (hp : ∀ c ∈ p, isPreludeChar c = true)
    (hhead : ∀ c ∈ p.head?, isBlank c = false) (prev : Option Char) :
    (packedFrom prev (trimEnd p)).head? = p.head? := by
  have htrim : (trimEnd p).head? = p.head? := by
    cases p with
    | nil => rfl
    | cons c p => rw [← List.nil_append (c :: p), trimEnd_append_cons (hhead c rfl)]; rfl
  rw [head?_packedFrom, htrim]
  rw [htrim]
  exact not_isBlank_and_ne_of_head? hp hhead

/-- **A prelude stays one.** -/
theorem IsPrelude.packedFrom {p : Text} (hp : IsPrelude p) (prev : Option Char) :
    IsPrelude (packedFrom prev (trimEnd p)) := by
  refine ⟨?_, isPreludeChar_of_mem_packedFrom (fun c hc => hp.chars c (mem_of_mem_trimEnd hc)) prev⟩
  rw [head?_packedFrom_trimEnd hp.chars hp.not_blank_of_head?]
  exact hp.starts

/-! ## Selectors that are blank -/

theorem blankParts_dropZeroUnits (prev : Option Char) (s : Text) :
    blankParts (dropZeroUnits prev s) = blankParts s := by
  induction prev, s using dropZeroUnits_induct with
  | nil prev => rfl
  | other prev c s hc ih => rw [dropZeroUnits_of_ne hc, blankParts, blankParts, ih]
  | kept prev s h ih => rw [dropZeroUnits_kept h, blankParts, blankParts, ih]
  | lost prev a b s h ih =>
    have hcomma : ∀ c, isUnitLetter c = true → c ≠ ',' := by
      rintro c hc rfl
      exact absurd hc (by decide)
    obtain ⟨ha, hb⟩ := isUnitLetter_of_losesUnit h
    rw [dropZeroUnits_lost h, blankParts, blankParts, ih, blankParts, if_neg (hcomma a ha),
      blankParts, if_neg (hcomma b hb)]
    cases blankParts s <;> simp [show isBlank '0' = false from rfl]

theorem blankParts_spaced {s : Text} (h : ';' ∉ s) : blankParts (spaced s) = blankParts s := by
  have htight : ¬ [';', '\x7d'] <:+: tightened s := by
    intro hfound
    rcases mem_of_mem_collapseRuns (tighten_sublist.subset (hfound.subset List.mem_cons_self)) with
      hmem | hmem
    · exact h hmem
    · exact absurd hmem (by decide)
  rw [spaced_eq, replaceAll_eq_self htight, ← blankParts_filter s,
    ← blankParts_filter (tightened s), tightened, filter_tighten fun c hc => by simp [hc],
    squeezeBlanks, filter_collapseRuns rfl]
  exact fun c hc => by simp [hc]

/-- **No selector becomes blank** and none ceases to be. -/
theorem blankParts_packedFrom {p : Text} (hp : ∀ c ∈ p, isPreludeChar c = true)
    (prev : Option Char) : blankParts (packedFrom prev (trimEnd p)) = blankParts p := by
  have hsemi : ';' ∉ trimEnd p := fun hmem =>
    absurd (hp ';' (mem_of_mem_trimEnd hmem)) (by decide)
  have hblank : (trimEnd p).filter (fun c => !isBlank c) = p.filter fun c => !isBlank c := by
    obtain ⟨w, hs, hw⟩ := exists_eq_trimEnd_append p
    have hnone : w.filter (fun c => !isBlank c) = [] :=
      List.filter_eq_nil_iff.2 fun c hc => by simp [hw c hc]
    conv => rhs; rw [hs]
    rw [List.filter_append, hnone, List.append_nil]
  rw [Stylesheet.packedFrom, blankParts_dropZeroUnits, blankParts_spaced hsemi, ← blankParts_filter,
    hblank, blankParts_filter]

/-! ## Names of at-rules -/

theorem mem_lowerFrom {c : Char} (hc : lowerChar c = [c]) (hsigma : c ≠ 'Σ') {before s : Text}
    (h : c ∈ s) : c ∈ lowerFrom before s := by
  induction s generalizing before with
  | nil => cases h
  | cons d s ih =>
    rw [lowerFrom, List.mem_append]
    rcases List.mem_cons.1 h with rfl | h
    · left
      rw [if_neg hsigma, hc]
      exact List.mem_cons_self
    · exact .inr (ih h)

/-- Punctuation stands in no name of a group. -/
theorem not_contains_of_isMark {c : Char} {name : Text} (hc : isMark c = true) (h : c ∈ name) :
    groupNames.contains (lower name) = false := by
  have hlower : lowerChar c = [c] ∧ c ≠ 'Σ' :=
    of_isMark (P := fun c => lowerChar c = [c] ∧ c ≠ 'Σ') rfl hc
  have hnames : (groupNames.all fun group => group.all fun d => !isMark d) = true := by decide
  rw [← Bool.not_eq_true, List.contains_iff_mem]
  intro hmem
  have hname := List.all_eq_true.1 hnames _ hmem
  have hmark := List.all_eq_true.1 hname c (mem_lowerFrom hlower.1 hlower.2 h)
  rw [hc] at hmark
  cases hmark

/-- Characters of a name that white space of any kind ends. -/
def isGroupNameChar (c : Char) : Bool := !isBlank c && c != '('

theorem leadsTo_collapseRuns (inRun : Bool) (s : Text) :
    leadsTo isMark isBlank (collapseRuns isBlank ' ' inRun s) = leadsTo isMark isBlank s := by
  rw [leadsTo, dropWhile_collapseRuns rfl, leadsTo]
  cases hs : s.dropWhile isBlank with
  | nil => rfl
  | cons c t =>
    have hc : isBlank c = false := head?_trimStart s c (by rw [trimStart, hs]; rfl)
    rw [collapseRuns, if_neg (by simp [hc])]

/-- White space that leads to no punctuation leaves a space. -/
theorem exists_packed_cons_of_blank {c : Char} (hc : isBlank c = true) {s : Text}
    (h : leadsTo isMark isBlank s = false) : ∃ t, packed (c :: s) = ' ' :: t := by
  have htight : tightened (c :: s) = ' ' :: tighten isMark isBlank false
      (collapseRuns isBlank ' ' true s) := by
    rw [tightened, squeezeBlanks, collapseRuns, if_pos hc, if_neg Bool.false_ne_true, tighten,
      if_neg (by decide), if_pos (by decide), if_neg Bool.false_ne_true, leadsTo_collapseRuns, h,
      if_neg Bool.false_ne_true]
  rw [packed, spaced_eq, htight, replaceAll_cons fun hprefix =>
    absurd (List.cons_prefix_cons.1 hprefix).1 (by decide), dropZeroUnits_of_ne (by decide)]
  exact ⟨_, rfl⟩

/-- White space that leads to punctuation is dropped. -/
theorem head?_packed_of_leadsTo {s : Text} (hs : ∀ c ∈ s, isPreludeChar c = true)
    (h : leadsTo isMark isBlank s = true) : ∃ m t, packed s = m :: t ∧ isMark m = true := by
  rw [leadsTo] at h
  cases hrest : s.dropWhile isBlank with
  | nil =>
    rw [hrest] at h
    cases h
  | cons m t =>
    rw [hrest] at h
    have hm : isMark m = true := h
    have hsplit : s.takeWhile isBlank ++ m :: t = s := by
      rw [← hrest, List.takeWhile_append_dropWhile]
    have hchar := hs m (by rw [← hsplit]; simp)
    have hclose : m ≠ '\x7d' := by
      rintro rfl
      exact absurd hchar (by decide)
    have hsemi : m ≠ ';' := by
      rintro rfl
      exact absurd hchar (by decide)
    have hblank : trimEnd (s.takeWhile isBlank) = [] :=
      trimEnd_blanks fun c hc => List.all_eq_true.1 List.all_takeWhile c hc
    have hspaced := spaced_append_mark hm hsemi hclose (s.takeWhile isBlank) t
    rw [hsplit, hblank, spaced_nil, List.nil_append] at hspaced
    have hhead := head?_dropZeroUnits none (spaced s)
    rw [hspaced] at hhead
    rw [packed, hspaced]
    obtain ⟨u, hu⟩ := List.head?_eq_some_iff.1 hhead
    exact ⟨m, u, hu, hm⟩

/-- Where the name of an at-rule ends as it is written. -/
def isWrittenNameChar (c : Char) : Bool := c != ' ' && c != '('

theorem isGroupNameChar_of_isMark {c : Char} (h : isMark c = true) :
    isGroupNameChar c = true ∧ isWrittenNameChar c = true :=
  of_isMark (P := fun c => isGroupNameChar c = true ∧ isWrittenNameChar c = true) rfl h

/-- The name that stands at the start of a text is the one at the start of the minified text, or
neither text starts with the name of a group and white space that leads to no punctuation. -/
def NamesAgree (s : Text) : Prop :=
  ((packed s).takeWhile isWrittenNameChar = s.takeWhile isGroupNameChar ∧
      leadsTo isMark isBlank (s.dropWhile isGroupNameChar) = false) ∨
    (∃ c ∈ (packed s).takeWhile isWrittenNameChar, isMark c = true) ∧
      ((∃ c ∈ s.takeWhile isGroupNameChar, isMark c = true) ∨
        leadsTo isMark isBlank (s.dropWhile isGroupNameChar) = true)

theorem namesAgree_cons_of_blank {c : Char} {s : Text} (hc : isBlank c = true)
    (hs : ∀ d ∈ c :: s, isPreludeChar d = true) : NamesAgree (c :: s) := by
  have hname : isGroupNameChar c = false := by simp [isGroupNameChar, hc]
  rw [NamesAgree, List.takeWhile_cons_of_neg (by simp [hname]),
    List.dropWhile_cons_of_neg (by simp [hname]), leadsTo_cons_of_space hc]
  cases hmark : leadsTo isMark isBlank s with
  | false =>
    obtain ⟨t, ht⟩ := exists_packed_cons_of_blank hc hmark
    exact .inl ⟨by rw [ht]; rfl, rfl⟩
  | true =>
    obtain ⟨m, t, ht, hm⟩ := head?_packed_of_leadsTo hs (by rwa [leadsTo_cons_of_space hc])
    rw [ht, List.takeWhile_cons_of_pos (isGroupNameChar_of_isMark hm).2]
    exact .inr ⟨⟨m, List.mem_cons_self, hm⟩, .inr rfl⟩

theorem namesAgree_cons_of_isMark {c : Char} {s : Text} (hc : isMark c = true)
    (hs : ∀ d ∈ c :: s, isPreludeChar d = true) : NamesAgree (c :: s) := by
  have hblank : isBlank c = false := not_isBlank_of_isMark hc
  have hhead := head?_packedFrom (s := c :: s)
    (not_isBlank_and_ne_of_head? hs fun d hd => Option.some.inj hd ▸ hblank) none
  obtain ⟨t, ht⟩ := List.head?_eq_some_iff.1 hhead
  obtain ⟨hname, hwritten⟩ := isGroupNameChar_of_isMark hc
  rw [NamesAgree, ← packedFrom_none, ht, List.takeWhile_cons_of_pos hwritten,
    List.takeWhile_cons_of_pos hname]
  exact .inr ⟨⟨c, List.mem_cons_self, hc⟩, .inl ⟨c, List.mem_cons_self, hc⟩⟩

theorem NamesAgree.cons {c : Char} {s : Text} (hblank : isBlank c = false) (hc : isMark c = false)
    (h : NamesAgree s) : NamesAgree (c :: s) := by
  rw [NamesAgree, packed_cons hblank hc]
  by_cases hparen : c = '('
  · subst hparen
    exact .inl ⟨rfl, rfl⟩
  · have hname : isGroupNameChar c = true := by simp [isGroupNameChar, hblank, hparen]
    have hspace : c ≠ ' ' := by
      rintro rfl
      exact absurd hblank (by decide)
    rw [List.takeWhile_cons_of_pos (by simp [isWrittenNameChar, hspace, hparen]),
      List.takeWhile_cons_of_pos hname, List.dropWhile_cons_of_pos hname]
    refine h.imp (And.imp_left fun he => by rw [he]) (And.imp ?_ (Or.imp_left ?_))
    · exact fun ⟨d, hd, hm⟩ => ⟨d, List.mem_cons_of_mem _ hd, hm⟩
    · exact fun ⟨d, hd, hm⟩ => ⟨d, List.mem_cons_of_mem _ hd, hm⟩

theorem namesAgree {s : Text} (hs : ∀ c ∈ s, isPreludeChar c = true) : NamesAgree s := by
  induction s with
  | nil => exact .inl ⟨by rw [packed_nil]; rfl, rfl⟩
  | cons c s ih =>
    cases hblank : isBlank c with
    | true => exact namesAgree_cons_of_blank hblank hs
    | false =>
      cases hc : isMark c with
      | true => exact namesAgree_cons_of_isMark hc hs
      | false => exact (ih (List.forall_mem_cons.1 hs).2).cons hblank hc

/-- The name of a group in minified text reaches up to white space of any kind or a parenthesis, and
no punctuation stands behind the white space. -/
def namesMinifiedGroup (prelude : Text) : Bool :=
  let (name, rest) := run isGroupNameChar ((trimEnd prelude).drop 1)
  groupNames.contains (lower name) && !leadsTo isMark isBlank rest

theorem eq_space_of_mem_packed {c : Char} {s : Text} (hc : isBlank c = true) (h : c ∈ packed s) :
    c = ' ' := by
  have hspaced : c ∈ spaced s := (dropZeroUnits_sublist _ _).subset h
  exact eq_mark_of_mem_collapseRuns
    (tighten_sublist.subset (mem_of_mem_replaceAll (by simp) hspaced)) hc

/-- White space at the end belongs to no name. -/
theorem takeWhile_trimEnd_packed (s : Text) :
    (trimEnd (packed s)).takeWhile isWrittenNameChar = (packed s).takeWhile isWrittenNameChar := by
  obtain ⟨w, hs, hw⟩ := exists_eq_trimEnd_append (packed s)
  have hnone : w.takeWhile isWrittenNameChar = [] := by
    cases w with
    | nil => rfl
    | cons c w =>
      obtain rfl : c = ' ' := eq_space_of_mem_packed (hw c List.mem_cons_self) (by rw [hs]; simp)
      rfl
  conv => rhs; rw [hs, List.takeWhile_append, hnone, List.append_nil]
  split
  · rename_i hlength
    exact (List.takeWhile_prefix _).eq_of_length hlength
  · rfl

theorem atRuleName_trim_packed (s : Text) :
    atRuleName (trim ('@' :: packed s)) = lower ((packed s).takeWhile isWrittenNameChar) := by
  have htrim : trim ('@' :: packed s) = '@' :: trimEnd (packed s) :=
    (congrArg trimEnd (trimStart_cons_of_not_blank rfl _)).trans (trimEnd_append_cons rfl [] _)
  rw [htrim, ← takeWhile_trimEnd_packed]
  rfl

/-- **Which blocks are groups once minified.** -/
theorem isGroupPrelude_packedFrom {p : Text} (hp : IsPrelude p) (hat : p.head? = some '@')
    (prev : Option Char) :
    isGroupPrelude (packedFrom prev (trimEnd p)) = namesMinifiedGroup p := by
  obtain ⟨q, rfl⟩ := List.head?_eq_some_iff.1 hat
  have htrim : trimEnd ('@' :: q) = '@' :: trimEnd q := trimEnd_append_cons rfl [] q
  have hagree : NamesAgree (trimEnd q) := namesAgree fun c hc =>
    hp.chars c (List.mem_cons_of_mem _ (mem_of_mem_trimEnd hc))
  rw [isGroupPrelude, htrim, packedFrom_cons rfl rfl (by decide), atRuleName_trim_packed,
    namesMinifiedGroup, htrim]
  rcases hagree with ⟨he, hmark⟩ | ⟨⟨c, hc, hm⟩, hother⟩
  · rw [he]
    exact (Bool.and_true _).symm.trans (congrArg _ (congrArg Bool.not hmark).symm)
  · rw [not_contains_of_isMark hm hc]
    rcases hother with ⟨d, hd, hmd⟩ | hmark
    · exact (congrArg (· && _) (not_contains_of_isMark hmd hd)).symm
    · exact ((congrArg _ (congrArg Bool.not hmark)).trans (Bool.and_false _)).symm

/-! ## The grammar of minified sheets -/

/-- Style sheets as they are read once minified: the last semicolon in the block of a group does not
count, nor does white space in front of it. -/
def Reading.minified : Reading where
  namesGroup := namesMinifiedGroup
  content body := dropSemicolon (trimStart body)
  balanced_of_content _ h := h.of_braces (by simp)

theorem length_dropSemicolon_le (s : Text) : (dropSemicolon s).length ≤ s.length := by
  have htrim : ∀ t : Text, (trimEnd t).length ≤ t.length := by
    intro t
    obtain ⟨w, ht, -⟩ := exists_eq_trimEnd_append t
    have hlength := congrArg List.length ht
    rw [List.length_append] at hlength
    omega
  rw [dropSemicolon]
  split
  · have hlast := htrim (trimEnd s).dropLast
    have hends := htrim s
    rw [List.length_dropLast] at hlast
    omega
  · exact htrim s

theorem length_trimStart_le (s : Text) : (trimStart s).length ≤ s.length :=
  (List.dropWhile_sublist _).length_le

/-- What the grammar asks of a block, it asks of the minified block. -/
theorem admits_packedFrom_iff {p body : Text} (hp : IsPrelude p) (prev : Option Char)
    (hbody : IsSheet .asWritten (packed (dropSemicolon (trimStart body))) ↔
      IsSheet .minified (dropSemicolon (trimStart body))) :
    Reading.asWritten.Admits (packedFrom prev (trimEnd p))
        (packed (dropSemicolon (trimStart body))) ↔
      Reading.minified.Admits p body := by
  have hplain : (∀ c ∈ packed (dropSemicolon (trimStart body)), isOutsideBraces c = true) ↔
      ∀ c ∈ body, isOutsideBraces c = true := by
    rw [forall_outside_iff, forall_outside_iff, ← packedFrom_none]
    simp
  rw [Reading.Admits, Reading.Admits, head?_packedFrom_trimEnd hp.chars hp.not_blank_of_head?,
    forall_splitOn_iff, forall_splitOn_iff, blankParts_packedFrom hp.chars, hplain]
  refine and_congr (forall_congr' fun hat => ?_) Iff.rfl
  exact imp_congr (iff_of_eq (congrArg (· = true) (isGroupPrelude_packedFrom hp hat prev))) hbody

theorem isPreludeChar_eq_false {d : Char} (hd : isPreludeChar d = false) :
    d = '\x7d' ∨ d = ';' ∨ d = '\x7b' := by
  simp only [isPreludeChar, isOutsideBraces, Bool.and_eq_false_iff, bne_eq_false_iff_eq] at hd
  rcases hd with (rfl | rfl) | rfl
  · exact .inr (.inr rfl)
  · exact .inl rfl
  · exact .inr (.inl rfl)

theorem not_opensFirst_close {v : Text} (hv : ∀ c ∈ v, isOutsideBraces c = true) (w : Text) :
    ¬ OpensFirst (v ++ '\x7d' :: w) := by
  rw [opensFirst_iff_braces, braces_append, forall_outside_iff.1 hv]
  simp [braces, isOutsideBraces]

/-- A sheet whose first delimiter is a semicolon. -/
theorem isSheet_packedFrom_semicolon_iff {v w : Text} (hv : ∀ c ∈ v, isPreludeChar c = true)
    (hhead : ∀ c ∈ v.head?, isBlank c = false) (hopens : OpensFirst (v ++ ';' :: w))
    (ih : IsSheet .asWritten (packed (trimStart w)) ↔ IsSheet .minified w) (prev : Option Char) :
    IsSheet .asWritten (packedFrom prev (v ++ ';' :: w)) ↔ IsSheet .minified (v ++ ';' :: w) := by
  have hclose : (trimStart w).head? ≠ some '\x7d' := by
    intro hat
    obtain ⟨u, hu⟩ := List.head?_eq_some_iff.1 hat
    -- The brace behind the semicolon would close nothing.
    rw [opensFirst_iff_braces, braces_append,
      forall_outside_iff.1 fun c hc => isOutsideBraces_of_isPreludeChar (hv c hc), List.nil_append]
      at hopens
    have hbraces : braces (';' :: w) = braces (trimStart w) := (braces_trimStart w).symm
    rw [hbraces, hu] at hopens
    exact hopens rfl
  have hfirst := head?_packedFrom_trimEnd hv hhead prev
  have hchars := isPreludeChar_of_mem_packedFrom (fun c hc => hv c (mem_of_mem_trimEnd hc)) prev
  rw [packedFrom_append_semicolon hclose]
  by_cases hat : v.head? = some '@'
  · obtain ⟨t, rfl⟩ := List.head?_eq_some_iff.1 hat
    obtain ⟨t', ht'⟩ := List.head?_eq_some_iff.1 (hfirst.trans hat)
    rw [ht'] at hchars ⊢
    rw [isSheet_statement_iff (List.forall_mem_cons.1 hchars).2,
      isSheet_statement_iff (List.forall_mem_cons.1 hv).2, ih]
  · -- Only a statement ends with a semicolon.
    refine iff_of_false (fun h => ?_) fun h => ?_
    · rcases h.cases_of_cut hchars (hfirst ▸ hhead) rfl with ⟨-, hat', -⟩ | ⟨he, -⟩
      · exact hat (hfirst.symm.trans hat')
      · exact absurd he (by decide)
    · rcases h.cases_of_cut hv hhead rfl with ⟨-, hat', -⟩ | ⟨he, -⟩
      · exact hat hat'
      · exact absurd he (by decide)

/-- A sheet whose first delimiter is an opening brace. -/
theorem isSheet_packedFrom_open_iff {v w : Text} (hv : ∀ c ∈ v, isPreludeChar c = true)
    (hhead : ∀ c ∈ v.head?, isBlank c = false)
    (ih : ∀ s : Text, s.length ≤ w.length →
      (IsSheet .asWritten (packed s) ↔ IsSheet .minified s)) (prev : Option Char) :
    IsSheet .asWritten (packedFrom prev (v ++ '\x7b' :: w)) ↔
      IsSheet .minified (v ++ '\x7b' :: w) := by
  have hcut := packedFrom_append_mark (m := '\x7b') rfl (by decide) (by decide) (by decide) prev v w
  have hfirst := head?_packedFrom_trimEnd hv hhead prev
  have hchars := isPreludeChar_of_mem_packedFrom (fun c hc => hv c (mem_of_mem_trimEnd hc)) prev
  -- The prelude begins as before and the braces are the same, so nothing gets closed by minifying.
  have hclosed : IsPrelude (packedFrom prev (trimEnd v)) ∧
      closeBlock? 0 (packed (trimStart w)) ≠ none → IsPrelude v ∧ closeBlock? 0 w ≠ none := by
    rintro ⟨hp, hblock⟩
    refine ⟨⟨hfirst ▸ hp.starts, hv⟩, fun hnone => hblock ?_⟩
    exact closeBlock?_eq_none_of_braces (by rw [← packedFrom_none]; simp) hnone
  rw [hcut]
  by_cases hblock : IsPrelude v ∧ closeBlock? 0 w ≠ none
  · obtain ⟨hp, hsome⟩ := hblock
    obtain ⟨⟨body, rest⟩, hclose⟩ := Option.ne_none_iff_exists'.1 hsome
    obtain ⟨hbody, rfl⟩ := closeBlock?_eq_some_iff.1 hclose
    have hpacked : Balanced (packed (dropSemicolon (trimStart body))) :=
      hbody.of_braces (by rw [← packedFrom_none]; simp)
    rw [List.length_append, List.length_cons] at ih
    have hlength := (length_dropSemicolon_le _).trans (length_trimStart_le body)
    have hrest := length_trimStart_le rest
    rw [trimStart_append_cons rfl, ← packedFrom_none (trimStart body ++ _), packedFrom_append_close,
      packedFrom_none, isSheet_block_iff (hp.packedFrom prev) hpacked, isSheet_block_iff hp hbody,
      admits_packedFrom_iff hp prev (ih _ (by omega)), ih _ (by omega), isSheet_trimStart_iff]
  · exact iff_of_false (fun h => hblock (hclosed (h.closes hchars (hfirst ▸ hhead))))
      fun h => hblock (h.closes hv hhead)

/-- **Which texts are sheets once minified.** -/
theorem isSheet_packedFrom_iff (prev : Option Char) (s : Text) :
    IsSheet .asWritten (packedFrom prev s) ↔ IsSheet .minified s := by
  induction hn : s.length using Nat.strongRecOn generalizing prev s with
  | ind n ih =>
    -- White space in front does not count, so the text may be taken to begin with an item.
    obtain ⟨w, prev', hw, hpacked⟩ := exists_packedFrom_eq prev s
    have hle := length_trimStart_le s
    have hstart := head?_trimStart s
    rw [hpacked, isSheet_blanks_iff hw, ← isSheet_trimStart_iff (s := s)]
    generalize trimStart s = t at hle hstart
    by_cases hopens : OpensFirst t
    · rcases forall_or_exists_eq_append isPreludeChar t with hall | ⟨v, d, u, rfl, hv, hd⟩
      · -- No delimiter is left, nor comes into being.
        have hchars := isPreludeChar_of_mem_packedFrom hall prev'
        have hfirst := head?_packedFrom (not_isBlank_and_ne_of_head? hall hstart) prev'
        cases t with
        | nil =>
          rw [packedFrom_nil]
          exact iff_of_true .nil .nil
        | cons c t =>
          have hc : isBlank c = false := hstart c rfl
          obtain ⟨t', ht'⟩ := List.head?_eq_some_iff.1 hfirst
          rw [ht'] at hchars ⊢
          exact iff_of_false (not_isSheet_of_isPreludeChar hc hchars)
            (not_isSheet_of_isPreludeChar hc hall)
      · have hhead : ∀ c ∈ v.head?, isBlank c = false := fun c hc =>
          hstart c (by rw [List.head?_append, hc]; rfl)
        rw [List.length_append, List.length_cons] at hle
        rcases isPreludeChar_eq_false hd with rfl | rfl | rfl
        · exact absurd hopens
            (not_opensFirst_close (fun c hc => isOutsideBraces_of_isPreludeChar (hv c hc)) u)
        · have hrest := length_trimStart_le u
          refine isSheet_packedFrom_semicolon_iff hv hhead hopens ?_ prev'
          rw [← packedFrom_none, ih _ (by omega) none _ rfl, isSheet_trimStart_iff]
        · exact isSheet_packedFrom_open_iff hv hhead
            (fun s hs => ih s.length (by omega) none s rfl) prev'
    · -- Where the first brace closes, it does so in both texts.
      refine iff_of_false (fun h => hopens ?_) fun h => hopens h.opensFirst
      have hbraces := h.opensFirst
      rw [opensFirst_iff_braces, braces_packedFrom, ← opensFirst_iff_braces] at hbraces
      exact hbraces

/-! ## Acceptance once minified -/

/-- **A text without comments is accepted once minified** exactly if it is a style sheet in which
the names of groups end at white space of any kind, in front of no punctuation, and the last
semicolon in the block of a group does not count. -/
theorem scope_minify_iff {s : Text} (h : comment.tokens s = []) (scopeText : Text) :
    (∃ out, scope (minify s) scopeText = .ok out) ↔ IsSheet .minified s := by
  rw [exists_scope_iff, minify_eq h, isSheet_trim_iff, ← packedFrom_none, isSheet_packedFrom_iff]

/-- A group with a statement and a rule, and a semicolon at the end of the rule. -/
def layeredRules : Text := "@media (x)\x7b @layer a; .b\x7bc:d;\x7d \x7d".toList

theorem scope_minify_iff_layered : comment.tokens layeredRules = [] ∧
    (∃ out, scope (minify layeredRules) ".s".toList = .ok out) ∧
      IsSheet .minified layeredRules := by
  have hcomment : comment.tokens layeredRules = [] := by decide +kernel
  have haccepted : scope (minify layeredRules) ".s".toList =
      .ok "@media (x)\x7b@layer a;.s .b\x7bc:d\x7d\x7d".toList := by decide +kernel
  exact ⟨hcomment, ⟨_, haccepted⟩, (scope_minify_iff hcomment _).1 ⟨_, haccepted⟩⟩

/-- **A style sheet may be refused once minified:** a statement at the end of a group loses its
semicolon, and a block becomes a group when the line break behind its name becomes a space. -/
theorem minified_group_loses_statement :
    (comment.tokens "@layer a\x7b@layer b;\x7d".toList = [] ∧
      scope "@layer a\x7b@layer b;\x7d".toList ".s".toList =
        .ok "@layer a\x7b@layer b;\x7d".toList ∧
      scope (minify "@layer a\x7b@layer b;\x7d".toList) ".s".toList =
        .error (.danglingContent "@layer b".toList)) ∧
    comment.tokens "@media\n(x)\x7by\x7d".toList = [] ∧
      scope "@media\n(x)\x7by\x7d".toList ".s".toList = .ok "@media\n(x)\x7by\x7d".toList ∧
      scope (minify "@media\n(x)\x7by\x7d".toList) ".s".toList =
        .error (.danglingContent "y".toList) := by
  refine ⟨⟨?_, ?_, ?_⟩, ?_, ?_, ?_⟩
  all_goals decide +kernel

end SvgAssets.Stylesheet
