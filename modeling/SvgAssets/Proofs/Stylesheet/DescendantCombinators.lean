/-
# SvgAssets.Proofs.Stylesheet.DescendantCombinators -- white space between compound selectors

White space between two compound selectors says that the second one is looked for inside of the
first. Minifying goes by characters and treats a colon as punctuation wherever it stands, so white
space in front of a pseudo-class is dropped and the two compounds become one. All other compounds
stay apart by one space, whatever they begin with (`minify_rule`).
-/
import SvgAssets.Proofs.Stylesheet.Delimiters

namespace SvgAssets.Stylesheet

open Text

/-! ## Selectors -/

/-- A name in a selector. -/
structure SelectorName where
  text : Text
  ne_nil : text ≠ []
  plain : ∀ c ∈ text, isBlank c = false ∧ isMark c = false
  head_ne_zero : text.head? ≠ some '0'

namespace SelectorName

/-- Whether a text is a name. -/
def isName (s : Text) : Bool :=
  !s.isEmpty && s.all (fun c => !isBlank c && !isMark c) && s.head? != some '0'

theorem isName_iff {s : Text} : isName s = true ↔
    s ≠ [] ∧ (∀ c ∈ s, isBlank c = false ∧ isMark c = false) ∧ s.head? ≠ some '0' := by
  simp only [isName, Bool.and_eq_true, Bool.not_eq_true', List.isEmpty_eq_false_iff,
    List.all_eq_true, bne_iff_ne, and_assoc]

/-- The name with a text. -/
def ofText (s : Text) (h : isName s = true) : SelectorName where
  text := s
  ne_nil := (isName_iff.1 h).1
  plain := (isName_iff.1 h).2.1
  head_ne_zero := (isName_iff.1 h).2.2

end SelectorName

/-- What a simple selector looks at. -/
inductive SimpleKind where
  | element
  | className
  | identifier
  | pseudoClass
  | pseudoElement
  deriving DecidableEq

/-- The characters that begin a simple selector of a kind. -/
def SimpleKind.sign : SimpleKind → Text
  | .element => []
  | .className => ['.']
  | .identifier => ['#']
  | .pseudoClass => [':']
  | .pseudoElement => [':', ':']

/-- A simple selector, such as `a`, `.a`, `#a`, `:hover`, `:not(.a)` or `::before`. -/
structure SimpleSelector where
  kind : SimpleKind
  name : SelectorName
  argument : Option Text

/-- The text of an argument, where `f` writes what stands in its parentheses. -/
def argumentText (f : Text → Text) : Option Text → Text
  | none => []
  | some s => '(' :: f s ++ [')']

/-- The text of a simple selector, where `f` writes its argument. -/
def SimpleSelector.textWith (f : Text → Text) (s : SimpleSelector) : Text :=
  s.kind.sign ++ s.name.text ++ argumentText f s.argument

/-- Simple selectors one behind the other. -/
structure Compound where
  first : SimpleSelector
  others : List SimpleSelector

namespace Compound

/-- The text of a compound, where `f` writes arguments. -/
def textWith (f : Text → Text) (c : Compound) : Text :=
  c.first.textWith f ++ c.others.flatMap (·.textWith f)

/-- Whether a compound begins with a pseudo-class or a pseudo-element. -/
def beginsWithColon (c : Compound) : Bool :=
  c.first.kind = .pseudoClass || c.first.kind = .pseudoElement

end Compound

/-- White space, or none. -/
abbrev Blanks := { w : Text // ∀ c ∈ w, isBlank c = true }

/-- White space between two compounds. -/
abbrev Gap := { w : Text // w ≠ [] ∧ ∀ c ∈ w, isBlank c = true }

/-- Compounds apart by white space, with the white space around them. -/
structure DescendantSelector where
  front : Blanks
  first : Compound
  others : List (Gap × Compound)
  back : Blanks

namespace DescendantSelector

/-- The selector as it is written. -/
def text (s : DescendantSelector) : Text :=
  s.front.1 ++ (s.first.textWith id ++
    (s.others.flatMap (fun part => part.1.1 ++ part.2.textWith id) ++ s.back.1))

/-- The compounds of a selector with their arguments minified, and with `gap` in front of each but
the first. -/
def joined (gap : Compound → Text) (s : DescendantSelector) : Text :=
  s.first.textWith packed ++ s.others.flatMap fun part => gap part.2 ++ part.2.textWith packed

/-- The compounds apart by one space. -/
def apart (s : DescendantSelector) : Text := s.joined fun _ => [' ']

/-- The compounds apart by one space, but for those that begin with a colon. -/
def glued (s : DescendantSelector) : Text :=
  s.joined fun c => if c.beginsWithColon then [] else [' ']

end DescendantSelector

/-! ## Compounds -/

theorem SelectorName.exists_eq_cons (n : SelectorName) :
    ∃ c w, n.text = c :: w ∧ isBlank c = false ∧ isMark c = false ∧ c ≠ '0' := by
  obtain ⟨c, w, hc⟩ := List.exists_cons_of_ne_nil n.ne_nil
  obtain ⟨hblank, hmark⟩ := n.plain c (by rw [hc]; exact List.mem_cons_self)
  refine ⟨c, w, hc, hblank, hmark, ?_⟩
  rintro rfl
  exact n.head_ne_zero (by rw [hc]; rfl)

theorem packed_append_of_plain {w : Text} (hw : ∀ c ∈ w, isBlank c = false ∧ isMark c = false)
    (s : Text) : packed (w ++ s) = w ++ packed s := by
  induction w with
  | nil => rfl
  | cons c w ih =>
    rw [List.forall_mem_cons] at hw
    rw [List.cons_append, packed_cons hw.1.1 hw.1.2, ih hw.2, List.cons_append]

theorem packedFrom_name (n : SelectorName) (prev : Option Char) (s : Text) :
    packedFrom prev (n.text ++ s) = n.text ++ packed s := by
  have hplain := n.plain
  obtain ⟨c, w, hn, hblank, hmark, hzero⟩ := n.exists_eq_cons
  rw [hn] at hplain ⊢
  rw [List.cons_append, packedFrom_cons hblank hmark hzero,
    packed_append_of_plain (List.forall_mem_cons.1 hplain).2, List.cons_append]

/-- A colon in front of what is not blank is kept. -/
theorem packedFrom_colon {s : Text} (hs : ∀ c ∈ s.head?, isBlank c = false) (prev : Option Char) :
    packedFrom prev (':' :: s) = ':' :: packedFrom (some ':') s := by
  have htrim : trimStart s = s := by
    cases s with
    | nil => rfl
    | cons c s => exact trimStart_cons_of_not_blank (hs c rfl) s
  have hspaced := spaced_append_mark (m := ':') rfl (by decide) (by decide) [] s
  rw [packedFrom, ← List.nil_append (':' :: s), hspaced, htrim]
  rw [show trimEnd [] = [] from rfl, spaced_nil, List.nil_append, dropZeroUnits_of_ne (by decide)]
  rfl

theorem packed_argument (argument : Option Text) (s : Text) :
    packed (argumentText id argument ++ s) = argumentText packed argument ++ packed s := by
  cases argument with
  | none => rfl
  | some a =>
    rw [argumentText, argumentText, List.append_assoc, List.cons_append, packed_cons rfl rfl,
      List.singleton_append, packed_append_cons_of_not_word (by decide) rfl]
    simp

/-- **A simple selector is kept**, but for its argument, which is minified as on its own. -/
theorem packedFrom_simple (a : SimpleSelector) (prev : Option Char) (s : Text) :
    packedFrom prev (a.textWith id ++ s) = a.textWith packed ++ packed s := by
  have hrest : ∀ prev, packedFrom prev (a.name.text ++ (argumentText id a.argument ++ s)) =
      a.name.text ++ (argumentText packed a.argument ++ packed s) := fun prev => by
    rw [packedFrom_name, packed_argument]
  have hhead : ∀ c ∈ (a.name.text ++ (argumentText id a.argument ++ s)).head?,
      isBlank c = false := by
    obtain ⟨c, w, hn, hblank, -⟩ := a.name.exists_eq_cons
    rw [hn]
    exact fun d hd => Option.some.inj hd ▸ hblank
  rw [SimpleSelector.textWith, SimpleSelector.textWith]
  simp only [List.append_assoc]
  cases a.kind with
  | element => exact hrest prev
  | className | identifier =>
    rw [SimpleKind.sign, List.singleton_append, packedFrom_cons rfl rfl (by decide),
      ← packedFrom_none, hrest]
    rfl
  | pseudoClass =>
    rw [SimpleKind.sign, List.singleton_append, packedFrom_colon hhead, hrest]
    rfl
  | pseudoElement =>
    have hcolon : ∀ c ∈ (':' :: (a.name.text ++ (argumentText id a.argument ++ s))).head?,
        isBlank c = false := fun c hc => Option.some.inj hc ▸ rfl
    rw [SimpleKind.sign, List.cons_append, List.singleton_append, packedFrom_colon hcolon,
      packedFrom_colon hhead, hrest]
    rfl

/-- **A compound is kept**, but for arguments. -/
theorem packedFrom_compound (c : Compound) (prev : Option Char) (s : Text) :
    packedFrom prev (c.textWith id ++ s) = c.textWith packed ++ packed s := by
  have hothers : ∀ others : List SimpleSelector,
      packed (others.flatMap (·.textWith id) ++ s) =
        others.flatMap (·.textWith packed) ++ packed s := by
    intro others
    induction others with
    | nil => rfl
    | cons a others ih =>
      rw [List.flatMap_cons, List.flatMap_cons, List.append_assoc, ← packedFrom_none,
        packedFrom_simple, ih, List.append_assoc]
  rw [Compound.textWith, List.append_assoc, packedFrom_simple, hothers, Compound.textWith,
    List.append_assoc]

/-- A compound begins with a colon or with a character that is neither white space nor a mark. -/
theorem Compound.exists_eq_cons (f : Text → Text) (c : Compound) :
    ∃ d w, c.textWith f = d :: w ∧ isBlank d = false ∧
      (if c.beginsWithColon then d = ':' else isMark d = false) := by
  obtain ⟨d, w, hn, hblank, hmark, -⟩ := c.first.name.exists_eq_cons
  rw [Compound.textWith, SimpleSelector.textWith, Compound.beginsWithColon, hn]
  cases c.first.kind with
  | element => exact ⟨d, _, rfl, hblank, hmark⟩
  | className | identifier => exact ⟨_, _, rfl, rfl, rfl⟩
  | pseudoClass | pseudoElement => exact ⟨_, _, rfl, rfl, rfl⟩

/-- **White space in front of a compound** becomes one space, unless the compound begins with a
colon: then it is dropped. -/
theorem packed_gap (gap : Gap) (c : Compound) (s : Text) :
    packed (gap.1 ++ (c.textWith id ++ s)) =
      (if c.beginsWithColon then [] else [' ']) ++ (c.textWith packed ++ packed s) := by
  obtain ⟨hne, hgap⟩ := gap.2
  obtain ⟨d, w, hc, hblank, hmark⟩ := c.exists_eq_cons id
  have hcompound := fun prev => packedFrom_compound c prev s
  rw [hc, List.cons_append] at hcompound ⊢
  cases hcolon : c.beginsWithColon with
  | true =>
    -- The colon is a mark here too, although it begins a selector and no value.
    rw [hcolon, if_pos rfl] at hmark
    subst hmark
    have htrim : trimEnd gap.1 = [] := trimEnd_blanks hgap
    have hdropped : spaced (gap.1 ++ ':' :: (w ++ s)) = spaced ([] ++ ':' :: (w ++ s)) := by
      rw [spaced_append_mark rfl (by decide) (by decide), htrim,
        spaced_append_mark rfl (by decide) (by decide) []]
      rfl
    rw [packed, hdropped, List.nil_append, if_pos rfl, List.nil_append]
    exact hcompound none
  | false =>
    rw [hcolon, if_neg Bool.false_ne_true] at hmark
    rw [packed_blanks_append hne hgap hblank hmark, hcompound, if_neg Bool.false_ne_true]
    rfl

/-! ## Lists of selectors -/

/-- The text of a list of selectors, with commas between them. -/
def listText (list : List DescendantSelector) : Text :=
  [','].intercalate (list.map DescendantSelector.text)

theorem packed_others (others : List (Gap × Compound)) (s : Text) :
    packed (others.flatMap (fun part => part.1.1 ++ part.2.textWith id) ++ s) =
      others.flatMap (fun part => (if part.2.beginsWithColon then [] else [' ']) ++
        part.2.textWith packed) ++ packed s := by
  induction others with
  | nil => rfl
  | cons part others ih =>
    rw [List.flatMap_cons, List.flatMap_cons, List.append_assoc, List.append_assoc, packed_gap, ih]
    simp only [List.append_assoc]

/-- The selector without the white space in front of it. -/
theorem DescendantSelector.trimStart_text_append (a : DescendantSelector) (s : Text) :
    trimStart (a.text ++ s) = a.first.textWith id ++
      (a.others.flatMap (fun part => part.1.1 ++ part.2.textWith id) ++ (a.back.1 ++ s)) := by
  have hassoc : a.text ++ s = a.front.1 ++ (a.first.textWith id ++
      (a.others.flatMap (fun part => part.1.1 ++ part.2.textWith id) ++ (a.back.1 ++ s))) := by
    simp only [DescendantSelector.text, List.append_assoc]
  rw [hassoc]
  refine trimStart_blanks_append a.front.2 fun c hc => ?_
  obtain ⟨d, w, hd, hblank, -⟩ := a.first.exists_eq_cons id
  rw [hd] at hc
  exact Option.some.inj hc ▸ hblank

/-- A selector in front of a comma or of the block of its rule. -/
theorem packedFrom_selector {m : Char} (hm : isMark m = true) (hcolon : m ≠ ':') (hsemi : m ≠ ';')
    (hclose : m ≠ '\x7d') (a : DescendantSelector) (prev : Option Char) (s : Text) :
    packedFrom prev (trimStart (a.text ++ m :: s)) = a.glued ++ m :: packed (trimStart s) := by
  have hback : trimEnd a.back.1 = [] := trimEnd_blanks a.back.2
  have hmark := packedFrom_append_mark hm hcolon hsemi hclose none a.back.1 s
  rw [hback, packedFrom_none, packedFrom_none, packed_nil, List.nil_append] at hmark
  rw [a.trimStart_text_append, packedFrom_compound, packed_others, hmark, DescendantSelector.glued,
    DescendantSelector.joined, List.append_assoc]

theorem listText_cons_cons (a b : DescendantSelector) (list : List DescendantSelector) (s : Text) :
    listText (a :: b :: list) ++ s = a.text ++ ',' :: (listText (b :: list) ++ s) := by
  simp [listText]

/-- **A list of selectors is minified** selector by selector. -/
theorem packedFrom_list (list : List DescendantSelector) (prev : Option Char) (s : Text) :
    packedFrom prev (trimStart (listText list ++ '\x7b' :: s)) =
      [','].intercalate (list.map DescendantSelector.glued) ++ '\x7b' :: packed (trimStart s) := by
  induction list generalizing prev with
  | nil =>
    have hmark := packedFrom_append_mark (m := '\x7b') rfl (by decide) (by decide) (by decide)
      prev [] s
    rw [show trimEnd [] = [] from rfl, packedFrom_nil] at hmark
    exact hmark
  | cons a list ih =>
    cases list with
    | nil =>
      rw [listText, List.map_singleton, List.intercalate_singleton, List.map_singleton,
        List.intercalate_singleton]
      exact packedFrom_selector rfl (by decide) (by decide) (by decide) a prev s
    | cons b list =>
      rw [listText_cons_cons, packedFrom_selector rfl (by decide) (by decide) (by decide),
        ← packedFrom_none, ih]
      simp

/-- What a rule begins with. -/
theorem head?_trimStart_list (list : List DescendantSelector) (s : Text) :
    ∃ c, (trimStart (listText list ++ '\x7b' :: s)).head? = some c ∧ isBlank c = false ∧ c ≠ ';' ∧
      c ≠ '\x7d' := by
  cases list with
  | nil => exact ⟨'\x7b', rfl, rfl, by decide, by decide⟩
  | cons a list =>
    obtain ⟨u, hu⟩ : ∃ u, listText (a :: list) ++ '\x7b' :: s = a.text ++ u := by
      cases list with
      | nil => exact ⟨_, by rw [listText, List.map_singleton, List.intercalate_singleton]⟩
      | cons b list => exact ⟨_, listText_cons_cons a b list _⟩
    obtain ⟨d, w, hd, hblank, hcolon⟩ := a.first.exists_eq_cons id
    rw [hu, a.trimStart_text_append, hd]
    refine ⟨d, rfl, hblank, ?_, ?_⟩
    all_goals
      rintro rfl
      split at hcolon
      · exact absurd hcolon (by decide)
      · exact absurd hcolon (by decide)

/-! ## Rules in their place -/

/-- A character behind which a rule may begin. -/
def isRuleFront (c : Char) : Bool := c == '\x7b' || c == '\x7d' || c == ';'

/-- **What stands behind a delimiter is minified on its own.** -/
theorem exists_packed_append_delimiter {d : Char} (hd : isRuleFront d = true) (f : Text) :
    ∃ w, ∀ s : Text, (trimStart s).head? ≠ some '\x7d' →
      packed (f ++ d :: s) = w ++ d :: packed (trimStart s) := by
  simp only [isRuleFront, Bool.or_eq_true, beq_iff_eq] at hd
  rcases hd with (rfl | rfl) | rfl
  · exact ⟨_, fun s _ =>
      packedFrom_append_mark rfl (by decide) (by decide) (by decide) none f s⟩
  · exact ⟨_, fun s _ => packedFrom_append_close none f s⟩
  · exact ⟨_, fun s hs => packedFrom_append_semicolon hs none⟩

theorem trim_append_cons {c d : Char} (hc : isBlank c = false) (hd : isBlank d = false)
    (u v w : Text) :
    trim (u ++ c :: (v ++ d :: w)) = trim (u ++ [c]) ++ (v ++ d :: trimEnd w) := by
  have hstart : ∀ t, trim (u ++ c :: t) = trimStart u ++ c :: trimEnd t := fun t =>
    (congrArg trimEnd (trimStart_append_cons hc u t)).trans (trimEnd_append_cons hc _ t)
  have hnil : trimEnd [] = ([] : Text) := rfl
  rw [hstart, hstart, hnil, trimEnd_append_cons hd]
  simp

/-- **How a rule of compounds is minified:** what stands in front of it and behind its opening brace
is minified on its own. -/
theorem minify_eq_glued {t front rest : Text} {list : List DescendantSelector}
    (ht : comment.erase t = front ++ (listText list ++ '\x7b' :: rest))
    (hfront : ∀ c ∈ front.getLast?, isRuleFront c = true) :
    minify t = trim (packed front) ++ ([','].intercalate (list.map DescendantSelector.glued) ++
      '\x7b' :: trimEnd (packed (trimStart rest))) := by
  obtain ⟨c, hhead, hblank, hsemi, hclose⟩ := head?_trimStart_list list rest
  have hlist := fun prev => packedFrom_list list prev rest
  rw [minify_eq_trim, ht]
  rcases List.eq_nil_or_concat front with rfl | ⟨f, d, rfl⟩
  · -- At the start the white space is trimmed, not dropped beside a delimiter.
    obtain ⟨w, prev, hw, hpacked⟩ :=
      exists_packedFrom_eq none (listText list ++ '\x7b' :: rest)
    have hfirst :
        (packedFrom prev (trimStart (listText list ++ '\x7b' :: rest))).head? = some c := by
      rw [head?_packedFrom, hhead]
      rw [hhead]
      exact fun d hd => Option.some.inj hd ▸ ⟨hblank, hsemi⟩
    rw [packedFrom_none, hlist] at hpacked
    rw [hlist] at hfirst
    rw [List.nil_append, hpacked, packed_nil]
    refine (congrArg trimEnd (trimStart_blanks_append hw ?_)).trans (trimEnd_append_cons rfl _ _)
    rw [hfirst]
    exact fun d hd => Option.some.inj hd ▸ hblank
  · rw [List.concat_eq_append] at hfront ⊢
    have hd : isRuleFront d = true := hfront d (by simp)
    have hdblank : isBlank d = false := by
      simp only [isRuleFront, Bool.or_eq_true, beq_iff_eq] at hd
      rcases hd with (rfl | rfl) | rfl <;> rfl
    obtain ⟨w, hw⟩ := exists_packed_append_delimiter hd f
    have hend : packed (f ++ [d]) = w ++ [d] := by
      rw [hw [] (by decide), show trimStart [] = ([] : Text) from rfl, packed_nil]
    rw [hend, List.append_assoc, List.singleton_append, hw _ ?_, ← packedFrom_none, hlist]
    · exact trim_append_cons hdblank rfl w _ _
    · rw [hhead]
      exact fun he => hclose (Option.some.inj he)

/-! ## What is glued -/

theorem length_glued (a : DescendantSelector) :
    a.glued.length ≤ a.apart.length ∧
      (a.apart.length ≤ a.glued.length → ∀ part ∈ a.others, part.2.beginsWithColon = false) := by
  rw [DescendantSelector.glued, DescendantSelector.apart, DescendantSelector.joined,
    DescendantSelector.joined, List.length_append, List.length_append]
  induction a.others with
  | nil => exact ⟨Nat.le_refl _, fun _ part h => absurd h List.not_mem_nil⟩
  | cons part others ih =>
    obtain ⟨hle, hfree⟩ := ih
    simp only [List.flatMap_cons, List.length_append, List.forall_mem_cons]
    cases part.2.beginsWithColon with
    | true =>
      simp only [if_true, List.length_nil, List.length_singleton]
      exact ⟨by omega, by omega⟩
    | false =>
      simp only [Bool.false_eq_true, if_false, List.length_singleton]
      exact ⟨by omega, fun h => ⟨trivial, hfree (by omega)⟩⟩

theorem glued_eq_apart {a : DescendantSelector}
    (h : ∀ part ∈ a.others, part.2.beginsWithColon = false) : a.glued = a.apart := by
  rw [DescendantSelector.glued, DescendantSelector.apart, DescendantSelector.joined,
    DescendantSelector.joined]
  congr 1
  refine List.flatMap_congr fun part hpart => ?_
  rw [h part hpart, if_neg Bool.false_ne_true]

/-- Selectors with glued compounds give a shorter list. -/
theorem length_intercalate_glued (list : List DescendantSelector) :
    ([','].intercalate (list.map DescendantSelector.glued)).length ≤
        ([','].intercalate (list.map DescendantSelector.apart)).length ∧
      (([','].intercalate (list.map DescendantSelector.apart)).length ≤
          ([','].intercalate (list.map DescendantSelector.glued)).length →
        ∀ a ∈ list, ∀ part ∈ a.others, part.2.beginsWithColon = false) := by
  induction list with
  | nil => exact ⟨Nat.le_refl _, fun _ a h => absurd h List.not_mem_nil⟩
  | cons a list ih =>
    obtain ⟨hle, hfree⟩ := length_glued a
    obtain ⟨hleRest, hfreeRest⟩ := ih
    rw [List.forall_mem_cons]
    cases list with
    | nil =>
      simp only [List.map_singleton, List.intercalate_singleton]
      exact ⟨hle, fun h => ⟨hfree h, fun _ h => absurd h List.not_mem_nil⟩⟩
    | cons b list =>
      simp only [List.map_cons] at hleRest hfreeRest
      simp only [List.map_cons, List.intercalate_cons_cons, List.length_append]
      exact ⟨by omega, fun h => ⟨hfree (by omega), hfreeRest (by omega)⟩⟩

/-- **Minifying keeps compounds apart** by one space, with the same compounds in the same order,
exactly if no compound behind white space begins with a pseudo-class or a pseudo-element. Those that
do are glued to the compound in front of them, and nothing else is. -/
theorem minify_rule {t front rest : Text} {list : List DescendantSelector}
    (ht : comment.erase t = front ++ (listText list ++ '\x7b' :: rest))
    (hfront : ∀ c ∈ front.getLast?, isRuleFront c = true) :
    minify t = trim (packed front) ++ ([','].intercalate (list.map DescendantSelector.glued) ++
        '\x7b' :: trimEnd (packed (trimStart rest))) ∧
      (minify t = trim (packed front) ++ ([','].intercalate (list.map DescendantSelector.apart) ++
          '\x7b' :: trimEnd (packed (trimStart rest))) ↔
        ∀ a ∈ list, ∀ part ∈ a.others, part.2.beginsWithColon = false) := by
  have hglued := minify_eq_glued ht hfront
  refine ⟨hglued, ?_⟩
  rw [hglued, List.append_cancel_left_eq, List.append_cancel_right_eq]
  constructor
  · intro h
    exact (length_intercalate_glued list).2 (by rw [h])
  · intro h
    exact congrArg _ (List.map_congr_left fun a ha => glued_eq_apart (h a ha))

/-- An element inside of a class, and a pseudo-class with an argument. -/
def elementInside : DescendantSelector where
  front := ⟨['\n'], forall_mem_of_all rfl⟩
  first := ⟨⟨.className, .ofText ['a'] rfl, none⟩, []⟩
  others := [(⟨[' ', '\n'], List.cons_ne_nil _ _, forall_mem_of_all rfl⟩,
    ⟨⟨.element, .ofText ['b'] rfl, none⟩,
      [⟨.pseudoClass, .ofText "not".toList rfl, some ".c  d".toList⟩]⟩)]
  back := ⟨[' '], forall_mem_of_all rfl⟩

theorem minify_rule_element :
    comment.erase "x\x7b\x7d/* y */\n.a \nb:not(.c  d) \x7bfill: red\x7d".toList =
        "x\x7b\x7d".toList ++ (listText [elementInside] ++ '\x7b' :: "fill: red\x7d".toList) ∧
      minify "x\x7b\x7d/* y */\n.a \nb:not(.c  d) \x7bfill: red\x7d".toList =
        "x\x7b\x7d.a b:not(.c d)\x7bfill:red\x7d".toList := by
  have ht : comment.erase "x\x7b\x7d/* y */\n.a \nb:not(.c  d) \x7bfill: red\x7d".toList =
      "x\x7b\x7d".toList ++ (listText [elementInside] ++ '\x7b' :: "fill: red\x7d".toList) := by
    decide +kernel
  have hcolon : ∀ a ∈ [elementInside], ∀ part ∈ a.others, part.2.beginsWithColon = false := by
    simp [elementInside, Compound.beginsWithColon]
  have hfront : ∀ c ∈ "x\x7b\x7d".toList.getLast?, isRuleFront c = true := by
    intro c hc
    obtain rfl : '\x7d' = c := Option.some.inj hc
    rfl
  refine ⟨ht, ((minify_rule ht hfront).2.2 hcolon).trans ?_⟩
  decide +kernel

/-- A pseudo-class inside of an element. -/
def hoverInside : DescendantSelector where
  front := ⟨[], forall_mem_of_all rfl⟩
  first := ⟨⟨.element, .ofText ['a'] rfl, none⟩, []⟩
  others := [(⟨[' '], List.cons_ne_nil _ _, forall_mem_of_all rfl⟩,
    ⟨⟨.pseudoClass, .ofText "hover".toList rfl, none⟩, []⟩)]
  back := ⟨[], forall_mem_of_all rfl⟩

/-- **What is hovered inside of an element becomes the hovered element itself.** -/
theorem descendant_hover_glued :
    listText [hoverInside] = "a :hover".toList ∧ hoverInside.apart = "a :hover".toList ∧
      minify "a :hover\x7bfill:red\x7d".toList = "a:hover\x7bfill:red\x7d".toList := by
  decide +kernel

end SvgAssets.Stylesheet
