/-
# SvgAssets.Proofs.Text.Scanning -- how a scan goes on

A scan looks at one position after the other. This module says what one step does
(`scanFrom_of_read`, `scanFrom_of_none`) and, from it, what a scan does with a stretch of text at
whose positions no token can be read: it copies the stretch and goes on behind it
(`scanFrom_append_of_silent`). A text that is silent as a whole has no tokens and is left as it is
by every replacement.
-/
import Mathlib.Data.List.Forall2
import SvgAssets.Text.Casing
import SvgAssets.Text.Pattern

namespace SvgAssets.Pattern

variable {α : Type} (p : Pattern α)

/-! ## One step of a scan -/

theorem scanFrom_of_read {prev : Option Char} {s rest : Text} {a : α}
    (h : p.read prev s = some (a, rest)) :
    p.scanFrom prev s = .token a :: p.scanFrom (p.text a).getLast? rest := by
  cases s with
  | nil =>
    have hs := p.exact h
    exact absurd (List.append_eq_nil_iff.1 hs.symm).1 (p.nonempty h)
  | cons c s =>
    rw [scanFrom]
    split
    · rename_i a' rest' h'
      rw [h] at h'
      cases h'
      rfl
    · rename_i h'
      rw [h] at h'
      cases h'

theorem scanFrom_of_none {prev : Option Char} {c : Char} {s : Text}
    (h : p.read prev (c :: s) = none) :
    p.scanFrom prev (c :: s) = .plain c :: p.scanFrom (some c) s := by
  rw [scanFrom]
  split
  · rename_i h'
    rw [h] at h'
    cases h'
  · rfl

/-- What a scan has found, it has read. -/
theorem exists_read_of_mem_scanFrom {prev : Option Char} {s : Text} {a : α}
    (h : .token a ∈ p.scanFrom prev s) : ∃ prev' s' rest, p.read prev' s' = some (a, rest) := by
  fun_induction scanFrom p prev s with
  | case1 => cases h
  | case2 prev c s b rest hread ih =>
    rcases List.mem_cons.1 h with h | h
    · cases h
      exact ⟨prev, c :: s, rest, hread⟩
    · exact ih h
  | case3 prev c s hread ih =>
    rcases List.mem_cons.1 h with h | h
    · cases h
    · exact ih h

/-- A token that a scan has found stands in the text, and the scan goes on behind it. -/
theorem exists_of_scanFrom_eq {prev : Option Char} {s : Text} {front back : List (Piece α)} {a : α}
    (h : p.scanFrom prev s = front ++ .token a :: back) :
    ∃ u t prev', s = u ++ (p.text a ++ t) ∧ p.scanFrom prev' t = back := by
  fun_induction scanFrom p prev s generalizing front with
  | case1 => simp at h
  | case2 prev c s b rest hread ih =>
    cases front with
    | nil =>
      obtain ⟨hb, hback⟩ := List.cons.inj h
      cases hb
      exact ⟨[], rest, _, p.exact hread, hback⟩
    | cons piece front =>
      obtain ⟨u, t, prev', ht, hback⟩ := ih (List.cons.inj h).2
      exact ⟨p.text b ++ u, t, prev', by rw [p.exact hread, ht, List.append_assoc], hback⟩
  | case3 prev c s hread ih =>
    cases front with
    | nil => cases (List.cons.inj h).1
    | cons piece front =>
      obtain ⟨u, t, prev', ht, hback⟩ := ih (List.cons.inj h).2
      exact ⟨c :: u, t, prev', by rw [ht, List.cons_append], hback⟩

theorem exists_read_of_mem_tokens {s : Text} {a : α} (h : a ∈ p.tokens s) :
    ∃ prev s' rest, p.read prev s' = some (a, rest) := by
  obtain ⟨piece, hpiece, ha⟩ := List.mem_filterMap.1 h
  cases piece with
  | plain c => cases ha
  | token b =>
    cases ha
    exact p.exists_read_of_mem_scanFrom hpiece

/-- Where a pattern does not look back, a scan goes on in the same way behind any character. -/
theorem scanFrom_congr (h : ∀ prev prev' s, p.read prev s = p.read prev' s)
    (prev prev' : Option Char) (s : Text) : p.scanFrom prev s = p.scanFrom prev' s := by
  induction s generalizing prev prev' with
  | nil => rw [scanFrom, scanFrom]
  | cons c s ih =>
    cases hread : p.read prev (c :: s) with
    | none =>
      rw [p.scanFrom_of_none hread, p.scanFrom_of_none ((h prev' prev _).trans hread)]
    | some found =>
      rw [p.scanFrom_of_read hread, p.scanFrom_of_read ((h prev' prev _).trans hread)]

/-! ## The first token -/

/-- A token that is found can be read behind the text in front of it. -/
theorem exists_read_of_firstFrom {prev : Option Char} {s before rest : Text} {a : α}
    (h : p.firstFrom prev s = some (before, a, rest)) :
    ∃ prev', p.read prev' (p.text a ++ rest) = some (a, rest) := by
  fun_induction firstFrom p prev s generalizing before with
  | case1 => cases h
  | case2 prev c s b r hread =>
    cases h
    exact ⟨prev, by rw [← p.exact hread, hread]⟩
  | case3 prev c s hread ih =>
    obtain ⟨⟨b, found⟩, hfound, he⟩ := Option.map_eq_some_iff.1 h
    cases he
    exact ih hfound

/-- A token that can be read somewhere is found. -/
theorem firstFrom_ne_none {u v : Text} (hv : v ≠ []) (h : ∀ prev, p.read prev v ≠ none)
    (prev : Option Char) : p.firstFrom prev (u ++ v) ≠ none := by
  induction u generalizing prev with
  | nil =>
    obtain ⟨c, v, rfl⟩ := List.exists_cons_of_ne_nil hv
    rw [List.nil_append, firstFrom]
    split
    · simp
    · rename_i hnone
      exact absurd hnone (h prev)
  | cons c u ih =>
    rw [List.cons_append, firstFrom]
    split
    · simp
    · rw [Ne, Option.map_eq_none_iff]
      exact ih (some c)

/-! ## Replacing behind a position -/

/-- `s` with every token replaced, where `prev` is the character in front of `s`. -/
def replaceFrom (f : α → Text) (prev : Option Char) (s : Text) : Text :=
  (p.scanFrom prev s).flatMap fun
    | .plain c => [c]
    | .token a => f a

theorem replaceFrom_nil (f : α → Text) (prev : Option Char) : p.replaceFrom f prev [] = [] := by
  rw [replaceFrom, scanFrom]
  rfl

theorem replaceFrom_of_read {f : α → Text} {prev : Option Char} {s rest : Text} {a : α}
    (h : p.read prev s = some (a, rest)) :
    p.replaceFrom f prev s = f a ++ p.replaceFrom f (p.text a).getLast? rest := by
  rw [replaceFrom, p.scanFrom_of_read h]
  rfl

theorem replaceFrom_of_none {f : α → Text} {prev : Option Char} {c : Char} {s : Text}
    (h : p.read prev (c :: s) = none) :
    p.replaceFrom f prev (c :: s) = c :: p.replaceFrom f (some c) s := by
  rw [replaceFrom, p.scanFrom_of_none h]
  rfl

/-! ## Lengths -/

/-- The text of a piece with a token replaced. -/
def replacement (f : α → Text) : Piece α → Text
  | .plain c => [c]
  | .token a => f a

theorem length_flatMap_replacement_le {f : α → Text}
    (hf : ∀ a, (f a).length ≤ (p.text a).length) (pieces : List (Piece α)) :
    (pieces.flatMap (replacement f)).length ≤ (pieces.flatMap p.pieceText).length := by
  induction pieces with
  | nil => exact Nat.le_refl _
  | cons piece pieces ih =>
    rw [List.flatMap_cons, List.flatMap_cons, List.length_append, List.length_append]
    cases piece with
    | plain c => exact Nat.add_le_add_left ih 1
    | token a => exact Nat.add_le_add (hf a) ih

/-- A text whose tokens are replaced by nothing longer does not get longer. -/
theorem length_replace_le {f : α → Text} (hf : ∀ a, (f a).length ≤ (p.text a).length) (s : Text) :
    (p.replace f s).length ≤ s.length := by
  conv => rhs; rw [← p.text_scan s]
  exact p.length_flatMap_replacement_le hf (p.scan s)

/-- A text gets shorter when tokens are taken out of it. -/
theorem length_erase_lt {s : Text} (h : p.tokens s ≠ []) : (p.erase s).length < s.length := by
  obtain ⟨a, ha⟩ := List.exists_mem_of_ne_nil _ h
  obtain ⟨prev, s', rest, hread⟩ := p.exists_read_of_mem_tokens ha
  obtain ⟨piece, hpiece, he⟩ := List.mem_filterMap.1 ha
  cases piece with
  | plain c => cases he
  | token b =>
    cases he
    obtain ⟨before, behind, hscan⟩ := List.append_of_mem hpiece
    have hle := p.length_flatMap_replacement_le (f := fun _ => []) (fun _ => Nat.zero_le _)
    have hbefore := hle before
    have hbehind := hle behind
    have hpos := List.length_pos_iff.2 (p.nonempty hread)
    have hlength := congrArg List.length (p.text_scan s)
    have herase : p.erase s = (p.scan s).flatMap (replacement fun _ => []) := rfl
    rw [herase, hscan, List.flatMap_append, List.flatMap_cons, replacement, List.length_append,
      List.nil_append]
    rw [hscan, List.flatMap_append, List.flatMap_cons, pieceText, List.length_append,
      List.length_append] at hlength
    omega

/-! ## Silent stretches -/

/-- No token can be read at any position of the first text, where `prev` is the character in front
of it and the second text follows. -/
def Silent (prev : Option Char) : Text → Text → Prop
  | [], _ => True
  | c :: w, t => p.read prev (c :: w ++ t) = none ∧ Silent (some c) w t

/-- The character that a scan has behind it once it has passed `w`. -/
def behind (prev : Option Char) (w : Text) : Option Char := w.getLast?.or prev

@[simp] theorem behind_nil (prev : Option Char) : behind prev [] = prev := rfl

@[simp] theorem behind_cons (prev : Option Char) (c : Char) (w : Text) :
    behind prev (c :: w) = behind (some c) w := by
  cases w with
  | nil => rfl
  | cons d w => simp [behind, List.getLast?_cons]

theorem behind_append (prev : Option Char) (v w : Text) :
    behind prev (v ++ w) = behind (behind prev v) w := by
  induction v generalizing prev with
  | nil => rfl
  | cons c v ih => simp [ih]

theorem silent_append {prev : Option Char} {v w t : Text} :
    p.Silent prev (v ++ w) t ↔ p.Silent prev v (w ++ t) ∧ p.Silent (behind prev v) w t := by
  induction v generalizing prev with
  | nil => simp [Silent]
  | cons c v ih => simp [Silent, ih, and_assoc]

/-- Where no position can be read, whatever stands in front of it, the text is silent. -/
theorem silent_of_forall_suffix {w t : Text}
    (h : ∀ v, v ≠ [] → v <:+ w → ∀ prev, p.read prev (v ++ t) = none) (prev : Option Char) :
    p.Silent prev w t := by
  induction w generalizing prev with
  | nil => trivial
  | cons c w ih =>
    refine ⟨h (c :: w) (by simp) (List.suffix_refl _) prev, ?_⟩
    exact ih (fun v hne hv => h v hne (hv.trans (List.suffix_cons c w))) (some c)

/-- A scan copies a silent stretch and goes on behind it. -/
theorem scanFrom_append_of_silent {prev : Option Char} {w t : Text} (h : p.Silent prev w t) :
    p.scanFrom prev (w ++ t) = w.map .plain ++ p.scanFrom (behind prev w) t := by
  induction w generalizing prev with
  | nil => rfl
  | cons c w ih =>
    rw [Silent, List.cons_append] at h
    rw [List.cons_append, p.scanFrom_of_none h.1, ih h.2, behind_cons]
    rfl

/-- A text without a position to read from is scanned as its characters. -/
theorem scan_of_silent {s : Text} (h : p.Silent none s []) : p.scan s = s.map .plain := by
  have hs := p.scanFrom_append_of_silent h
  rw [List.append_nil] at hs
  rw [scan, hs, scanFrom, List.append_nil]

theorem tokens_of_silent {s : Text} (h : p.Silent none s []) : p.tokens s = [] := by
  rw [tokens, p.scan_of_silent h, List.filterMap_map]
  exact List.filterMap_eq_nil_iff.2 fun _ _ => rfl

/-- Nothing can be read anywhere in a text without tokens. -/
theorem silent_of_tokens_eq_nil {s : Text} (h : p.tokens s = []) : p.Silent none s [] := by
  have hfrom : ∀ (s : Text) (prev : Option Char), (∀ a, .token a ∉ p.scanFrom prev s) →
      p.Silent prev s [] := by
    intro s
    induction s with
    | nil => exact fun _ _ => trivial
    | cons c s ih =>
      intro prev hnone
      cases hread : p.read prev (c :: s) with
      | none =>
        rw [p.scanFrom_of_none hread] at hnone
        refine ⟨by rwa [List.append_nil], ih (some c) fun a ha => hnone a ?_⟩
        exact List.mem_cons_of_mem _ ha
      | some found =>
        rw [p.scanFrom_of_read hread] at hnone
        exact absurd (List.mem_cons_self ..) (hnone found.1)
  refine hfrom s none fun a ha => ?_
  have hmem : a ∈ p.tokens s := List.mem_filterMap.2 ⟨.token a, ha, rfl⟩
  rw [h] at hmem
  cases hmem

theorem replace_of_silent {s : Text} (h : p.Silent none s []) (f : α → Text) :
    p.replace f s = s := by
  rw [replace, p.scan_of_silent h, List.flatMap_map]
  exact List.flatMap_singleton' s

/-- A text without tokens is left as it is. -/
theorem replace_of_tokens_eq_nil {s : Text} (h : p.tokens s = []) (f : α → Text) :
    p.replace f s = s :=
  p.replace_of_silent (p.silent_of_tokens_eq_nil h) f

end SvgAssets.Pattern

/-! ## Runs -/

namespace SvgAssets.Text

/-- A run is what it consumes, characters of its class only, and a rest that begins with none. -/
theorem run_eq_iff {q : Char → Bool} {s w t : Text} :
    run q s = (w, t) ↔ s = w ++ t ∧ (∀ c ∈ w, q c = true) ∧ ∀ c ∈ t.head?, q c = false := by
  constructor
  · intro h
    refine ⟨eq_append_of_run h, ?_, ?_⟩
    · intro c hc
      rw [run, Prod.mk.injEq] at h
      rw [← h.1] at hc
      exact List.all_eq_true.1 List.all_takeWhile c hc
    · intro c hc
      rw [run, Prod.mk.injEq] at h
      rw [← h.2] at hc
      have hne : s.dropWhile q ≠ [] := by
        rintro he
        rw [he] at hc
        cases hc
      have hh := List.head_dropWhile_not q hne
      rw [List.head?_eq_some_head hne, Option.mem_some_iff] at hc
      rwa [hc] at hh
  · rintro ⟨rfl, hw, ht⟩
    induction w with
    | nil =>
      cases t with
      | nil => rfl
      | cons c t => simp [run, ht c (by simp)]
    | cons c w ih =>
      have hc := hw c (by simp)
      have hrun := ih fun d hd => hw d (List.mem_cons_of_mem c hd)
      rw [run, Prod.mk.injEq] at hrun
      simp [run, hc, hrun.1, hrun.2]

theorem run_append_cons {q : Char → Bool} {w t : Text} {c : Char} (hw : ∀ d ∈ w, q d = true)
    (hc : q c = false) : run q (w ++ c :: t) = (w, c :: t) :=
  run_eq_iff.2 ⟨rfl, hw, by simpa using hc⟩

/-- Two ways to cut a text behind a run cut it at the same place. -/
theorem eq_of_append_eq_append {q : Char → Bool} {v w s t : Text} {c d : Char}
    (hv : ∀ x ∈ v, q x = true) (hw : ∀ x ∈ w, q x = true) (hc : q c = false) (hd : q d = false)
    (h : v ++ c :: s = w ++ d :: t) : v = w ∧ c = d ∧ s = t := by
  have hrun := run_append_cons (t := s) hv hc
  rw [h, run_append_cons hw hd, Prod.mk.injEq, List.cons.injEq] at hrun
  exact ⟨hrun.1.symm, hrun.2.1.symm, hrun.2.2.symm⟩

/-- What holds of all characters of a text can be decided by going through the text. -/
theorem forall_mem_of_all {P : Char → Prop} [DecidablePred P] {s : Text}
    (h : (s.all fun c => decide (P c)) = true) : ∀ c ∈ s, P c := by
  intro c hc
  exact of_decide_eq_true (List.all_eq_true.1 h c hc)

/-- A text consists of characters of a class, or has a first one that is not of it. -/
theorem forall_or_exists_eq_append (q : Char → Bool) (s : Text) :
    (∀ c ∈ s, q c = true) ∨
      ∃ v c w, s = v ++ c :: w ∧ (∀ d ∈ v, q d = true) ∧ q c = false := by
  induction s with
  | nil => exact .inl fun _ h => absurd h List.not_mem_nil
  | cons c s ih =>
    cases hc : q c with
    | false => exact .inr ⟨[], c, s, rfl, fun _ h => absurd h List.not_mem_nil, hc⟩
    | true =>
      rcases ih with ih | ⟨v, d, w, rfl, hv, hd⟩
      · exact .inl (List.forall_mem_cons.2 ⟨hc, ih⟩)
      · exact .inr ⟨c :: v, d, w, rfl, List.forall_mem_cons.2 ⟨hc, hv⟩, hd⟩

/-! ## Keywords -/

/-- A keyword is found where its letters, in any case, stand in front. -/
theorem keyword?_eq_some_iff {keyword s form rest : Text} :
    keyword? keyword s = some (form, rest) ↔
      List.Forall₂ (fun letter c => sameLetter letter c = true) keyword form ∧
        s = form ++ rest := by
  constructor
  · intro h
    fun_induction keyword? keyword s generalizing form rest with
    | case1 s =>
      cases h
      exact ⟨.nil, rfl⟩
    | case2 => cases h
    | case3 a keyword c s hc ih =>
      obtain ⟨⟨f, r⟩, hf, he⟩ := Option.map_eq_some_iff.1 h
      cases he
      obtain ⟨hform, hs⟩ := ih hf
      exact ⟨.cons hc hform, by rw [hs, List.cons_append]⟩
    | case4 => cases h
  · rintro ⟨hform, rfl⟩
    induction hform with
    | nil => rfl
    | cons hc _ ih => rw [List.cons_append, keyword?, if_pos hc, ih]; rfl

/-! ## Breaks at a character -/

theorem breakAt?_append_cons {sep : Char} {s : Text} (h : sep ∉ s) (t : Text) :
    breakAt? [sep] (s ++ sep :: t) = some (s, t) := by
  induction s with
  | nil => simp [breakAt?, after?]
  | cons c s ih =>
    rw [List.mem_cons, not_or] at h
    simp [breakAt?, after?, h.1, ih h.2]

theorem breakAt?_of_not_mem {sep : Char} {s : Text} (h : sep ∉ s) : breakAt? [sep] s = none := by
  induction s with
  | nil => rfl
  | cons c s ih =>
    rw [List.mem_cons, not_or] at h
    simp [breakAt?, after?, h.1, ih h.2]

/-- Where a text occurs, a text is broken. -/
theorem breakAt?_ne_none {stop s : Text} (h : stop <:+: s) : breakAt? stop s ≠ none := by
  induction s with
  | nil =>
    rw [List.infix_nil.1 h]
    simp [breakAt?, after?]
  | cons c s ih =>
    rw [breakAt?]
    split
    · simp
    · rename_i hafter
      rw [Ne, Option.map_eq_none_iff]
      refine ih ((List.infix_cons_iff.1 h).resolve_left ?_)
      rintro ⟨t, ht⟩
      rw [after?_eq_some_iff.2 ht.symm] at hafter
      cases hafter

/-- A text is broken at the first occurrence of a character, if there is one. -/
theorem breakAt?_cases (sep : Char) (s : Text) :
    (breakAt? [sep] s = none ∧ sep ∉ s) ∨
      ∃ v t, breakAt? [sep] s = some (v, t) ∧ s = v ++ sep :: t ∧ sep ∉ v := by
  have not_mem : ∀ {v : Text}, (∀ c ∈ v, (c != sep) = true) → sep ∉ v := by
    intro v hv hmem
    have := hv sep hmem
    simp at this
  rcases forall_or_exists_eq_append (· != sep) s with h | ⟨v, c, t, rfl, hv, hc⟩
  · exact .inl ⟨breakAt?_of_not_mem (not_mem h), not_mem h⟩
  · obtain rfl : c = sep := by simpa using hc
    exact .inr ⟨v, t, breakAt?_append_cons (not_mem hv) t, rfl, not_mem hv⟩

/-! ## Trimmed texts -/

/-- What is dropped at the end is a run of the class. -/
theorem exists_eq_dropEndWhile_append (q : Char → Bool) (s : Text) :
    ∃ w, s = dropEndWhile q s ++ w ∧ ∀ c ∈ w, q c = true := by
  refine ⟨(s.reverse.takeWhile q).reverse, ?_, fun c hc => ?_⟩
  · rw [dropEndWhile, ← List.reverse_append, List.takeWhile_append_dropWhile, List.reverse_reverse]
  · exact List.all_eq_true.1 List.all_takeWhile c (List.mem_reverse.1 hc)

/-- What is dropped around a text is of the class that is dropped. -/
theorem exists_eq_append_dropAround (q : Char → Bool) (s : Text) :
    ∃ v w, s = v ++ dropAround q s ++ w ∧ (∀ c ∈ v, q c = true) ∧ ∀ c ∈ w, q c = true := by
  obtain ⟨w, hw, hq⟩ := exists_eq_dropEndWhile_append q (s.dropWhile q)
  refine ⟨s.takeWhile q, w, ?_, fun c hc => List.all_eq_true.1 List.all_takeWhile c hc, hq⟩
  rw [dropAround, List.append_assoc, ← hw, List.takeWhile_append_dropWhile]

/-- What trimming takes away is white space. -/
theorem exists_eq_append_trim (s : Text) :
    ∃ v w, s = v ++ trim s ++ w ∧ (∀ c ∈ v, isBlank c = true) ∧ ∀ c ∈ w, isBlank c = true :=
  exists_eq_append_dropAround isBlank s

theorem exists_eq_trimEnd_append (s : Text) :
    ∃ w, s = trimEnd s ++ w ∧ ∀ c ∈ w, isBlank c = true :=
  exists_eq_dropEndWhile_append isBlank s

theorem dropEndWhile_eq_self_iff {q : Char → Bool} {s : Text} :
    dropEndWhile q s = s ↔ ∀ c ∈ s.getLast?, q c = false := by
  rw [dropEndWhile, List.reverse_eq_iff]
  cases hs : s.reverse with
  | nil =>
    rw [List.reverse_eq_nil_iff] at hs
    simp [hs]
  | cons c w =>
    have hlast : s.getLast? = some c := by
      rw [← List.head?_reverse, hs]
      rfl
    rw [hlast, List.dropWhile_cons]
    cases hq : q c with
    | false => simp [hq]
    | true =>
      have hlt := (List.dropWhile_sublist (l := w) q).length_le
      simp only [if_true, Option.mem_def, Option.some.injEq, forall_eq', hq, reduceCtorEq,
        iff_false]
      intro he
      have := congrArg List.length he
      simp only [List.length_cons] at this
      omega

theorem getLast?_dropEndWhile {q : Char → Bool} {s : Text} :
    ∀ c ∈ (dropEndWhile q s).getLast?, q c = false := by
  intro c hc
  rw [dropEndWhile, List.getLast?_reverse] at hc
  exact ((run_eq_iff (q := q)).1 rfl).2.2 c hc

/-- A first character is dropped only with all that stands behind it. -/
theorem dropEndWhile_cons {q : Char → Bool} (c : Char) (s : Text) : dropEndWhile q (c :: s) =
    if dropEndWhile q s = [] ∧ q c = true then [] else c :: dropEndWhile q s := by
  rw [dropEndWhile, dropEndWhile, List.reverse_cons, List.dropWhile_append]
  by_cases hs : s.reverse.dropWhile q = []
  · cases hc : q c <;> simp [hs, hc]
  · simp [hs]

/-- A text ends where the run at its end begins. -/
theorem dropEndWhile_append {q : Char → Bool} {v w : Text} (hv : ∀ c ∈ v.getLast?, q c = false)
    (hw : ∀ c ∈ w, q c = true) : dropEndWhile q (v ++ w) = v := by
  rw [dropEndWhile, List.reverse_append,
    List.dropWhile_append_of_pos fun c hc => hw c (List.mem_reverse.1 hc)]
  exact dropEndWhile_eq_self_iff.2 hv

/-! ## Ends cut off -/

section

variable {q : Char → Bool} {s : Text}

theorem getLast?_dropAround : ∀ c ∈ (dropAround q s).getLast?, q c = false :=
  getLast?_dropEndWhile

theorem head?_dropAround : ∀ c ∈ (dropAround q s).head?, q c = false := by
  intro c hc
  -- What is left after the end has been cut off begins as before.
  have hprefix : dropAround q s <+: s.dropWhile q := by
    rw [dropAround, dropEndWhile, ← List.reverse_suffix, List.reverse_reverse]
    exact List.dropWhile_suffix q
  obtain ⟨t, ht⟩ := hprefix
  refine ((run_eq_iff (q := q) (s := s)).1 rfl).2.2 c ?_
  rw [← ht]
  cases hs : dropAround q s with
  | nil => rw [hs] at hc; cases hc
  | cons d w => rwa [hs] at hc

theorem dropAround_eq_self (hhead : ∀ c ∈ s.head?, q c = false)
    (hlast : ∀ c ∈ s.getLast?, q c = false) : dropAround q s = s := by
  have hdrop : s.dropWhile q = s := by
    cases s with
    | nil => rfl
    | cons c s => simp [hhead c (by simp)]
  rw [dropAround, hdrop]
  exact dropEndWhile_eq_self_iff.2 hlast

/-- What stands around a text is dropped, and no more. -/
theorem dropAround_append {v w : Text} (hv : ∀ c ∈ v, q c = true) (hw : ∀ c ∈ w, q c = true)
    (hhead : ∀ c ∈ s.head?, q c = false) (hlast : ∀ c ∈ s.getLast?, q c = false) :
    dropAround q (v ++ s ++ w) = s := by
  cases s with
  | nil =>
    have hnil : (v ++ [] ++ w).dropWhile q = [] := by
      rw [List.append_nil, List.dropWhile_append_of_pos hv, ← List.append_nil w,
        List.dropWhile_append_of_pos hw, List.dropWhile_nil]
    rw [dropAround, hnil]
    rfl
  | cons c s =>
    have hfront : (v ++ c :: s ++ w).dropWhile q = c :: s ++ w := by
      rw [List.append_assoc, List.dropWhile_append_of_pos hv, List.cons_append,
        List.dropWhile_cons_of_neg (by simp [hhead c rfl])]
    have hback : (c :: s ++ w).reverse.dropWhile q = (c :: s).reverse.dropWhile q := by
      rw [List.reverse_append, List.dropWhile_append_of_pos (by simpa using hw)]
    rw [dropAround, hfront, dropEndWhile, hback]
    exact dropEndWhile_eq_self_iff.2 hlast

theorem dropAround_dropAround : dropAround q (dropAround q s) = dropAround q s :=
  dropAround_eq_self head?_dropAround getLast?_dropAround

theorem dropAround_isInfix : dropAround q s <:+: s := by
  rw [dropAround, dropEndWhile]
  refine List.IsInfix.trans ?_ (List.dropWhile_suffix q).isInfix
  rw [← List.reverse_infix, List.reverse_reverse]
  exact (List.dropWhile_suffix q).isInfix

/-- What is kept when a character is taken off an end is kept when ends are dropped. -/
theorem dropAround_induct {P : Text → Prop} (hhead : ∀ c w, q c = true → P (c :: w) → P w)
    (hlast : ∀ c w, q c = true → P (w ++ [c]) → P w) (h : P s) : P (dropAround q s) := by
  have hfront : ∀ s, P s → P (s.dropWhile q) := by
    intro s
    induction s with
    | nil => exact id
    | cons c s ih =>
      intro h
      rw [List.dropWhile_cons]
      split
      · rename_i hc
        exact ih (hhead c s hc h)
      · exact h
  have hback : ∀ s : Text, P s.reverse → P (s.dropWhile q).reverse := by
    intro s
    induction s with
    | nil => exact id
    | cons c s ih =>
      intro h
      rw [List.dropWhile_cons]
      split
      · rename_i hc
        rw [List.reverse_cons] at h
        exact ih (hlast c _ hc h)
      · exact h
  exact hback _ (by rw [List.reverse_reverse]; exact hfront s h)

end

/-- A text is trimmed when it neither begins nor ends with white space. -/
theorem trim_eq_self {s : Text} (hhead : ∀ c ∈ s.head?, isBlank c = false)
    (hlast : ∀ c ∈ s.getLast?, isBlank c = false) : trim s = s :=
  dropAround_eq_self hhead hlast

theorem mem_of_mem_trim {s : Text} {c : Char} (h : c ∈ trim s) : c ∈ s :=
  dropAround_isInfix.subset h

end SvgAssets.Text
