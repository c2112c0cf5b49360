/-
# SvgAssets.Proofs.Text.Passes -- a pass over changed text

When one pattern is replaced after another, the later pass reads what the earlier one has written.
This module says when that makes no difference. A pattern `Spares` a class of stretches if it reads
nothing inside of them and changes nothing that reaches into them. Such a pattern finds the same
tokens before and after changes in stretches of this class, so its own changes can be located in the
text before (`Spares.exists_combines`).
-/
import SvgAssets.Proofs.Text.Overlay
import SvgAssets.Proofs.Text.Scanning

namespace SvgAssets

namespace Pattern

variable {α : Type} (p : Pattern α) (f : α → Option Text)

/-! ## The overlay of one pass -/

/-- A pass over `s` where `prev` is the character in front of it: the tokens that `f` has a new text
for are changed, all else is kept. -/
def overlayFrom (prev : Option Char) (s : Text) : Overlay :=
  (p.scanFrom prev s).flatMap fun
    | .plain c => [.kept c]
    | .token a =>
      match f a with
      | none => Overlay.ofText (p.text a)
      | some new => [.changed (p.text a) new]

theorem overlayFrom_nil (prev : Option Char) : p.overlayFrom f prev [] = [] := by
  rw [overlayFrom, scanFrom]
  rfl

variable {p f}

theorem overlayFrom_of_none {prev : Option Char} {c : Char} {s : Text}
    (h : p.read prev (c :: s) = none) :
    p.overlayFrom f prev (c :: s) = .kept c :: p.overlayFrom f (some c) s := by
  rw [overlayFrom, p.scanFrom_of_none h]
  rfl

theorem overlayFrom_of_keep {prev : Option Char} {s rest : Text} {a : α}
    (h : p.read prev s = some (a, rest)) (hf : f a = none) :
    p.overlayFrom f prev s =
      Overlay.ofText (p.text a) ++ p.overlayFrom f (p.text a).getLast? rest := by
  rw [overlayFrom, p.scanFrom_of_read h, List.flatMap_cons]
  simp only [hf]
  rfl

theorem overlayFrom_of_act {prev : Option Char} {s rest new : Text} {a : α}
    (h : p.read prev s = some (a, rest)) (hf : f a = some new) :
    p.overlayFrom f prev s =
      .changed (p.text a) new :: p.overlayFrom f (p.text a).getLast? rest := by
  rw [overlayFrom, p.scanFrom_of_read h, List.flatMap_cons]
  simp only [hf]
  rfl

/-- An induction over a pass: the end of the text, a character, a token that is kept, and one that
is changed. -/
theorem overlayFrom_induct {motive : Option Char → Text → Overlay → Prop}
    (nil : ∀ prev, motive prev [] [])
    (plain : ∀ prev c s, p.read prev (c :: s) = none →
      motive (some c) s (p.overlayFrom f (some c) s) →
      motive prev (c :: s) (.kept c :: p.overlayFrom f (some c) s))
    (keep : ∀ prev s a rest, p.read prev s = some (a, rest) → f a = none →
      motive (p.text a).getLast? rest (p.overlayFrom f (p.text a).getLast? rest) →
      motive prev s (Overlay.ofText (p.text a) ++ p.overlayFrom f (p.text a).getLast? rest))
    (act : ∀ prev s a rest new, p.read prev s = some (a, rest) → f a = some new →
      motive (p.text a).getLast? rest (p.overlayFrom f (p.text a).getLast? rest) →
      motive prev s (.changed (p.text a) new :: p.overlayFrom f (p.text a).getLast? rest))
    (prev : Option Char) (s : Text) : motive prev s (p.overlayFrom f prev s) := by
  fun_induction scanFrom p prev s with
  | case1 prev =>
    rw [overlayFrom_nil]
    exact nil prev
  | case2 prev c s a rest h ih =>
    cases hf : f a with
    | none =>
      rw [overlayFrom_of_keep h hf]
      exact keep prev (c :: s) a rest h hf ih
    | some new =>
      rw [overlayFrom_of_act h hf]
      exact act prev (c :: s) a rest new h hf ih
  | case3 prev c s h ih =>
    rw [overlayFrom_of_none h]
    exact plain prev c s h ih

/-- A pass reads the text before its changes. -/
theorem old_overlayFrom (prev : Option Char) (s : Text) : (p.overlayFrom f prev s).old = s := by
  refine overlayFrom_induct (motive := fun _ s m => m.old = s) ?_ ?_ ?_ ?_ prev s
  · intro prev
    rfl
  · intro prev c s h ih
    rw [Overlay.old, ih]
  · intro prev s a rest h hf ih
    rw [Overlay.old_append, Overlay.old_ofText, ih, p.exact h]
  · intro prev s a rest new h hf ih
    rw [Overlay.old, ih, p.exact h]

/-- The text after the changes of a pass is that of the replacement. -/
theorem new_overlayFrom {g : α → Text} (hg : ∀ a, g a = (f a).getD (p.text a))
    (prev : Option Char) (s : Text) : (p.overlayFrom f prev s).new = p.replaceFrom g prev s := by
  refine overlayFrom_induct (motive := fun prev s m => m.new = p.replaceFrom g prev s)
    ?_ ?_ ?_ ?_ prev s
  · intro prev
    rw [p.replaceFrom_nil]
    rfl
  · intro prev c s h ih
    rw [p.replaceFrom_of_none h, Overlay.new, ih]
  · intro prev s a rest h hf ih
    rw [p.replaceFrom_of_read h, Overlay.new_append, Overlay.new_ofText, ih, hg, hf]
    rfl
  · intro prev s a rest new h hf ih
    rw [p.replaceFrom_of_read h, Overlay.new, ih, hg, hf]
    rfl

/-! ## Where tokens stand -/

/-- The tokens among pieces, with the places where they begin; the pieces begin at `pos`. -/
def occurrencesFrom (p : Pattern α) (pos : Nat) : List (Piece α) → List (Nat × α)
  | [] => []
  | .plain _ :: rest => occurrencesFrom p (pos + 1) rest
  | .token a :: rest => (pos, a) :: occurrencesFrom p (pos + (p.text a).length) rest

/-- The tokens of a text from left to right, with the places where they begin. -/
def occurrences (p : Pattern α) (s : Text) : List (Nat × α) := p.occurrencesFrom 0 (p.scan s)

/-- The edits of one pass: one for each token of `s` that `f` has a new text for. -/
def editsOf (p : Pattern α) (f : α → Option Text) (s : Text) : List Edit :=
  (p.occurrences s).filterMap fun (pos, a) => (f a).map fun new => ⟨pos, p.text a, new⟩

theorem edits_overlayFrom (prev : Option Char) (s : Text) (pos : Nat) :
    (p.overlayFrom f prev s).edits pos =
      (p.occurrencesFrom pos (p.scanFrom prev s)).filterMap
        fun (pos, a) => (f a).map fun new => ⟨pos, p.text a, new⟩ := by
  refine overlayFrom_induct (motive := fun prev s m => ∀ pos, m.edits pos =
    (p.occurrencesFrom pos (p.scanFrom prev s)).filterMap
      fun (pos, a) => (f a).map fun new => ⟨pos, p.text a, new⟩) ?_ ?_ ?_ ?_ prev s pos
  · intro prev pos
    rw [scanFrom]
    rfl
  · intro prev c s h ih pos
    rw [p.scanFrom_of_none h, Overlay.edits, ih, occurrencesFrom]
  · intro prev s a rest h hf ih pos
    rw [p.scanFrom_of_read h, Overlay.edits_ofText_append, ih, occurrencesFrom,
      List.filterMap_cons]
    simp only [hf, Option.map_none]
  · intro prev s a rest new h hf ih pos
    rw [p.scanFrom_of_read h, Overlay.edits, ih, occurrencesFrom, List.filterMap_cons]
    simp only [hf, Option.map_some]

theorem edits_overlayFrom_none (s : Text) :
    (p.overlayFrom f none s).edits 0 = p.editsOf f s :=
  edits_overlayFrom none s 0

/-- What a pass changes, it has read. -/
theorem exists_read_of_mem_overlayFrom {prev : Option Char} {s o n : Text}
    (h : .changed o n ∈ p.overlayFrom f prev s) :
    ∃ prev' s' a rest, p.read prev' s' = some (a, rest) ∧ p.text a = o ∧ f a = some n := by
  obtain ⟨piece, hpiece, hmem⟩ := List.mem_flatMap.1 h
  cases piece with
  | plain c => simp at hmem
  | token a =>
    obtain ⟨prev', s', rest, hread⟩ := p.exists_read_of_mem_scanFrom hpiece
    cases hf : f a with
    | none => simp [hf, Overlay.ofText] at hmem
    | some new =>
      obtain ⟨rfl, rfl⟩ : o = p.text a ∧ n = new := by simpa [hf] using hmem
      exact ⟨prev', s', a, rest, hread, rfl, hf⟩

/-- What is to be edited has been read. -/
theorem exists_read_of_mem_editsOf {s : Text} {e : Edit} (h : e ∈ p.editsOf f s) :
    ∃ prev s' a rest, p.read prev s' = some (a, rest) ∧ p.text a = e.old ∧ f a = some e.new := by
  rw [← edits_overlayFrom_none] at h
  exact exists_read_of_mem_overlayFrom (Overlay.changed_mem_of_mem_edits h)

/-! ## A pass over changed text -/

variable (p f) in
/-- A pass leaves the first text as it is and goes on behind it, where the second follows. -/
def Copies (prev : Option Char) (w t : Text) : Prop :=
  p.overlayFrom f prev (w ++ t) = Overlay.ofText w ++ p.overlayFrom f (behind prev w) t

theorem copies_of_silent {prev : Option Char} {w t : Text} (h : p.Silent prev w t) :
    p.Copies f prev w t := by
  induction w generalizing prev with
  | nil => rfl
  | cons c w ih =>
    rw [Silent, List.cons_append] at h
    rw [Copies, List.cons_append, overlayFrom_of_none h.1, ih h.2, behind_cons]
    rfl

theorem copies_of_keep {prev : Option Char} {w t : Text} {a : α}
    (h : p.read prev (w ++ t) = some (a, t)) (hw : p.text a = w) (hf : f a = none) :
    p.Copies f prev w t := by
  have hne := p.nonempty h
  rw [Copies, overlayFrom_of_keep h hf, hw, behind]
  rw [hw] at hne
  rw [List.getLast?_eq_some_getLast hne, Option.some_or]

theorem Copies.append {prev : Option Char} {v w t : Text} (hv : p.Copies f prev v (w ++ t))
    (hw : p.Copies f (behind prev v) w t) : p.Copies f prev (v ++ w) t := by
  rw [Copies, List.append_assoc, hv, hw, behind_append, Overlay.ofText_append, List.append_assoc]

variable (p f) in
/-- `m'` is `m` with the changes of one more pass. The pass has gone over the text after the changes
of `m`, and what it changes there is what it would change in the text before them. -/
structure Combines (prev : Option Char) (m m' : Overlay) : Prop where
  old_eq : m'.old = m.old
  new_eq : m'.new = (p.overlayFrom f prev m.new).new
  edits_perm : ∀ pos,
    (m'.edits pos).Perm (m.edits pos ++ (p.overlayFrom f prev m.old).edits pos)
  changed : ∀ {o n}, .changed o n ∈ m' → .changed o n ∈ m ∨
    ∃ prev s a rest, p.read prev s = some (a, rest) ∧ p.text a = o ∧ f a = some n

namespace Combines

theorem nil (prev : Option Char) : p.Combines f prev [] [] where
  old_eq := rfl
  new_eq := by
    rw [Overlay.new, overlayFrom_nil]
    rfl
  edits_perm pos := by
    rw [Overlay.old, overlayFrom_nil]
    exact .refl _
  changed h := .inl h

/-- Both texts go on with the same characters, and the pass leaves them as they are. -/
theorem keep {prev : Option Char} {w : Text} {m m' : Overlay} (hold : p.Copies f prev w m.old)
    (hnew : p.Copies f prev w m.new) (h : p.Combines f (behind prev w) m m') :
    p.Combines f prev (Overlay.ofText w ++ m) (Overlay.ofText w ++ m') where
  old_eq := by simp [h.old_eq]
  new_eq := by
    rw [Overlay.new_append, Overlay.new_append, Overlay.new_ofText, hnew, Overlay.new_append,
      Overlay.new_ofText, h.new_eq]
  edits_perm pos := by
    rw [Overlay.old_append, Overlay.old_ofText, hold, Overlay.edits_ofText_append,
      Overlay.edits_ofText_append, Overlay.edits_ofText_append]
    exact h.edits_perm _
  changed hm := by
    rcases List.mem_append.1 hm with hm | hm
    · exact .inl (List.mem_append_left _ hm)
    · exact (h.changed hm).imp_left (List.mem_append_right _)

/-- The pass leaves a stretch that is changed already as it is, before the change and after it. -/
theorem skip {prev : Option Char} {w o n : Text} {m m' : Overlay}
    (hold : p.Copies f prev (w ++ o) m.old) (hnew : p.Copies f prev (w ++ n) m.new)
    (hlast : n.getLast? = o.getLast?) (h : p.Combines f (behind prev (w ++ o)) m m') :
    p.Combines f prev (Overlay.ofText w ++ .changed o n :: m)
      (Overlay.ofText w ++ .changed o n :: m') where
  old_eq := by simp [Overlay.old, h.old_eq]
  new_eq := by
    have hb : behind prev (w ++ n) = behind prev (w ++ o) := by
      rw [behind_append, behind_append]
      show n.getLast?.or _ = o.getLast?.or _
      rw [hlast]
    rw [Overlay.new_append, Overlay.new_append, Overlay.new_ofText, Overlay.new, Overlay.new,
      ← List.append_assoc, ← List.append_assoc, hnew, Overlay.new_append, Overlay.new_ofText, hb,
      h.new_eq]
  edits_perm pos := by
    have hs : Overlay.old (Overlay.ofText w ++ .changed o n :: m) = (w ++ o) ++ m.old := by
      simp [Overlay.old]
    rw [hs, hold, Overlay.edits_ofText_append, Overlay.edits_ofText_append,
      Overlay.edits_ofText_append, List.length_append, ← Nat.add_assoc, Overlay.edits,
      Overlay.edits, List.cons_append]
    exact (h.edits_perm _).cons _
  changed hm := by
    rcases List.mem_append.1 hm with hm | hm
    · exact .inl (List.mem_append_left _ hm)
    · rcases List.mem_cons.1 hm with hm | hm
      · exact .inl (List.mem_append_right _ (List.mem_cons.2 (.inl hm)))
      · exact (h.changed hm).imp_left fun hm =>
          List.mem_append_right _ (List.mem_cons_of_mem _ hm)

/-- Both texts go on with the same token, and the pass changes it. -/
theorem act {prev : Option Char} {a : α} {new : Text} {m m' : Overlay}
    (hold : p.read prev (p.text a ++ m.old) = some (a, m.old))
    (hnew : p.read prev (p.text a ++ m.new) = some (a, m.new)) (hf : f a = some new)
    (h : p.Combines f (p.text a).getLast? m m') :
    p.Combines f prev (Overlay.ofText (p.text a) ++ m) (.changed (p.text a) new :: m') where
  old_eq := by simp [Overlay.old, h.old_eq]
  new_eq := by
    rw [Overlay.new_append, Overlay.new_ofText, overlayFrom_of_act hnew hf, Overlay.new,
      Overlay.new, h.new_eq]
  edits_perm pos := by
    rw [Overlay.old_append, Overlay.old_ofText, overlayFrom_of_act hold hf,
      Overlay.edits_ofText_append, Overlay.edits, Overlay.edits]
    exact ((h.edits_perm _).cons _).trans List.perm_middle.symm
  changed hm := by
    rcases List.mem_cons.1 hm with hm | hm
    · cases hm
      exact .inr ⟨prev, _, a, m.old, hold, rfl, hf⟩
    · exact (h.changed hm).imp_left (List.mem_append_right _)

end Combines

variable (p f) in
/-- A pattern spares a class of stretches: it reads a token by its own text alone, it reads none
inside of such a stretch, and a token that reaches from in front of a stretch into it has no new
text and ends in it, while nothing is read at the positions that this token covers. -/
structure Spares (B : Text → Prop) : Prop where
  reads : ∀ {prev a rest}, p.read prev (p.text a ++ rest) = some (a, rest) →
    ∀ rest', p.read prev (p.text a ++ rest') = some (a, rest')
  inside : ∀ {o}, B o → ∀ prev t, p.Silent prev o t
  across : ∀ {prev c k o t a rest}, B o → p.read prev (c :: k ++ (o ++ t)) = some (a, rest) →
    ¬ p.text a <+: c :: k →
      (f a = none ∧ ∃ o₁ o₂, o = o₁ ++ o₂ ∧ p.text a = c :: k ++ o₁) ∧
        ∀ o' t', B o' → p.Silent (some c) k (o' ++ t')

namespace Spares

variable {B : Text → Prop} (hp : p.Spares f B)

include hp

theorem copies_inside {o : Text} (ho : B o) (prev : Option Char) (t : Text) :
    p.Copies f prev o t :=
  copies_of_silent (hp.inside ho prev t)

/-- Where the tail of the kept characters in front of a stretch is silent, the pass copies both,
unless it reads a token within the kept characters. -/
theorem copies_across {prev : Option Char} {c : Char} {k o t : Text} (ho : B o)
    (hk : p.Silent (some c) k (o ++ t))
    (hr : ∀ a rest, p.read prev (c :: k ++ (o ++ t)) = some (a, rest) → ¬ p.text a <+: c :: k) :
    p.Copies f prev (c :: k ++ o) t := by
  cases h : p.read prev (c :: k ++ (o ++ t)) with
  | none => exact (copies_of_silent (w := c :: k) ⟨h, hk⟩).append (hp.copies_inside ho _ t)
  | some found =>
    obtain ⟨a, rest⟩ := found
    obtain ⟨⟨hf, o₁, o₂, rfl, ha⟩, -⟩ := hp.across ho h (hr a rest h)
    have hs := p.exact h
    rw [ha] at hs
    have hrest : rest = o₂ ++ t := by simpa using hs.symm
    subst hrest
    have hw : c :: k ++ (o₁ ++ o₂ ++ t) = c :: k ++ o₁ ++ (o₂ ++ t) := by simp
    rw [hw] at h
    have ho₂ := (p.silent_append.1 (hp.inside ho (behind prev (c :: k)) t)).2
    rw [← List.append_assoc]
    refine (copies_of_keep h ha hf).append ?_
    rw [behind_append]
    exact copies_of_silent ho₂

/-- A token that lies within kept characters is read whatever follows them. -/
theorem read_within {prev : Option Char} {w k t rest : Text} {a : α} (hw : p.text a ++ k = w)
    (h : p.read prev (w ++ t) = some (a, rest)) (t' : Text) :
    p.read prev (p.text a ++ (k ++ t')) = some (a, k ++ t') := by
  have hs := p.exact h
  rw [← hw, List.append_assoc, List.append_cancel_left_eq] at hs
  subst hs
  rw [← hw, List.append_assoc] at h
  exact hp.reads h _

/-- Both texts go on with the same token. -/
theorem exists_combines_of_read {prev : Option Char} {a : α} {m : Overlay}
    (hold : p.read prev (p.text a ++ m.old) = some (a, m.old))
    (h : ∀ prev, ∃ m', p.Combines f prev m m') :
    ∃ m', p.Combines f prev (Overlay.ofText (p.text a) ++ m) m' := by
  have hnew := hp.reads hold m.new
  cases hf : f a with
  | none =>
    obtain ⟨m', hm'⟩ := h (behind prev (p.text a))
    exact ⟨_, .keep (copies_of_keep hold rfl hf) (copies_of_keep hnew rfl hf) hm'⟩
  | some new =>
    obtain ⟨m', hm'⟩ := h (p.text a).getLast?
    exact ⟨_, .act hold hnew hf hm'⟩

/-- In one of the texts a token reaches from kept characters into the change behind them. The pass
leaves both texts as they are up to the end of the change. -/
theorem exists_combines_of_reach {prev : Option Char} {c : Char} {k o n : Text} {m : Overlay}
    (hB : B o ∧ B n ∧ n.getLast? = o.getLast?)
    (hold : ∀ a r, p.read prev (c :: k ++ (o ++ m.old)) = some (a, r) → ¬ p.text a <+: c :: k)
    (hnew : ∀ a r, p.read prev (c :: k ++ (n ++ m.new)) = some (a, r) → ¬ p.text a <+: c :: k)
    (hreach : ¬ (p.read prev (c :: k ++ (o ++ m.old)) = none ∧
      p.read prev (c :: k ++ (n ++ m.new)) = none))
    (h : ∀ prev, ∃ m', p.Combines f prev m m') :
    ∃ m', p.Combines f prev (Overlay.ofText (c :: k) ++ .changed o n :: m) m' := by
  obtain ⟨ho, hn, hlast⟩ := hB
  have hk : ∀ o' t', B o' → p.Silent (some c) k (o' ++ t') := by
    cases hro : p.read prev (c :: k ++ (o ++ m.old)) with
    | some found => exact (hp.across ho hro (hold found.1 found.2 hro)).2
    | none =>
      cases hrn : p.read prev (c :: k ++ (n ++ m.new)) with
      | some found => exact (hp.across hn hrn (hnew found.1 found.2 hrn)).2
      | none => exact absurd ⟨hro, hrn⟩ hreach
  obtain ⟨m', hm'⟩ := h (behind prev (c :: k ++ o))
  exact ⟨_, .skip (hp.copies_across ho (hk o _ ho) hold) (hp.copies_across hn (hk n _ hn) hnew)
    hlast hm'⟩

/-- In one of the texts a token lies within the kept characters at the front; so it does in both. -/
theorem exists_combines_of_within {prev : Option Char} {c : Char} {k k₂ t rest : Text} {a : α}
    {m : Overlay} (hw : p.text a ++ k₂ = c :: k) (hr : p.read prev (c :: k ++ t) = some (a, rest))
    (h : ∀ v m₁, .kept c :: (Overlay.ofText k ++ m) = v ++ m₁ → v ≠ [] →
      ∀ prev, ∃ m', p.Combines f prev m₁ m') :
    ∃ m', p.Combines f prev (.kept c :: (Overlay.ofText k ++ m)) m' := by
  have hm : Stretch.kept c :: (Overlay.ofText k ++ m) =
      Overlay.ofText (p.text a) ++ (Overlay.ofText k₂ ++ m) := by
    rw [← List.append_assoc, ← Overlay.ofText_append, hw]
    rfl
  rw [hm]
  refine hp.exists_combines_of_read ?_ (h _ _ hm ?_)
  · rw [Overlay.old_append, Overlay.old_ofText]
    exact hp.read_within hw hr _
  · simpa [Overlay.ofText] using p.nonempty hr

/-- A pass over kept characters, up to the first change, and what follows them. -/
theorem exists_combines_of_kept {c : Char} {k : Text} {m : Overlay}
    (hm : m = [] ∨ ∃ o n m', m = .changed o n :: m')
    (hB : ∀ o n, .changed o n ∈ m → B o ∧ B n ∧ n.getLast? = o.getLast?) (prev : Option Char)
    (h : ∀ v m₁, .kept c :: (Overlay.ofText k ++ m) = v ++ m₁ → v ≠ [] →
      ∀ prev, ∃ m', p.Combines f prev m₁ m') :
    ∃ m', p.Combines f prev (.kept c :: (Overlay.ofText k ++ m)) m' := by
  by_cases hold : ∃ a r, p.read prev (c :: k ++ m.old) = some (a, r) ∧ p.text a <+: c :: k
  · obtain ⟨a, r, hr, k₂, hk₂⟩ := hold
    exact hp.exists_combines_of_within hk₂ hr h
  by_cases hnew : ∃ a r, p.read prev (c :: k ++ m.new) = some (a, r) ∧ p.text a <+: c :: k
  · obtain ⟨a, r, hr, k₂, hk₂⟩ := hnew
    exact hp.exists_combines_of_within hk₂ hr h
  have hold' : ∀ a r, p.read prev (c :: k ++ m.old) = some (a, r) → ¬ p.text a <+: c :: k :=
    fun a r hr hpre => hold ⟨a, r, hr, hpre⟩
  have hnew' : ∀ a r, p.read prev (c :: k ++ m.new) = some (a, r) → ¬ p.text a <+: c :: k :=
    fun a r hr hpre => hnew ⟨a, r, hr, hpre⟩
  by_cases hnone : p.read prev (c :: k ++ m.old) = none ∧ p.read prev (c :: k ++ m.new) = none
  · -- Both texts go on with the same character.
    obtain ⟨m', hm'⟩ := h [.kept c] _ rfl (by simp) (some c)
    refine ⟨_, .keep (w := [c]) (copies_of_silent ⟨?_, trivial⟩)
      (copies_of_silent ⟨?_, trivial⟩) hm'⟩
    · simpa using hnone.1
    · simpa using hnone.2
  -- In one of the texts a token reaches from here into the first change.
  rcases hm with rfl | ⟨o, n, m', rfl⟩
  · refine absurd ⟨?_, ?_⟩ hnone
    all_goals
      rw [Option.eq_none_iff_forall_ne_some]
      rintro ⟨a, r⟩ hr
    · exact hold' a r hr ⟨r, by simpa [Overlay.old] using (p.exact hr).symm⟩
    · exact hnew' a r hr ⟨r, by simpa [Overlay.new] using (p.exact hr).symm⟩
  · refine hp.exists_combines_of_reach (hB o n (by simp)) hold' hnew' hnone ?_
    exact h (Overlay.ofText (c :: k) ++ [.changed o n]) m' (by simp) (by simp)

/-- **A spared change may come first.** Let a text be changed already, in stretches of a class that
the pattern spares, each with the same last character before and after. Then a pass over the changed
text makes exactly the changes that it would have made in the text before. -/
theorem exists_combines {m : Overlay}
    (hB : ∀ o n, .changed o n ∈ m → B o ∧ B n ∧ n.getLast? = o.getLast?) (prev : Option Char) :
    ∃ m', p.Combines f prev m m' := by
  -- A pass may take many stretches at once, so the induction is on the length of the overlay.
  induction hlen : m.length using Nat.strongRecOn generalizing m prev with
  | ind l ih =>
    subst hlen
    have rest : ∀ v m₁, m = v ++ m₁ → v ≠ [] → ∀ prev, ∃ m', p.Combines f prev m₁ m' := by
      intro v m₁ hm hv prev
      have hpos := List.length_pos_iff.2 hv
      refine ih m₁.length (by rw [hm, List.length_append]; omega) ?_ prev rfl
      intro o n hmem
      exact hB o n (by rw [hm]; exact List.mem_append_right _ hmem)
    cases m with
    | nil => exact ⟨[], .nil prev⟩
    | cons x m =>
      cases x with
      | changed o n =>
        obtain ⟨ho, hn, hlast⟩ := hB o n (List.mem_cons_self ..)
        obtain ⟨m', hm'⟩ := rest [.changed o n] m rfl (by simp) (behind prev o)
        exact ⟨_, .skip (w := []) (hp.copies_inside ho prev _) (hp.copies_inside hn prev _)
          hlast hm'⟩
      | kept c =>
        obtain ⟨k, m₂, rfl, hm₂⟩ := Overlay.exists_eq_ofText_append m
        refine hp.exists_combines_of_kept hm₂ ?_ prev rest
        intro o n hmem
        exact hB o n (List.mem_cons_of_mem _ (List.mem_append_right _ hmem))

end Spares

end Pattern

end SvgAssets
