/-
# SvgAssets.Proofs.Text.Overlay -- a text before and after changes

An `Overlay` is a text cut into stretches that are kept and stretches that are changed, so it holds
the text before and after at once, and its `edits` are the places that differ. Making all of them at
once in the text before gives the text after, in whatever order they are listed
(`applyEdits_old`).
-/
import SvgAssets.Text.Basic

namespace SvgAssets

/-! ## Edits -/

/-- A change to a text: the place where it begins, what stands there, and what takes its place. -/
structure Edit where
  start : Nat
  old : Text
  new : Text
  deriving DecidableEq

namespace Edit

/-- The place behind the changed stretch. -/
def stop (e : Edit) : Nat := e.start + e.old.length

/-- Two edits have no place in common. -/
def Apart (e f : Edit) : Prop := e.stop ≤ f.start ∨ f.stop ≤ e.start

theorem Apart.symm {e f : Edit} (h : e.Apart f) : f.Apart e := Or.symm h

/-- What the edit says to stand at its place in `s` stands there. -/
def FitsIn (e : Edit) (s : Text) : Prop := (s.drop e.start).take e.old.length = e.old

end Edit

/-- `s` with all edits made at once, where the first character of `s` stands at `pos` and the next
`skip` characters are replaced already. Only `s` itself is looked at, never what is put in. -/
def applyEdits (edits : List Edit) (pos skip : Nat) : Text → Text
  | [] => []
  | c :: s =>
    match skip with
    | skip + 1 => applyEdits edits (pos + 1) skip s
    | 0 =>
      match edits.find? fun e => e.start == pos with
      | none => c :: applyEdits edits (pos + 1) 0 s
      | some e => e.new ++ applyEdits edits (pos + 1) (e.old.length - 1) s

/-! ## Overlays -/

/-- A stretch of a text that is kept, or changed. -/
inductive Stretch where
  | kept (c : Char)
  | changed (old new : Text)

/-- A text before and after changes. -/
abbrev Overlay := List Stretch

namespace Overlay

/-- The text before the changes. -/
def old : Overlay → Text
  | [] => []
  | .kept c :: m => c :: old m
  | .changed o _ :: m => o ++ old m

/-- The text after the changes. -/
def new : Overlay → Text
  | [] => []
  | .kept c :: m => c :: new m
  | .changed _ n :: m => n ++ new m

/-- The changes, where the overlay begins at `pos`. -/
def edits (pos : Nat) : Overlay → List Edit
  | [] => []
  | .kept _ :: m => edits (pos + 1) m
  | .changed o n :: m => ⟨pos, o, n⟩ :: edits (pos + o.length) m

/-- A text without changes. -/
def ofText (w : Text) : Overlay := w.map .kept

@[simp] theorem ofText_cons (c : Char) (w : Text) : ofText (c :: w) = .kept c :: ofText w := rfl

@[simp] theorem ofText_append (v w : Text) : ofText (v ++ w) = ofText v ++ ofText w := by
  simp [ofText]

@[simp] theorem old_append (m m' : Overlay) : old (m ++ m') = old m ++ old m' := by
  induction m with
  | nil => rfl
  | cons x m ih => cases x <;> simp [old, ih]

@[simp] theorem new_append (m m' : Overlay) : new (m ++ m') = new m ++ new m' := by
  induction m with
  | nil => rfl
  | cons x m ih => cases x <;> simp [new, ih]

@[simp] theorem old_ofText (w : Text) : old (ofText w) = w := by
  induction w with
  | nil => rfl
  | cons c w ih => simp [old, ih]

@[simp] theorem new_ofText (w : Text) : new (ofText w) = w := by
  induction w with
  | nil => rfl
  | cons c w ih => simp [new, ih]

theorem edits_append (m m' : Overlay) (pos : Nat) :
    edits pos (m ++ m') = edits pos m ++ edits (pos + (old m).length) m' := by
  induction m generalizing pos with
  | nil => rfl
  | cons x m ih => cases x <;> simp [edits, old, ih, Nat.add_assoc, Nat.add_comm 1]

@[simp] theorem edits_ofText (w : Text) (pos : Nat) : edits pos (ofText w) = [] := by
  induction w generalizing pos with
  | nil => rfl
  | cons c w ih => simp [edits, ih]

theorem edits_ofText_append (w : Text) (m : Overlay) (pos : Nat) :
    edits pos (ofText w ++ m) = edits (pos + w.length) m := by
  rw [edits_append, edits_ofText, List.nil_append, old_ofText]

/-- Kept characters up to the first change, if there is one. -/
theorem exists_eq_ofText_append (m : Overlay) :
    ∃ k m', m = ofText k ++ m' ∧ (m' = [] ∨ ∃ o n m'', m' = .changed o n :: m'') := by
  induction m with
  | nil => exact ⟨[], [], rfl, .inl rfl⟩
  | cons x m ih =>
    cases x with
    | changed o n => exact ⟨[], _, rfl, .inr ⟨o, n, m, rfl⟩⟩
    | kept c =>
      obtain ⟨k, m', rfl, h⟩ := ih
      exact ⟨c :: k, m', rfl, h⟩

/-! ## The edits of an overlay -/

theorem le_start_of_mem_edits {m : Overlay} {pos : Nat} {e : Edit} (h : e ∈ m.edits pos) :
    pos ≤ e.start := by
  induction m generalizing pos with
  | nil => cases h
  | cons x m ih =>
    cases x with
    | kept c =>
      have := ih h
      omega
    | changed o n =>
      rcases List.mem_cons.1 h with rfl | h
      · exact Nat.le_refl _
      · have := ih h
        omega

/-- The edits of an overlay have no places in common. -/
theorem pairwise_apart_edits (m : Overlay) (pos : Nat) : (m.edits pos).Pairwise Edit.Apart := by
  induction m generalizing pos with
  | nil => exact .nil
  | cons x m ih =>
    cases x with
    | kept c => exact ih (pos + 1)
    | changed o n =>
      refine List.pairwise_cons.2 ⟨?_, ih (pos + o.length)⟩
      intro e he
      exact .inl (le_start_of_mem_edits he)

theorem changed_mem_of_mem_edits {m : Overlay} {pos : Nat} {e : Edit} (h : e ∈ m.edits pos) :
    .changed e.old e.new ∈ m := by
  induction m generalizing pos with
  | nil => cases h
  | cons x m ih =>
    cases x with
    | kept c => exact List.mem_cons_of_mem _ (ih h)
    | changed o n =>
      rcases List.mem_cons.1 h with rfl | h
      · exact List.mem_cons_self ..
      · exact List.mem_cons_of_mem _ (ih h)

theorem fitsIn_of_mem_edits {m : Overlay} {pos : Nat} {e : Edit} (h : e ∈ m.edits pos)
    (lead : Text) (hlead : lead.length = pos) : e.FitsIn (lead ++ m.old) := by
  induction m generalizing pos lead with
  | nil => cases h
  | cons x m ih =>
    cases x with
    | kept c =>
      have := ih h (lead ++ [c]) (by simp [hlead])
      rwa [List.append_assoc] at this
    | changed o n =>
      rcases List.mem_cons.1 h with rfl | h
      · rw [Edit.FitsIn, ← hlead, List.drop_left, old, List.take_left]
      · have := ih h (lead ++ o) (by simp [hlead])
        rwa [List.append_assoc] at this

theorem applyEdits_skip {edits : List Edit} {pos : Nat} (w s : Text) :
    applyEdits edits pos w.length (w ++ s) = applyEdits edits (pos + w.length) 0 s := by
  induction w generalizing pos with
  | nil => rfl
  | cons c w ih =>
    rw [List.cons_append, List.length_cons, applyEdits, ih]
    congr 1
    omega

/-- No edit of a list begins at a position, if those from there on are edits of an overlay behind
it. -/
theorem find?_start_eq_none {m : Overlay} {edits : List Edit} {pos : Nat}
    (h : ∀ e : Edit, pos ≤ e.start → (e ∈ edits ↔ e ∈ m.edits (pos + 1))) :
    edits.find? (fun e => e.start == pos) = none := by
  rw [List.find?_eq_none]
  intro e he hs
  rw [beq_iff_eq] at hs
  have hmem := (h e (by omega)).1 he
  have hstart := le_start_of_mem_edits hmem
  omega

/-- The one edit of a list that begins at a position, if those from there on are edits of an overlay
that begins with a change. -/
theorem find?_start_eq_some {m : Overlay} {edits : List Edit} {pos : Nat} {o n : Text}
    (hne : o ≠ [])
    (h : ∀ e : Edit, pos ≤ e.start → (e ∈ edits ↔ e ∈ Overlay.edits pos (.changed o n :: m))) :
    edits.find? (fun e => e.start == pos) = some ⟨pos, o, n⟩ := by
  cases hfind : edits.find? (fun e => e.start == pos) with
  | none =>
    rw [List.find?_eq_none] at hfind
    have hmem := (h ⟨pos, o, n⟩ (Nat.le_refl _)).2 (by simp [Overlay.edits])
    exact absurd (beq_self_eq_true pos) (hfind _ hmem)
  | some e =>
    have hs : e.start = pos := by simpa using List.find?_some hfind
    have hmem := (h e (by omega)).1 (List.mem_of_find?_eq_some hfind)
    rcases List.mem_cons.1 hmem with rfl | hmem
    · rfl
    · -- All further changes begin behind the old text of the first, which is not empty.
      have hstart := le_start_of_mem_edits hmem
      have hlength := List.length_pos_iff.2 hne
      omega

/-- Making the edits of an overlay in the text before the changes gives the text after them, in
whatever order the edits are listed. -/
theorem applyEdits_old {m : Overlay} (hne : ∀ o n, .changed o n ∈ m → o ≠ []) {edits : List Edit}
    {pos : Nat} (h : ∀ e : Edit, pos ≤ e.start → (e ∈ edits ↔ e ∈ m.edits pos)) :
    applyEdits edits pos 0 m.old = m.new := by
  -- The list of edits stays the same, so from a later position on it need only agree there.
  induction m generalizing pos with
  | nil => rfl
  | cons x m ih =>
    have hne' : ∀ o n, .changed o n ∈ m → o ≠ [] := fun o n hm =>
      hne o n (List.mem_cons_of_mem x hm)
    cases x with
    | kept c =>
      rw [old, applyEdits, find?_start_eq_none h, new]
      simp only
      rw [ih hne']
      intro e he
      exact h e (by omega)
    | changed o n =>
      have hone : o ≠ [] := hne o n (by simp)
      have hsome := find?_start_eq_some hone h
      obtain ⟨c, w, rfl⟩ := List.exists_cons_of_ne_nil hone
      rw [old, List.cons_append, applyEdits, hsome, new]
      simp only [List.length_cons, Nat.add_sub_cancel]
      rw [applyEdits_skip, ih hne']
      intro e he
      simp only [Overlay.edits, List.length_cons, List.mem_cons] at h
      rw [h e (by omega), show pos + (w.length + 1) = pos + 1 + w.length by omega]
      refine ⟨fun hm => hm.resolve_left ?_, .inr⟩
      rintro rfl
      simp only at he
      omega

end Overlay

end SvgAssets
