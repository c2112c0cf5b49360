/-
# SvgAssets.Text.Order -- texts in the order of their code points

Texts are compared character by character; a text comes before its own continuations. This is a
linear order, so sorting by it and the choice of a least text are determined.
-/
import SvgAssets.Text.Basic

namespace SvgAssets.Text

/-- Whether `s` comes before `t` or is `t`. -/
def le : Text → Text → Bool
  | [], _ => true
  | _ :: _, [] => false
  | a :: s, b :: t => a.toNat < b.toNat || (a.toNat == b.toNat && le s t)

theorem le_refl (s : Text) : le s s = true := by
  induction s with
  | nil => rfl
  | cons a s ih => simp [le, ih]

theorem le_total (s t : Text) : (le s t || le t s) = true := by
  induction s generalizing t with
  | nil => rfl
  | cons a s ih =>
    cases t with
    | nil => rfl
    | cons b t =>
      simp only [le, Bool.or_eq_true, Bool.and_eq_true, decide_eq_true_eq, beq_iff_eq]
      have := ih t
      simp only [Bool.or_eq_true] at this
      rcases Nat.lt_trichotomy a.toNat b.toNat with h | h | h
      · exact .inl (.inl h)
      · rcases this with h' | h'
        · exact .inl (.inr ⟨h, h'⟩)
        · exact .inr (.inr ⟨h.symm, h'⟩)
      · exact .inr (.inl h)

theorem le_trans {s t u : Text} (h₁ : le s t = true) (h₂ : le t u = true) : le s u = true := by
  induction s generalizing t u with
  | nil => rfl
  | cons a s ih =>
    cases t with
    | nil => cases h₁
    | cons b t =>
      cases u with
      | nil => cases h₂
      | cons c u =>
        simp only [le, Bool.or_eq_true, Bool.and_eq_true, decide_eq_true_eq, beq_iff_eq] at *
        rcases h₁ with h₁ | ⟨e₁, h₁⟩
        · rcases h₂ with h₂ | ⟨e₂, _⟩
          · exact .inl (Nat.lt_trans h₁ h₂)
          · exact .inl (e₂ ▸ h₁)
        · rcases h₂ with h₂ | ⟨e₂, h₂⟩
          · exact .inl (e₁ ▸ h₂)
          · exact .inr ⟨e₁.trans e₂, ih h₁ h₂⟩

theorem le_antisymm {s t : Text} (h₁ : le s t = true) (h₂ : le t s = true) : s = t := by
  induction s generalizing t with
  | nil => cases t <;> simp_all [le]
  | cons a s ih =>
    cases t with
    | nil => cases h₁
    | cons b t =>
      simp only [le, Bool.or_eq_true, Bool.and_eq_true, decide_eq_true_eq, beq_iff_eq] at *
      have e : a.toNat = b.toNat := by omega
      have hs : s = t := by
        rcases h₁ with h₁ | ⟨_, h₁⟩
        · omega
        · rcases h₂ with h₂ | ⟨_, h₂⟩
          · omega
          · exact ih h₁ h₂
      rw [hs, Char.toNat_inj.1 e]

/-- Texts in order. -/
def sort (texts : List Text) : List Text := texts.mergeSort le

theorem sort_perm (texts : List Text) : (sort texts).Perm texts := List.mergeSort_perm texts le

theorem pairwise_sort (texts : List Text) : (sort texts).Pairwise fun s t => le s t = true := by
  unfold sort
  apply List.pairwise_mergeSort
  · intro s t u
    exact le_trans
  · exact le_total

end SvgAssets.Text
