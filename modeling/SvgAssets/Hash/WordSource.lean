/-
# SvgAssets.Hash.WordSource -- drawing from a stream of random words

A source gives one word of 32 bits after the other. On the words stand the two ways to draw that
hashes need: an integer below a bound from the top bits of a word, unless they are too large
(`below?`), and an integer below a bound by scaling a uniform number with 53 bits (`scaledBelow`).
That what is drawn lies below the bound is part of its type.
-/
import SvgAssets.Number.Scaling
import SvgAssets.Text.Basic

namespace SvgAssets

/-- A stream of random words. -/
class WordSource (σ : Type) where
  /-- The next word and the stream behind it. -/
  draw : σ → UInt32 × σ

/-- An endless sequence of words is a stream. -/
instance : WordSource (Nat → UInt32) where
  draw words := (words 0, fun n => words (n + 1))

namespace WordSource

variable {σ : Type} [WordSource σ]

/-- An integer below `bound`, if the next word gives one: the top bits of the word, as many as the
bound has. -/
def below? (bound : Nat) (source : σ) : Option (Fin bound) × σ :=
  let (word, source) := draw source
  let n := word.toNat >>> (32 - (bound.log2 + 1))
  (if h : n < bound then some ⟨n, h⟩ else none, source)

/-- The number of bits that the second of two words gives to a uniform number. -/
abbrev lowBits : Nat := 26

theorem uniform_lt (a b : UInt32) :
    (a >>> 5).toNat * 2 ^ lowBits + (b >>> 6).toNat < 2 ^ Binary64.precision := by
  have ha := a.toNat_lt
  have hb := b.toNat_lt
  have hhigh : (a >>> 5).toNat = a.toNat / 32 := by
    rw [UInt32.toNat_shiftRight, Nat.shiftRight_eq_div_pow]
    rfl
  have hlow : (b >>> 6).toNat = b.toNat / 64 := by
    rw [UInt32.toNat_shiftRight, Nat.shiftRight_eq_div_pow]
    rfl
  have hbits : 2 ^ lowBits = 67108864 := rfl
  have hprecision : 2 ^ Binary64.precision = 9007199254740992 := rfl
  rw [hhigh, hlow, hbits, hprecision]
  omega

/-- A uniform number of 53 bits, from two words. -/
def uniform (source : σ) : Fin (2 ^ Binary64.precision) × σ :=
  let (a, source) := draw source
  let (b, source) := draw source
  (⟨(a >>> 5).toNat * 2 ^ lowBits + (b >>> 6).toNat, uniform_lt a b⟩, source)

/-- The bounds that a uniform number can be scaled to. -/
def IsScalable (bound : Nat) : Prop := 0 < bound ∧ bound < 2 ^ (Binary64.precision - 1)

instance (bound : Nat) : Decidable (IsScalable bound) := inferInstanceAs (Decidable (_ ∧ _))

/-- An integer below `bound`: a uniform number of 53 bits below one, times the bound, rounded and
cut off. -/
def scaledBelow (bound : Nat) (h : IsScalable bound) (source : σ) : Fin bound × σ :=
  let (u, source) := uniform source
  let scaled := Binary64.roundQuotient false (u * bound) (2 ^ Binary64.precision)
  (⟨scaled.wholePart, Binary64.wholePart_roundQuotient_lt u.isLt h.1 h.2⟩, source)

/-- One of the given characters, if the next word gives one. -/
def pick? (options : Text) (source : σ) : Option Char × σ :=
  let (i?, source) := below? options.length source
  (i?.map options.get, source)

/-- One of the given characters, drawn by scaling. -/
def pickScaled (options : Text) (h : IsScalable options.length) (source : σ) : Char × σ :=
  let (i, source) := scaledBelow options.length h source
  (options.get i, source)

end WordSource

end SvgAssets
