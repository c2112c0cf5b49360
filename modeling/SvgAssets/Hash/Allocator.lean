/-
# SvgAssets.Hash.Allocator -- hashes that never repeat within one run

Every asset of a run gets a hash of its own: a letter, so that the hash can begin a class name or an
identifier, and then letters and digits. An allocator hands out hashes of one length and remembers
them. It refuses when all hashes of its length are taken, and else draws candidates until one is
new; how long that takes is up to the source of random words, so the search has no bound.
-/
import SvgAssets.Hash.Twister

namespace SvgAssets

/-- Why there is no hash. -/
inductive HashError where
  | lengthTooSmall
  | exhausted (capacity length : Nat)
  /-- No candidate of the source is new, however long it is searched. -/
  | noFreshCandidate
  deriving DecidableEq

/-- The wording of a hash error. -/
def HashError.message : HashError → String
  | .lengthTooSmall => "Hash length must be at least 2"
  | .exhausted capacity length =>
    "Hash space exhausted (" ++ toString capacity ++ " ids of length " ++ toString length ++ ")"
  | .noFreshCandidate => "No fresh hash found"

/-- The characters that a hash begins with. -/
def hashLetters : Text := "abcdefghijklmnopqrstuvwxyz".toList

/-- The characters that a hash goes on with. -/
def hashAlphabet : Text := "abcdefghijklmnopqrstuvwxyz0123456789".toList

/-- An allocator of hashes with `length` characters; `used` are the hashes handed out, the last
one first. -/
structure Allocator (σ : Type) where
  length : Nat
  used : List Text
  source : σ

namespace Allocator

variable {σ : Type} [WordSource σ]

/-- The number of hashes of a length. -/
def capacity (length : Nat) : Nat := 26 * 36 ^ (length - 1)

theorem isScalable_hashAlphabet : WordSource.IsScalable hashAlphabet.length := by decide

/-- Further characters of a candidate. -/
def drawTail : Nat → σ → Text × σ
  | 0, source => ([], source)
  | n + 1, source =>
    let (c, source) := WordSource.pickScaled hashAlphabet isScalable_hashAlphabet source
    let (rest, source) := drawTail n source
    (c :: rest, source)

/-- A candidate of a length, if the next word gives its letter. -/
def drawCandidate? (length : Nat) (source : σ) : Option Text × σ :=
  match WordSource.pick? hashLetters source with
  | (some c, source) =>
    let (rest, source) := drawTail (length - 1) source
    (some (c :: rest), source)
  | (none, source) => (none, source)

/-- The first candidate that was not handed out before, and the source behind it. The search goes on
for as long as the source gives no such candidate; there is no value if it never ends. -/
def firstFresh? (a : Allocator σ) : Option (Text × σ) :=
  let drawn := drawCandidate? a.length a.source
  if drawn.1.all a.used.contains then { a with source := drawn.2 } |>.firstFresh?
  else drawn.1.map fun candidate => (candidate, drawn.2)
partial_fixpoint

/-- The next hash. -/
def allocate (a : Allocator σ) : Except HashError (Text × Allocator σ) :=
  if capacity a.length ≤ a.used.length then .error (.exhausted (capacity a.length) a.length)
  else
    match a.firstFresh? with
    | none => .error .noFreshCandidate
    | some (hash, source) => .ok (hash, { a with used := hash :: a.used, source })

/-- Whether a hash was handed out. -/
def contains (a : Allocator σ) (hash : Text) : Bool := a.used.contains hash

/-- The number of hashes handed out. -/
def size (a : Allocator σ) : Nat := a.used.length

end Allocator

/-- An allocator that draws from the reproducible generator. -/
abbrev HashAllocator : Type := Allocator Twister

/-- An allocator that has handed out nothing. -/
def HashAllocator.ofSeed (length : Int) (seed : Seed) : Except HashError HashAllocator :=
  if length < 2 then .error .lengthTooSmall else .ok ⟨length.toNat, [], Twister.ofSeed seed⟩

/-! ## Supplies -/

/-- Where the hashes of a run come from: an allocator, or a fixed list that goes on with `h00001`,
`h00002` and so on. -/
inductive HashSupply where
  | allocator (a : HashAllocator)
  | listed (hashes : List Text) (numbered : Nat)

/-- The numbered hash behind the end of a list. -/
def numberedHash (n : Nat) : Text :=
  let digits := Text.ofNat n
  'h' :: List.replicate (5 - digits.length) '0' ++ digits

/-- The next hash of a supply. -/
def HashSupply.next : HashSupply → Except HashError (Text × HashSupply)
  | .allocator a => do
    let (hash, a) ← a.allocate
    return (hash, .allocator a)
  | .listed (hash :: rest) n => .ok (hash, .listed rest n)
  | .listed [] n => .ok (numberedHash (n + 1), .listed [] (n + 1))

end SvgAssets
