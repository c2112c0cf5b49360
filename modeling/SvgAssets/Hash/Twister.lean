/-
# SvgAssets.Hash.Twister -- a reproducible stream of random words

The generator MT19937, with a state of 624 words of 32 bits. A seed is an integer or a text: of an
integer the magnitude counts, as its 32-bit words, least first; a text stands for the integer that
its bytes and their digest write.
-/
import SvgAssets.Hash.Digest512
import SvgAssets.Hash.WordSource

namespace SvgAssets

/-- The state of the generator and the place of the next word in it. -/
structure Twister where
  words : Vector UInt32 624
  next : Nat

/-- What a stream of random words is made from. -/
inductive Seed where
  | int (n : Int)
  | text (t : Text)

namespace Twister

/-- The state that a single word initialises. -/
def ofWord (seed : UInt32) : Vector UInt32 624 :=
  (List.range 623).foldl (fun w i =>
    let x : UInt32 := Vector.getD w i 0
    w.setIfInBounds (i + 1) ((1812433253 : UInt32) * (x ^^^ (x >>> 30)) + UInt32.ofNat (i + 1)))
    ((Vector.replicate 624 0).setIfInBounds 0 seed)

/-- `w` with its first word replaced by the last one when `i` has come behind the end, and the place
to go on with. -/
def wrap (w : Vector UInt32 624) (i : Nat) : Vector UInt32 624 × Nat :=
  if 624 ≤ i then (w.setIfInBounds 0 (w.getD 623 0), 1) else (w, i)

/-- The state that a list of words, at least one, initialises. -/
def ofKey (key : List UInt32) : Twister :=
  let key := key.toArray
  let mixKey := fun (w, i, j) (_ : Nat) =>
    let x : UInt32 := Vector.getD w (i - 1) 0
    let y := (w.getD i 0 ^^^ ((x ^^^ (x >>> 30)) * 1664525)) + key.getD j 0 + UInt32.ofNat j
    let (w, i) := wrap (w.setIfInBounds i y) (i + 1)
    (w, i, if key.size ≤ j + 1 then 0 else j + 1)
  let mixPlace := fun (w, i) (_ : Nat) =>
    let x : UInt32 := Vector.getD w (i - 1) 0
    let y := (w.getD i 0 ^^^ ((x ^^^ (x >>> 30)) * 1566083941)) - UInt32.ofNat i
    wrap (w.setIfInBounds i y) (i + 1)
  let (w, i, _) := (List.range (max 624 key.size)).foldl mixKey (ofWord 19650218, 1, 0)
  let (w, _) := (List.range 623).foldl mixPlace (w, i)
  ⟨w.setIfInBounds 0 0x80000000, 624⟩

/-- The 32-bit words of `n`, least first; at least one. `count` bounds their number. -/
def wordsOf : Nat → Nat → List UInt32
  | 0, n => [UInt32.ofNat n]
  | count + 1, n =>
    if n < UInt32.size then [UInt32.ofNat n]
    else UInt32.ofNat n :: wordsOf count (n / UInt32.size)

/-- The magnitude of the integer that a seed stands for. -/
def magnitude : Seed → Nat
  | .int n => n.natAbs
  | .text t =>
    let bytes := (String.ofList t).toUTF8.toList
    Digest512.fromBigEndian (bytes ++ Digest512.digest bytes)

/-- The generator of a seed. -/
def ofSeed (seed : Seed) : Twister :=
  let n := magnitude seed
  ofKey (wordsOf (n.log2 / 32) n)

/-- The next 624 words of the state. -/
def twist (w : Vector UInt32 624) : Vector UInt32 624 :=
  (List.range 624).foldl (fun w i =>
    let y := (w.getD i 0 &&& 0x80000000) ||| (w.getD ((i + 1) % 624) 0 &&& 0x7fffffff)
    let mask : UInt32 := if y &&& 1 = 0 then 0 else 0x9908b0df
    w.setIfInBounds i (w.getD ((i + 397) % 624) 0 ^^^ (y >>> 1) ^^^ mask)) w

/-- The word of the stream that a word of the state gives. -/
def temper (y : UInt32) : UInt32 :=
  let y := y ^^^ (y >>> 11)
  let y := y ^^^ ((y <<< 7) &&& 0x9d2c5680)
  let y := y ^^^ ((y <<< 15) &&& 0xefc60000)
  y ^^^ (y >>> 18)

/-- The next word of the stream. -/
def draw (t : Twister) : UInt32 × Twister :=
  let t := if t.next < 624 then t else ⟨twist t.words, 0⟩
  (temper (t.words.getD t.next 0), { t with next := t.next + 1 })

end Twister

instance : WordSource Twister := ⟨Twister.draw⟩

end SvgAssets
