/-
# SvgAssets.Hash.Digest512 -- the 512-bit digest of a byte string

The digest SHA-512 of the Secure Hash Standard. A message is padded to blocks of sixteen 64-bit
words, each block extends to a schedule of eighty words, and eighty rounds per block transform a
state of eight words. State and schedule have their sizes in their types.
-/

namespace SvgAssets.Digest512

/-- The fractional parts of the cube roots of the first eighty primes. -/
def roundConstants : Vector UInt64 80 :=
  #v[0x428a2f98d728ae22, 0x7137449123ef65cd, 0xb5c0fbcfec4d3b2f, 0xe9b5dba58189dbbc,
    0x3956c25bf348b538, 0x59f111f1b605d019, 0x923f82a4af194f9b, 0xab1c5ed5da6d8118,
    0xd807aa98a3030242, 0x12835b0145706fbe, 0x243185be4ee4b28c, 0x550c7dc3d5ffb4e2,
    0x72be5d74f27b896f, 0x80deb1fe3b1696b1, 0x9bdc06a725c71235, 0xc19bf174cf692694,
    0xe49b69c19ef14ad2, 0xefbe4786384f25e3, 0xfc19dc68b8cd5b5, 0x240ca1cc77ac9c65,
    0x2de92c6f592b0275, 0x4a7484aa6ea6e483, 0x5cb0a9dcbd41fbd4, 0x76f988da831153b5,
    0x983e5152ee66dfab, 0xa831c66d2db43210, 0xb00327c898fb213f, 0xbf597fc7beef0ee4,
    0xc6e00bf33da88fc2, 0xd5a79147930aa725, 0x6ca6351e003826f, 0x142929670a0e6e70,
    0x27b70a8546d22ffc, 0x2e1b21385c26c926, 0x4d2c6dfc5ac42aed, 0x53380d139d95b3df,
    0x650a73548baf63de, 0x766a0abb3c77b2a8, 0x81c2c92e47edaee6, 0x92722c851482353b,
    0xa2bfe8a14cf10364, 0xa81a664bbc423001, 0xc24b8b70d0f89791, 0xc76c51a30654be30,
    0xd192e819d6ef5218, 0xd69906245565a910, 0xf40e35855771202a, 0x106aa07032bbd1b8,
    0x19a4c116b8d2d0c8, 0x1e376c085141ab53, 0x2748774cdf8eeb99, 0x34b0bcb5e19b48a8,
    0x391c0cb3c5c95a63, 0x4ed8aa4ae3418acb, 0x5b9cca4f7763e373, 0x682e6ff3d6b2b8a3,
    0x748f82ee5defb2fc, 0x78a5636f43172f60, 0x84c87814a1f0ab72, 0x8cc702081a6439ec,
    0x90befffa23631e28, 0xa4506cebde82bde9, 0xbef9a3f7b2c67915, 0xc67178f2e372532b,
    0xca273eceea26619c, 0xd186b8c721c0c207, 0xeada7dd6cde0eb1e, 0xf57d4f7fee6ed178,
    0x6f067aa72176fba, 0xa637dc5a2c898a6, 0x113f9804bef90dae, 0x1b710b35131c471b,
    0x28db77f523047d84, 0x32caab7b40c72493, 0x3c9ebe0a15c9bebc, 0x431d67c49c100d4c,
    0x4cc5d4becb3e42b6, 0x597f299cfc657e2a, 0x5fcb6fab3ad6faec, 0x6c44198c4a475817]

/-- The fractional parts of the square roots of the first eight primes. -/
def initialState : Vector UInt64 8 :=
  #v[0x6a09e667f3bcc908, 0xbb67ae8584caa73b, 0x3c6ef372fe94f82b, 0xa54ff53a5f1d36f1,
    0x510e527fade682d1, 0x9b05688c2b3e6c1f, 0x1f83d9abfb41bd6b, 0x5be0cd19137e2179]

/-- Rotation to the right. -/
def rotate (x : UInt64) (n : UInt64) : UInt64 := (x >>> n) ||| (x <<< (64 - n))

/-- The schedule of a block, extended word by word from the sixteen words of the block. -/
def schedule (block : List UInt64) : Vector UInt64 80 :=
  (List.range 80).foldl (fun w t =>
    if t < 16 then w.setIfInBounds t (block.getD t 0)
    else
      let a := w.getD (t - 15) 0
      let b := w.getD (t - 2) 0
      let s0 := rotate a 1 ^^^ rotate a 8 ^^^ (a >>> 7)
      let s1 := rotate b 19 ^^^ rotate b 61 ^^^ (b >>> 6)
      w.setIfInBounds t (w.getD (t - 16) 0 + s0 + w.getD (t - 7) 0 + s1))
    (Vector.replicate 80 0)

/-- One round: the state turns by one word, with two words mixed anew. -/
def round (state : Vector UInt64 8) (k w : UInt64) : Vector UInt64 8 :=
  let e := state[4]
  let a := state[0]
  let s1 := rotate e 14 ^^^ rotate e 18 ^^^ rotate e 41
  let choice := (e &&& state[5]) ^^^ (~~~e &&& state[6])
  let t1 := state[7] + s1 + choice + k + w
  let s0 := rotate a 28 ^^^ rotate a 34 ^^^ rotate a 39
  let majority := (a &&& state[1]) ^^^ (a &&& state[2]) ^^^ (state[1] &&& state[2])
  #v[t1 + s0 + majority, a, state[1], state[2], state[3] + t1, e, state[5], state[6]]

/-- The state after a block: eighty rounds, added to the state before. -/
def compress (state : Vector UInt64 8) (block : List UInt64) : Vector UInt64 8 :=
  let rounds := (roundConstants.zip (schedule block)).toList
  let final := rounds.foldl (fun state (k, w) => round state k w) state
  state.zipWith (· + ·) final

/-- The `count` bytes of `n`, greatest first. -/
def bigEndian (count n : Nat) : List UInt8 :=
  (List.range count).map fun i => UInt8.ofNat (n >>> (8 * (count - 1 - i)))

/-- The number that bytes write, greatest first. -/
def fromBigEndian (bytes : List UInt8) : Nat := bytes.foldl (fun n b => n * 256 + b.toNat) 0

/-- A message with its padding: a bit of one, zeros, and the length in bits. -/
def padded (message : List UInt8) : List UInt8 :=
  let zeros := (239 - message.length % 128) % 128
  message ++ 0x80 :: List.replicate zeros 0 ++ bigEndian 16 (8 * message.length)

/-- `xs` in chunks of `size` items; `count` bounds their number. -/
def chunks {α : Type} (size : Nat) : Nat → List α → List (List α)
  | 0, _ => []
  | _, [] => []
  | count + 1, xs => xs.take size :: chunks size count (xs.drop size)

/-- The digest of a message, as sixty-four bytes. -/
def digest (message : List UInt8) : List UInt8 :=
  let bytes := padded message
  let words := (chunks 8 bytes.length bytes).map fun c => UInt64.ofNat (fromBigEndian c)
  let state := (chunks 16 words.length words).foldl compress initialState
  state.toList.flatMap fun w => bigEndian 8 w.toNat

end SvgAssets.Digest512
