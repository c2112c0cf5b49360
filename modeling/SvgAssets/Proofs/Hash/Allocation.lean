/-
# SvgAssets.Proofs.Hash.Allocation -- what an allocator hands out

An allocator that starts empty is called again and again, on any source of random words. What it has
handed out is at each time a list of different hashes of the right shape, and the allocator
remembers exactly these (`calls_handOut`). Three facts carry each other along a run: since every
hash has the shape, there are no more of them than texts of this shape; so the number that makes the
allocator refuse is reached exactly and never passed.

Nothing is said about chance. A source may keep an allocator searching for ever; what is shown is
that below its capacity this is the only way not to get a hash.
-/
import Mathlib.Data.List.Nodup
import Mathlib.Data.List.Perm.Subperm
import Mathlib.Data.List.ProdSigma
import SvgAssets.Hash.Allocator

namespace SvgAssets.Allocator

variable {σ : Type} [WordSource σ]

/-! ## The shape of a hash -/

/-- A text of the given length, which is one of the small letters `a` to `z` and then such letters
and the digits `0` to `9`. -/
structure IsHash (length : Nat) (hash : Text) : Prop where
  length_eq : hash.length = length
  first : ∀ c, hash.head? = some c → c.isLower = true
  others : ∀ c ∈ hash.tail, (c.isLower || c.isDigit) = true

/-- The texts that a letter or digit in front of one of the given texts makes. -/
def extend (options : Text) (tails : List Text) : List Text :=
  (options ×ˢ tails).map fun x => x.1 :: x.2

theorem length_extend (options : Text) (tails : List Text) :
    (extend options tails).length = options.length * tails.length := by
  rw [extend, List.length_map, List.length_product]

theorem mem_extend_iff {options : Text} {tails : List Text} {s : Text} :
    s ∈ extend options tails ↔ ∃ c ∈ options, ∃ rest ∈ tails, s = c :: rest := by
  rw [extend, List.mem_map]
  constructor
  · rintro ⟨⟨c, rest⟩, hx, rfl⟩
    obtain ⟨hc, hrest⟩ := List.mem_product.1 hx
    exact ⟨c, hc, rest, hrest, rfl⟩
  · rintro ⟨c, hc, rest, hrest, rfl⟩
    exact ⟨(c, rest), List.mem_product.2 ⟨hc, hrest⟩, rfl⟩

/-- The texts of `n` letters and digits. -/
def tails : Nat → List Text
  | 0 => [[]]
  | n + 1 => extend hashAlphabet (tails n)

/-- The texts that a candidate of a length can be. -/
def candidates (length : Nat) : List Text := extend hashLetters (tails (length - 1))

theorem length_tails (n : Nat) : (tails n).length = 36 ^ n := by
  induction n with
  | zero => rfl
  | succ n ih =>
    rw [tails, length_extend, ih, Nat.pow_succ']
    rfl

theorem length_candidates (length : Nat) : (candidates length).length = capacity length := by
  rw [candidates, length_extend, length_tails]
  rfl

theorem mem_tails_iff {n : Nat} {s : Text} :
    s ∈ tails n ↔ s.length = n ∧ ∀ c ∈ s, c ∈ hashAlphabet := by
  induction n generalizing s with
  | zero =>
    rw [tails, List.mem_singleton, List.length_eq_zero_iff]
    constructor
    · rintro rfl
      exact ⟨rfl, by simp⟩
    · exact And.left
  | succ n ih =>
    rw [tails, mem_extend_iff]
    constructor
    · rintro ⟨c, hc, rest, hrest, rfl⟩
      obtain ⟨hlength, hmem⟩ := ih.1 hrest
      exact ⟨congrArg (· + 1) hlength, List.forall_mem_cons.2 ⟨hc, hmem⟩⟩
    · rintro ⟨hlength, hmem⟩
      cases s with
      | nil => cases hlength
      | cons c rest =>
        rw [List.forall_mem_cons] at hmem
        exact ⟨c, hmem.1, rest, ih.2 ⟨Nat.succ.inj hlength, hmem.2⟩, rfl⟩

theorem mem_candidates_iff {length : Nat} {hash : Text} :
    hash ∈ candidates length ↔ ∃ c ∈ hashLetters, ∃ rest, hash = c :: rest ∧
      rest.length = length - 1 ∧ ∀ d ∈ rest, d ∈ hashAlphabet := by
  rw [candidates, mem_extend_iff]
  constructor
  · rintro ⟨c, hc, rest, hrest, rfl⟩
    exact ⟨c, hc, rest, rfl, mem_tails_iff.1 hrest⟩
  · rintro ⟨c, hc, rest, rfl, hrest⟩
    exact ⟨c, hc, rest, mem_tails_iff.2 hrest, rfl⟩

theorem isHash_of_mem_candidates {length : Nat} (hlength : 2 ≤ length) {hash : Text}
    (h : hash ∈ candidates length) : IsHash length hash := by
  obtain ⟨c, hc, rest, rfl, hrest, halphabet⟩ := mem_candidates_iff.1 h
  have hletters := List.all_eq_true.1 (show hashLetters.all Char.isLower = true by decide)
  have hothers := List.all_eq_true.1
    (show hashAlphabet.all (fun c => c.isLower || c.isDigit) = true by decide)
  refine ⟨?_, ?_, fun d hd => hothers d (halphabet d hd)⟩
  · rw [List.length_cons, hrest]
    omega
  · intro d hd
    cases hd
    exact hletters c hc

/-! ## Drawing candidates -/

theorem drawTail_spec (n : Nat) (source : σ) :
    (drawTail n source).1.length = n ∧ ∀ c ∈ (drawTail n source).1, c ∈ hashAlphabet := by
  induction n generalizing source with
  | zero => exact ⟨rfl, by simp [drawTail]⟩
  | succ n ih =>
    rw [drawTail]
    obtain ⟨hlength, hmem⟩ :=
      ih (WordSource.pickScaled hashAlphabet isScalable_hashAlphabet source).2
    refine ⟨congrArg (· + 1) hlength, ?_⟩
    rw [List.forall_mem_cons]
    exact ⟨List.get_mem .., hmem⟩

theorem mem_candidates_of_drawCandidate? {length : Nat} {source behind : σ} {hash : Text}
    (h : drawCandidate? length source = (some hash, behind)) : hash ∈ candidates length := by
  unfold drawCandidate? WordSource.pick? at h
  split at h
  · rename_i c source' hpick
    obtain ⟨i, -, rfl⟩ := Option.map_eq_some_iff.1 (congrArg Prod.fst hpick)
    cases h
    obtain ⟨hrest, hmem⟩ := drawTail_spec (length - 1) source'
    exact mem_candidates_iff.2 ⟨_, List.get_mem .., _, rfl, hrest, hmem⟩
  · cases h

/-- From `source` the first candidate that is not in `used` is `hash`, and `behind` is what the
source has behind it. -/
inductive Finds (length : Nat) (used : List Text) : σ → Text → σ → Prop where
  | fresh {source : σ} {hash : Text} {behind : σ} :
    drawCandidate? length source = (some hash, behind) → hash ∉ used →
      Finds length used source hash behind
  | again {source : σ} {candidate? : Option Text} {next : σ} {hash : Text} {behind : σ} :
    drawCandidate? length source = (candidate?, next) → (∀ c, candidate? = some c → c ∈ used) →
      Finds length used next hash behind → Finds length used source hash behind

theorem all_contains_iff {candidate? : Option Text} {used : List Text} :
    candidate?.all used.contains = true ↔ ∀ c, candidate? = some c → c ∈ used := by
  rw [Option.all_eq_true]
  simp only [List.contains_iff_mem]

/-- The search comes to an end exactly if there is a fresh candidate ahead, and then with it. -/
theorem firstFresh?_eq_some_iff {a : Allocator σ} {behind : σ} {hash : Text} :
    a.firstFresh? = some (hash, behind) ↔ Finds a.length a.used a.source hash behind := by
  constructor
  · intro h
    refine firstFresh?.partial_correctness
      (fun a found => Finds a.length a.used a.source found.1 found.2) ?_ a (hash, behind) h
    intro search ih a found hfound
    dsimp only at hfound
    split at hfound
    · rename_i hused
      exact .again rfl (all_contains_iff.1 hused) (ih _ found hfound)
    · rename_i hused
      obtain ⟨candidate, hcandidate, rfl⟩ := Option.map_eq_some_iff.1 hfound
      refine .fresh (Prod.ext hcandidate rfl) fun hmem => hused ?_
      rw [hcandidate]
      exact all_contains_iff.2 fun c hc => Option.some.inj hc ▸ hmem
  · obtain ⟨length, used, source⟩ := a
    intro h
    dsimp only at h
    induction h with
    | fresh hdraw hused =>
      rw [firstFresh?, hdraw]
      refine if_neg fun hall => hused ?_
      exact all_contains_iff.1 hall _ rfl
    | again hdraw hused _ ih =>
      rw [firstFresh?, hdraw]
      exact (if_pos (all_contains_iff.2 hused)).trans ih

theorem Finds.not_mem {length : Nat} {used : List Text} {source behind : σ} {hash : Text}
    (h : Finds length used source hash behind) : hash ∉ used := by
  induction h with
  | fresh _ hused => exact hused
  | again _ _ _ ih => exact ih

theorem Finds.mem_candidates {length : Nat} {used : List Text} {source behind : σ} {hash : Text}
    (h : Finds length used source hash behind) : hash ∈ candidates length := by
  induction h with
  | fresh hdraw _ => exact mem_candidates_of_drawCandidate? hdraw
  | again _ _ _ ih => exact ih

/-! ## One call -/

theorem allocate_eq_exhausted_iff {a : Allocator σ} {k n : Nat} :
    a.allocate = .error (.exhausted k n) ↔
      capacity a.length ≤ a.size ∧ k = capacity a.length ∧ n = a.length := by
  unfold allocate size
  split
  · rename_i h
    simp only [Except.error.injEq, HashError.exhausted.injEq, h, true_and, eq_comm]
  · rename_i h
    split <;> simp [h]

/-- A call hands out a hash exactly if there is room and a fresh candidate ahead. -/
theorem allocate_eq_ok_iff {a b : Allocator σ} {hash : Text} :
    a.allocate = .ok (hash, b) ↔
      a.size < capacity a.length ∧ Finds a.length a.used a.source hash b.source ∧
        b.length = a.length ∧ b.used = hash :: a.used := by
  unfold allocate size
  split
  · rename_i hfull
    simp only [reduceCtorEq, false_iff, not_and]
    exact fun hroom => absurd hroom (Nat.not_lt.2 hfull)
  · rename_i hroom
    rw [Nat.not_le] at hroom
    constructor
    · intro h
      split at h
      · cases h
      · rename_i found hfirst
        cases h
        exact ⟨hroom, firstFresh?_eq_some_iff.1 hfirst, rfl, rfl⟩
    · rintro ⟨-, hfinds, hlength, hused⟩
      obtain ⟨_, _, source⟩ := b
      dsimp only at hfinds hlength hused
      rw [firstFresh?_eq_some_iff.2 hfinds, hlength, hused]

/-! ## Runs of calls -/

/-- Calls of an allocator one after the other, each of which comes to an end: it hands out a hash,
or it is refused because all hashes are taken and leaves the allocator as it is. `hashes` are those
handed out, in order. -/
inductive Calls (a : Allocator σ) : List Text → Allocator σ → Prop where
  | start : Calls a [] a
  | granted {hashes : List Text} {b c : Allocator σ} {hash : Text} :
    Calls a hashes b → b.allocate = .ok (hash, c) → Calls a (hashes ++ [hash]) c
  | refused {hashes : List Text} {b : Allocator σ} {k n : Nat} :
    Calls a hashes b → b.allocate = .error (.exhausted k n) → Calls a hashes b

/-- What an allocator that started empty knows of the hashes that it has handed out. -/
structure Remembers (length : Nat) (hashes : List Text) (b : Allocator σ) : Prop where
  length_eq : b.length = length
  used_eq : b.used = hashes.reverse
  nodup : hashes.Nodup
  mem_candidates : ∀ hash ∈ hashes, hash ∈ candidates length

omit [WordSource σ] in
theorem Remembers.size_eq {length : Nat} {hashes : List Text} {b : Allocator σ}
    (h : Remembers length hashes b) : b.size = hashes.length := by
  rw [size, h.used_eq, List.length_reverse]

omit [WordSource σ] in
theorem Remembers.length_le {length : Nat} {hashes : List Text} {b : Allocator σ}
    (h : Remembers length hashes b) : hashes.length ≤ capacity length := by
  rw [← length_candidates]
  exact (h.nodup.subperm h.mem_candidates).length_le

/-- One more hash is a new one. -/
theorem Remembers.allocate {length : Nat} {hashes : List Text} {b c : Allocator σ} {hash : Text}
    (h : Remembers length hashes b) (hcall : b.allocate = .ok (hash, c)) :
    Remembers length (hashes ++ [hash]) c := by
  obtain ⟨-, hfinds, hlength, hused⟩ := allocate_eq_ok_iff.1 hcall
  have hnew := hfinds.not_mem
  have hshape := hfinds.mem_candidates
  rw [h.used_eq, List.mem_reverse] at hnew
  rw [h.length_eq] at hshape
  refine ⟨hlength.trans h.length_eq, ?_, ?_, ?_⟩
  · rw [hused, h.used_eq, List.reverse_append, List.reverse_singleton, List.singleton_append]
  · rw [List.nodup_append]
    refine ⟨h.nodup, List.nodup_singleton _, ?_⟩
    rintro x hx y hy rfl
    exact hnew (List.mem_singleton.1 hy ▸ hx)
  · intro x hx
    rcases List.mem_append.1 hx with hx | hx
    · exact h.mem_candidates x hx
    · rw [List.mem_singleton.1 hx]
      exact hshape

/-- Nothing is handed out yet, and hashes have two characters or more. -/
structure IsNew (a : Allocator σ) : Prop where
  used_eq : a.used = []
  two_le_length : 2 ≤ a.length

/-- Whatever the seed, an allocator that is made from it is new. -/
theorem isNew_of_ofSeed {length : Int} {seed : Seed} {a : HashAllocator}
    (h : HashAllocator.ofSeed length seed = .ok a) : a.IsNew := by
  unfold HashAllocator.ofSeed at h
  split at h
  · cases h
  · rename_i hlength
    cases h
    exact ⟨rfl, by dsimp only; omega⟩

theorem Calls.remembers {a b : Allocator σ} {hashes : List Text} (h : Calls a hashes b)
    (ha : a.IsNew) : Remembers a.length hashes b := by
  induction h with
  | start => exact ⟨rfl, ha.used_eq, List.nodup_nil, by simp⟩
  | granted _ hcall ih => exact ih.allocate hcall
  | refused _ _ ih => exact ih

/-- **Hashes never repeat.** Whatever the source of random words, the hashes that come from a new
allocator are different from each other and have the shape of a hash; the allocator contains exactly
these, counts them, and never counts more than its capacity. A call is refused exactly if their
number is the capacity, and below the capacity a call hands out the first fresh candidate that the
source has ahead, if it has one. -/
theorem calls_handOut {a b : Allocator σ} (ha : a.IsNew) {hashes : List Text}
    (h : Calls a hashes b) :
    hashes.Nodup ∧ (∀ hash ∈ hashes, IsHash a.length hash) ∧
      (∀ s, b.contains s = true ↔ s ∈ hashes) ∧
      b.size = hashes.length ∧ hashes.length ≤ capacity a.length ∧
      ((∃ k n, b.allocate = .error (.exhausted k n)) ↔ hashes.length = capacity a.length) ∧
      (∀ hash c, b.allocate = .ok (hash, c) ↔
        hashes.length < capacity a.length ∧ Finds a.length b.used b.source hash c.source ∧
          c.length = a.length ∧ c.used = hash :: b.used) := by
  have hb := h.remembers ha
  refine ⟨hb.nodup, ?_, ?_, hb.size_eq, hb.length_le, ?_, ?_⟩
  · intro hash hhash
    exact isHash_of_mem_candidates ha.two_le_length (hb.mem_candidates hash hhash)
  · intro s
    rw [contains, List.contains_iff_mem, hb.used_eq, List.mem_reverse]
  · simp only [allocate_eq_exhausted_iff, hb.size_eq, hb.length_eq]
    constructor
    · rintro ⟨_, _, hfull, -⟩
      exact Nat.le_antisymm hb.length_le hfull
    · intro hfull
      exact ⟨_, _, Nat.le_of_eq hfull.symm, rfl, rfl⟩
  · intro hash c
    rw [allocate_eq_ok_iff, hb.size_eq, hb.length_eq]

/-- Words for two hashes of two characters. The second hash begins with a word that is too large for
a letter, then comes the first hash again, and the last two words are the largest ones. -/
def sampleWords : Nat → UInt32 := fun n =>
  [0, 0, 0, 0xd0000000, 0, 0, 0, 0x08000000, 0xffffffff, 0xffffffff].getD n 0

/-- The words behind the first `k`. -/
def sampleFrom (k : Nat) : Nat → UInt32 := fun n => sampleWords (n + k)

theorem calls_handOut_sample :
    ∃ b, Calls ⟨2, [], sampleFrom 0⟩ ["aa".toList, "b9".toList] b ∧ b.size = 2 ∧
      b.contains "b9".toList = true := by
  have hfirst : drawCandidate? 2 (sampleFrom 0) = (some "aa".toList, sampleFrom 3) := rfl
  have hrejected : drawCandidate? 2 (sampleFrom 3) = (none, sampleFrom 4) := rfl
  have hagain : drawCandidate? 2 (sampleFrom 4) = (some "aa".toList, sampleFrom 7) := rfl
  have hsecond : drawCandidate? 2 (sampleFrom 7) = (some "b9".toList, sampleFrom 10) := rfl
  have hcalls : Calls ⟨2, [], sampleFrom 0⟩ (([] ++ ["aa".toList]) ++ ["b9".toList])
      ⟨2, ["b9".toList, "aa".toList], sampleFrom 10⟩ := by
    refine .granted (b := ⟨2, ["aa".toList], sampleFrom 3⟩) (.granted .start ?_) ?_
    · exact allocate_eq_ok_iff.2 ⟨by decide, .fresh hfirst (by decide), rfl, rfl⟩
    · exact allocate_eq_ok_iff.2 ⟨by decide, .again hrejected (by simp)
        (.again hagain (by simp) (.fresh hsecond (by decide))), rfl, rfl⟩
  obtain ⟨-, -, hcontains, hsize, -⟩ := calls_handOut ⟨rfl, Nat.le_refl 2⟩ hcalls
  exact ⟨_, hcalls, hsize, (hcontains _).2 (by decide)⟩

end SvgAssets.Allocator
