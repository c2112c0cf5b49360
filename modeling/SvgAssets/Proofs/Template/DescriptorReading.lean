/-
# SvgAssets.Proofs.Template.DescriptorReading -- which descriptors can be read back

A descriptor is read back by recursion over its objects, but whether the reading succeeds can be
seen by walking over its characters once, with the number of open objects and the kind of place in
the innermost one as the state (`read_isOk_iff`). Walking over a printed tree shows what can go
wrong: a name in which a colon already begins a value hides the brace of its table behind this
colon, and the closing brace of the table closes an object too many (`walk_describeMembers`). So a
printed tree is read back exactly if no brace is hidden (`read_describe_isOk_iff`).
-/
import SvgAssets.Proofs.Text.Scanning
import SvgAssets.Template.Descriptor

namespace SvgAssets.Template

open Text

namespace Descriptor

/-! ## Walking over a descriptor -/

/-- A place in an object: where a member may begin, in its name, behind the colon, in its type, or
behind the closing brace of its object. -/
inductive Place where
  | start
  | name
  | colon
  | type
  | brace
  deriving DecidableEq

/-- How far a reader has come: in an object with a number of objects around it, behind the closing
brace of the outermost object, or beyond this brace, where nothing may stand. -/
inductive Position where
  | inside (outer : Nat) (place : Place)
  | finished
  | beyond
  deriving DecidableEq

namespace Position

/-- Behind the closing brace of an object. -/
def close : Nat → Position
  | 0 => .finished
  | outer + 1 => .inside outer .brace

/-- Where a member may begin: also behind the brace of the one before. -/
def stepStart (outer : Nat) (c : Char) : Position :=
  if c = '\x7d' then close outer
  else if c = ':' then .inside outer .colon
  else .inside outer .name

/-- In a type: up to a semicolon or a closing brace. -/
def stepType (outer : Nat) (c : Char) : Position :=
  if c = ';' then .inside outer .start
  else if c = '\x7d' then close outer
  else .inside outer .type

/-- One character further. -/
def step : Position → Char → Position
  | .inside outer .start, c => stepStart outer c
  | .inside outer .name, c => if c = ':' then .inside outer .colon else .inside outer .name
  | .inside outer .colon, c =>
    if c = '\x7b' then .inside (outer + 1) .start else stepType outer c
  | .inside outer .type, c => stepType outer c
  | .inside outer .brace, c => if c = ';' then .inside outer .start else stepStart outer c
  | .finished, _ => .beyond
  | .beyond, _ => .beyond

/-- A text further. -/
def walk (p : Position) (s : Text) : Position := s.foldl step p

@[simp] theorem walk_nil (p : Position) : p.walk [] = p := rfl

@[simp] theorem walk_cons (p : Position) (c : Char) (s : Text) :
    p.walk (c :: s) = (p.step c).walk s := rfl

@[simp] theorem walk_append (p : Position) (s t : Text) :
    p.walk (s ++ t) = (p.walk s).walk t := List.foldl_append

@[simp] theorem step_finished (c : Char) : finished.step c = .beyond := rfl

@[simp] theorem step_beyond (c : Char) : beyond.step c = .beyond := rfl

@[simp] theorem beyond_walk (s : Text) : beyond.walk s = .beyond := by
  induction s with
  | nil => rfl
  | cons c s ih => exact ih

/-- Nothing leads back from behind the outermost object. -/
theorem finished_walk_eq_iff {s : Text} : finished.walk s = .finished ↔ s = [] := by
  cases s with
  | nil => simp
  | cons c s =>
    rw [walk_cons, step, beyond_walk]
    simp

/-- A name goes on up to a colon. -/
theorem walk_name {s : Text} (h : ':' ∉ s) (outer : Nat) :
    (inside outer .name).walk s = .inside outer .name := by
  induction s with
  | nil => rfl
  | cons c s ih =>
    rw [List.mem_cons, not_or] at h
    rw [walk_cons, step, if_neg (Ne.symm h.1), ih h.2]

/-- From the start of a member to behind its colon. -/
theorem walk_start {name s : Text} (h : ':' ∉ name) (hhead : name.head? ≠ some '\x7d')
    (outer : Nat) :
    (inside outer .start).walk (name ++ ':' :: s) = (inside outer .colon).walk s := by
  cases name with
  | nil => rfl
  | cons c name =>
    have hc : c ≠ '\x7d' := by
      rintro rfl
      exact hhead rfl
    rw [List.mem_cons, not_or] at h
    have hstep : step (inside outer .start) c = .inside outer .name := by
      rw [step, stepStart, if_neg hc, if_neg (Ne.symm h.1)]
    rw [List.cons_append, walk_cons, hstep, walk_append, walk_name h.2]
    rfl

/-- A type goes on up to a semicolon or a closing brace. -/
theorem walk_type {s : Text} (h : ∀ c ∈ s, isTypeChar c = true) (outer : Nat) :
    (inside outer .type).walk s = .inside outer .type := by
  induction s with
  | nil => rfl
  | cons c s ih =>
    rw [List.forall_mem_cons] at h
    have hc := h.1
    rw [isTypeChar, Bool.and_eq_true, bne_iff_ne, bne_iff_ne] at hc
    rw [walk_cons, step, stepType, if_neg hc.1, if_neg hc.2, ih h.2]

/-- From behind a colon to the end of a type. -/
theorem walk_colon {s : Text} (h : ∀ c ∈ s, isTypeChar c = true) (hhead : s.head? ≠ some '\x7b')
    (outer : Nat) : ∃ place, (place = .colon ∨ place = .type) ∧
      (inside outer .colon).walk s = .inside outer place := by
  cases s with
  | nil => exact ⟨.colon, .inl rfl, rfl⟩
  | cons c s =>
    refine ⟨.type, .inr rfl, ?_⟩
    have hc : c ≠ '\x7b' := by simpa using hhead
    rw [walk_cons, step, if_neg hc]
    exact walk_type (s := c :: s) h outer

/-- Behind a type, where a semicolon or a closing brace stands, a member may begin, and the
semicolon does not count. -/
theorem walk_behind_type {c : Char} (hc : isTypeChar c = false) {place : Place}
    (hplace : place = .colon ∨ place = .type) (outer : Nat) (s : Text) :
    (inside outer place).walk (c :: s) =
      (inside outer .start).walk (readMembers.skipSemicolon (c :: s)) := by
  have hc' : c = ';' ∨ c = '\x7d' := by
    by_cases h : c = ';'
    · exact .inl h
    · exact .inr (by simpa [isTypeChar, h] using hc)
  rcases hc' with rfl | rfl <;> rcases hplace with rfl | rfl <;> rfl

/-- The same holds behind the closing brace of an object. -/
theorem walk_behind_brace {s : Text} (h : s ≠ []) (outer : Nat) :
    (inside outer .brace).walk s = (inside outer .start).walk (readMembers.skipSemicolon s) := by
  obtain ⟨c, s, rfl⟩ := List.exists_cons_of_ne_nil h
  by_cases hc : c = ';'
  · subst hc
    rfl
  · have hskip : readMembers.skipSemicolon (c :: s) = c :: s := by
      unfold readMembers.skipSemicolon
      split
      · rename_i he
        cases he
        exact absurd rfl hc
      · rfl
    rw [hskip, walk_cons, walk_cons, step, step, if_neg hc]

end Position

/-! ## Reading and walking -/

open Position

theorem length_skipSemicolon_le (s : Text) :
    (readMembers.skipSemicolon s).length ≤ s.length := by
  unfold readMembers.skipSemicolon
  split
  · exact Nat.le_succ _
  · exact Nat.le_refl _

/-- What a reader has found agrees with the walk over the same text. If the reader has come to the
end of its object, the walk goes on from there; if it has failed, the walk ends inside of the
object. -/
def Agrees (outer : Nat) (s : Text) : Except DescriptorError (Entries Value × Text) → Prop
  | .ok (_, rest) =>
    rest.length ≤ s.length ∧ (inside outer .start).walk s = (close outer).walk rest
  | .error _ => ∃ depth place, outer ≤ depth ∧ (inside outer .start).walk s = .inside depth place

theorem Agrees.of_walk_eq {outer : Nat} {s t : Text}
    {result : Except DescriptorError (Entries Value × Text)} (h : Agrees outer t result)
    (hlength : t.length ≤ s.length)
    (hwalk : (inside outer .start).walk s = (inside outer .start).walk t) :
    Agrees outer s result := by
  cases result with
  | error e =>
    obtain ⟨depth, place, hle, ht⟩ := h
    exact ⟨depth, place, hle, hwalk.trans ht⟩
  | ok found => exact ⟨Nat.le_trans h.1 hlength, hwalk.trans h.2⟩

variable {whole name t : Text} {tree : Entries Value} {fuel outer : Nat}

theorem readMembers_object (hname : ':' ∉ name) (hhead : name.head? ≠ some '\x7d') (inner : Text) :
    readMembers whole tree (fuel + 1) (name ++ ':' :: '\x7b' :: inner) = (do
      let (members, rest) ← readMembers whole [] fuel inner
      readMembers whole (tree.set name (.table members)) fuel
        (readMembers.skipSemicolon rest)) := by
  have hbreak := breakAt?_append_cons hname ('\x7b' :: inner)
  cases name with
  | nil => rfl
  | cons c name =>
    have hc : c ≠ '\x7d' := by simpa using hhead
    rw [List.cons_append] at hbreak ⊢
    rw [readMembers, if_neg hc, hbreak]
    rfl

theorem readMembers_type (hname : ':' ∉ name) (hhead : name.head? ≠ some '\x7d')
    (ht : ∀ inner, t ≠ '\x7b' :: inner) :
    readMembers whole tree (fuel + 1) (name ++ ':' :: t) =
      match run isTypeChar t with
      | (_, []) => .error (.unterminatedMember name whole)
      | (type, rest) =>
        readMembers whole (tree.set name (.text type)) fuel (readMembers.skipSemicolon rest) := by
  have hbreak := breakAt?_append_cons hname t
  have hcons : ∃ c s, name ++ ':' :: t = c :: s ∧ c ≠ '\x7d' := by
    cases name with
    | nil => exact ⟨':', t, rfl, by decide⟩
    | cons c name => exact ⟨c, _, rfl, by simpa using hhead⟩
  obtain ⟨c, s, hs, hc⟩ := hcons
  rw [hs] at hbreak ⊢
  rw [readMembers, if_neg hc, hbreak]
  split
  · rename_i he
    cases he
  · rename_i he
    cases he
    exact absurd rfl (ht _)
  · rename_i he
    cases he
    rfl

theorem readMembers_nil (whole : Text) (tree : Entries Value) (fuel : Nat) :
    readMembers whole tree fuel [] = .error (.unclosed whole) := by
  cases fuel <;> rfl

/-- An inner object is read one level further in, and the reading goes on behind it. -/
theorem agrees_object (hname : ':' ∉ name) (hhead : name.head? ≠ some '\x7d') {inner : Text}
    (hinner : Agrees (outer + 1) inner (readMembers whole [] fuel inner))
    (hrest : ∀ tree rest, rest.length ≤ inner.length →
      Agrees outer rest (readMembers whole tree fuel rest)) :
    Agrees outer (name ++ ':' :: '\x7b' :: inner)
      (readMembers whole tree (fuel + 1) (name ++ ':' :: '\x7b' :: inner)) := by
  have hwalk : (inside outer .start).walk (name ++ ':' :: '\x7b' :: inner) =
      (inside (outer + 1) .start).walk inner := by
    rw [walk_start hname hhead]
    rfl
  rw [readMembers_object hname hhead]
  cases hread : readMembers whole [] fuel inner with
  | error e =>
    rw [hread] at hinner
    obtain ⟨depth, place, hle, hend⟩ := hinner
    exact ⟨depth, place, by omega, hwalk.trans hend⟩
  | ok found =>
    obtain ⟨members, rest⟩ := found
    rw [hread] at hinner
    obtain ⟨hle, hend⟩ := hinner
    show Agrees outer _ (readMembers whole (tree.set name (.table members)) fuel
      (readMembers.skipSemicolon rest))
    by_cases hnil : rest = []
    · -- The text ends with the inner object, so the outer one stays open.
      subst hnil
      rw [readMembers.skipSemicolon, readMembers_nil]
      · exact ⟨outer, .brace, Nat.le_refl _, hwalk.trans hend⟩
      · simp
    · have hskip := length_skipSemicolon_le rest
      refine (hrest _ _ (Nat.le_trans hskip hle)).of_walk_eq ?_ ?_
      · simp
        omega
      · rw [hwalk, hend, close, walk_behind_brace hnil]

/-- A type is read up to a semicolon or a closing brace, and the reading goes on behind it. -/
theorem agrees_type (hname : ':' ∉ name) (hhead : name.head? ≠ some '\x7d')
    (ht : ∀ inner, t ≠ '\x7b' :: inner)
    (hrest : ∀ tree rest, rest.length ≤ t.length →
      Agrees outer rest (readMembers whole tree fuel rest)) :
    Agrees outer (name ++ ':' :: t) (readMembers whole tree (fuel + 1) (name ++ ':' :: t)) := by
  rw [readMembers_type hname hhead ht]
  cases hrun : run isTypeChar t with
  | mk type behind =>
    obtain ⟨rfl, htype, hbehind⟩ := run_eq_iff.1 hrun
    have hopen : type.head? ≠ some '\x7b' := by
      cases type with
      | nil => simp
      | cons c type =>
        intro hc
        exact ht (type ++ behind) (by simpa using hc)
    obtain ⟨place, hplace, hwalk⟩ := walk_colon htype hopen outer
    cases behind with
    | nil =>
      -- The text ends within the type.
      refine ⟨outer, place, Nat.le_refl _, ?_⟩
      rw [walk_start hname hhead, walk_append, hwalk, walk_nil]
    | cons c rest =>
      have hskip := length_skipSemicolon_le (c :: rest)
      refine (hrest _ _ (Nat.le_trans hskip ?_)).of_walk_eq ?_ ?_
      · simp
      · simp at hskip ⊢
        omega
      · rw [walk_start hname hhead, walk_append, hwalk,
          walk_behind_type (hbehind c rfl) hplace]

/-- Reading the members of an object agrees with the walk over them. -/
theorem readMembers_agrees {s : Text} (hfuel : s.length < fuel) :
    Agrees outer s (readMembers whole tree fuel s) := by
  -- Every member and every level takes one of the fuel and at least one character of the text.
  induction fuel generalizing s tree outer with
  | zero => omega
  | succ fuel ih =>
    cases s with
    | nil => exact ⟨outer, .start, Nat.le_refl _, rfl⟩
    | cons c s =>
      by_cases hc : c = '\x7d'
      · subst hc
        rw [readMembers, if_pos rfl]
        exact ⟨Nat.le_succ _, rfl⟩
      rcases breakAt?_cases ':' (c :: s) with ⟨hnone, hmem⟩ | ⟨name, t, -, hs, hmem⟩
      · -- There is no colon, so all that is left is taken for a name.
        rw [readMembers, if_neg hc, hnone]
        refine ⟨outer, .name, Nat.le_refl _, ?_⟩
        rw [List.mem_cons, not_or] at hmem
        rw [walk_cons, step, stepStart, if_neg hc, if_neg (Ne.symm hmem.1), walk_name hmem.2]
      have hhead : name.head? ≠ some '\x7d' := by
        cases name with
        | nil => simp
        | cons d name =>
          cases hs
          simpa using hc
      rw [hs, List.length_append, List.length_cons] at hfuel
      rw [hs]
      by_cases ht : ∃ inner, t = '\x7b' :: inner
      · -- An object: its members are read first, one level further in.
        obtain ⟨inner, rfl⟩ := ht
        rw [List.length_cons] at hfuel
        refine agrees_object hmem hhead (ih (by omega)) ?_
        intro tree rest hle
        exact ih (by omega)
      · -- A type.
        refine agrees_type hmem hhead (fun inner he => ht ⟨inner, he⟩) ?_
        intro tree rest hle
        exact ih (by omega)

/-- A text without blanks around it is a descriptor exactly if the walk over it, behind its opening
brace, finishes with its last character. -/
theorem read_isOk_iff {inner : Text} (h : trim ('\x7b' :: inner) = '\x7b' :: inner) :
    (∃ tree, read ('\x7b' :: inner) = .ok tree) ↔ (inside 0 .start).walk inner = .finished := by
  have hagrees : Agrees 0 inner (readMembers ('\x7b' :: inner) [] (inner.length + 1) inner) :=
    readMembers_agrees (Nat.lt_succ_self _)
  cases hread : readMembers ('\x7b' :: inner) [] (inner.length + 1) inner with
  | error e =>
    rw [hread] at hagrees
    obtain ⟨depth, place, -, hend⟩ := hagrees
    simp [read, h, hread, hend]
  | ok found =>
    obtain ⟨tree, rest⟩ := found
    rw [hread] at hagrees
    rw [hagrees.2, close, finished_walk_eq_iff]
    cases rest <;> simp [read, h, hread]

/-! ## Hidden braces -/

/-- Whether a reader is in a type behind `c`, when it was in one in front of `c` or was not. -/
def readsType (inType : Bool) (c : Char) : Bool := if inType then c != ';' else c == ':'

/-- Whether a place belongs to a type. -/
def Place.isType : Place → Bool
  | .colon | .type => true
  | .start | .name | .brace => false

mutual

/-- The number of braces that are hidden in types, where the name of the value ends in one or does
not. -/
def hiddenInValue (inType : Bool) : Value → Nat
  | .table entries => (if inType then 1 else 0) + hiddenIn inType entries
  | _ => 0

/-- The number of braces that are hidden in types, where the first member begins in one or does not.
-/
def hiddenIn (inType : Bool) : List (Text × Value) → Nat
  | [] => 0
  | (name, value) :: rest => hiddenInValue (name.foldl readsType inType) value + hiddenIn false rest

end

mutual

/-- No name holds a brace, and no type a character that would end it or an opening brace. -/
def IsBraceFree : Value → Prop
  | .table entries => AreBraceFree entries
  | value => ∀ c ∈ value.plain, isTypeChar c = true ∧ c ≠ '\x7b'

/-- This holds of all entries. -/
def AreBraceFree : List (Text × Value) → Prop
  | [] => True
  | (name, value) :: rest =>
    (∀ c ∈ name, c ≠ '\x7b' ∧ c ≠ '\x7d') ∧ IsBraceFree value ∧ AreBraceFree rest

end

namespace Position

/-- The place behind a member that has closed `lost` objects too many, where `outer` objects stood
around. If they were not enough, the reading is at its end. -/
def HasLost (outer lost : Nat) (p : Position) : Prop :=
  if lost ≤ outer then
    ∃ place, place ≠ .start ∧ place ≠ .name ∧ p = .inside (outer - lost) place
  else p = .finished ∨ p = .beyond

theorem hasLost_inside (outer : Nat) (place : Place) (hstart : place ≠ .start)
    (hname : place ≠ .name) : HasLost outer 0 (.inside outer place) := by
  rw [HasLost, if_pos (Nat.zero_le _)]
  exact ⟨place, hstart, hname, rfl⟩

theorem hasLost_succ_iff {outer lost : Nat} {p : Position} :
    HasLost (outer + 1) (lost + 1) p ↔ HasLost outer lost p := by
  simp [HasLost]

theorem HasLost.add {outer lost more : Nat} {p : Position} (hle : lost ≤ outer)
    (h : HasLost (outer - lost) more p) : HasLost outer (lost + more) p := by
  unfold HasLost at h ⊢
  by_cases hmore : more ≤ outer - lost
  · rw [if_pos hmore] at h
    rw [if_pos (by omega), ← Nat.sub_sub]
    exact h
  · rw [if_neg hmore] at h
    rw [if_neg (by omega)]
    exact h

theorem walk_of_ended {p : Position} (h : p = .finished ∨ p = .beyond) (s : Text) :
    p.walk s = .finished ∨ p.walk s = .beyond := by
  induction s generalizing p with
  | nil => exact h
  | cons c s ih =>
    rcases h with rfl | rfl
    · exact ih (.inr rfl)
    · exact ih (.inr rfl)

/-- A brace closes an object wherever it is not a part of a name. -/
theorem step_brace {place : Place} (hname : place ≠ .name) (outer : Nat) :
    step (.inside outer place) '\x7d' = close outer := by
  cases place with
  | name => exact absurd rfl hname
  | _ => rfl

/-- A closing brace behind the last member. -/
theorem HasLost.brace {outer lost : Nat} {p : Position} (h : HasLost outer lost p) :
    HasLost outer (lost + 1) (p.step '\x7d') := by
  unfold HasLost at h ⊢
  by_cases hle : lost ≤ outer
  · rw [if_pos hle] at h
    obtain ⟨place, hstart, hname, rfl⟩ := h
    rw [step_brace hname]
    by_cases hlt : lost + 1 ≤ outer
    · rw [if_pos hlt, show outer - lost = outer - (lost + 1) + 1 by omega, close]
      exact ⟨.brace, by decide, by decide, rfl⟩
    · rw [if_neg hlt, show outer - lost = 0 by omega]
      exact .inl rfl
  · rw [if_neg hle] at h
    rw [if_neg (by omega)]
    exact walk_of_ended h ['\x7d']

/-- The reading is at its end behind a closing brace exactly if as many objects have been closed too
many as stood around. -/
theorem HasLost.finishes_iff {outer lost : Nat} {p : Position} (h : HasLost outer lost p) :
    p.step '\x7d' = .finished ↔ lost = outer := by
  unfold HasLost at h
  by_cases hle : lost ≤ outer
  · rw [if_pos hle] at h
    obtain ⟨place, -, hname, rfl⟩ := h
    rw [step_brace hname]
    cases hsub : outer - lost with
    | zero =>
      simp only [close, true_iff]
      omega
    | succ n =>
      simp only [close, reduceCtorEq, false_iff]
      omega
  · rw [if_neg hle] at h
    have hne : lost ≠ outer := by omega
    rcases h with rfl | rfl <;> simp [step, hne]

/-- A semicolon behind a member, and more members. -/
theorem HasLost.semicolon {outer lost more : Nat} {p : Position} {s : Text}
    (h : HasLost outer lost p)
    (hmore : ∀ outer, HasLost outer more ((inside outer .start).walk s)) :
    HasLost outer (lost + more) (p.walk (';' :: s)) := by
  by_cases hle : lost ≤ outer
  · refine .add hle ?_
    rw [HasLost, if_pos hle] at h
    obtain ⟨place, hstart, hname, rfl⟩ := h
    have hstep : step (.inside (outer - lost) place) ';' = .inside (outer - lost) .start := by
      cases place with
      | start => exact absurd rfl hstart
      | name => exact absurd rfl hname
      | _ => rfl
    rw [walk_cons, hstep]
    exact hmore _
  · rw [HasLost, if_neg hle] at h
    rw [HasLost, if_neg (by omega)]
    exact walk_of_ended h _

theorem step_of_not_brace {c : Char} (h : c ≠ '\x7b' ∧ c ≠ '\x7d') (outer : Nat) (place : Place) :
    ∃ place', step (.inside outer place) c = .inside outer place' ∧
      place'.isType = readsType place.isType c := by
  have htype : ∃ place', stepType outer c = .inside outer place' ∧
      place'.isType = (c != ';') := by
    by_cases hc : c = ';'
    · exact ⟨.start, by simp [stepType, hc], by simp [Place.isType, hc]⟩
    · exact ⟨.type, by simp [stepType, hc, h.2], by simp [Place.isType, hc]⟩
  have hstart : ∃ place', stepStart outer c = .inside outer place' ∧
      place'.isType = (c == ':') := by
    by_cases hc : c = ':'
    · exact ⟨.colon, by simp [stepStart, hc], by simp [Place.isType, hc]⟩
    · exact ⟨.name, by simp [stepStart, hc, h.2], by simp [Place.isType, hc]⟩
  cases place with
  | start => exact hstart
  | type => exact htype
  | colon =>
    rw [step, if_neg h.1]
    exact htype
  | name =>
    by_cases hc : c = ':'
    · exact ⟨.colon, by simp [step, hc], by simp [Place.isType, readsType, hc]⟩
    · exact ⟨.name, by simp [step, hc], by simp [Place.isType, readsType, hc]⟩
  | brace =>
    by_cases hc : c = ';'
    · exact ⟨.start, by simp [step, hc], by simp [Place.isType, readsType, hc]⟩
    · rw [step, if_neg hc]
      exact hstart

/-- A name without braces leads to a place in the same object. -/
theorem walk_name_of_not_brace {name : Text} (h : ∀ c ∈ name, c ≠ '\x7b' ∧ c ≠ '\x7d')
    (outer : Nat) (place : Place) :
    ∃ place', (inside outer place).walk name = .inside outer place' ∧
      place'.isType = name.foldl readsType place.isType := by
  induction name generalizing place with
  | nil => exact ⟨place, rfl, rfl⟩
  | cons c name ih =>
    rw [List.forall_mem_cons] at h
    obtain ⟨middle, hstep, hmiddle⟩ := step_of_not_brace h.1 outer place
    obtain ⟨place', hwalk, hplace'⟩ := ih h.2 middle
    refine ⟨place', ?_, ?_⟩
    · rw [walk_cons, hstep, hwalk]
    · rw [hplace', hmiddle, List.foldl_cons]

/-- Behind the colon of a member: in a name this colon ends the name, in a type it belongs to it. -/
theorem step_colon (outer : Nat) (place : Place) :
    step (.inside outer place) ':' =
      .inside outer (if place.isType then .type else .colon) := by
  cases place <;> rfl

end Position

open Position

/-- A type without braces is read as it is. -/
theorem walk_plain {s : Text} (h : ∀ c ∈ s, isTypeChar c = true ∧ c ≠ '\x7b') (outer : Nat)
    (place : Place) : HasLost outer 0 ((inside outer place).walk (':' :: s)) := by
  have htype : ∀ c ∈ s, isTypeChar c = true := fun c hc => (h c hc).1
  rw [walk_cons, step_colon]
  cases place.isType with
  | true =>
    rw [if_pos rfl, walk_type htype]
    exact hasLost_inside outer .type (by decide) (by decide)
  | false =>
    have hhead : s.head? ≠ some '\x7b' := by
      intro hc
      exact (h _ (List.mem_of_head? hc)).2 rfl
    obtain ⟨place', hplace', hwalk⟩ := walk_colon htype hhead outer
    rw [if_neg Bool.false_ne_true, hwalk]
    rcases hplace' with rfl | rfl
    · exact hasLost_inside outer .colon (by decide) (by decide)
    · exact hasLost_inside outer .type (by decide) (by decide)

/-- The braces around members. In a type the opening one is hidden, so the closing one closes the
object around. -/
theorem walk_braces (s : Text) (hidden : Bool → Nat) (outer : Nat) (place : Place)
    (h : ∀ outer place, (s = [] ∧ hidden place.isType = 0) ∨
      HasLost outer (hidden place.isType) ((inside outer place).walk s)) :
    HasLost outer ((if place.isType then 1 else 0) + hidden place.isType)
      ((inside outer place).walk (':' :: '\x7b' :: s ++ ['\x7d'])) := by
  rw [List.cons_append, walk_cons, step_colon, List.cons_append, walk_cons]
  cases place.isType with
  | false =>
    rw [if_neg Bool.false_ne_true, if_neg Bool.false_ne_true, Nat.zero_add]
    show HasLost outer _ ((inside (outer + 1) .start).walk (s ++ ['\x7d']))
    rw [walk_append]
    rcases h (outer + 1) .start with ⟨rfl, hzero⟩ | hlost
    · rw [show hidden false = 0 from hzero]
      exact hasLost_inside outer .brace (by decide) (by decide)
    · exact hasLost_succ_iff.1 hlost.brace
  | true =>
    rw [if_pos rfl, if_pos rfl, Nat.add_comm]
    show HasLost outer _ ((inside outer .type).walk (s ++ ['\x7d']))
    rw [walk_append]
    rcases h outer .type with ⟨rfl, hzero⟩ | hlost
    · rw [show hidden true = 0 from hzero]
      exact (hasLost_inside outer .type (by decide) (by decide)).brace
    · exact hlost.brace

mutual

/-- Walking over what stands at a name counts the braces that are hidden in it. -/
theorem walk_describeValue : (value : Value) → IsBraceFree value → ∀ outer place,
    HasLost outer (hiddenInValue place.isType value)
      ((inside outer place).walk (':' :: describeValue value))
  | .table entries, h, outer, place => by
    refine walk_braces (describeMembers entries) (hiddenIn · entries) outer place ?_
    intro outer place
    rcases walk_describeMembers entries h outer place with rfl | hlost
    · exact .inl ⟨rfl, rfl⟩
    · exact .inr hlost
  | .null, h, outer, place => walk_plain h outer place
  | .bool _, h, outer, place => walk_plain h outer place
  | .number _, h, outer, place => walk_plain h outer place
  | .text _, h, outer, place => walk_plain h outer place
  | .list _, h, outer, place => walk_plain h outer place

/-- Walking over members counts the braces that are hidden in them. -/
theorem walk_describeMembers : (members : List (Text × Value)) → AreBraceFree members →
    ∀ outer place, members = [] ∨ HasLost outer (hiddenIn place.isType members)
      ((inside outer place).walk (describeMembers members))
  | [], _, _, _ => .inl rfl
  | [(name, value)], h, outer, place => by
    right
    obtain ⟨place', hwalk, hplace'⟩ := walk_name_of_not_brace h.1 outer place
    have hvalue := walk_describeValue value h.2.1 outer place'
    rw [describeMembers, walk_append, hwalk]
    rw [hplace'] at hvalue
    exact hvalue
  | (name, value) :: y :: rest, h, outer, place => by
    right
    obtain ⟨place', hwalk, hplace'⟩ := walk_name_of_not_brace h.1 outer place
    have hvalue := walk_describeValue value h.2.1 outer place'
    rw [hplace'] at hvalue
    have hmore := hvalue.semicolon fun outer =>
      (walk_describeMembers (y :: rest) h.2.2 outer .start).resolve_left (by simp)
    rw [describeMembers, walk_append, walk_append, hwalk]
    · exact hmore
    · simp

end

/-! ## Reading a printed tree -/

/-- The number of objects that are open behind a name. -/
def openBehind (name : Text) : Nat :=
  match (inside 0 .start).walk name with
  | .inside outer _ => outer + 1
  | _ => 0

/-- **A printed tree is read back exactly if its braces are seen to match.** The first member, of
any name, opens a number of objects with its name; each of the others closes as many too many as
braces are hidden in it; and one object has to be open in the end. -/
theorem read_describe_isOk_iff {type : Text} (htype : ∀ c ∈ type, isTypeChar c = true ∧ c ≠ '\x7b')
    {members : Entries Value} (hne : members ≠ []) (h : AreBraceFree members) (name : Text) :
    (∃ tree, read (describe ((name, .text type) :: members)) = .ok tree) ↔
      openBehind name = hiddenIn false members + 1 := by
  have hdescribe : describe ((name, .text type) :: members) =
      '\x7b' :: (name ++ (':' :: type) ++ (';' :: describeMembers members) ++ ['\x7d']) := by
    obtain ⟨x, rest, rfl⟩ := List.exists_cons_of_ne_nil hne
    simp [describe, describeMembers, describeValue, Value.plain]
  have htrim : trim (describe ((name, .text type) :: members)) =
      describe ((name, .text type) :: members) := by
    refine trim_eq_self ?_ ?_
    · intro c hc
      cases hc
      rfl
    · intro c hc
      rw [describe, List.getLast?_concat] at hc
      cases hc
      rfl
  rw [hdescribe] at htrim ⊢
  rw [read_isOk_iff htrim, openBehind, walk_append, walk_append, walk_append]
  cases hname : (inside 0 .start).walk name with
  | inside outer place =>
    have hmembers : ∀ outer, HasLost outer (hiddenIn false members)
        ((inside outer .start).walk (describeMembers members)) := fun outer =>
      (walk_describeMembers members h outer .start).resolve_left hne
    have hall := (walk_plain htype outer place).semicolon hmembers
    rw [Nat.zero_add] at hall
    rw [walk_cons, walk_nil, hall.finishes_iff]
    show _ ↔ outer + 1 = _
    omega
  | finished => simp
  | beyond => simp

/-! ## Names that hide braces -/

/-- Whether a name ends in what is read as a type: a colon stands in it behind its last
semicolon. -/
def endsInType (name : Text) : Bool := (name.reverse.takeWhile (· != ';')).contains ':'

theorem foldl_readsType (name : Text) : name.foldl readsType false = endsInType name := by
  have reversed : ∀ s : Text, s.reverse.foldl readsType false =
      (s.takeWhile (· != ';')).contains ':' := by
    intro s
    induction s with
    | nil => rfl
    | cons c s ih =>
      rw [List.reverse_cons, List.foldl_append, ih]
      show readsType _ c = _
      by_cases hc : c = ';'
      · subst hc
        cases h : (s.takeWhile (· != ';')).contains ':' <;> simp [readsType]
      · have hc' : (c != ';') = true := by simpa using hc
        rw [List.takeWhile_cons, if_pos hc', List.contains_cons]
        cases (s.takeWhile (· != ';')).contains ':' with
        | false =>
          rw [Bool.or_false, Bool.beq_comm]
          rfl
        | true =>
          rw [Bool.or_true]
          exact hc'
  have := reversed name.reverse
  rwa [List.reverse_reverse] at this

mutual

/-- No table in the value stands at a name that ends in a type. -/
def IsVisible : Value → Prop
  | .table entries => AreVisible entries
  | _ => True

/-- No table among the entries, or in their values, stands at a name that ends in a type. -/
def AreVisible : List (Text × Value) → Prop
  | [] => True
  | (name, value) :: rest =>
    (∀ entries, value = .table entries → endsInType name = false) ∧ IsVisible value ∧
      AreVisible rest

end

mutual

theorem hiddenInValue_eq_zero_iff : (inType : Bool) → (value : Value) →
    (hiddenInValue inType value = 0 ↔
      (∀ entries, value = .table entries → inType = false) ∧ IsVisible value)
  | true, .table entries => by simp [hiddenInValue]
  | false, .table entries => by
    rw [hiddenInValue, IsVisible, ← hiddenIn_eq_zero_iff entries]
    simp
  | _, .null => by simp [hiddenInValue, IsVisible]
  | _, .bool _ => by simp [hiddenInValue, IsVisible]
  | _, .number _ => by simp [hiddenInValue, IsVisible]
  | _, .text _ => by simp [hiddenInValue, IsVisible]
  | _, .list _ => by simp [hiddenInValue, IsVisible]

/-- No brace is hidden exactly if no table stands at a name that ends in a type. -/
theorem hiddenIn_eq_zero_iff : (members : List (Text × Value)) →
    (hiddenIn false members = 0 ↔ AreVisible members)
  | [] => by simp [hiddenIn, AreVisible]
  | (name, value) :: rest => by
    rw [hiddenIn, AreVisible, Nat.add_eq_zero_iff, hiddenIn_eq_zero_iff rest,
      hiddenInValue_eq_zero_iff, foldl_readsType, and_assoc]

end

theorem openBehind_of_not_brace {name : Text} (h : ∀ c ∈ name, c ≠ '\x7b' ∧ c ≠ '\x7d') :
    openBehind name = 1 := by
  obtain ⟨place, hwalk, -⟩ := Position.walk_name_of_not_brace h 0 .start
  rw [openBehind, hwalk]

end Descriptor

end SvgAssets.Template
