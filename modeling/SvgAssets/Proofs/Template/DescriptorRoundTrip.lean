/-
# SvgAssets.Proofs.Template.DescriptorRoundTrip -- a printed tree is read back, a cut one is not

Nothing is escaped in a descriptor, so only some trees can be written in one: those whose names hold
no colon and no brace and whose types hold no semicolon and no brace (`AreDescribable`). For these
reading is the inverse of printing, whatever text stands behind the members
(`readMembers_describeMembers`). And a descriptor cannot lose its end unnoticed: behind the brace
that closes the outermost object nothing may stand, so a text that is read does not go on to another
one that is read (`not_read_of_prefix`).
-/
import SvgAssets.Proofs.Entries
import SvgAssets.Proofs.Template.DescriptorReading

namespace SvgAssets.Template

open Text

namespace Descriptor

/-! ## Trees that can be described -/

mutual

/-- A type without semicolons and braces, or a table of such types. -/
def IsDescribable : Value → Prop
  | .table entries => AreDescribable entries
  | .text type => ∀ c ∈ type, c ≠ ';' ∧ c ≠ '\x7b' ∧ c ≠ '\x7d'
  | _ => False

/-- The names differ from each other and hold no colon and no brace, and what stands at them can be
described. -/
def AreDescribable : List (Text × Value) → Prop
  | [] => True
  | (name, value) :: rest =>
    (∀ c ∈ name, c ≠ ':' ∧ c ≠ '\x7b' ∧ c ≠ '\x7d') ∧ name ∉ Entries.names rest ∧
      IsDescribable value ∧ AreDescribable rest

end

/-! ## Reading what has been printed -/

/-- A member at which a type without semicolons and closing braces stands, in front of one. -/
theorem readMembers_name_type {whole name type t : Text} {tree : Entries Value} {fuel : Nat}
    {c : Char} (hname : ':' ∉ name) (hhead : name.head? ≠ some '\x7d')
    (htype : ∀ d ∈ type, isTypeChar d = true ∧ d ≠ '\x7b') (hc : isTypeChar c = false) :
    readMembers whole tree (fuel + 1) (name ++ ':' :: (type ++ c :: t)) =
      readMembers whole (tree.set name (.text type)) fuel
        (readMembers.skipSemicolon (c :: t)) := by
  have hopen : ∀ inner, type ++ c :: t ≠ '\x7b' :: inner := by
    intro inner he
    cases type with
    | nil =>
      cases he
      cases hc
    | cons d type =>
      cases he
      exact (htype _ (List.mem_cons_self ..)).2 rfl
  rw [readMembers_type hname hhead hopen, run_append_cons (fun d hd => (htype d hd).1) hc]

section

variable {name : Text} (hname : ∀ c ∈ name, c ≠ ':' ∧ c ≠ '\x7b' ∧ c ≠ '\x7d')

include hname

theorem colon_notMem : ':' ∉ name := fun hc => (hname _ hc).1 rfl

theorem head?_ne_brace : name.head? ≠ some '\x7d' :=
  fun hc => (hname _ (List.mem_of_mem_head? hc)).2.2 rfl

end

/-- The characters of a describable type go on until a semicolon or a brace. -/
theorem isTypeChar_of_ne {c : Char} (h : c ≠ ';' ∧ c ≠ '\x7b' ∧ c ≠ '\x7d') :
    isTypeChar c = true ∧ c ≠ '\x7b' := by
  rw [isTypeChar, Bool.and_eq_true, bne_iff_ne, bne_iff_ne]
  exact ⟨⟨h.1, h.2.2⟩, h.2.1⟩

mutual

/-- What has been printed at a name is read back, in front of a semicolon or a brace. -/
theorem readMembers_describeValue : (value : Value) → IsDescribable value →
    ∀ {whole name rest : Text} {tree : Entries Value} {fuel : Nat} {c : Char},
      (∀ c ∈ name, c ≠ ':' ∧ c ≠ '\x7b' ∧ c ≠ '\x7d') → isTypeChar c = false →
      (describeValue value).length ≤ fuel →
      readMembers whole tree (fuel + 1) (name ++ ':' :: (describeValue value ++ c :: rest)) =
        readMembers whole (tree.set name value) fuel (readMembers.skipSemicolon (c :: rest))
  | .table entries, h, whole, name, rest, tree, fuel, c, hname, hc, hfuel => by
    have hlength : (describeMembers entries).length < fuel := by
      rw [describeValue, List.length_append, List.length_cons] at hfuel
      simp only [List.length_singleton] at hfuel
      omega
    have hinner : readMembers whole [] fuel (describeMembers entries ++ '\x7d' :: c :: rest) =
        .ok (entries, c :: rest) :=
      readMembers_describeMembers entries h (by simp [Entries.names]) hlength
    rw [describeValue, List.cons_append, List.cons_append, List.append_assoc, List.cons_append,
      List.nil_append, readMembers_object (colon_notMem hname) (head?_ne_brace hname), hinner]
    rfl
  | .text type, h, whole, name, rest, tree, fuel, c, hname, hc, hfuel =>
    readMembers_name_type (colon_notMem hname) (head?_ne_brace hname)
      (fun d hd => isTypeChar_of_ne (h d hd)) hc
  | .null, h, _, _, _, _, _, _, _, _, _ => h.elim
  | .bool _, h, _, _, _, _, _, _, _, _, _ => h.elim
  | .number _, h, _, _, _, _, _, _, _, _, _ => h.elim
  | .list _, h, _, _, _, _, _, _, _, _, _ => h.elim

/-- Printed members are read back behind those that have been read, whatever stands behind their
closing brace. -/
theorem readMembers_describeMembers : (members : List (Text × Value)) → AreDescribable members →
    ∀ {whole rest : Text} {tree : Entries Value} {fuel : Nat},
      (∀ name ∈ Entries.names members, name ∉ tree.names) →
      (describeMembers members).length < fuel →
      readMembers whole tree fuel (describeMembers members ++ '\x7d' :: rest) =
        .ok (tree ++ members, rest)
  | [], _, whole, rest, tree, fuel, _, hfuel => by
    cases fuel with
    | zero => exact absurd hfuel (Nat.not_lt_zero _)
    | succ fuel => rw [describeMembers, List.nil_append, readMembers, if_pos rfl, List.append_nil]
  | [(name, value)], h, whole, rest, tree, fuel, htree, hfuel => by
    rw [describeMembers, List.length_append, List.length_cons] at hfuel
    obtain ⟨fuel, rfl⟩ : ∃ n, fuel = n + 1 + 1 := ⟨fuel - 2, by omega⟩
    rw [describeMembers, List.append_assoc, List.cons_append,
      readMembers_describeValue value h.2.2.1 h.1 rfl (by omega),
      Entries.set_of_not_mem (htree name (List.mem_cons_self ..))]
    -- The closing brace is no semicolon, so it is what is read next.
    rfl
  | (name, value) :: y :: more, h, whole, rest, tree, fuel, htree, hfuel => by
    have hdescribe : describeMembers ((name, value) :: y :: more) =
        name ++ ':' :: (describeValue value ++ ';' :: describeMembers (y :: more)) := by
      rw [describeMembers]
      · simp
      · simp
    rw [hdescribe, List.length_append, List.length_cons, List.length_append,
      List.length_cons] at hfuel
    obtain ⟨fuel, rfl⟩ : ∃ n, fuel = n + 1 := ⟨fuel - 1, by omega⟩
    have hset := Entries.set_of_not_mem (htree name (List.mem_cons_self ..)) value
    have hmore : readMembers whole (tree.set name value) fuel
        (describeMembers (y :: more) ++ '\x7d' :: rest) =
          .ok (tree.set name value ++ y :: more, rest) := by
      refine readMembers_describeMembers (y :: more) h.2.2.2 ?_ (by omega)
      intro other hother
      rw [hset, Entries.names, List.map_append, List.mem_append, not_or]
      refine ⟨htree other (List.mem_cons_of_mem _ hother), ?_⟩
      intro heq
      rw [List.map_singleton, List.mem_singleton] at heq
      subst heq
      exact h.2.1 hother
    rw [hdescribe, List.append_assoc, List.cons_append, List.append_assoc, List.cons_append,
      readMembers_describeValue value h.2.2.1 h.1 rfl (by omega),
      readMembers.skipSemicolon, hmore, hset, List.append_assoc]
    rfl

end

/-! ## Cutting the end off -/

/-- Whether a text is read does not depend on the blanks around it. -/
theorem read_trim_isOk_iff (s : Text) :
    (∃ tree, read (trim s) = .ok tree) ↔ ∃ tree, read s = .ok tree := by
  have htrim : trim (trim s) = trim s := dropAround_dropAround
  unfold read
  simp only [htrim]
  split
  · split <;> simp
  · simp

/-- A text that begins with no blank loses blanks at its end only. -/
theorem trim_cons_isPrefix {c : Char} (hc : isBlank c = false) (s : Text) :
    ∃ t, trim (c :: s) = c :: t ∧ t <+: s := by
  obtain ⟨v, w, hs, hv, hw⟩ := exists_eq_append_trim (c :: s)
  have hnot : isBlank c ≠ true := by simp [hc]
  cases v with
  | cons d v =>
    obtain ⟨rfl, -⟩ := List.cons.inj hs
    exact absurd (hv c (List.mem_cons_self ..)) hnot
  | nil =>
    cases htrim : trim (c :: s) with
    | nil =>
      rw [htrim] at hs
      subst hs
      exact absurd (hw c (List.mem_cons_self ..)) hnot
    | cons d t =>
      rw [htrim] at hs
      obtain ⟨rfl, rfl⟩ := List.cons.inj hs
      exact ⟨t, rfl, w, rfl⟩

/-- A text that is read has no proper front that is read. -/
theorem not_read_of_prefix {s front : Text} (htrim : trim s = s)
    (hs : ∃ tree, read s = .ok tree) (hfront : front <+: s) (hne : front ≠ s) :
    ∃ e, read front = .error e := by
  have hnone : ¬ ∃ tree, read front = .ok tree := by
    intro hread
    obtain ⟨back, rfl⟩ := hfront
    rw [← read_trim_isOk_iff] at hread
    cases front with
    | nil =>
      obtain ⟨tree, htree⟩ := hread
      cases htree
    | cons c front =>
      by_cases hc : c = '\x7b'
      · subst hc
        obtain ⟨t, ht, u, rfl⟩ := trim_cons_isPrefix (c := '\x7b') rfl front
        rw [List.cons_append] at htrim hs
        have hwhole := (read_isOk_iff htrim).1 hs
        rw [ht] at hread
        have hpart := (read_isOk_iff (by rw [← ht]; exact dropAround_dropAround)).1 hread
        -- The walk is at its end already, so nothing more may follow.
        rw [List.append_assoc, Position.walk_append, hpart, Position.finished_walk_eq_iff,
          List.append_eq_nil_iff] at hwhole
        rw [hwhole.2, List.append_nil] at hne
        exact hne rfl
      · obtain ⟨tree, htree⟩ := hs
        unfold read at htree
        simp only [htrim] at htree
        split at htree
        · rename_i he
          exact hc (List.cons.inj he).1
        · cases htree
  cases hread : read front with
  | ok tree => exact absurd ⟨tree, hread⟩ hnone
  | error e => exact ⟨e, rfl⟩

theorem trim_describe (tree : Entries Value) : trim (describe tree) = describe tree := by
  refine trim_eq_self ?_ ?_
  · intro c hc
    cases hc
    rfl
  · intro c hc
    rw [describe, List.getLast?_concat] at hc
    cases hc
    rfl

/-- **A described tree is read back, and no part of its descriptor in front of the end is read.**
Whatever the depth of the tree, the names come back in their order, and wherever the descriptor is
cut off, also within a name or a type, reading fails. -/
theorem read_describe {tree : Entries Value} (h : AreDescribable tree) :
    read (describe tree) = .ok tree ∧
      ∀ front, front <+: describe tree → front ≠ describe tree → ∃ e, read front = .error e := by
  have hread : read (describe tree) = .ok tree := by
    have hmembers : readMembers (describe tree) [] ((describeMembers tree ++ ['\x7d']).length + 1)
        (describeMembers tree ++ ['\x7d']) = .ok (tree, []) :=
      readMembers_describeMembers tree h (by simp [Entries.names])
        (by rw [List.length_append]; omega)
    unfold read
    simp only [trim_describe]
    rw [describe, List.cons_append] at hmembers ⊢
    simp only [hmembers]
  refine ⟨hread, ?_⟩
  intro front hfront hne
  exact not_read_of_prefix (trim_describe tree) ⟨tree, hread⟩ hfront hne

/-- The types of a theme: a number and a table of texts, with a table in it. -/
def themeTypes : Entries Value :=
  [("size".toList, .text "number".toList),
    ("colors".toList, .table [("fill".toList, .text "string".toList),
      ("more".toList, .table [("edge".toList, .text "string".toList)])])]

theorem areDescribable_themeTypes : AreDescribable themeTypes :=
  ⟨forall_mem_of_all rfl, by decide, forall_mem_of_all rfl, forall_mem_of_all rfl, by decide,
    ⟨forall_mem_of_all rfl, by decide, forall_mem_of_all rfl, forall_mem_of_all rfl, by decide,
      ⟨forall_mem_of_all rfl, by decide, forall_mem_of_all rfl, trivial⟩, trivial⟩, trivial⟩

/-- The types of a theme come back, but not from a descriptor without its last brace. -/
theorem read_describe_themeTypes :
    read (describe themeTypes) = .ok themeTypes ∧
      ∃ e, read "\x7bsize:number;colors:\x7bfill:string;more:\x7bedge:string\x7d\x7d".toList =
        .error e := by
  obtain ⟨hread, hcut⟩ := read_describe areDescribable_themeTypes
  refine ⟨hread, hcut _ ?_ ?_⟩
  · exact ⟨['\x7d'], by decide +kernel⟩
  · decide +kernel

end Descriptor

end SvgAssets.Template
