/-
# SvgAssets.Proofs.Template.ColonFreeNames -- where a descriptor ends a name early

In a descriptor the first colon behind the start of a member ends its name, so reading never finds a
name with a colon in it (`read_areColonFree`), at whatever place (`AreColonFree.colon_notMem`). The
names of variables hold no braces, so among them colons are all that can spoil a descriptor: types
that face defaults can be described if no name of theirs holds one (`SameShape.areDescribable`).
The name in front of them is the reserved one, which may be any: it is read back if it holds no
colon and does not close the descriptor (`AreDescribable.read_describe_cons`).
-/
import SvgAssets.Proofs.Template.DescriptorRoundTrip
import SvgAssets.Proofs.Template.SameShape

namespace SvgAssets.Template

open Text VariableTree

namespace Descriptor

/-! ## Names without colons -/

mutual

/-- No name in the value holds a colon. -/
def IsColonFree : Value → Prop
  | .table entries => AreColonFree entries
  | _ => True

/-- No name of the entries, or in their values, holds a colon. -/
def AreColonFree : List (Text × Value) → Prop
  | [] => True
  | (name, value) :: rest => ':' ∉ name ∧ IsColonFree value ∧ AreColonFree rest

end

mutual

/-- Whether a name in the value holds a colon is found out by going through the value. -/
instance decidableIsColonFree : (value : Value) → Decidable (IsColonFree value)
  | .table entries => decidableAreColonFree entries
  | .null | .bool _ | .number _ | .text _ | .list _ => .isTrue trivial

/-- The same for the entries of a table. -/
instance decidableAreColonFree : (entries : List (Text × Value)) → Decidable (AreColonFree entries)
  | [] => .isTrue trivial
  | (name, value) :: rest =>
    have := decidableIsColonFree value
    have := decidableAreColonFree rest
    inferInstanceAs (Decidable (':' ∉ name ∧ IsColonFree value ∧ AreColonFree rest))

end

theorem isColonFree_of_isLeaf {value : Value} (h : IsLeaf value) : IsColonFree value := by
  cases value with
  | table entries => exact absurd h id
  | _ => trivial

theorem areColonFree_iff {entries : List (Text × Value)} :
    AreColonFree entries ↔ ∀ x ∈ entries, ':' ∉ x.1 ∧ IsColonFree x.2 := by
  induction entries with
  | nil => simp [AreColonFree]
  | cons x rest ih => rw [AreColonFree, ih, List.forall_mem_cons, and_assoc]

namespace AreColonFree

variable {tree : VariableTree}

theorem set (h : AreColonFree tree) {name : Text} (hname : ':' ∉ name) {value : Value}
    (hvalue : IsColonFree value) : AreColonFree (tree.set name value) := by
  rw [areColonFree_iff] at h ⊢
  intro x hx
  rcases Entries.mem_of_mem_set hx with rfl | hx
  · exact ⟨hname, hvalue⟩
  · exact h x hx

theorem get? (h : AreColonFree tree) {name : Text} {value : Value}
    (hget : tree.get? name = some value) : ':' ∉ name ∧ IsColonFree value :=
  areColonFree_iff.1 h _ (Entries.mem_of_get? hget)

/-- The names on the way to a place hold no colon. -/
theorem colon_notMem (h : AreColonFree tree) {place : List Text} {value : Value}
    (hlookup : tree.lookup? place = some value) : ∀ key ∈ place, ':' ∉ key := by
  induction place generalizing tree with
  | nil => cases hlookup
  | cons key keys ih =>
    rw [List.forall_mem_cons]
    by_cases hkeys : keys = []
    · rw [hkeys] at hlookup ⊢
      exact ⟨(h.get? hlookup).1, by simp⟩
    · obtain ⟨entries, hget, hbelow⟩ := exists_table_of_lookup? hkeys hlookup
      obtain ⟨hkey, hentries⟩ := h.get? hget
      exact ⟨hkey, ih hentries hbelow⟩

end AreColonFree

/-- Reading ends a name at its first colon, so it never finds a name with one. -/
theorem readMembers_areColonFree {whole s rest : Text} {tree found : Entries Value} {fuel : Nat}
    (h : readMembers whole tree fuel s = .ok (found, rest)) (htree : AreColonFree tree) :
    AreColonFree found := by
  induction fuel generalizing tree s found rest with
  | zero => cases h
  | succ fuel ih =>
    cases s with
    | nil => cases h
    | cons c s =>
      rw [readMembers] at h
      split at h
      · cases h
        exact htree
      rcases breakAt?_cases ':' (c :: s) with ⟨hnone, -⟩ | ⟨name, t, hsome, -, hname⟩
      · rw [hnone] at h
        cases h
      rw [hsome] at h
      split at h
      · rename_i he
        cases he
      · rename_i inner he
        cases he
        cases hinner : readMembers whole [] fuel inner with
        | error e =>
          rw [hinner] at h
          cases h
        | ok members =>
          rw [hinner] at h
          exact ih h (htree.set hname (ih hinner trivial))
      · rename_i he
        cases he
        split at h
        · cases h
        · exact ih h (htree.set hname trivial)

theorem read_areColonFree {s : Text} {tree : Entries Value} (h : read s = .ok tree) :
    AreColonFree tree := by
  unfold read at h
  simp only at h
  split at h
  · split at h
    · rename_i hmembers
      cases h
      exact readMembers_areColonFree hmembers trivial
    · cases h
    · cases h
  · cases h

/-- In a tree in which no name comes twice, every name is on the way to some place. -/
theorem areColonFree_of_lookup? {tree : VariableTree} (htidy : IsTidy tree)
    (h : ∀ place value, tree.lookup? place = some value → ∀ key ∈ place, ':' ∉ key) :
    AreColonFree tree := by
  -- What is found in the entries behind the first is found in all of them.
  have hbehind : ∀ {key : Text} {value : Value} {rest : VariableTree},
      key ∉ Entries.names rest →
      (∀ place v, lookup? ((key, value) :: rest) place = some v → ∀ k ∈ place, ':' ∉ k) →
      ∀ place v, lookup? rest place = some v → ∀ k ∈ place, ':' ∉ k := by
    intro key value rest hnew hall place v hlookup
    refine hall place v ?_
    cases place with
    | nil => cases hlookup
    | cons k ks =>
      have hne : key ≠ k := by
        rintro rfl
        have hget := Entries.get?_eq_none_iff.2 hnew
        by_cases hks : ks = []
        · rw [hks] at hlookup
          exact nomatch hget.symm.trans hlookup
        · obtain ⟨_, htable, -⟩ := exists_table_of_lookup? hks hlookup
          exact nomatch hget.symm.trans htable
      by_cases hks : ks = []
      · rw [hks] at hlookup ⊢
        rw [lookup?, Entries.get?, if_neg hne]
        exact hlookup
      · rw [lookup?_cons hks] at hlookup ⊢
        rw [Entries.get?, if_neg hne]
        exact hlookup
  induction tree using treeInduction with
  | nil => trivial
  | leaf key value rest hvalue ih =>
    have hkey := h [key] value (if_pos rfl) key (List.mem_singleton_self key)
    exact ⟨hkey, isColonFree_of_isLeaf hvalue, ih htidy.2.2.2 (hbehind htidy.2.1 h)⟩
  | table key entries rest ihentries ihrest =>
    have hkey := h [key] (.table entries) (if_pos rfl) key (List.mem_singleton_self key)
    refine ⟨hkey, ihentries htidy.2.2.1.2 ?_, ihrest htidy.2.2.2 (hbehind htidy.2.1 h)⟩
    intro place value hlookup k hk
    have hplace : place ≠ [] := by
      rintro rfl
      cases hlookup
    refine h (key :: place) value ?_ k (List.mem_cons_of_mem _ hk)
    rw [lookup?_cons hplace, Entries.get?, if_pos rfl]
    exact hlookup

/-! ## Reading a descriptor with the reserved name in front -/

/-- A member in front of members that can be described is read back with them, if its name has no
colon and does not begin with the brace that closes the descriptor. It may hold other braces. -/
theorem AreDescribable.read_describe_cons {types : Entries Value} (h : AreDescribable types)
    (hne : types ≠ []) {name type : Text} (hnew : name ∉ Entries.names types) (hname : ':' ∉ name)
    (hhead : name.head? ≠ some '\x7d') (htype : ∀ c ∈ type, isTypeChar c = true ∧ c ≠ '\x7b') :
    read (describe ((name, .text type) :: types)) = .ok ((name, .text type) :: types) := by
  have hdescribe : describe ((name, .text type) :: types) =
      '\x7b' :: (name ++ ':' :: (type ++ ';' :: (describeMembers types ++ ['\x7d']))) := by
    obtain ⟨x, rest, rfl⟩ := List.exists_cons_of_ne_nil hne
    simp [describe, describeMembers, describeValue, Value.plain]
  have htrim := trim_describe ((name, .text type) :: types)
  rw [hdescribe] at htrim ⊢
  unfold read
  simp only [htrim]
  rw [readMembers_name_type hname hhead htype rfl, readMembers.skipSemicolon,
    readMembers_describeMembers types h]
  · rfl
  · intro other hother
    rw [Entries.set, Entries.names, List.map_singleton, List.mem_singleton]
    rintro rfl
    exact hnew hother
  · simp only [List.length_append, List.length_cons]
    omega

/-- A name that begins with the closing brace closes the descriptor. -/
theorem not_read_describe_cons {name : Text} (hhead : name.head? = some '\x7d') (value : Value)
    (types : Entries Value) : ¬ ∃ tree, read (describe ((name, value) :: types)) = .ok tree := by
  obtain ⟨name, rfl⟩ : ∃ rest, name = '\x7d' :: rest := by
    cases name with
    | nil => cases hhead
    | cons c rest =>
      cases hhead
      exact ⟨rest, rfl⟩
  have hdescribe : ∃ behind, behind ≠ [] ∧ describe (('\x7d' :: name, value) :: types) =
      '\x7b' :: '\x7d' :: behind := by
    cases types with
    | nil => exact ⟨_, by simp, rfl⟩
    | cons x rest =>
      refine ⟨name ++ ':' :: describeValue value ++ ';' :: describeMembers (x :: rest) ++ ['\x7d'],
        by simp, ?_⟩
      rw [describe, describeMembers]
      · rfl
      · simp
  obtain ⟨behind, hne, hdescribe⟩ := hdescribe
  have htrim := trim_describe (('\x7d' :: name, value) :: types)
  rw [hdescribe] at htrim ⊢
  rw [read_isOk_iff htrim]
  intro (hwalk : Position.finished.walk behind = .finished)
  exact hne (Position.finished_walk_eq_iff.1 hwalk)

end Descriptor

open Descriptor

/-! ## Types and defaults in step -/

namespace SameShape

variable {types defaults : VariableTree}

theorem areColonFree_iff (h : SameShape types defaults) :
    AreColonFree types ↔ AreColonFree defaults := by
  induction h with
  | nil => exact Iff.rfl
  | leaf hmatch _ ih =>
    rw [AreColonFree, AreColonFree, ih]
    simp [isColonFree_of_isLeaf hmatch.isLeaf.1, isColonFree_of_isLeaf hmatch.isLeaf.2]
  | table _ _ ihbelow ih =>
    rw [AreColonFree, AreColonFree, ih, IsColonFree, IsColonFree, ihbelow]

/-- Types that face defaults can be described if no colon and no brace is in the way. -/
theorem areDescribable (h : SameShape types defaults) (htidy : IsTidy types)
    (hbrace : AreBraceFree types) (hcolon : AreColonFree types) : AreDescribable types := by
  have hname : ∀ {key : Text}, HasNoBrace key → ':' ∉ key →
      ∀ c ∈ key, c ≠ ':' ∧ c ≠ '\x7b' ∧ c ≠ '\x7d' := by
    intro key hkey hmem c hc
    exact ⟨fun he => hmem (he ▸ hc), hkey c hc⟩
  induction h with
  | nil => trivial
  | leaf hmatch _ ih =>
    refine ⟨hname hbrace.1 hcolon.1, htidy.2.1, ?_, ih htidy.2.2.2 hbrace.2.2 hcolon.2.2⟩
    cases hmatch with
    | number n => exact forall_mem_of_all rfl
    | string t => exact forall_mem_of_all rfl
  | table _ _ ihbelow ih =>
    exact ⟨hname hbrace.1 hcolon.1, htidy.2.1, ihbelow htidy.2.2.1.2 hbrace.2.1 hcolon.2.1,
      ih htidy.2.2.2 hbrace.2.2 hcolon.2.2⟩

end SameShape

end SvgAssets.Template
