/-
# SvgAssets.Proofs.Template.Redeclarations -- which redeclarations are reported

A declaration is reported where it meets, in one of the trees, a value that has to become a table,
or at its own place something that does not agree with it. What it meets there depends on all that
were taken in before it, and a conflict may remove what a later declaration would have met. As long
as nothing was reported, though, every place declared still holds the value that its declarations
agree on; then nothing is reported exactly where the next one fits to all of them
(`isSilent_putAll_iff`). So a scan reports something exactly where two declarations are in conflict
(`scan_notices_ne_nil_iff`).
-/
import SvgAssets.Proofs.Number.Arithmetic
import SvgAssets.Proofs.Template.Declaring

namespace SvgAssets

/-! ## Equal literals -/

namespace Value

/-- Equal literals: the same text, numbers of the same value, or the same infinity. -/
inductive Same : Value → Value → Prop
  | text (t : Text) : Same (.text t) (.text t)
  | number {m n : Number} {q : ℚ} (hm : m.value? = some q) (hn : n.value? = some q) :
    Same (.number m) (.number n)
  | infinity (negative : Bool) :
    Same (.number (.float (.infinity negative))) (.number (.float (.infinity negative)))

theorem Same.symm {v w : Value} (h : Same v w) : Same w v := by
  cases h with
  | text t => exact .text t
  | number hm hn => exact .number hn hm
  | infinity negative => exact .infinity negative

theorem Same.trans {u v w : Value} (huv : Same u v) (hvw : Same v w) : Same u w := by
  cases huv with
  | text t => exact hvw
  | infinity negative => exact hvw
  | number hm hn =>
    cases hvw with
    | number hn' hk =>
      rw [hn, Option.some_inj] at hn'
      exact .number (hn' ▸ hm) hk
    | infinity negative => cases hn

/-- Between literals, agreement is equality. -/
theorem agrees_iff_same {v w : Value} (hv : Same v v) (hw : Same w w) :
    v.agrees w = true ↔ Same v w := by
  have hnumber (m n : Number) : (Value.number m).agrees (.number n) = true ↔
      Same (.number m) (.number n) := by
    rw [agrees, asNumber?, Option.map_some, Option.getD_some, Number.equal_iff]
    constructor
    · rintro (⟨q, hm, hn⟩ | ⟨negative, rfl, rfl⟩)
      · exact .number hm hn
      · exact .infinity negative
    · intro h
      cases h with
      | number hm hn => exact .inl ⟨_, hm, hn⟩
      | infinity negative => exact .inr ⟨negative, rfl, rfl⟩
  cases v with
  | text s =>
    cases w with
    | text t =>
      rw [agrees, beq_iff_eq]
      exact ⟨fun h => h ▸ .text s, fun h => by cases h; rfl⟩
    | number n => exact ⟨fun h => by simp [agrees] at h, nofun⟩
    | _ => cases hw
  | number m =>
    cases w with
    | text t => exact ⟨fun h => by simp [agrees, asNumber?] at h, nofun⟩
    | number n => exact hnumber m n
    | _ => cases hw
  | _ => cases hv

end Value

namespace Template

open Text Descriptor VariableTree Binary64

theorem isLeaf_of_same {v w : Value} (h : v.Same w) : IsLeaf v ∧ v ≠ .null := by
  cases h <;> exact ⟨trivial, nofun⟩

/-- A default is a literal: no numeral is read as what is no number. -/
theorem same_of_literal {written : Text} {value : Value} (h : literal written = .ok value) :
    value.Same value := by
  rw [literal] at h
  cases hnumeral : numeral? written with
  | none =>
    rw [hnumeral] at h
    cases h
    exact .text written
  | some n =>
    rw [hnumeral] at h
    dsimp only at h
    split at h
    · split at h
      · cases h
      · cases h
        exact .number rfl rfl
    · cases h
      have hdecimal : n.IsDecimal := by
        unfold numeral? at hnumeral
        split at hnumeral
        · rename_i hread
          cases hnumeral
          exact isDecimal_of_readNumeral hread
        · cases hnumeral
      have hround := Numeral.isRounded_toBinary64 hdecimal
      cases hnearest : nearest? (signed n.negative n.magnitude) with
      | some r =>
        have hvalue := hround.value.trans hnearest
        exact .number hvalue hvalue
      | none =>
        obtain ⟨negative, hinfinity⟩ := hround.eq_infinity (nearest?_eq_none_iff.1 hnearest)
        rw [hinfinity]
        exact .infinity negative

namespace VariableTree

/-! ## Assignments that are not reported -/

/-- A value meets nothing at its place that it would have to be reported for. -/
structure IsSilent (tree : VariableTree) (place : List Text) (value : Value) : Prop where
  above : ∀ front, front <+: place → front ≠ place → ∀ found, tree.lookup? front = some found →
    IsLeaf found → found = .null
  there : ∀ found, tree.lookup? place = some found → found ≠ .null → found.agrees value = true

/-- At a single name there is nothing above. -/
theorem isSilent_singleton_iff {tree : VariableTree} {key : Text} {value : Value} :
    IsSilent tree [key] value ↔
      ∀ found, tree.get? key = some found → found ≠ .null → found.agrees value = true := by
  constructor
  · exact fun h => h.there
  · refine fun h => ⟨fun front hbegins hne found hfound => ?_, h⟩
    rcases List.prefix_cons_iff.1 hbegins with rfl | ⟨others, rfl, hothers⟩
    · cases hfound
    · rw [List.prefix_nil.1 hothers] at hne
      exact absurd rfl hne

/-- Below its first name, a place is looked at in the table that stands there. -/
theorem isSilent_cons_iff {tree : VariableTree} {key : Text} {keys : List Text} (hkeys : keys ≠ [])
    {value : Value} : IsSilent tree (key :: keys) value ↔
      (∀ found, tree.get? key = some found → IsLeaf found → found = .null) ∧
        IsSilent (tableOf (tree.get? key)) keys value := by
  constructor
  · rintro ⟨habove, hthere⟩
    refine ⟨fun found hfound => ?_, fun front hbegins hne found hfound => ?_,
      fun found hfound => ?_⟩
    · exact habove [key] (by simp) (by simpa using hkeys.symm) found hfound
    · have hfront : front ≠ [] := by
        rintro rfl
        cases hfound
      refine habove (key :: front) ?_ (by simpa using hne) found ?_
      · exact (List.prefix_cons_inj key).2 hbegins
      · rwa [lookup?_cons hfront]
    · exact hthere found (by rwa [lookup?_cons hkeys])
  · rintro ⟨hfirst, habove, hthere⟩
    refine ⟨fun front hbegins hne found hfound => ?_, fun found hfound => ?_⟩
    · rcases List.prefix_cons_iff.1 hbegins with rfl | ⟨others, rfl, hothers⟩
      · cases hfound
      · by_cases hnil : others = []
        · rw [hnil] at hfound
          exact hfirst found hfound
        · rw [lookup?_cons hnil] at hfound
          exact habove others hothers (fun he => hne (by rw [he])) found hfound
    · rw [lookup?_cons hkeys] at hfound
      exact hthere found hfound

theorem notices_setLeaf_eq_nil_iff {ε : Type} {path : Text} {value : Value} {key : Text}
    {node : VariableTree} : (setLeaf (ε := ε) path value key node).notices = [] ↔
      IsSilent node [key] value := by
  rw [isSilent_singleton_iff, setLeaf]
  cases node.get? key with
  | none => simp
  | some previous => cases previous <;> simp

/-- Going down is reported where the name holds a value, and from there on. -/
theorem notices_descend_cons_eq_nil_iff {ε : Type}
    {work : Text → VariableTree → Attempt ε Redeclaration VariableTree} {walked : List Text}
    {key next : Text} {keys : List Text} {node : VariableTree} :
    (descend work walked key (next :: keys) node).notices = [] ↔
      (∀ found, node.get? key = some found → IsLeaf found → found = .null) ∧
        (descend work (walked ++ [key]) next keys (tableOf (node.get? key))).notices = [] := by
  rw [descend]
  cases node.get? key with
  | none => simp [tableOf]
  | some previous => cases previous <;> simp [tableOf, IsLeaf]

theorem notices_descend_setLeaf_eq_nil_iff {ε : Type} {path : Text} {value : Value}
    {walked : List Text} {key : Text} {keys : List Text} {node : VariableTree} :
    (descend (setLeaf (ε := ε) path value) walked key keys node).notices = [] ↔
      IsSilent node (key :: keys) value := by
  induction keys generalizing walked key node with
  | nil => exact notices_setLeaf_eq_nil_iff
  | cons next keys ih =>
    rw [notices_descend_cons_eq_nil_iff, ih, isSilent_cons_iff (List.cons_ne_nil next keys)]

/-- **Assignments that are not reported** are those that meet nothing at their place. -/
theorem notices_assign_eq_nil_iff {value : Value} (h : IsLeaf value) {tree : VariableTree}
    {path : Text} (hpath : components path ≠ []) :
    (tree.assign path value).notices = [] ↔ IsSilent tree (components path) value := by
  rw [assign]
  cases hplace : components path with
  | nil => exact absurd hplace hpath
  | cons key keys =>
    cases value with
    | table entries => exact absurd h id
    | _ => exact notices_descend_setLeaf_eq_nil_iff

/-! ## Values that fit together -/

/-- Neither place is above the other, and at the same place stand equal literals. -/
structure Fits (e e' : List Text × Value) : Prop where
  above : e.1 <+: e'.1 → e.1 = e'.1
  below : e'.1 <+: e.1 → e.1 = e'.1
  same : e.1 = e'.1 → e.2.Same e'.2

theorem Fits.symm {e e' : List Text × Value} (h : Fits e e') : Fits e' e :=
  ⟨fun hbegins => (h.below hbegins).symm, fun hbegins => (h.above hbegins).symm,
    fun hplace => (h.same hplace.symm).symm⟩

theorem Fits.areApart {e e' : List Text × Value} (h : Fits e e') (hne : e.1 ≠ e'.1) :
    AreApart e.1 e'.1 := ⟨mt h.above hne, mt h.below hne⟩

theorem fits_self {e : List Text × Value} (h : e.2.Same e.2) : Fits e e :=
  ⟨fun _ => rfl, fun _ => rfl, fun _ => h⟩

/-- All of the values fit together. -/
def AreFitting (entries : List (List Text × Value)) : Prop :=
  ∀ e ∈ entries, ∀ e' ∈ entries, Fits e e'

/-- Values that fit together all stand at their places. -/
theorem exists_lookup?_putAll {entries : List (List Text × Value)} (h : AreFitting entries)
    (hne : ∀ e ∈ entries, e.1 ≠ []) {e : List Text × Value} (he : e ∈ entries) :
    ∃ found, (putAll [] entries).lookup? e.1 = some found ∧ found.Same e.2 := by
  induction entries using List.reverseRecOn with
  | nil => cases he
  | append_singleton entries last ih =>
    have hlast : last ∈ entries ++ [last] := by simp
    have hstate : putAll [] (entries ++ [last]) = (putAll [] entries).put last := putAll_append ..
    rw [hstate]
    by_cases hplace : last.1 = e.1
    · refine ⟨last.2, ?_, (h last hlast e he).same hplace⟩
      rw [← hplace]
      exact lookup?_put_self _ (hne last hlast) last.2
    · have hfront : e ∈ entries := by
        rcases List.mem_append.1 he with hfront | hback
        · exact hfront
        · exact absurd (by rw [List.mem_singleton.1 hback]) hplace
      obtain ⟨found, hfound, hsame⟩ := ih
        (fun x hx y hy => h x (List.mem_append_left _ hx) y (List.mem_append_left _ hy))
        (fun x hx => hne x (List.mem_append_left _ hx)) hfront
      refine ⟨found, ?_, hsame⟩
      rw [← hfound]
      exact lookup?_put_of_areApart _ ((h last hlast e he).areApart hplace) last.2

/-- Where a table stands, a value was put below. -/
theorem exists_mem_of_lookup?_table {entries : List (List Text × Value)}
    (h : ∀ e ∈ entries, IsEntry e) {place : List Text} {table : VariableTree}
    (hlookup : (putAll [] entries).lookup? place = some (.table table)) :
    ∃ e ∈ entries, place <+: e.1 ∧ place ≠ e.1 := by
  induction entries using List.reverseRecOn with
  | nil =>
    rw [putAll, List.foldl_nil, lookup?_nil] at hlookup
    cases hlookup
  | append_singleton entries last ih =>
    rw [putAll_append] at hlookup
    obtain ⟨-, hvalue⟩ | ⟨hbegins, hne, -⟩ | hlookup :=
      lookup?_put_cases (h last (by simp)).isLeaf hlookup
    · have hleaf := (h last (by simp)).isLeaf
      rw [← hvalue] at hleaf
      exact absurd hleaf id
    · exact ⟨last, by simp, hbegins, hne⟩
    · obtain ⟨e, he, hbelow⟩ := ih (fun x hx => h x (List.mem_append_left _ hx)) hlookup
      exact ⟨e, List.mem_append_left _ he, hbelow⟩

/-- **What a value meets.** Behind values that fit together, a value is not reported exactly where
it fits to all of them. -/
theorem isSilent_putAll_iff {entries : List (List Text × Value)}
    (hentries : ∀ e ∈ entries, IsEntry e) (h : AreFitting entries) {place : List Text}
    (hplace : place ≠ []) {value : Value} (hvalue : value.Same value) :
    IsSilent (putAll [] entries) place value ↔ ∀ e ∈ entries, Fits e (place, value) := by
  have hne : ∀ e ∈ entries, e.1 ≠ [] := fun e he => (hentries e he).ne_nil
  constructor
  · rintro ⟨habove, hthere⟩ e he
    obtain ⟨found, hfound, hsame⟩ := exists_lookup?_putAll h hne he
    obtain ⟨hleaf, hnull⟩ := isLeaf_of_same hsame
    refine ⟨fun hbegins => ?_, fun hbegins => ?_, fun heq => ?_⟩
    · by_contra hother
      exact hnull (habove e.1 hbegins hother found hfound hleaf)
    · by_contra hother
      obtain ⟨table, htable⟩ := exists_table_of_prefix hplace hbegins (Ne.symm hother) hfound
      have hagrees := hthere _ htable nofun
      cases hvalue <;> simp [Value.agrees] at hagrees
    · have hagrees := hthere found (by rw [← hfound]; exact congrArg _ heq.symm) hnull
      rw [Value.agrees_iff_same (hsame.trans hsame.symm) hvalue] at hagrees
      exact hsame.symm.trans hagrees
  · intro hfits
    refine ⟨fun front hbegins hother found hfound hleaf => ?_, fun found hfound _ => ?_⟩
    · obtain ⟨e, he, rfl⟩ := exists_mem_of_lookup? (fun e he => (hentries e he).isLeaf) hleaf hfound
      exact absurd ((hfits e he).above hbegins) hother
    · by_cases hleaf : IsLeaf found
      · obtain ⟨e, he, rfl⟩ :=
          exists_mem_of_lookup? (fun e he => (hentries e he).isLeaf) hleaf hfound
        obtain ⟨found', hfound', hsame⟩ := exists_lookup?_putAll h hne he
        rw [hfound, Option.some_inj] at hfound'
        subst hfound'
        rw [Value.agrees_iff_same (hsame.trans hsame.symm) hvalue]
        exact hsame.trans ((hfits e he).same rfl)
      · cases found with
        | table table =>
          obtain ⟨e, he, hbelow, hother⟩ := exists_mem_of_lookup?_table hentries hfound
          exact absurd ((hfits e he).below hbelow).symm hother
        | _ => exact absurd trivial hleaf

end VariableTree

/-! ## Declarations -/

namespace Declaration

/-- A declaration is in conflict with another one: it stands above it, or at the same place with
another default. -/
def Conflicts (d e : Declaration) : Prop :=
  (d.place <+: e.place ∧ d.place ≠ e.place) ∨
    (d.place = e.place ∧ ∃ v w, literal d.written = .ok v ∧ literal e.written = .ok w ∧ ¬ v.Same w)

variable {d e : Declaration}

/-- Equal defaults have the same type. -/
theorem fits_typeEntry (hd : d.IsSound) (he : e.IsSound) (h : Fits d.defaultEntry e.defaultEntry) :
    Fits d.typeEntry e.typeEntry := by
  refine ⟨h.above, h.below, fun hplace => ?_⟩
  have hsame := h.same hplace
  have htype : typeOf d.written = typeOf e.written := by
    obtain ⟨htype, m, hm⟩ | ⟨htype, s, hs⟩ := literal_cases hd.literal_eq
    · obtain ⟨htype', -⟩ | ⟨-, t, ht⟩ := literal_cases he.literal_eq
      · rw [htype, htype']
      · rw [hm, ht] at hsame
        cases hsame
    · obtain ⟨-, n, hn⟩ | ⟨htype', -⟩ := literal_cases he.literal_eq
      · rw [hs, hn] at hsame
        cases hsame
      · rw [htype, htype']
  rw [typeEntry, typeEntry, htype]
  exact .text _

/-- Two declarations are not in conflict if what they put at their places fits together. -/
theorem fits_iff (hd : d.IsSound) (he : e.IsSound) :
    Fits d.typeEntry e.typeEntry ∧ Fits d.defaultEntry e.defaultEntry ↔
      ¬ d.Conflicts e ∧ ¬ e.Conflicts d := by
  constructor
  · rintro ⟨-, hfits⟩
    have hno {d e : Declaration} (hfits : Fits d.defaultEntry e.defaultEntry) (hd : d.IsSound)
        (he : e.IsSound) : ¬ d.Conflicts e := by
      rintro (⟨hbegins, hother⟩ | ⟨hplace, v, w, hv, hw, hdiffer⟩)
      · exact hother (hfits.above hbegins)
      · cases hd.literal_eq.symm.trans hv
        cases he.literal_eq.symm.trans hw
        exact hdiffer (hfits.same hplace)
    exact ⟨hno hfits hd he, hno hfits.symm he hd⟩
  · rintro ⟨hno, hno'⟩
    have hfits : Fits d.defaultEntry e.defaultEntry := by
      refine ⟨fun hbegins => ?_, fun hbegins => ?_, fun hplace => ?_⟩
      · by_contra hother
        exact hno (.inl ⟨hbegins, hother⟩)
      · by_contra hother
        exact hno' (.inl ⟨hbegins, Ne.symm hother⟩)
      · by_contra hdiffer
        exact hno (.inr ⟨hplace, _, _, hd.literal_eq, he.literal_eq, hdiffer⟩)
    exact ⟨fits_typeEntry hd he hfits, hfits⟩

end Declaration

namespace Variables

open Declaration

/-- A declaration is reported where its type or its default is. -/
theorem notices_declare_eq_nil_iff {d : Declaration} (h : d.IsSound) {v : Variables} :
    (v.declare d).notices = [] ↔
      IsSilent v.types d.place d.typeEntry.2 ∧ IsSilent v.defaults d.place d.defaultEntry.2 := by
  have hname : IsLeaf (.text (typeOf d.written).name) := trivial
  obtain ⟨hstate, hnone⟩ := assignType_of_isLeaf h.place_ne_nil hname v
  rw [declare, h.literal_eq, Attempt.notices_andThen_of_none hnone, hstate, List.append_eq_nil_iff]
  exact and_congr (notices_assign_eq_nil_iff hname h.place_ne_nil)
    (notices_assign_eq_nil_iff (isLeaf_of_literal h.literal_eq) h.place_ne_nil)

/-- Behind declarations that fit together, one is not reported exactly where it is in conflict with
none of them. -/
theorem notices_declare_foldl_put {ds : List Declaration} (hds : ∀ d ∈ ds, d.IsSound)
    (htypes : AreFitting (ds.map typeEntry)) (hdefaults : AreFitting (ds.map defaultEntry))
    {d : Declaration} (hd : d.IsSound) :
    ((ds.foldl put .empty).declare d).notices = [] ↔
      ∀ e ∈ ds, ¬ e.Conflicts d ∧ ¬ d.Conflicts e := by
  have hfits (e : Declaration) (he : e ∈ ds) := fits_iff (hds e he) hd
  have htypeEntries : ∀ e ∈ ds.map typeEntry, IsEntry e :=
    List.forall_mem_map.2 fun e he => isEntry_typeEntry (hds e he)
  have hdefaultEntries : ∀ e ∈ ds.map defaultEntry, IsEntry e :=
    List.forall_mem_map.2 fun e he => isEntry_defaultEntry (hds e he)
  have htype : d.typeEntry.2.Same d.typeEntry.2 := .text _
  rw [notices_declare_eq_nil_iff hd, foldl_put]
  show IsSilent (putAll [] _) d.place _ ∧ IsSilent (putAll [] _) d.place _ ↔ _
  rw [isSilent_putAll_iff htypeEntries htypes hd.place_ne_nil htype,
    isSilent_putAll_iff hdefaultEntries hdefaults hd.place_ne_nil (same_of_literal hd.literal_eq),
    List.forall_mem_map, List.forall_mem_map]
  constructor
  · rintro ⟨htype, hdefault⟩ e he
    exact (hfits e he).1 ⟨htype e he, hdefault e he⟩
  · intro hno
    exact ⟨fun e he => ((hfits e he).2 (hno e he)).1, fun e he => ((hfits e he).2 (hno e he)).2⟩

/-- What declarations put at their places fits together if no two of them are in conflict. -/
theorem areFitting_of_not_conflicts {ds : List Declaration} (h : ∀ d ∈ ds, d.IsSound)
    (hno : ∀ d ∈ ds, ∀ e ∈ ds, ¬ d.Conflicts e) :
    AreFitting (ds.map typeEntry) ∧ AreFitting (ds.map defaultEntry) := by
  simp only [AreFitting, List.forall_mem_map]
  have hfits (d : Declaration) (hd : d ∈ ds) (e : Declaration) (he : e ∈ ds) :=
    (fits_iff (h d hd) (h e he)).2 ⟨hno d hd e he, hno e he d hd⟩
  exact ⟨fun d hd e he => (hfits d hd e he).1, fun d hd e he => (hfits d hd e he).2⟩

/-- **Declarations that are not reported** are those of which no two are in conflict. -/
theorem notices_forEach_declare_eq_nil_iff {ds : List Declaration} (h : ∀ d ∈ ds, d.IsSound) :
    (Attempt.forEach declare .empty ds).notices = [] ↔
      ∀ d ∈ ds, ∀ e ∈ ds, ¬ d.Conflicts e := by
  -- Induction from the end: the last declaration meets what those in front of it left.
  induction ds using List.reverseRecOn with
  | nil => exact ⟨fun _ => nofun, fun _ => rfl⟩
  | append_singleton ds d ih =>
    have hds : ∀ e ∈ ds, e.IsSound := fun e he => h e (List.mem_append_left _ he)
    have hd : d.IsSound := h d (by simp)
    have hself : ¬ d.Conflicts d :=
      ((fits_iff hd hd).1 ⟨fits_self (.text _), fits_self (same_of_literal hd.literal_eq)⟩).1
    obtain ⟨hstate, hnone⟩ := forEach_declare hds .empty
    have hlast (v : Variables) : Attempt.forEach declare v [d] = v.declare d :=
      Attempt.andThen_done _
    rw [Attempt.forEach_append, Attempt.notices_andThen_of_none hnone, hstate, hlast,
      List.append_eq_nil_iff, ih hds]
    simp only [List.forall_mem_append, List.forall_mem_singleton]
    constructor
    · rintro ⟨hno, hreported⟩
      obtain ⟨htypes, hdefaults⟩ := areFitting_of_not_conflicts hds hno
      have hnew := (notices_declare_foldl_put hds htypes hdefaults hd).1 hreported
      exact ⟨fun e he => ⟨hno e he, (hnew e he).1⟩, fun e he => (hnew e he).2, hself⟩
    · rintro ⟨hfront, hback, -⟩
      have hno := fun e he => (hfront e he).1
      obtain ⟨htypes, hdefaults⟩ := areFitting_of_not_conflicts hds hno
      exact ⟨hno, (notices_declare_foldl_put hds htypes hdefaults hd).2
        fun e he => ⟨(hfront e he).2, hback e he⟩⟩

end Variables

/-- **Redeclarations are reported, and nothing else is.** A scan that comes to its end reports
something exactly where two of the declarations in the text are in conflict. -/
theorem scan_notices_ne_nil_iff {s : Text} (h : (scan s).failure = none) :
    (scan s).notices ≠ [] ↔ ∃ d ∈ declarations s, ∃ e ∈ declarations s, d.Conflicts e := by
  have hsound := Variables.completed_forEach_declare_iff.1 h
  rw [scan, Ne, Variables.notices_forEach_declare_eq_nil_iff hsound]
  simp only [not_forall, not_not, exists_prop]

/-- Three declarations: `1` and `1.0` are the same default, but `a` stands above `a.b`. -/
def nestedAgain : Text :=
  Declaration.text ⟨"1".toList, "a.b".toList⟩ ++ Declaration.text ⟨"1.0".toList, "a..b".toList⟩ ++
    Declaration.text ⟨"2".toList, "a".toList⟩

theorem scan_notices_ne_nil_iff_nestedAgain :
    (scan nestedAgain).failure = none ∧ (scan nestedAgain).notices ≠ [] := by
  have hend : (scan nestedAgain).failure = none := by decide +kernel
  have hconflict : Declaration.Conflicts ⟨"2".toList, "a".toList⟩ ⟨"1".toList, "a.b".toList⟩ :=
    .inl (by decide +kernel)
  exact ⟨hend, (scan_notices_ne_nil_iff hend).2
    ⟨_, by decide +kernel, _, by decide +kernel, hconflict⟩⟩

end Template

end SvgAssets
