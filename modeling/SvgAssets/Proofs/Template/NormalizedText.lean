/-
# SvgAssets.Proofs.Template.NormalizedText -- normalising a text in parts

Normalisation touches declarations only. A character that no declaration holds therefore cuts a text
into two parts that are normalised on their own (`normalize_append_cons`), and what a normalised
text begins with, up to the first brace, is what the text began with (`exists_of_normalize_eq`). The
first and the last character of a text stay, since those of a declaration are braces, as are those
of its reference; so a text may be trimmed before or after it is normalised (`normalize_trim`).
-/
import SvgAssets.Proofs.Template.References
import SvgAssets.Proofs.Text.Cutting
import SvgAssets.Proofs.Text.Replacing

namespace SvgAssets.Template

open Text

/-- An induction over the declarations of a text. -/
theorem declaration_induct {P : Text → Prop} (nil : P [])
    (declared : ∀ (d : Declaration) rest, d.IsProper → P rest → P (d.text ++ rest))
    (char : ∀ c s, Declaration.read (c :: s) = none → P s → P (c :: s)) (s : Text) : P s := by
  fun_induction Pattern.scanFrom Declaration.pattern none s with
  | case1 => exact nil
  | case2 prev c s d rest h ih =>
    obtain ⟨hd, hs⟩ := Declaration.read_eq_some_iff.1 h
    rw [hs]
    exact declared d rest hd ih
  | case3 prev c s h ih => exact char c s h ih

/-! ## Characters -/

theorem Declaration.head?_text_append (d : Declaration) (s : Text) :
    (d.text ++ s).head? = some '\x7b' := rfl

theorem Declaration.getLast?_text (d : Declaration) : d.text.getLast? = some '\x7d' := by
  have htext : d.text =
      ('\x7b' :: '\x7b' :: d.written ++ '|' :: d.pathText ++ ['\x7d']) ++ ['\x7d'] := by
    simp [text]
  rw [htext, List.getLast?_concat]

theorem Declaration.getLast?_reference (d : Declaration) : d.reference.getLast? = some '\x7d' := by
  have hreference : d.reference = ('\x7b' :: '\x7b' :: d.path ++ ['\x7d']) ++ ['\x7d'] := by
    simp [reference]
  rw [hreference, List.getLast?_concat]

/-- A reference is made of characters of the declaration. -/
theorem Declaration.mem_of_mem_reference {d : Declaration} {c : Char} (h : c ∈ d.reference) :
    c ∈ d.text := by
  simp only [reference, List.cons_append, List.mem_cons, List.mem_append] at h
  rcases h with rfl | rfl | h | h
  · simp [text]
  · simp [text]
  · have hpath : c ∈ d.pathText := mem_of_mem_trim h
    simp [text, hpath]
  · simp only [List.not_mem_nil, or_false, or_self] at h
    simp [text, h]

theorem mem_of_mem_normalize {c : Char} {s : Text} (h : c ∈ normalize s) : c ∈ s := by
  induction s using declaration_induct with
  | nil =>
    rw [normalize_nil] at h
    cases h
  | declared d rest hd ih =>
    rw [normalize_text_append hd] at h
    rcases List.mem_append.1 h with h | h
    · exact List.mem_append_left _ (Declaration.mem_of_mem_reference h)
    · exact List.mem_append_right _ (ih h)
  | char d s hnone ih =>
    rw [normalize_cons hnone] at h
    rcases List.mem_cons.1 h with rfl | h
    · exact List.mem_cons_self ..
    · exact List.mem_cons_of_mem _ (ih h)

theorem head?_normalize (s : Text) : (normalize s).head? = s.head? := by
  induction s using declaration_induct with
  | nil => rw [normalize_nil]
  | declared d rest hd _ =>
    rw [normalize_text_append hd, d.head?_text_append]
    rfl
  | char c s hnone _ => rw [normalize_cons hnone, List.head?_cons, List.head?_cons]

theorem getLast?_normalize (s : Text) : (normalize s).getLast? = s.getLast? := by
  induction s using declaration_induct with
  | nil => rw [normalize_nil]
  | declared d rest hd ih =>
    rw [normalize_text_append hd, List.getLast?_append, List.getLast?_append, ih,
      d.getLast?_reference, d.getLast?_text]
  | char c s hnone ih =>
    rw [normalize_cons hnone, List.getLast?_cons, List.getLast?_cons, ih]

theorem normalize_eq_nil_iff {s : Text} : normalize s = [] ↔ s = [] := by
  rw [← List.head?_eq_none_iff, head?_normalize, List.head?_eq_none_iff]

/-! ## Parts of a text -/

/-- A character that no declaration holds cuts the scan for declarations. -/
theorem scan_append_cons {q : Char} {x y : Text}
    (h : ∀ d ∈ declarations (x ++ q :: y), q ∉ d.text) :
    Declaration.pattern.scan (x ++ q :: y) =
      Declaration.pattern.scan x ++ .plain q :: Declaration.pattern.scan y := by
  induction hn : x.length using Nat.strongRecOn generalizing x with
  | ind n ih =>
    cases hread : Declaration.read (x ++ q :: y) with
    | some found =>
      obtain ⟨d, rest⟩ := found
      obtain ⟨hd, he⟩ := Declaration.read_eq_some_iff.1 hread
      have hq : q ∉ d.text := by
        rw [he, declarations_text_append hd] at h
        exact h d (List.mem_cons_self ..)
      -- The declaration ends in front of the character.
      obtain ⟨x', rfl, rfl⟩ := exists_of_append_eq hq he.symm
      rw [List.append_assoc, declarations_text_append hd] at h
      have hlength : x'.length < n := by
        rw [← hn, List.length_append]
        have hpos : 0 < d.text.length := List.length_pos_iff.2 (by simp [Declaration.text])
        omega
      have hrest := ih x'.length hlength (fun e he => h e (List.mem_cons_of_mem _ he)) rfl
      rw [scan_of_read hread, scan_of_read (Declaration.read_text_append hd x'), hrest,
        List.cons_append]
    | none =>
      cases x with
      | nil =>
        rw [List.nil_append] at hread ⊢
        rw [scan_of_none hread, Pattern.scan, Pattern.scan, Pattern.scanFrom, List.nil_append]
      | cons c x =>
        have hnone : Declaration.read (c :: x) = none := by
          rw [Option.eq_none_iff_forall_ne_some]
          rintro ⟨d, rest⟩ hr
          obtain ⟨hd, he⟩ := Declaration.read_eq_some_iff.1 hr
          rw [he, List.append_assoc, Declaration.read_text_append hd] at hread
          cases hread
        rw [List.cons_append] at hread h ⊢
        rw [declarations_cons hread] at h
        rw [scan_of_none hread, scan_of_none hnone, ih x.length (by simp [← hn]) h rfl,
          List.cons_append]

section

variable {q : Char} {x y : Text} (h : ∀ d ∈ declarations (x ++ q :: y), q ∉ d.text)

include h

theorem normalize_append_cons : normalize (x ++ q :: y) = normalize x ++ q :: normalize y := by
  rw [normalize, Pattern.replace, scan_append_cons h, List.flatMap_append, List.flatMap_cons]
  rfl

theorem declarations_append_cons :
    declarations (x ++ q :: y) = declarations x ++ declarations y := by
  rw [declarations, Pattern.tokens, scan_append_cons h, List.filterMap_append]
  rfl

end

/-- In front of the first opening brace nothing is normalised. -/
theorem normalize_append_left {w : Text} (h : '\x7b' ∉ w) (s : Text) :
    normalize (w ++ s) = w ++ normalize s := by
  induction w with
  | nil => rfl
  | cons c w ih =>
    rw [List.mem_cons, not_or] at h
    rw [List.cons_append, normalize_cons (Declaration.read_cons_of_ne (Ne.symm h.1) _), ih h.2,
      List.cons_append]

/-- Behind the last closing brace nothing is normalised. -/
theorem normalize_append_right {w : Text} (h : '\x7d' ∉ w) (s : Text) :
    normalize (s ++ w) = normalize s ++ normalize w := by
  have hcut : Declaration.pattern.CutsAt s w := by
    refine Pattern.cutsAt_of_exact (fun _ _ _ _ => Declaration.read_eq_some_iff) ?_
    intro d v z _ htext _ hz _ hback
    -- The part in the back would end with a brace.
    have hlast : (Declaration.text d).getLast? = z.getLast? := by
      rw [show d.text = v ++ z from htext, List.getLast?_append_of_ne_nil _ hz]
    rw [d.getLast?_text] at hlast
    exact h (hback.subset (List.mem_of_getLast? hlast.symm))
  have hfrom := hcut.replaceFrom_append (f := Declaration.reference) none
  rwa [Pattern.replaceFrom_congr (fun _ _ _ => rfl) (Pattern.behind none s) none] at hfrom

/-- What a normalised text begins with, up to an opening brace, its original begins with too. -/
theorem exists_of_normalize_eq {s w u : Text} (hw : '\x7b' ∉ w) (h : normalize s = w ++ u) :
    ∃ t, s = w ++ t ∧ normalize t = u := by
  induction w generalizing s with
  | nil => exact ⟨s, rfl, h⟩
  | cons c w ih =>
    rw [List.mem_cons, not_or] at hw
    have hhead : s.head? = some c := by rw [← head?_normalize, h, List.cons_append, List.head?_cons]
    obtain ⟨s, rfl⟩ := List.head?_eq_some_iff.1 hhead
    rw [normalize_cons (Declaration.read_cons_of_ne (Ne.symm hw.1) s), List.cons_append,
      List.cons.injEq] at h
    obtain ⟨t, rfl, ht⟩ := ih hw.2 h.2
    exact ⟨t, rfl, ht⟩

/-! ## White space around a text -/

theorem brace_notMem_of_blanks {w : Text} (hw : ∀ c ∈ w, isBlank c = true) :
    '\x7b' ∉ w ∧ '\x7d' ∉ w :=
  ⟨fun hmem => absurd (hw _ hmem) (by decide), fun hmem => absurd (hw _ hmem) (by decide)⟩

/-- **A text may be trimmed before or after it is normalised.** -/
theorem normalize_trim (s : Text) : normalize (trim s) = trim (normalize s) := by
  obtain ⟨v, w, hs, hv, hw⟩ := exists_eq_append_trim s
  have hblanks : normalize w = w := by
    have hkeep := normalize_append_left (brace_notMem_of_blanks hw).1 []
    rwa [normalize_nil, List.append_nil] at hkeep
  have hnormal : normalize s = v ++ normalize (trim s) ++ w := by
    conv => lhs; rw [hs]
    rw [normalize_append_right (brace_notMem_of_blanks hw).2,
      normalize_append_left (brace_notMem_of_blanks hv).1, hblanks]
  rw [hnormal]
  refine (dropAround_append hv hw ?_ ?_).symm
  · rw [head?_normalize]
    exact head?_dropAround
  · rw [getLast?_normalize]
    exact getLast?_dropAround

end SvgAssets.Template
