import FactEngine.Proofs.Selection
import Mathlib.Order.Bounds.Basic

/-!
# Lists of names

The names in a delimited list are the pieces between the delimiters, without the blanks around
them and without those of which nothing is left (`NamesIn`). So a text is a name in some list
exactly if it is not empty, has no blanks at its ends and does not contain the delimiter
(`exists_mem_namePieces_iff`).

A name that labels facts is matched with the last of them (`AnyDomain.mem_matched_iff`), and the
others are reported as unmatched, both in the order of the list. A relation of one column that is
filled from a list gains the matched facts and nothing else (`selectNames_selects`).
-/

namespace FactEngine

open Text

/-! ## Names -/

/-- The second text is what is left of the first without the blanks at its ends. -/
def Strips (cs ds : List Char) : Prop :=
  Trimmed ds ∧ ∃ before after : List Char, (∀ c ∈ before, isBlank c = true) ∧
    (∀ c ∈ after, isBlank c = true) ∧ before ++ ds ++ after = cs

/-- The names in a list : it is cut at the delimiters, the pieces are stripped of blanks, and what
is not empty is kept. -/
def NamesIn (list : String) (delimiter : Char) (names : List String) : Prop :=
  ∃ pieces stripped : List (List Char), pieces ≠ [] ∧ (∀ piece ∈ pieces, delimiter ∉ piece) ∧
    [delimiter].intercalate pieces = list.toList ∧ List.Forall₂ Strips pieces stripped ∧
    names = (stripped.filter (· ≠ [])).map String.ofList

theorem strips_trimChars (cs : List Char) : Strips cs (trimChars cs) :=
  ⟨trimmed_trimChars cs, exists_blanks_trimChars cs⟩

/-- Nothing else is left than what trimming leaves. -/
theorem Strips.eq_trimChars {cs ds : List Char} (h : Strips cs ds) : ds = trimChars cs := by
  obtain ⟨htrimmed, before, after, hbefore, hafter, rfl⟩ := h
  cases ds with
  | nil =>
    refine (trimChars_eq_nil_iff.2 fun c hc => ?_).symm
    rw [List.append_nil] at hc
    exact (List.mem_append.1 hc).elim (hbefore c) (hafter c)
  | cons d ds =>
    have hfront : (before ++ (d :: ds) ++ after).dropWhile isBlank = (d :: ds) ++ after := by
      rw [List.append_assoc]
      exact dropWhile_append_of_stop hbefore htrimmed.head
    have hback : ∀ c ∈ (d :: ds).reverse.head?, isBlank c = false := by
      simpa only [List.head?_reverse] using htrimmed.last
    rw [trimChars, hfront, List.reverse_append,
      dropWhile_append_of_stop (fun c hc => hafter c (List.mem_reverse.1 hc)) hback,
      List.reverse_reverse]

namespace Relation

variable {name list : String} {delimiter : Char}

theorem namesIn_namePieces (list : String) (delimiter : Char) :
    NamesIn list delimiter (namePieces list delimiter) := by
  refine ⟨list.toList.splitOn delimiter, (list.toList.splitOn delimiter).map trimChars,
    List.splitOn_ne_nil _ _, fun piece hpiece hmem => ?_, List.intercalate_splitOn delimiter,
    ?_, rfl⟩
  · exact (mem_of_mem_splitOn hpiece hmem).2 rfl
  · rw [List.forall₂_map_right_iff]
    exact List.forall₂_same.2 fun piece _ => strips_trimChars piece

/-- A text is a name in the list of it alone if it is not empty, has no blanks at its ends and does
not contain the delimiter, and otherwise it is a name in no list. -/
theorem exists_mem_namePieces_iff : (∃ list, name ∈ namePieces list delimiter) ↔
    name ≠ "" ∧ Trimmed name.toList ∧ delimiter ∉ name.toList := by
  constructor
  · rintro ⟨list, h⟩
    obtain ⟨hne, piece, hpiece, rfl⟩ := mem_namePieces.1 h
    obtain ⟨before, after, -, -, hcs⟩ := exists_blanks_trimChars piece
    rw [String.toList_ofList]
    refine ⟨hne, trimmed_trimChars piece, fun hmem => (mem_of_mem_splitOn hpiece ?_).2 rfl⟩
    rw [← hcs]
    exact List.mem_append_left _ (List.mem_append_right _ hmem)
  · rintro ⟨hne, htrimmed, hdelimiter⟩
    refine ⟨name, mem_namePieces.2 ⟨hne, name.toList, ?_, ?_⟩⟩
    · rw [List.splitOn_eq_singleton hdelimiter]
      exact List.mem_singleton_self _
    · rw [htrimmed.trimChars_eq, String.ofList_toList]

end Relation

/-! ## Reports -/

namespace AnyDomain

variable {d : AnyDomain} {name : String} {names : List String} {i : Nat}

theorem indexOfLabel?_eq_some_iff_isGreatest :
    d.indexOfLabel? name = some i ↔ IsGreatest {j | d.label j = .ok name} i := by
  rw [indexOfLabel?_eq_some_iff]
  refine and_congr_right fun _ => ⟨fun h j hj => ?_, fun h j hij hj => ?_⟩
  · exact Nat.le_of_not_lt fun hij => h j hij hj
  · exact Nat.not_lt_of_le (h hj) hij

theorem indexOfLabel?_eq_none_iff : d.indexOfLabel? name = none ↔ name ∉ d.labels :=
  lastIndexOf?_eq_none_iff

/-- The names that label facts are matched, in the order of the list. -/
theorem map_fst_matched (d : AnyDomain) (names : List String) :
    (d.report names).matched.map Prod.fst = names.filter (· ∈ d.labels) := by
  induction names with
  | nil => rfl
  | cons name names ih =>
    cases h : d.indexOfLabel? name with
    | none =>
      rw [report_cons_of_none h, List.filter_cons_of_neg (by simp [indexOfLabel?_eq_none_iff.1 h])]
      exact ih
    | some i =>
      have hmem : name ∈ d.labels := by
        by_contra hnot
        rw [indexOfLabel?_eq_none_iff.2 hnot] at h
        cases h
      rw [report_cons_of_some h, List.filter_cons_of_pos (by simpa using hmem)]
      exact congrArg (name :: ·) ih

/-- The names that label nothing are not matched. -/
theorem unmatched_report (d : AnyDomain) (names : List String) :
    (d.report names).unmatched = names.filter (· ∉ d.labels) := by
  simp [report, indexOfLabel?_eq_none_iff]

/-- A name is matched with the last fact that it labels. -/
theorem mem_matched_iff : (name, i) ∈ (d.report names).matched ↔
    name ∈ names ∧ IsGreatest {j | d.label j = .ok name} i := by
  rw [← indexOfLabel?_eq_some_iff_isGreatest]
  simp [report]

end AnyDomain

/-! ## Selection -/

namespace Relation

variable {s : Store} {r : Relation} {id : DomainId} {delimiter : Char}

/-- A fact is selected by some list exactly if its label is a name in some list and no later fact
has that label. -/
theorem exists_select_iff (hr : r.arity = 1) (hc : r.columns = [id]) {i : Nat} :
    (∃ list report r' name, r.selectNames s list delimiter = (.ok report, r') ∧
      (name, i) ∈ report.matched) ↔
      ∃ name, (s.get id).label i = .ok name ∧ name ≠ "" ∧ Trimmed name.toList ∧
        delimiter ∉ name.toList ∧ ∀ j, i < j → (s.get id).label j ≠ .ok name := by
  constructor
  · rintro ⟨list, report, r', name, h, hmatched⟩
    rw [selectNames_eq hr hc] at h
    obtain rfl := Except.ok.inj (Prod.mk.inj h).1
    obtain ⟨hname, hlast⟩ := AnyDomain.mem_matched_iff.1 hmatched
    obtain ⟨hne, htrimmed, hdelimiter⟩ := exists_mem_namePieces_iff.1 ⟨list, hname⟩
    obtain ⟨hlabel, hlater⟩ := AnyDomain.indexOfLabel?_eq_some_iff.1
      (AnyDomain.indexOfLabel?_eq_some_iff_isGreatest.2 hlast)
    exact ⟨name, hlabel, hne, htrimmed, hdelimiter, hlater⟩
  · rintro ⟨name, hlabel, hne, htrimmed, hdelimiter, hlater⟩
    obtain ⟨list, hname⟩ := exists_mem_namePieces_iff.2 ⟨hne, htrimmed, hdelimiter⟩
    have hlast := AnyDomain.indexOfLabel?_eq_some_iff_isGreatest.1
      (AnyDomain.indexOfLabel?_eq_some_iff.2 ⟨hlabel, hlater⟩)
    exact ⟨list, _, _, name, selectNames_eq hr hc list delimiter,
      AnyDomain.mem_matched_iff.2 ⟨hname, hlast⟩⟩

/-- Filling a relation of one column from a list never fails. The names in the list are reported in
order, matched with the last fact that they label or unmatched, and the relation keeps its tuples
and gains the matched facts. So a fact can be selected exactly if its label can be a name and no
later fact has it. In a relation of another arity nothing is selected. -/
theorem selectNames_selects {s : Store} {r : Relation} (hr : r.columns.length = r.arity)
    (delimiter : Char) :
    (r.arity = 1 → ∃ id, r.columns = [id] ∧
      (∀ list, ∃ names report tuples,
        r.selectNames s list delimiter = (.ok report, { r with tuples := tuples }) ∧
        NamesIn list delimiter names ∧
        report.matched.map Prod.fst = names.filter (· ∈ (s.get id).labels) ∧
        report.unmatched = names.filter (· ∉ (s.get id).labels) ∧
        (∀ name i, (name, i) ∈ report.matched →
          IsGreatest {j | (s.get id).label j = .ok name} i) ∧
        ∀ t, t ∈ tuples ↔ t ∈ r.tuples ∨ ∃ p ∈ report.matched, t = [p.2]) ∧
      ∀ i, (∃ list report r' name, r.selectNames s list delimiter = (.ok report, r') ∧
          (name, i) ∈ report.matched) ↔
        ∃ name, (s.get id).label i = .ok name ∧ name ≠ "" ∧ Trimmed name.toList ∧
          delimiter ∉ name.toList ∧ ∀ j, i < j → (s.get id).label j ≠ .ok name) ∧
    (r.arity ≠ 1 → ∀ list, r.selectNames s list delimiter =
      (.error (.signatureMismatch r.name r.arity 1), r)) := by
  refine ⟨fun hone => ?_, fun hne list => selectNames_of_arity_ne hne list delimiter⟩
  obtain ⟨id, hc⟩ := List.length_eq_one_iff.1 (hr.trans hone)
  refine ⟨id, hc, fun list => ?_, fun i => exists_select_iff hone hc⟩
  refine ⟨namePieces list delimiter, _, _, selectNames_eq hone hc list delimiter,
    namesIn_namePieces list delimiter, AnyDomain.map_fst_matched _ _,
    AnyDomain.unmatched_report _ _, fun name i h => (AnyDomain.mem_matched_iff.1 h).2, fun t => ?_⟩
  rw [mem_foldl_appendNew]
  simp [FilterReport.tuples, eq_comm]

/-- Two facts have one label. A list selects the later of them, and no list the earlier. -/
theorem select_shared_label :
    let s : Store := ⟨[⟨.tagged, ⟨"T", [⟨"Foo", 0⟩, ⟨"", 0⟩, ⟨"Foo", 1⟩, ⟨"Bar", 0⟩], true⟩⟩]⟩
    let r : Relation := ⟨"kept", .unary "T", [⟨0⟩], [[0]]⟩
    r.columns.length = r.arity ∧ r.arity = 1 ∧
    r.selectNames s " Foo; Baz;; Bar ;Foo" ';' =
      (.ok ⟨[("Foo", 2), ("Bar", 3), ("Foo", 2)], ["Baz"]⟩,
        { r with tuples := [[0], [2], [3]] }) ∧
    ¬∃ list report r' name, r.selectNames s list ';' = (.ok report, r') ∧
      (name, 0) ∈ report.matched := by
  intro s r
  have hr : r.columns.length = r.arity := rfl
  have hone : r.arity = 1 := rfl
  refine ⟨hr, hone, by decide +kernel, ?_⟩
  obtain ⟨id, hid, -, hselected⟩ := (selectNames_selects (s := s) hr ';').1 hone
  obtain rfl : ⟨0⟩ = id := (List.cons.inj hid).1
  rw [hselected 0]
  rintro ⟨name, hlabel, -, -, -, hlater⟩
  exact hlater 2 (by decide) hlabel

end Relation

end FactEngine
