import FactEngine.Proofs.Relation
import FactEngine.Proofs.Text

/-!
# Selecting by label

A list of names selects the facts that the names label. A name that labels several facts stands
for the last of them (`AnyDomain.indexOfLabel?_eq_some_iff`), and one that labels none is passed
over. Every selected index is that of a fact, so nothing is ever refused, and the relation keeps
the selected facts after its own tuples (`Relation.selectNames_eq`).
-/

namespace FactEngine

open Text

/-! ## The last occurrence -/

section

variable {α : Type} [DecidableEq α] {a : α} {l : List α} {i : Nat}

theorem lastIndexOf?_eq_none_iff : lastIndexOf? a l = none ↔ a ∉ l := by
  induction l with
  | nil => simp [lastIndexOf?]
  | cons b l ih =>
    rw [lastIndexOf?, List.mem_cons, not_or, ← ih]
    cases lastIndexOf? a l with
    | none => simp [eq_comm]
    | some i => simp

/-- The last occurrence is where the element stands and no more stands behind. -/
theorem lastIndexOf?_eq_some_iff :
    lastIndexOf? a l = some i ↔ l[i]? = some a ∧ ∀ j, i < j → l[j]? ≠ some a := by
  induction l generalizing i with
  | nil => simp [lastIndexOf?]
  | cons b l ih =>
    have hshift : ∀ k : Nat,
        (∀ j, k < j → (b :: l)[j]? ≠ some a) ↔ ∀ j, k ≤ j → l[j]? ≠ some a := by
      intro k
      refine ⟨fun h j hj => h (j + 1) (by omega), fun h j hj => ?_⟩
      obtain ⟨j, rfl⟩ := Nat.exists_eq_succ_of_ne_zero (by omega : j ≠ 0)
      exact h j (by omega)
    rw [hshift, lastIndexOf?]
    cases i with
    | zero =>
      have hnone : lastIndexOf? a l = none ↔ ∀ j, 0 ≤ j → l[j]? ≠ some a := by
        simp [lastIndexOf?_eq_none_iff, List.mem_iff_getElem?]
      rw [← hnone]
      cases lastIndexOf? a l <;> simp
    | succ i =>
      simp only [List.getElem?_cons_succ, Nat.succ_le_iff, ← ih]
      cases lastIndexOf? a l <;> simp

/-- Where nothing occurs twice, the last occurrence is the only one. -/
theorem lastIndexOf?_eq_some_iff_of_nodup (h : l.Nodup) :
    lastIndexOf? a l = some i ↔ l[i]? = some a := by
  rw [lastIndexOf?_eq_some_iff, and_iff_left_iff_imp]
  intro hi j hij hj
  have := (idxOf?_eq_some_iff_of_nodup h).2 hi
  rw [(idxOf?_eq_some_iff_of_nodup h).2 hj] at this
  exact hij.ne' (Option.some.inj this)

end

/-! ## Look-up by label -/

namespace AnyDomain

variable {d : AnyDomain} {name : String} {i : Nat}

/-- A name stands for the last fact that it labels. -/
theorem indexOfLabel?_eq_some_iff : d.indexOfLabel? name = some i ↔
    d.label i = .ok name ∧ ∀ j, i < j → d.label j ≠ .ok name := by
  have hlabel : ∀ k, d.labels[k]? = some name ↔ d.label k = .ok name := by
    intro k
    simp only [label_eq_ok_iff, Domain.get_eq_ok_iff]
    exact List.getElem?_map ▸ Option.map_eq_some_iff
  simp only [indexOfLabel?, lastIndexOf?_eq_some_iff, hlabel, ne_eq]

theorem lt_size_of_indexOfLabel? (h : d.indexOfLabel? name = some i) : i < d.size :=
  exists_label_iff.1 ⟨name, (indexOfLabel?_eq_some_iff.1 h).1⟩

/-- What becomes of some names : those that label a fact are matched with it. -/
def report (d : AnyDomain) (names : List String) : FilterReport where
  matched := names.filterMap fun name => (d.indexOfLabel? name).map fun i => (name, i)
  unmatched := names.filter fun name => d.indexOfLabel? name = none

end AnyDomain

/-- The tuples of the facts that were matched. -/
def FilterReport.tuples (r : FilterReport) : List Tuple :=
  r.matched.map fun p => [p.2]

namespace AnyDomain

theorem report_cons_of_none {d : AnyDomain} {name : String} (h : d.indexOfLabel? name = none)
    (names : List String) : d.report (name :: names) =
      { d.report names with unmatched := name :: (d.report names).unmatched } := by
  simp [report, h]

theorem report_cons_of_some {d : AnyDomain} {name : String} {i : Nat}
    (h : d.indexOfLabel? name = some i) (names : List String) : d.report (name :: names) =
      { d.report names with matched := (name, i) :: (d.report names).matched } := by
  simp [report, h]

theorem mem_tuples_report {d : AnyDomain} {names : List String} {t : Tuple} :
    t ∈ (d.report names).tuples ↔ ∃ name ∈ names, ∃ i, d.indexOfLabel? name = some i ∧ t = [i] := by
  simp only [FilterReport.tuples, report, List.mem_map, List.mem_filterMap, Option.map_eq_some_iff]
  constructor
  · rintro ⟨_, ⟨name, hname, i, hi, rfl⟩, rfl⟩
    exact ⟨name, hname, i, hi, rfl⟩
  · rintro ⟨name, hname, i, hi, rfl⟩
    exact ⟨(name, i), ⟨name, hname, i, hi, rfl⟩, rfl⟩

end AnyDomain

/-! ## Selection -/

namespace Relation

variable {s : Store} {r : Relation} {id : DomainId}

/-- The names of a list are its pieces without the blanks around them, where something is left. -/
theorem mem_namePieces {name list : String} {delimiter : Char} :
    name ∈ namePieces list delimiter ↔ name ≠ "" ∧
      ∃ piece ∈ list.toList.splitOn delimiter, name = String.ofList (trimChars piece) := by
  simp only [namePieces, List.mem_map, List.mem_filter, decide_eq_true_eq]
  constructor
  · rintro ⟨_, ⟨⟨piece, hpiece, rfl⟩, hne⟩, rfl⟩
    exact ⟨by simpa [← String.toList_inj] using hne, piece, hpiece, rfl⟩
  · rintro ⟨hne, piece, hpiece, rfl⟩
    exact ⟨_, ⟨⟨piece, hpiece, rfl⟩, by simpa [← String.toList_inj] using hne⟩, rfl⟩

/-- There are no names in a blank list. -/
theorem namePieces_of_blank {list : String} (h : trim list = "") (delimiter : Char) :
    namePieces list delimiter = [] := by
  have hblank : ∀ c ∈ list.toList, isBlank c = true := by
    rw [← trimChars_eq_nil_iff, ← toList_trim, h]
    rfl
  have hpieces : ∀ piece ∈ list.toList.splitOn delimiter, trimChars piece = [] :=
    fun piece hpiece => trimChars_eq_nil_iff.2 fun c hc => hblank c (mem_of_mem_splitOn hpiece hc).1
  simpa [namePieces] using hpieces

/-- In a relation of one column, what fits is an index of a fact. -/
theorem fits_singleton_iff (hr : r.arity = 1) (hc : r.columns = [id]) {i : Nat} :
    r.Fits s [i] ↔ i < (s.get id).size := by
  refine ⟨fun h => h.lt_size (i, id) (by simp [hc]), fun h => ⟨by simp [hr], ?_⟩⟩
  simpa [hc] using h

/-- The relation keeps the facts that are selected, and the names are reported. -/
theorem selectPieces_eq (hr : r.arity = 1) (hc : r.columns = [id]) (names : List String) :
    r.selectPieces s (s.get id) names = (.ok ((s.get id).report names),
      { r with tuples := ((s.get id).report names).tuples.foldl appendNew r.tuples }) := by
  induction names generalizing r with
  | nil => rfl
  | cons name names ih =>
    cases hi : (s.get id).indexOfLabel? name with
    | none =>
      rw [selectPieces, hi, AnyDomain.report_cons_of_none hi]
      simp only [ih hr hc]
      rfl
    | some i =>
      have hfits := (fits_singleton_iff (s := s) hr hc).2 (AnyDomain.lt_size_of_indexOfLabel? hi)
      have hrest := ih (r := { r with tuples := appendNew r.tuples [i] }) hr hc
      rw [selectPieces, hi, AnyDomain.report_cons_of_some hi]
      simp only [add_of_fits hfits, hrest]
      rfl

theorem selectNames_eq (hr : r.arity = 1) (hc : r.columns = [id]) (list : String)
    (delimiter : Char) :
    r.selectNames s list delimiter = (.ok ((s.get id).report (namePieces list delimiter)),
      { r with tuples :=
          ((s.get id).report (namePieces list delimiter)).tuples.foldl appendNew r.tuples }) := by
  unfold selectNames
  split
  · rename_i id' ids _ hids
    obtain ⟨rfl, rfl⟩ : id = id' ∧ [] = ids := by simpa [hc] using hids
    split
    · rename_i hblank
      rw [namePieces_of_blank hblank]
      rfl
    · exact selectPieces_eq hr hc _
  · rename_i h
    exact (h id [] hr hc).elim

/-- Names are selected in a relation of one column only. -/
theorem selectNames_of_arity_ne (hr : r.arity ≠ 1) (list : String) (delimiter : Char) :
    r.selectNames s list delimiter = (.error (.signatureMismatch r.name r.arity 1), r) := by
  unfold selectNames
  split
  · rename_i h _
    exact (hr h).elim
  · rfl

end Relation

end FactEngine
