import FactEngine.Proofs.Tuples
import Mathlib.Data.List.Perm.Lattice

/-!
# Projection of relations

A projection lists the values in one column, each once, in the order in which the tuples first had
them. Every tuple has a value in every column below the arity, because it was checked when it was
added (`RelationState.Valid.forall₂_columnValues`), so nothing is passed over. In a relation of one
column a tuple is its value, and there are as many values as tuples
(`RelationState.Valid.length_distinct_columnValues`).

Tuples are added at the end only, so what is listed stays listed, in its place, whatever calls
follow (`RelationState.projection_lists_column`).
-/

namespace FactEngine

/-- A function that gives a value for every element passes over none. -/
theorem forall₂_filterMap {α β : Type} {f : α → Option β} {l : List α}
    (h : ∀ a ∈ l, ∃ b, f a = some b) :
    List.Forall₂ (fun a b => f a = some b) l (l.filterMap f) := by
  induction l with
  | nil => exact .nil
  | cons a l ih =>
    obtain ⟨⟨b, hb⟩, hl⟩ := List.forall_mem_cons.1 h
    rw [List.filterMap_cons_some hb]
    exact .cons hb (ih hl)

namespace Relation

variable {r : Relation} {column v : Nat}

/-- The values that the tuples have in a column, tuple by tuple. -/
def columnValues (r : Relation) (column : Nat) : List Nat :=
  r.tuples.filterMap (·[column]?)

theorem project_of_lt (h : column < r.arity) :
    r.project column = .ok (distinct (r.columnValues column)) :=
  if_pos h

theorem project_of_le (h : r.arity ≤ column) :
    r.project column = .error (.signatureMismatch r.name r.arity (column + 1)) :=
  if_neg h.not_gt

theorem mem_columnValues :
    v ∈ r.columnValues column ↔ ∃ t, r.contains t = true ∧ t[column]? = some v := by
  simp only [columnValues, List.mem_filterMap, contains, decide_eq_true_iff]

end Relation

namespace RelationState

variable {x y : RelationState} {column : Nat}

/-- Every tuple has a value in a column below the arity. -/
theorem Valid.forall₂_columnValues (hx : x.Valid) (h : column < x.relation.arity) :
    List.Forall₂ (fun t v => t[column]? = some v) x.relation.tuples
      (x.relation.columnValues column) := by
  refine forall₂_filterMap fun t ht => ⟨_, List.getElem?_eq_getElem ?_⟩
  rwa [(hx.fits t ht).length_eq]

/-- Tuples of one component differ in it. -/
theorem Valid.nodup_columnValues (hx : x.Valid) (h : x.relation.arity = 1) :
    (x.relation.columnValues 0).Nodup := by
  have hsingle : ∀ t ∈ x.relation.tuples, ∀ v, t[0]? = some v → t = [v] := by
    intro t ht v hv
    obtain ⟨w, rfl⟩ := List.length_eq_one_iff.1 ((hx.fits t ht).length_eq.trans h)
    rw [Option.some.inj hv]
  refine List.pairwise_filterMap.2 (hx.nodup.imp_of_mem fun {t u} ht hu hne v hv w hw => ?_)
  rintro rfl
  exact hne ((hsingle t ht v hv).trans (hsingle u hu v hw).symm)

/-- The only column has as many different values as there are tuples. -/
theorem Valid.length_distinct_columnValues (hx : x.Valid) (h : x.relation.arity = 1) :
    (distinct (x.relation.columnValues 0)).length = x.relation.size := by
  have hperm : (distinct (x.relation.columnValues 0)).Perm (x.relation.columnValues 0) :=
    (List.perm_ext_iff_of_nodup (nodup_distinct _) (hx.nodup_columnValues h)).2
      fun _ => mem_distinct
  have hlt : 0 < x.relation.arity := h ▸ Nat.one_pos
  rw [hperm.length_eq, Relation.size, (hx.forall₂_columnValues hlt).length_eq]

/-- The values in a column stay in front while tuples are added. -/
theorem Grows.columnValues (h : x.Grows y) (column : Nat) : ∃ more,
    y.relation.columnValues column = x.relation.columnValues column ++ more := by
  obtain ⟨added, hadded⟩ := h.tuples_prefix
  refine ⟨added.filterMap (·[column]?), ?_⟩
  rw [Relation.columnValues, ← hadded, List.filterMap_append]
  rfl

/-- After any calls, refused ones among them, a relation has the tuples that it accepted, in the
order in which it first did. In a column below its arity every tuple has a value, and the projection
lists these values, each once, in the order in which they first occur. If there is one column only,
it lists as many as there are tuples. Later calls only add values at the end. There is no projection
to a column that the relation does not have. -/
theorem projection_lists_column {s : Store} {name : String} {sig : Signature}
    {columns : List DomainId} {r : Relation} (h : Relation.create s name sig columns = .ok r)
    (calls later : List TupleCall) (column : Nat) :
    let start : RelationState := ⟨s, r⟩
    let now := start.after calls
    let next := now.after later
    FirstOccurrences (start.accepted calls) now.relation.tuples ∧
    (column < sig.arity → ∃ values listed,
      List.Forall₂ (fun t v => t[column]? = some v) now.relation.tuples values ∧
      now.relation.project column = .ok listed ∧
      FirstOccurrences values listed ∧
      listed.Nodup ∧
      (∀ v, v ∈ listed ↔ ∃ t, now.relation.contains t = true ∧ t[column]? = some v) ∧
      (sig.arity = 1 → listed.length = now.relation.size) ∧
      ∃ more, next.relation.project column = .ok (listed ++ more)) ∧
    (sig.arity ≤ column →
      now.relation.project column = .error (.signatureMismatch name sig.arity (column + 1))) := by
  intro start now next
  have hx : start.Valid := .of_create h
  have hnow : now.Valid := hx.after calls
  obtain ⟨-, rfl⟩ := Relation.eq_of_create h
  obtain ⟨hname, hsig⟩ : now.relation.name = name ∧ now.relation.signature = sig :=
    hx.name_after calls
  have harity : now.relation.arity = sig.arity := congrArg Signature.arity hsig
  have harity' : next.relation.arity = sig.arity := by
    obtain ⟨-, hsig'⟩ := hnow.name_after later
    exact (congrArg Signature.arity hsig').trans harity
  refine ⟨?_, fun hlt => ?_, fun hle => ?_⟩
  · rw [hx.tuples_after]
    exact firstOccurrences_distinct _
  · obtain ⟨more, hmore⟩ := (hnow.grows_after later).columnValues column
    obtain ⟨added, hadded⟩ := prefix_distinct_append (now.relation.columnValues column) more
    refine ⟨_, _, hnow.forall₂_columnValues (harity ▸ hlt), Relation.project_of_lt (harity ▸ hlt),
      firstOccurrences_distinct _, nodup_distinct _, fun v => ?_, fun hone => ?_, added, ?_⟩
    · rw [mem_distinct, Relation.mem_columnValues]
    · obtain rfl : column = 0 := by omega
      exact hnow.length_distinct_columnValues (harity.trans hone)
    · rw [Relation.project_of_lt (harity' ▸ hlt), hmore, hadded]
  · rw [Relation.project_of_le (harity ▸ hle), hname, harity]

/-- A tuple in the middle of a list is refused, so the ones behind it are not there. -/
theorem projection_of_two_columns :
    let s : Store := ⟨[.empty "M" .text, .empty "T" .text]⟩
    let sig : Signature := .ofColumns [⟨"M", 0⟩, ⟨"T", 0⟩]
    let r : Relation := ⟨"uses", sig, [⟨0⟩, ⟨1⟩], []⟩
    let calls : List TupleCall :=
      [.domain ⟨0⟩ .text (.extend ["main", "run", "stop"]),
        .domain ⟨1⟩ .text (.extend ["Foo", "Bar"]),
        .extend [[2, 0], [0, 1], [2, 1], [1, 2], [1, 1]], .add [0, 0]]
    let later : List TupleCall := [.add [1, 0], .domain ⟨0⟩ .text .freeze, .add [2, 0]]
    let now := (⟨s, r⟩ : RelationState).after calls
    let next := now.after later
    Relation.create s "uses" sig [⟨0⟩, ⟨1⟩] = .ok r ∧
    now.relation.tuples = [[2, 0], [0, 1], [2, 1], [0, 0]] ∧
    now.relation.project 0 = .ok [2, 0] ∧
    (∀ v, v ∈ [2, 0] ↔ ∃ t, now.relation.contains t = true ∧ t[0]? = some v) ∧
    (∃ more, next.relation.project 0 = .ok ([2, 0] ++ more)) ∧
    now.relation.project 2 = .error (.signatureMismatch "uses" 2 3) := by
  intro s sig r calls later now next
  have hcreate : Relation.create s "uses" sig [⟨0⟩, ⟨1⟩] = .ok r := rfl
  have hnow : now.relation.project 0 = .ok [2, 0] := by decide
  obtain ⟨-, hfirst, -⟩ := projection_lists_column hcreate calls later 0
  obtain ⟨-, -, hpast⟩ := projection_lists_column hcreate calls later 2
  obtain ⟨values, listed, -, hlisted, -, -, hmem, -, hmore⟩ := hfirst (by decide)
  obtain rfl : listed = [2, 0] := Except.ok.inj (hlisted.symm.trans hnow)
  exact ⟨hcreate, by decide, hnow, hmem, hmore, hpast (by decide)⟩

end RelationState

end FactEngine
