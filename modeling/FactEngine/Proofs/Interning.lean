import FactEngine.Proofs.Domain

/-!
# Interning several facts

Facts are interned one after another until one is refused, and yet a refusal leaves nothing behind.
Only a frozen domain refuses facts, and what it takes before the refusal is there already. So the
domain has room for the facts (`Domain.Admits`), each is answered with its index, and the new ones
come behind the old ones (`Domain.extend_of_admits`); or the first fact that is absent is refused,
and the domain is what it was (`Domain.extend_of_not_admits`).

Hence facts that are interned again change nothing, and it makes no difference whether facts are
interned in one call or in two (`Domain.extend_append`, `Domain.extend_all_or_nothing`).
-/

namespace FactEngine

namespace Domain

/-! ## Room for facts -/

section

variable {F : Type} [DecidableEq F] {d : Domain F} {f : F}

theorem contains_eq_true_iff : d.contains f = true ↔ f ∈ d.facts :=
  List.isSome_idxOf?

theorem contains_eq_false_iff : d.contains f = false ↔ f ∉ d.facts := by
  rw [← contains_eq_true_iff, Bool.not_eq_true]

/-- A fact has the index at which it occurs first. -/
theorem indexOf?_of_mem (hf : f ∈ d.facts) : d.indexOf? f = some (d.facts.idxOf f) := by
  obtain ⟨i, hi⟩ := Option.isSome_iff_exists.1 (contains_eq_true_iff.2 hf)
  rw [hi, List.idxOf_eq_getD_idxOf?, ← indexOf?, hi, Option.getD_some]

/-- A fact keeps its index while others are added. -/
theorem idxOf_foldl_appendNew {l : List F} (hf : f ∈ l) (fs : List F) :
    (fs.foldl appendNew l).idxOf f = l.idxOf f := by
  obtain ⟨added, hadded⟩ := prefix_foldl_appendNew fs l
  rw [← hadded, List.idxOf_append_of_mem hf]

/-- The domain has room for the facts : it is not frozen, or they are there. -/
def Admits (d : Domain F) (fs : List F) : Prop :=
  d.frozen = true → fs ⊆ d.facts

theorem not_admits_iff {fs : List F} :
    ¬d.Admits fs ↔ d.frozen = true ∧ ∃ f ∈ fs, d.contains f = false := by
  simp only [Admits, List.subset_def, contains_eq_false_iff, Classical.not_imp, not_forall]

end

/-! ## Some facts -/

variable {F : Type} [DecidableEq F] [Labelled F] {d d' : Domain F} {f : F} {fs gs : List F}

theorem intern_of_admits (h : d.Admits [f]) :
    d.intern f =
      (.ok ((appendNew d.facts f).idxOf f), { d with facts := appendNew d.facts f }) := by
  by_cases hf : f ∈ d.facts
  · rw [intern, indexOf?_of_mem hf, appendNew, if_pos hf]
  · have hopen : d.frozen = false :=
      Bool.eq_false_iff.2 fun hd => hf (h hd List.mem_cons_self)
    have hnone : d.indexOf? f = none := List.idxOf?_eq_none_iff.2 hf
    have hindex : (d.facts ++ [f]).idxOf f = d.size := by
      rw [List.idxOf_append_of_notMem hf, List.idxOf_cons_self]
      rfl
    rw [intern, hnone, appendNew, if_neg hf, hindex]
    simp only [hopen, Bool.false_eq_true, if_false]

/-- Where there is room, every fact is answered with its index, and the new ones are added. -/
theorem extend_of_admits (h : d.Admits fs) :
    d.extend fs = (.ok (fs.map (fs.foldl appendNew d.facts).idxOf),
      { d with facts := fs.foldl appendNew d.facts }) := by
  induction fs generalizing d with
  | nil => rfl
  | cons f fs ih =>
    have hf : d.Admits [f] := fun hd => List.cons_subset.2 ⟨h hd List.mem_cons_self, nofun⟩
    have hfs : ({ d with facts := appendNew d.facts f } : Domain F).Admits fs := fun hd g hg =>
      mem_appendNew.2 (Or.inl (h hd (List.mem_cons_of_mem f hg)))
    have hmem : f ∈ appendNew d.facts f := mem_appendNew.2 (Or.inr rfl)
    rw [extend, intern_of_admits hf]
    simp only [ih hfs, List.foldl_cons, List.map_cons, idxOf_foldl_appendNew hmem fs]

/-- Where there is none, the first absent fact is refused, and nothing has changed. -/
theorem extend_of_not_admits (h : ¬d.Admits fs) :
    ∃ before f after, fs = before ++ f :: after ∧ before ⊆ d.facts ∧ f ∉ d.facts ∧
      d.extend fs = (.error (.domainFrozen d.name (label f)), d) := by
  have hfrozen : d.frozen = true := (not_admits_iff.1 h).1
  induction fs with
  | nil => exact (h fun _ => List.nil_subset _).elim
  | cons f fs ih =>
    by_cases hf : f ∈ d.facts
    · have hadmits : d.Admits [f] := fun _ => List.cons_subset.2 ⟨hf, nofun⟩
      have hrest : ¬d.Admits fs := fun hfs => h fun hd => List.cons_subset.2 ⟨hf, hfs hd⟩
      obtain ⟨before, g, after, rfl, hbefore, hg, hrefused⟩ := ih hrest
      refine ⟨f :: before, g, after, rfl, List.cons_subset.2 ⟨hf, hbefore⟩, hg, ?_⟩
      rw [extend, intern_of_admits hadmits, appendNew, if_pos hf]
      simp only [hrefused]
    · have hnone : d.indexOf? f = none := List.idxOf?_eq_none_iff.2 hf
      refine ⟨[], f, fs, rfl, List.nil_subset _, hf, ?_⟩
      rw [extend, intern, hnone]
      simp only [hfrozen, if_true]

theorem admits_of_extend {is : List Nat} (h : d.extend fs = (.ok is, d')) : d.Admits fs := by
  by_contra hnot
  obtain ⟨before, f, after, -, -, -, hrefused⟩ := extend_of_not_admits hnot
  rw [hrefused] at h
  cases h

theorem not_admits_of_extend {e : Error} (h : d.extend fs = (.error e, d')) : ¬d.Admits fs := by
  intro hadmits
  rw [extend_of_admits hadmits] at h
  cases h

/-! ## One call or two -/

/-- Intern facts, and then others. -/
def extendThen (d : Domain F) (fs gs : List F) : Except Error (List Nat) × Domain F :=
  match d.extend fs with
  | (.error e, d) => (.error e, d)
  | (.ok is, d) =>
    match d.extend gs with
    | (.error e, d) => (.error e, d)
    | (.ok js, d) => (.ok (is ++ js), d)

theorem extend_append (d : Domain F) (fs gs : List F) :
    d.extend (fs ++ gs) = d.extendThen fs gs := by
  induction fs generalizing d with
  | nil =>
    simp only [List.nil_append, extendThen, extend]
    rcases d.extend gs with ⟨_ | _, _⟩ <;> rfl
  | cons f fs ih =>
    rw [List.cons_append, extend, extendThen, extend]
    rcases d.intern f with ⟨_ | i, d₁⟩
    · rfl
    · simp only [ih, extendThen]
      rcases d₁.extend fs with ⟨_ | is, d₂⟩
      · rfl
      · simp only
        rcases d₂.extend gs with ⟨_ | _, _⟩ <;> rfl

/-- Facts are refused exactly if the domain is frozen and one of them is absent. The refusal is for
the first absent fact, and the domain is what it was. Otherwise each fact is answered with its
index, and behind the old facts come the new ones, each once, by first occurrence; to intern the
facts again changes nothing, and is answered alike. Facts may be interned in one call or in two. -/
theorem extend_all_or_nothing (d : Domain F) (fs gs : List F) :
    ((∃ e d', d.extend fs = (.error e, d')) ↔
      d.frozen = true ∧ ∃ f ∈ fs, d.contains f = false) ∧
    (∀ e d', d.extend fs = (.error e, d') → d' = d ∧
      ∃ before f after, fs = before ++ f :: after ∧ (∀ g ∈ before, d.contains g = true) ∧
        d.contains f = false ∧ e = .domainFrozen d.name (label f)) ∧
    (∀ is d', d.extend fs = (.ok is, d') →
      List.Forall₂ (fun f i => d'.get i = .ok f ∧ d'.indexOf? f = some i) fs is ∧
      d' = { d with facts := d.facts ++ distinct (fs.filter fun f => d.contains f = false) } ∧
      d'.extend fs = (.ok is, d')) ∧
    d.extend (fs ++ gs) = d.extendThen fs gs := by
  refine ⟨?_, fun e d' h => ?_, fun is d' h => ?_, extend_append d fs gs⟩
  · rw [← not_admits_iff]
    refine ⟨fun ⟨e, d', h⟩ => not_admits_of_extend h, fun h => ?_⟩
    obtain ⟨before, f, after, -, -, -, hrefused⟩ := extend_of_not_admits h
    exact ⟨_, _, hrefused⟩
  · obtain ⟨before, f, after, hsplit, hbefore, hf, hrefused⟩ :=
      extend_of_not_admits (not_admits_of_extend h)
    obtain ⟨herror, rfl⟩ := Prod.mk.inj (hrefused.symm.trans h)
    obtain rfl := Except.error.inj herror
    exact ⟨rfl, before, f, after, hsplit, fun g hg => contains_eq_true_iff.2 (hbefore hg),
      contains_eq_false_iff.2 hf, rfl⟩
  · have hanswer := extend_of_admits (admits_of_extend h)
    obtain ⟨hindices, rfl⟩ := Prod.mk.inj (hanswer.symm.trans h)
    obtain rfl := Except.ok.inj hindices
    -- all the facts are there now
    have hthere : fs ⊆ fs.foldl appendNew d.facts := fun f hf => mem_foldl_appendNew.2 (Or.inr hf)
    refine ⟨?_, ?_, ?_⟩
    · refine List.forall₂_map_right_iff.2 (List.forall₂_same.2 fun f hf => ⟨?_, ?_⟩)
      · exact get_eq_ok_iff.2 (List.getElem?_idxOf (hthere hf))
      · exact indexOf?_of_mem (hthere hf)
    · simp only [contains_eq_false_iff, foldl_appendNew_eq]
    · rw [extend_of_admits fun _ => hthere, foldl_appendNew_of_subset hthere]

end Domain

end FactEngine
