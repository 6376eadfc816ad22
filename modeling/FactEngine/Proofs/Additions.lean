import FactEngine.Proofs.Relation

/-!
# Adding several tuples

A relation takes tuples from left to right up to the first that is refused. What it says of them is
decided in one pass : how many are new, although a tuple may occur twice or be there already, and
why the first bad one is refused, although several may be bad and for different reasons.

The check of a tuple fails for its length, or else for the first component that its domain has no
fact for (`Relation.Refuses`). It does not look at the tuples that are there, so the tuples in front
of a bad one are kept as if they had come alone (`Relation.extend_of_check_error`), and the new ones
among them follow the old ones, each once (`Relation.extend_keeps_fitting_prefix`).
-/

namespace FactEngine

namespace Relation

variable {s : Store} {r : Relation} {t : Tuple} {ts : List Tuple} {e : Error}

/-! ## Refusals -/

/-- Why a tuple is refused : it does not have the arity, or else it has a component that is beyond
the domain of its column, and the first such component is reported. -/
inductive Refuses (s : Store) (r : Relation) (t : Tuple) : Error → Prop
  | arity (h : t.length ≠ r.arity) : Refuses s r t (.signatureMismatch r.name r.arity t.length)
  | component {column v : Nat} {id : DomainId} (hlength : t.length = r.arity)
      (hv : t[column]? = some v) (hid : r.columns[column]? = some id) (hsize : (s.get id).size ≤ v)
      (hfirst : ∀ c < column, ∀ w j, t[c]? = some w → r.columns[c]? = some j →
        w < (s.get j).size) :
      Refuses s r t (.indexOutOfBounds r.name column (s.get id).name v (s.get id).size)

/-- The components that a check passes are in front of the one that it reports. -/
theorem exists_of_checkFrom {name : String} {column : Nat} {ps : List (Nat × DomainId)}
    (h : checkFrom s name column ps = .error e) : ∃ before v id after,
      ps = before ++ (v, id) :: after ∧ (∀ p ∈ before, p.1 < (s.get p.2).size) ∧
      (s.get id).size ≤ v ∧
      e = .indexOutOfBounds name (column + before.length) (s.get id).name v (s.get id).size := by
  induction ps generalizing column with
  | nil => cases h
  | cons p ps ih =>
    obtain ⟨v, id⟩ := p
    unfold checkFrom at h
    split at h
    · rename_i hv
      obtain ⟨before, w, j, after, rfl, hbefore, hw, rfl⟩ := ih h
      refine ⟨(v, id) :: before, w, j, after, rfl, List.forall_mem_cons.2 ⟨hv, hbefore⟩, hw, ?_⟩
      rw [List.length_cons, Nat.add_right_comm, Nat.add_assoc]
    · rename_i hv
      exact ⟨[], v, id, ps, rfl, by simp, Nat.not_lt.1 hv, (Except.error.inj h).symm⟩

theorem refuses_of_check (h : r.check s t = .error e) : r.Refuses s t e := by
  unfold check at h
  split at h
  · rename_i hlength
    obtain rfl := Except.error.inj h
    exact .arity hlength
  · rename_i hlength
    obtain ⟨before, v, id, after, hzip, hbefore, hv, rfl⟩ := exists_of_checkFrom h
    have hpair : (t.zip r.columns)[before.length]? = some (v, id) := by
      rw [hzip, List.getElem?_append_right (Nat.le_refl _), Nat.sub_self, List.getElem?_cons_zero]
    obtain ⟨htv, hid⟩ := List.getElem?_zip_eq_some.1 hpair
    rw [Nat.zero_add]
    refine .component (not_not.1 hlength) htv hid hv fun c hc w j hw hj => ?_
    have hfront : (t.zip r.columns)[c]? = some (w, j) := List.getElem?_zip_eq_some.2 ⟨hw, hj⟩
    rw [hzip, List.getElem?_append_left hc] at hfront
    exact hbefore _ (List.mem_of_getElem? hfront)

/-- Of a list of tuples all fit, or there is a first one that is refused. -/
theorem fits_or_refused (s : Store) (r : Relation) (ts : List Tuple) :
    (∀ t ∈ ts, r.Fits s t) ∨ ∃ before t after e,
      ts = before ++ t :: after ∧ (∀ u ∈ before, r.Fits s u) ∧ r.check s t = .error e := by
  induction ts with
  | nil => exact Or.inl (by simp)
  | cons t ts ih =>
    cases h : r.check s t with
    | error e => exact Or.inr ⟨[], t, ts, e, rfl, by simp, h⟩
    | ok u =>
      have ht := check_eq_ok_iff.1 h
      refine ih.imp (fun hts => List.forall_mem_cons.2 ⟨ht, hts⟩) ?_
      rintro ⟨before, t', after, e, rfl, hbefore, he⟩
      exact ⟨t :: before, t', after, e, rfl, List.forall_mem_cons.2 ⟨ht, hbefore⟩, he⟩

/-! ## Several tuples -/

theorem foldl_appendNew_tuples (r : Relation) (ts : List Tuple) : ts.foldl appendNew r.tuples =
    r.tuples ++ distinct (ts.filter fun t => r.contains t = false) := by
  rw [foldl_appendNew_eq]
  congr 2
  exact List.filter_congr fun t _ => by simp [contains]

/-- Tuples that fit are kept, and the new ones among them are counted. -/
theorem extend_of_fits (h : ∀ t ∈ ts, r.Fits s t) : ∃ n,
    (ts.foldl appendNew r.tuples).length = r.size + n ∧
    r.extend s ts = (.ok n, { r with tuples := ts.foldl appendNew r.tuples }) := by
  induction ts generalizing r with
  | nil => exact ⟨0, rfl, rfl⟩
  | cons t ts ih =>
    obtain ⟨ht, hts⟩ := List.forall_mem_cons.1 h
    obtain ⟨n, hn, hrest⟩ := ih (r := { r with tuples := appendNew r.tuples t })
      fun u hu => fits_with_tuples.2 (hts u hu)
    rw [extend, add_of_fits ht]
    simp only [hrest, List.foldl_cons]
    refine ⟨_, ?_, rfl⟩
    rw [hn, size, size, appendNew]
    by_cases hold : t ∈ r.tuples
    · simp [hold]
    · simp [hold, Nat.add_right_comm, Nat.add_assoc]

/-- The new tuples stand behind the old ones, each once, by first occurrence. -/
theorem exists_extend_of_fits (h : ∀ t ∈ ts, r.Fits s t) : ∃ added,
    FirstOccurrences (ts.filter fun t => r.contains t = false) added ∧
    r.extend s ts = (.ok added.length, { r with tuples := r.tuples ++ added }) := by
  obtain ⟨n, hn, hextend⟩ := extend_of_fits h
  rw [foldl_appendNew_tuples] at hn hextend
  obtain rfl := Nat.add_left_cancel (List.length_append.symm.trans hn)
  exact ⟨_, firstOccurrences_distinct _, hextend⟩

theorem not_fits_of_check_error (h : r.check s t = .error e) : ¬r.Fits s t := by
  intro hfits
  rw [check_eq_ok_iff.2 hfits] at h
  cases h

/-- Tuples in front of one that is refused are kept, and those behind it are not looked at. -/
theorem extend_of_check_error {before : List Tuple} (hbefore : ∀ u ∈ before, r.Fits s u)
    (h : r.check s t = .error e) (after : List Tuple) :
    r.extend s (before ++ t :: after) = (.error e, (r.extend s before).2) := by
  induction before generalizing r with
  | nil => simp only [List.nil_append, extend, add, h]
  | cons u before ih =>
    obtain ⟨hu, hrest⟩ := List.forall_mem_cons.1 hbefore
    have hrest' : ∀ v ∈ before, Fits s { r with tuples := appendNew r.tuples u } v :=
      fun v hv => fits_with_tuples.2 (hrest v hv)
    obtain ⟨n, -, hkept⟩ := extend_of_fits hrest'
    rw [List.cons_append, extend, extend, add_of_fits hu]
    simp only [ih hrest' h, hkept]

/-- Tuples that all fit are kept, and the answer is how many of them are new. Otherwise the answer
is why the first one that does not fit is refused, and the relation is what the tuples in front of
it make of it. New tuples stand behind the old ones, each once, by first occurrence. -/
theorem extend_keeps_fitting_prefix (s : Store) (r : Relation) (ts : List Tuple) :
    ((∀ t ∈ ts, r.Fits s t) → ∃ added,
      FirstOccurrences (ts.filter fun t => r.contains t = false) added ∧
      r.extend s ts = (.ok added.length, { r with tuples := r.tuples ++ added }) ∧
      (r.extend s ts).2.size = r.size + added.length) ∧
    (¬(∀ t ∈ ts, r.Fits s t) → ∃ before t after e added,
      ts = before ++ t :: after ∧ (∀ u ∈ before, r.Fits s u) ∧ ¬r.Fits s t ∧ r.Refuses s t e ∧
      FirstOccurrences (before.filter fun t => r.contains t = false) added ∧
      r.extend s before = (.ok added.length, { r with tuples := r.tuples ++ added }) ∧
      r.extend s ts = (.error e, (r.extend s before).2)) := by
  refine ⟨fun h => ?_, fun h => ?_⟩
  · obtain ⟨added, hadded, hextend⟩ := exists_extend_of_fits h
    refine ⟨added, hadded, hextend, ?_⟩
    rw [hextend]
    exact List.length_append
  · obtain ⟨before, t, after, e, rfl, hbefore, he⟩ := (fits_or_refused s r ts).resolve_left h
    obtain ⟨added, hadded, hextend⟩ := exists_extend_of_fits hbefore
    exact ⟨before, t, after, e, added, rfl, hbefore, not_fits_of_check_error he,
      refuses_of_check he, hadded, hextend, extend_of_check_error hbefore he after⟩

/-- The second column ranges over the smaller domain. Two faulty tuples follow good ones, of which
one is there already and one comes twice. -/
example :
    let s : Store := ⟨[⟨.text, "M", ["main", "run"], false⟩, ⟨.text, "T", ["Foo"], false⟩]⟩
    let r : Relation := ⟨"uses", .ofColumns [⟨"M", 0⟩, ⟨"T", 0⟩], [⟨0⟩, ⟨1⟩], [[0, 0]]⟩
    r.extend s [[1, 0], [0, 0], [1, 0], [1, 1], [0]] =
      (.error (.indexOutOfBounds "uses" 1 "T" 1 1), { r with tuples := [[0, 0], [1, 0]] }) := by
  decide +kernel

end Relation

end FactEngine
