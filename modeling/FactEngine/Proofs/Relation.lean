import FactEngine.Proofs.Domain
import FactEngine.Proofs.Lists

/-!
# Adding tuples

A tuple that fits the columns of a relation is kept, once, and one that does not is refused
(`Relation.add_of_fits`, `Relation.add_of_not_fits`). Whether a tuple fits depends on the sizes
of the domains only, so of several tuples a relation keeps those before the first that does not
fit (`Relation.extend_eq`).

Domains grow while a relation refers to them (`Store.Advances`). A tuple that fits keeps fitting,
and it keeps the labels it has (`Relation.Fits.advance`, `Relation.exists_labels`).
-/

namespace FactEngine

/-! ## Growing domains -/

namespace AnyDomain

/-- The second domain stores facts of the type of the first, and is the first one grown. -/
inductive Grows : AnyDomain → AnyDomain → Prop where
  | intro {t : FactType} {d d' : Domain t.Carrier} (h : d.Grows d') : Grows ⟨t, d⟩ ⟨t, d'⟩

variable {d d' d'' : AnyDomain}

theorem Grows.refl (d : AnyDomain) : d.Grows d :=
  .intro (.refl d.domain)

theorem Grows.trans (h : d.Grows d') (h' : d'.Grows d'') : d.Grows d'' := by
  obtain ⟨h⟩ := h
  obtain ⟨h'⟩ := h'
  exact .intro (h.trans h')

theorem Grows.size_le (h : d.Grows d') : d.size ≤ d'.size := by
  obtain ⟨h⟩ := h
  exact Domain.Grows.size_le h

theorem label_eq_ok_iff {i : Nat} {s : String} :
    d.label i = .ok s ↔ ∃ f, d.domain.get i = .ok f ∧ FactEngine.label f = s := by
  unfold label
  cases d.domain.get i <;> simp

theorem exists_label_iff {i : Nat} : (∃ s, d.label i = .ok s) ↔ i < d.size := by
  refine Iff.trans ⟨?_, ?_⟩ (Domain.exists_get_iff (d := d.domain))
  · rintro ⟨s, hs⟩
    obtain ⟨f, hf, -⟩ := label_eq_ok_iff.1 hs
    exact ⟨f, hf⟩
  · rintro ⟨f, hf⟩
    exact ⟨_, label_eq_ok_iff.2 ⟨f, hf, rfl⟩⟩

theorem Grows.label (h : d.Grows d') {i : Nat} {s : String} (hs : d.label i = .ok s) :
    d'.label i = .ok s := by
  obtain ⟨h⟩ := h
  obtain ⟨f, hf, hlabel⟩ := label_eq_ok_iff.1 hs
  exact label_eq_ok_iff.2 ⟨f, h.get hf, hlabel⟩

end AnyDomain

namespace Store

/-- Every domain of the second store is the one of the first, grown. -/
def Advances (s s' : Store) : Prop :=
  ∀ id, (s.get id).Grows (s'.get id)

variable {s s' s'' : Store}

theorem Advances.refl (s : Store) : s.Advances s :=
  fun _ => .refl _

theorem Advances.trans (h : s.Advances s') (h' : s'.Advances s'') : s.Advances s'' :=
  fun id => (h id).trans (h' id)

theorem advances_set {id : DomainId} {d : AnyDomain} (h : (s.get id).Grows d) :
    s.Advances (s.set id d) := by
  intro j
  rw [get_set]
  split
  · rename_i hj
    rwa [hj.1]
  · exact .refl _

theorem advances_freeze (s : Store) (id : DomainId) : s.Advances (s.freeze id) :=
  advances_set (.intro (s.get id).domain.grows_freeze)

theorem advances_extend (s : Store) (id : DomainId) (t : FactType) (fs : List t.Carrier) :
    s.Advances (s.extend id t fs).2 := by
  unfold extend
  split
  · exact .refl s
  · rename_i d hd
    refine advances_set ?_
    rw [AnyDomain.eq_of_downcast hd]
    exact .intro (d.grows_extend fs)

end Store

namespace Relation

variable {s s' : Store} {r : Relation} {t : Tuple} {ts : List Tuple}

/-! ## Tuples that fit -/

/-- The tuple has a component for every column, and each is the index of a fact. -/
structure Fits (s : Store) (r : Relation) (t : Tuple) : Prop where
  length_eq : t.length = r.arity
  lt_size : ∀ p ∈ t.zip r.columns, p.1 < (s.get p.2).size

/-- A tuple that fits keeps fitting while domains grow. -/
theorem Fits.advance (h : r.Fits s t) (hs : s.Advances s') : r.Fits s' t :=
  ⟨h.length_eq, fun p hp => (h.lt_size p hp).trans_le (hs p.2).size_le⟩

/-- To fit is to have the arity, and an index into the domain of its column at every place. -/
theorem fits_iff (hr : r.columns.length = r.arity) : r.Fits s t ↔ t.length = r.arity ∧
    ∀ (c v : Nat), t[c]? = some v → ∃ id, r.columns[c]? = some id ∧ v < (s.get id).size := by
  constructor
  · intro h
    refine ⟨h.length_eq, fun c v hv => ?_⟩
    have hc : c < r.columns.length := by
      rw [hr, ← h.length_eq]
      exact (List.getElem?_eq_some_iff.1 hv).1
    have hid : r.columns[c]? = some r.columns[c] := List.getElem?_eq_getElem hc
    have hzip : (t.zip r.columns)[c]? = some (v, r.columns[c]) :=
      List.getElem?_zip_eq_some.2 ⟨hv, hid⟩
    exact ⟨r.columns[c], hid, h.lt_size _ (List.mem_of_getElem? hzip)⟩
  · rintro ⟨hlen, h⟩
    refine ⟨hlen, fun p hp => ?_⟩
    obtain ⟨c, hc⟩ := List.mem_iff_getElem?.1 hp
    obtain ⟨hv, hid⟩ := List.getElem?_zip_eq_some.1 hc
    obtain ⟨id, hid', hlt⟩ := h c p.1 hv
    obtain rfl : p.2 = id := Option.some.inj (hid.symm.trans hid')
    exact hlt

/-- Whether a tuple fits does not depend on the tuples that are there. -/
@[simp] theorem fits_with_tuples {us : List Tuple} :
    Fits s { r with tuples := us } t ↔ r.Fits s t :=
  ⟨fun h => ⟨h.length_eq, h.lt_size⟩, fun h => ⟨h.length_eq, h.lt_size⟩⟩

theorem checkFrom_eq_ok_iff {name : String} {column : Nat} {ps : List (Nat × DomainId)} :
    checkFrom s name column ps = .ok () ↔ ∀ p ∈ ps, p.1 < (s.get p.2).size := by
  induction ps generalizing column with
  | nil => simp [checkFrom]
  | cons p ps ih =>
    obtain ⟨v, id⟩ := p
    rw [checkFrom, List.forall_mem_cons]
    by_cases hv : v < (s.get id).size
    · rw [if_pos hv, ih]
      exact (and_iff_right hv).symm
    · simp [hv]

theorem check_eq_ok_iff : r.check s t = .ok () ↔ r.Fits s t := by
  unfold check
  split
  · rename_i h
    exact ⟨nofun, fun hf => (h hf.length_eq).elim⟩
  · rename_i h
    rw [checkFrom_eq_ok_iff]
    exact ⟨fun hlt => ⟨not_not.1 h, hlt⟩, Fits.lt_size⟩

/-- A new relation has a domain for every column, and no tuples. -/
theorem eq_of_create {name : String} {sig : Signature} {columns : List DomainId}
    (h : create s name sig columns = .ok r) :
    columns.length = sig.arity ∧ r = ⟨name, sig, columns, []⟩ := by
  unfold create at h
  split at h
  · cases h
  · rename_i hlen
    split at h
    · cases h
    · exact ⟨not_not.1 hlen, (Except.ok.inj h).symm⟩

/-! ## One tuple -/

/-- A tuple that fits is kept, once, and the reply tells whether it is new. -/
theorem add_of_fits (h : r.Fits s t) :
    r.add s t = (.ok (decide (t ∉ r.tuples)), { r with tuples := appendNew r.tuples t }) := by
  rw [add, check_eq_ok_iff.2 h, appendNew]
  by_cases ht : t ∈ r.tuples <;> simp [ht]

/-- A tuple that does not fit is refused, and changes nothing. -/
theorem add_of_not_fits (h : ¬ r.Fits s t) : ∃ e, r.add s t = (.error e, r) := by
  unfold add
  cases hc : r.check s t with
  | error e => exact ⟨e, rfl⟩
  | ok u => exact (h (check_eq_ok_iff.1 hc)).elim

/-- What is accepted is what fits. -/
theorem exists_add_iff : (∃ new r', r.add s t = (.ok new, r')) ↔ r.Fits s t := by
  constructor
  · rintro ⟨new, r', h⟩
    by_contra hf
    obtain ⟨e, he⟩ := add_of_not_fits hf
    rw [he] at h
    cases (Prod.mk.inj h).1
  · exact fun h => ⟨_, _, add_of_fits h⟩

/-! ## Several tuples -/

/-- The tuples before the first that is refused, if they are added from left to right. -/
def accepted (s : Store) (r : Relation) : List Tuple → List Tuple
  | [] => []
  | t :: ts =>
    match r.add s t with
    | (.ok _, r) => t :: r.accepted s ts
    | (.error _, _) => []

theorem fits_of_mem_accepted {u : Tuple} (h : u ∈ r.accepted s ts) : r.Fits s u := by
  induction ts generalizing r with
  | nil => cases h
  | cons t ts ih =>
    by_cases ht : r.Fits s t
    · rw [accepted, add_of_fits ht] at h
      obtain rfl | h := List.mem_cons.1 h
      · exact ht
      · exact fits_with_tuples.1 (ih h)
    · obtain ⟨e, he⟩ := add_of_not_fits ht
      rw [accepted, he] at h
      cases h

/-- The relation keeps, after its own tuples, those that it accepts. -/
theorem extend_eq (s : Store) (r : Relation) (ts : List Tuple) :
    (r.extend s ts).2 = { r with tuples := (r.accepted s ts).foldl appendNew r.tuples } := by
  induction ts generalizing r with
  | nil => rfl
  | cons t ts ih =>
    by_cases ht : r.Fits s t
    · have hr := ih { r with tuples := appendNew r.tuples t }
      rw [extend, accepted, add_of_fits ht]
      simp only [List.foldl_cons]
      split <;> rename_i heq <;> rwa [heq] at hr
    · obtain ⟨e, he⟩ := add_of_not_fits ht
      rw [extend, accepted, he]
      rfl

/-! ## Labels -/

theorem labels_eq_ok_iff {labels : List String} :
    r.labels s t = .ok labels ↔ r.Fits s t ∧
      List.Forall₂ (fun p label => (s.get p.2).label p.1 = .ok label) (t.zip r.columns) labels := by
  rw [← check_eq_ok_iff, ← mapM_eq_ok_iff, Relation.labels]
  cases r.check s t <;> simp

/-- A tuple that fits has labels. -/
theorem exists_labels (h : r.Fits s t) : ∃ labels, r.labels s t = .ok labels := by
  simp only [labels_eq_ok_iff, h, true_and]
  have hlt := h.lt_size
  generalize t.zip r.columns = ps at hlt
  induction ps with
  | nil => exact ⟨[], .nil⟩
  | cons p ps ih =>
    rw [List.forall_mem_cons] at hlt
    obtain ⟨label, hlabel⟩ := AnyDomain.exists_label_iff.2 hlt.1
    obtain ⟨labels, hlabels⟩ := ih hlt.2
    exact ⟨label :: labels, .cons hlabel hlabels⟩

/-- Labels stay while domains grow and tuples are added. -/
theorem labels_advance {labels : List String} {us : List Tuple} (hs : s.Advances s')
    (h : r.labels s t = .ok labels) :
    Relation.labels s' { r with tuples := us } t = .ok labels := by
  rw [labels_eq_ok_iff] at h ⊢
  exact ⟨fits_with_tuples.2 (h.1.advance hs), h.2.imp fun _ _ => (hs _).label⟩

end Relation

end FactEngine
