import FactEngine.Proofs.Selection

/-!
# Histories of a relation

Tuples are added to a relation while facts are interned in its domains and domains are frozen
(`TupleCall`). A call keeps what it accepts, once each and after the tuples that were there, and
changes the relation in nothing else (`RelationState.relation_handle`). Every accepted tuple fits,
and domains only grow, so all tuples fit at all times (`RelationState.Valid`).

Hence a relation holds exactly what it accepted so far, and the labels of a tuple that it holds
never change (`RelationState.tuples_stay_valid`).
-/

namespace FactEngine

/-- A call that can change a relation or the domains of its columns. -/
inductive TupleCall where
  /-- Add one tuple. An index alone is added as the tuple of it. -/
  | add (t : Tuple)
  /-- Add tuples up to the first that is refused. -/
  | extend (ts : List Tuple)
  /-- Add the facts that a list names. -/
  | select (list : String) (delimiter : Char)
  /-- Intern facts in a domain, or freeze it. -/
  | domain (id : DomainId) (t : FactType) (call : DomainCall t.Carrier)

namespace Store

/-- The store after a call on the domain at a place. -/
def handle (s : Store) (id : DomainId) (t : FactType) : DomainCall t.Carrier → Store
  | .intern f => (s.extend id t [f]).2
  | .extend fs => (s.extend id t fs).2
  | .freeze => s.freeze id

theorem advances_handle (s : Store) (id : DomainId) (t : FactType) (call : DomainCall t.Carrier) :
    s.Advances (s.handle id t call) := by
  cases call with
  | intern f => exact s.advances_extend id t [f]
  | extend fs => exact s.advances_extend id t fs
  | freeze => exact s.advances_freeze id

end Store

/-- A relation, and the store that its domains are in. -/
structure RelationState where
  store : Store
  relation : Relation

namespace RelationState

/-! ## What calls do -/

/-- The state after a call. -/
def handle (x : RelationState) : TupleCall → RelationState
  | .add t => { x with relation := (x.relation.add x.store t).2 }
  | .extend ts => { x with relation := (x.relation.extend x.store ts).2 }
  | .select list delimiter =>
    { x with relation := (x.relation.selectNames x.store list delimiter).2 }
  | .domain id t call => { x with store := x.store.handle id t call }

/-- The state after some calls. -/
def after (x : RelationState) (calls : List TupleCall) : RelationState :=
  calls.foldl handle x

/-- The tuples that a call adds without being refused, be they new or not. -/
def acceptedBy (x : RelationState) : TupleCall → List Tuple
  | .add t => x.relation.accepted x.store [t]
  | .extend ts => x.relation.accepted x.store ts
  | .select list delimiter =>
    match x.relation.selectNames x.store list delimiter with
    | (.ok report, _) => report.tuples
    | (.error _, _) => []
  | .domain .. => []

/-- The tuples that some calls add without being refused. -/
def accepted (x : RelationState) : List TupleCall → List Tuple
  | [] => []
  | call :: calls => x.acceptedBy call ++ (x.handle call).accepted calls

/-! ## Valid states -/

/-- The tuples of a relation are there once each, and fit. -/
structure Valid (x : RelationState) : Prop where
  columns_length : x.relation.columns.length = x.relation.arity
  nodup : x.relation.tuples.Nodup
  fits : ∀ t ∈ x.relation.tuples, x.relation.Fits x.store t

variable {x y z : RelationState}

theorem Valid.of_create {s : Store} {name : String} {sig : Signature} {columns : List DomainId}
    {r : Relation} (h : Relation.create s name sig columns = .ok r) : Valid ⟨s, r⟩ := by
  obtain ⟨hlen, rfl⟩ := Relation.eq_of_create h
  exact ⟨hlen, List.nodup_nil, nofun⟩

/-- A relation of one column has one domain. -/
theorem Valid.exists_columns_eq (hx : x.Valid) (hr : x.relation.arity = 1) :
    ∃ id, x.relation.columns = [id] :=
  List.length_eq_one_iff.1 (hx.columns_length.trans hr)

theorem acceptedBy_select {id : DomainId} (hr : x.relation.arity = 1)
    (hc : x.relation.columns = [id]) (list : String) (delimiter : Char) :
    x.acceptedBy (.select list delimiter) =
      ((x.store.get id).report (Relation.namePieces list delimiter)).tuples := by
  rw [acceptedBy, Relation.selectNames_eq hr hc]

theorem acceptedBy_select_of_arity_ne (hr : x.relation.arity ≠ 1) (list : String)
    (delimiter : Char) : x.acceptedBy (.select list delimiter) = [] := by
  rw [acceptedBy, Relation.selectNames_of_arity_ne hr]

/-- What a call accepts fits. -/
theorem Valid.fits_of_mem_acceptedBy (hx : x.Valid) {call : TupleCall} {t : Tuple}
    (ht : t ∈ x.acceptedBy call) : x.relation.Fits x.store t := by
  cases call with
  | add u => exact Relation.fits_of_mem_accepted ht
  | extend ts => exact Relation.fits_of_mem_accepted ht
  | select list delimiter =>
    by_cases hr : x.relation.arity = 1
    · obtain ⟨id, hc⟩ := hx.exists_columns_eq hr
      rw [acceptedBy_select hr hc] at ht
      obtain ⟨_, _, i, hi, rfl⟩ := AnyDomain.mem_tuples_report.1 ht
      exact (Relation.fits_singleton_iff hr hc).2 (AnyDomain.lt_size_of_indexOfLabel? hi)
    · rw [acceptedBy_select_of_arity_ne hr] at ht
      cases ht
  | domain => cases ht

/-- A call keeps what it accepts, and changes the relation in nothing else. -/
theorem Valid.relation_handle (hx : x.Valid) (call : TupleCall) : (x.handle call).relation =
    { x.relation with tuples := (x.acceptedBy call).foldl appendNew x.relation.tuples } := by
  cases call with
  | add t =>
    by_cases ht : x.relation.Fits x.store t
    · simp [handle, acceptedBy, Relation.accepted, Relation.add_of_fits ht]
    · obtain ⟨e, he⟩ := Relation.add_of_not_fits ht
      simp [handle, acceptedBy, Relation.accepted, he]
  | extend ts => exact Relation.extend_eq x.store x.relation ts
  | select list delimiter =>
    by_cases hr : x.relation.arity = 1
    · obtain ⟨id, hc⟩ := hx.exists_columns_eq hr
      rw [acceptedBy_select hr hc, handle, Relation.selectNames_eq hr hc]
    · rw [acceptedBy_select_of_arity_ne hr, handle, Relation.selectNames_of_arity_ne hr]
      rfl
  | domain => rfl

theorem advances_handle (x : RelationState) (call : TupleCall) :
    x.store.Advances (x.handle call).store := by
  cases call with
  | domain id t call => exact x.store.advances_handle id t call
  | _ => exact .refl x.store

/-- A call lets no tuple become wrong. -/
theorem Valid.handle (hx : x.Valid) (call : TupleCall) : (x.handle call).Valid := by
  have hrel := hx.relation_handle call
  refine ⟨?_, ?_, fun t ht => ?_⟩
  · rw [hrel]
    exact hx.columns_length
  · rw [hrel]
    exact nodup_foldl_appendNew _ hx.nodup
  · rw [hrel] at ht ⊢
    refine (Relation.fits_with_tuples.2 ?_).advance (x.advances_handle call)
    exact (mem_foldl_appendNew.1 ht).elim (hx.fits t) hx.fits_of_mem_acceptedBy

/-! ## What lasts -/

/-- The second state has the relation of the first with tuples added at its end, and the domains
have grown. -/
structure Grows (x y : RelationState) : Prop where
  advances : x.store.Advances y.store
  relation_eq : y.relation = { x.relation with tuples := y.relation.tuples }
  tuples_prefix : x.relation.tuples <+: y.relation.tuples

theorem Grows.refl (x : RelationState) : x.Grows x :=
  ⟨.refl _, rfl, List.prefix_refl _⟩

theorem Grows.trans (h : x.Grows y) (h' : y.Grows z) : x.Grows z := by
  refine ⟨h.advances.trans h'.advances, ?_, h.tuples_prefix.trans h'.tuples_prefix⟩
  rw [h'.relation_eq, h.relation_eq]

theorem Valid.grows_handle (hx : x.Valid) (call : TupleCall) : x.Grows (x.handle call) := by
  refine ⟨x.advances_handle call, ?_, ?_⟩ <;> rw [hx.relation_handle call]
  exact prefix_foldl_appendNew _ _

theorem Valid.after (hx : x.Valid) (calls : List TupleCall) : (x.after calls).Valid := by
  induction calls generalizing x with
  | nil => exact hx
  | cons call calls ih => exact ih (hx.handle call)

theorem Valid.grows_after (hx : x.Valid) (calls : List TupleCall) : x.Grows (x.after calls) := by
  induction calls generalizing x with
  | nil => exact .refl x
  | cons call calls ih => exact (hx.grows_handle call).trans (ih (hx.handle call))

/-- Calls change neither the name nor the signature. -/
theorem Valid.name_after (hx : x.Valid) (calls : List TupleCall) :
    (x.after calls).relation.name = x.relation.name ∧
      (x.after calls).relation.signature = x.relation.signature := by
  rw [(hx.grows_after calls).relation_eq]
  exact ⟨rfl, rfl⟩

/-- The tuples are those that were there and behind them, once each, those that were accepted. -/
theorem Valid.tuples_after (hx : x.Valid) (calls : List TupleCall) :
    (x.after calls).relation.tuples =
      (x.accepted calls).foldl appendNew x.relation.tuples := by
  induction calls generalizing x with
  | nil => rfl
  | cons call calls ih =>
    have hrest := ih (hx.handle call)
    rw [hx.relation_handle call] at hrest
    rw [accepted, List.foldl_append]
    exact hrest

/-- What was there and what was accepted is there, and nothing else. -/
theorem Valid.mem_tuples_after (hx : x.Valid) {calls : List TupleCall} {t : Tuple} :
    t ∈ (x.after calls).relation.tuples ↔ t ∈ x.relation.tuples ∨ t ∈ x.accepted calls := by
  rw [hx.tuples_after, mem_foldl_appendNew]

/-- A relation holds what it accepted so far, each tuple once. A tuple is accepted exactly if its
domains cover it, and what is held stays covered. A relation only grows at its end, and a tuple
that it holds is labelled the same forever. -/
theorem tuples_stay_valid {s : Store} {name : String} {sig : Signature} {columns : List DomainId}
    {r : Relation} (h : Relation.create s name sig columns = .ok r)
    (calls later : List TupleCall) :
    let now := (⟨s, r⟩ : RelationState).after calls
    let next := now.after later
    let covered (t : Tuple) : Prop := t.length = sig.arity ∧
      ∀ (c v : Nat), t[c]? = some v → ∃ id, columns[c]? = some id ∧ v < (now.store.get id).size
    now.relation = ⟨name, sig, columns, now.relation.tuples⟩ ∧
    now.relation.tuples.Nodup ∧
    (∀ t ∈ now.relation.tuples, covered t) ∧
    (∀ t, now.relation.contains t = true ↔ t ∈ (⟨s, r⟩ : RelationState).accepted calls) ∧
    now.relation.tuples <+: next.relation.tuples ∧
    (∀ t, (∃ new r', now.relation.add now.store t = (.ok new, r')) ↔ covered t) ∧
    (∀ t e r', now.relation.add now.store t = (.error e, r') → r' = now.relation) ∧
    (∀ t, now.relation.contains t = true → ∃ labels,
      now.relation.labels now.store t = .ok labels ∧
      next.relation.labels next.store t = .ok labels) := by
  intro now next covered
  obtain ⟨-, hr⟩ := Relation.eq_of_create h
  have hx := Valid.of_create h
  have hnow : now.Valid := hx.after calls
  have hnext : now.Grows next := hnow.grows_after later
  have hrel : now.relation = ⟨name, sig, columns, now.relation.tuples⟩ := by
    have hsame : now.relation = { r with tuples := now.relation.tuples } :=
      (hx.grows_after calls).relation_eq
    exact hsame.trans (by rw [hr])
  have harity : now.relation.arity = sig.arity := congrArg Relation.arity hrel
  have hcolumns : now.relation.columns = columns := congrArg Relation.columns hrel
  have hcovered : ∀ t, now.relation.Fits now.store t ↔ covered t := by
    intro t
    rw [Relation.fits_iff hnow.columns_length, harity, hcolumns]
  refine ⟨hrel, hnow.nodup, fun t ht => (hcovered t).1 (hnow.fits t ht), fun t => ?_,
    hnext.tuples_prefix, fun t => Relation.exists_add_iff.trans (hcovered t),
    fun t e r' he => ?_, fun t ht => ?_⟩
  · rw [Relation.contains, decide_eq_true_iff, hx.mem_tuples_after, hr]
    simp
  · by_cases ht : now.relation.Fits now.store t
    · rw [Relation.add_of_fits ht] at he
      cases he
    · obtain ⟨e', he'⟩ := Relation.add_of_not_fits ht
      rw [he'] at he
      cases he
      rfl
  · have hfits := hnow.fits t (by simpa [Relation.contains] using ht)
    obtain ⟨labels, hlabels⟩ := Relation.exists_labels hfits
    refine ⟨labels, hlabels, ?_⟩
    rw [hnext.relation_eq]
    exact Relation.labels_advance hnext.advances hlabels

/-- Two columns over one domain. The tuple that came too early is accepted once the domain has
grown, and the others keep their labels. -/
theorem tuples_over_shared_domain :
    let s : Store := ⟨[.empty "M" .text]⟩
    let sig : Signature := .ofColumns [⟨"M", 0⟩, ⟨"M", 1⟩]
    let r : Relation := ⟨"calls", sig, [⟨0⟩, ⟨0⟩], []⟩
    let calls : List TupleCall :=
      [.domain ⟨0⟩ .text (.extend ["main", "run"]), .add [0, 1], .extend [[1, 1], [0, 2], [1, 0]]]
    let later : List TupleCall :=
      [.domain ⟨0⟩ .text (.intern "stop"), .domain ⟨0⟩ .text .freeze, .extend [[0, 2], [0, 1]]]
    let now := (⟨s, r⟩ : RelationState).after calls
    let next := now.after later
    Relation.create s "calls" sig [⟨0⟩, ⟨0⟩] = .ok r ∧
    now.relation.tuples = [[0, 1], [1, 1]] ∧
    next.relation.tuples = [[0, 1], [1, 1], [0, 2]] ∧
    (∀ t, now.relation.contains t = true → ∃ labels,
      now.relation.labels now.store t = .ok labels ∧
      next.relation.labels next.store t = .ok labels) := by
  intro s sig r calls later now next
  have hcreate : Relation.create s "calls" sig [⟨0⟩, ⟨0⟩] = .ok r := rfl
  obtain ⟨-, -, -, -, -, -, -, hlabels⟩ := tuples_stay_valid hcreate calls later
  exact ⟨hcreate, by decide, by decide, hlabels⟩

end RelationState

end FactEngine
