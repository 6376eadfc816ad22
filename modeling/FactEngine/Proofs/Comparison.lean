import FactEngine.Proofs.Tuples
import Mathlib.Data.List.Perm.Subperm

/-!
# Comparison of relations

Relations are compared by name, signature, number of tuples and inclusion in one direction. That is
equality of sets only for lists without repetition (`length_eq_and_subset_iff`), and a relation has
no tuple twice, whatever calls made it (`RelationState.Reachable.valid`).

What a call accepts depends on the domains and not on the tuples that are held
(`RelationState.acceptedBy_withTuples`). Calls that leave the domains alone therefore add the same
tuples in any order and however often they are made (`RelationState.Valid.mem_accepted_iff`), and no
comparison tells the results apart (`RelationState.comparison_is_extensional`).
-/

namespace FactEngine

/-- For lists without repetition, inclusion at the same length is equality of sets. -/
theorem length_eq_and_subset_iff {α : Type} {l l' : List α} (hl : l.Nodup) (hl' : l'.Nodup) :
    l.length = l'.length ∧ l ⊆ l' ↔ ∀ a, a ∈ l ↔ a ∈ l' := by
  rw [← List.perm_ext_iff_of_nodup hl hl']
  constructor
  · rintro ⟨hlen, hsub⟩
    exact (hl.subperm hsub).perm_of_length_le hlen.ge
  · exact fun h => ⟨h.length_eq, h.subset⟩

namespace Relation

variable {a b : Relation} {s : Store} {r : Relation}

/-- Without repetitions, comparison is by name, signature and set of tuples. -/
theorem same_iff (ha : a.tuples.Nodup) (hb : b.tuples.Nodup) : a.same b = true ↔
    a.name = b.name ∧ a.signature = b.signature ∧ ∀ t, a.contains t = b.contains t := by
  have hsets : (∀ t, a.contains t = b.contains t) ↔ ∀ t, t ∈ a.tuples ↔ t ∈ b.tuples :=
    forall_congr' fun t => decide_eq_decide
  rw [hsets, ← length_eq_and_subset_iff ha hb]
  simp only [same, Bool.and_eq_true, decide_eq_true_iff, List.all_eq_true, and_assoc,
    List.subset_def]
  exact .rfl

/-- What is accepted does not depend on the tuples that are there. -/
theorem accepted_with_tuples (us ts : List Tuple) :
    accepted s { r with tuples := us } ts = r.accepted s ts := by
  induction ts generalizing r us with
  | nil => rfl
  | cons t ts ih =>
    by_cases ht : r.Fits s t
    · rw [accepted, accepted, add_of_fits ht, add_of_fits (fits_with_tuples.2 ht)]
      exact congrArg (t :: ·) ((ih _).trans (ih _).symm)
    · obtain ⟨e, he⟩ := add_of_not_fits ht
      have ht' : ¬Fits s { r with tuples := us } t := mt fits_with_tuples.1 ht
      obtain ⟨e', he'⟩ := add_of_not_fits ht'
      rw [accepted, accepted, he, he']

/-- Several tuples are added without a refusal only if all fit. -/
theorem fits_of_extend {ts : List Tuple} {n : Nat} (h : (r.extend s ts).1 = .ok n) :
    ∀ t ∈ ts, r.Fits s t := by
  induction ts generalizing r n with
  | nil => simp
  | cons t ts ih =>
    by_cases ht : r.Fits s t
    · rw [extend, add_of_fits ht] at h
      refine List.forall_mem_cons.2 ⟨ht, fun u hu => ?_⟩
      rcases hrest : extend s { r with tuples := appendNew r.tuples t } ts with ⟨e | m, r'⟩
      · simp only [hrest] at h
        cases h
      · exact fits_with_tuples.1 (ih (congrArg Prod.fst hrest) u hu)
    · obtain ⟨e, he⟩ := add_of_not_fits ht
      rw [extend, he] at h
      cases h

theorem accepted_of_fits {ts : List Tuple} (h : ∀ t ∈ ts, r.Fits s t) : r.accepted s ts = ts := by
  induction ts with
  | nil => rfl
  | cons t ts ih =>
    obtain ⟨ht, hrest⟩ := List.forall_mem_cons.1 h
    rw [accepted, add_of_fits ht]
    exact congrArg (t :: ·) ((accepted_with_tuples _ ts).trans (ih hrest))

/-- The relations are equal, and a third one is equal to both or to neither. -/
def Interchangeable (a b c : Relation) : Prop :=
  a.same b = true ∧ a.same c = b.same c ∧ c.same a = c.same b

end Relation

/-- Whether the call adds tuples. It leaves the domains alone then. -/
def TupleCall.isAddition : TupleCall → Bool
  | .domain .. => false
  | _ => true

attribute [ext] RelationState

namespace RelationState

variable {x y z : RelationState}

/-! ## Reachable states -/

/-- A relation that was made without tuples, after some calls. -/
inductive Reachable : RelationState → Prop
  | create {s : Store} {name : String} {sig : Signature} {columns : List DomainId} {r : Relation}
      (h : Relation.create s name sig columns = .ok r) : Reachable ⟨s, r⟩
  | handle {x : RelationState} (h : Reachable x) (call : TupleCall) : Reachable (x.handle call)

theorem Reachable.after (hx : x.Reachable) (calls : List TupleCall) :
    (x.after calls).Reachable := by
  induction calls generalizing x with
  | nil => exact hx
  | cons call calls ih => exact ih (hx.handle call)

theorem Reachable.valid (hx : x.Reachable) : x.Valid := by
  induction hx with
  | create h => exact .of_create h
  | handle _ call ih => exact ih.handle call

theorem Valid.same_iff (hx : x.Valid) (hy : y.Valid) : x.relation.same y.relation = true ↔
    x.relation.name = y.relation.name ∧ x.relation.signature = y.relation.signature ∧
      ∀ t, x.relation.contains t = y.relation.contains t :=
  Relation.same_iff hx.nodup hy.nodup

/-! ## The tuples that are held -/

/-- The state with other tuples. -/
def withTuples (x : RelationState) (us : List Tuple) : RelationState :=
  { x with relation := { x.relation with tuples := us } }

variable {us : List Tuple} {call : TupleCall} {calls calls' : List TupleCall}

/-- What a call accepts does not depend on the tuples that are held. -/
theorem acceptedBy_withTuples (hx : x.Valid) (us : List Tuple) (call : TupleCall) :
    (x.withTuples us).acceptedBy call = x.acceptedBy call := by
  cases call with
  | add t => exact Relation.accepted_with_tuples us [t]
  | extend ts => exact Relation.accepted_with_tuples us ts
  | select list delimiter =>
    by_cases hr : x.relation.arity = 1
    · obtain ⟨id, hc⟩ := hx.exists_columns_eq hr
      have hr' : (x.withTuples us).relation.arity = 1 := hr
      have hc' : (x.withTuples us).relation.columns = [id] := hc
      rw [acceptedBy_select hr hc, acceptedBy_select hr' hc']
      rfl
    · have hr' : (x.withTuples us).relation.arity ≠ 1 := hr
      rw [acceptedBy_select_of_arity_ne hr, acceptedBy_select_of_arity_ne hr']
  | domain => rfl

/-- Nor does anything else that a call does. -/
theorem handle_withTuples (hx : x.Valid) (hus : (x.withTuples us).Valid) (call : TupleCall) :
    (x.withTuples us).handle call =
      (x.handle call).withTuples ((x.acceptedBy call).foldl appendNew us) := by
  have hstore : ((x.withTuples us).handle call).store = (x.handle call).store := by
    cases call <;> rfl
  refine RelationState.ext hstore ?_
  rw [hus.relation_handle call, acceptedBy_withTuples hx, withTuples, withTuples,
    hx.relation_handle call]

theorem accepted_withTuples (hx : x.Valid) (hus : (x.withTuples us).Valid)
    (calls : List TupleCall) : (x.withTuples us).accepted calls = x.accepted calls := by
  induction calls generalizing x us with
  | nil => rfl
  | cons call calls ih =>
    have hnext := handle_withTuples hx hus call
    rw [accepted, accepted, acceptedBy_withTuples hx, hnext,
      ih (hx.handle call) (hnext ▸ hus.handle call)]

/-! ## Calls that add tuples -/

theorem Valid.handle_eq_withTuples (hx : x.Valid) (hcall : call.isAddition = true) :
    x.handle call = x.withTuples (x.handle call).relation.tuples := by
  have hstore : (x.handle call).store = x.store := by
    cases call with
    | domain => cases hcall
    | _ => rfl
  refine RelationState.ext hstore ?_
  rw [withTuples, hx.relation_handle call]

theorem Valid.after_eq_withTuples (hx : x.Valid)
    (hcalls : ∀ call ∈ calls, call.isAddition = true) :
    x.after calls = x.withTuples (x.after calls).relation.tuples := by
  induction calls generalizing x with
  | nil => rfl
  | cons call calls ih =>
    obtain ⟨hcall, hrest⟩ := List.forall_mem_cons.1 hcalls
    calc (x.handle call).after calls
      _ = (x.handle call).withTuples ((x.handle call).after calls).relation.tuples :=
        ih (hx.handle call) hrest
      _ = x.withTuples ((x.handle call).after calls).relation.tuples :=
        congrArg (fun y => y.withTuples ((x.handle call).after calls).relation.tuples)
          (hx.handle_eq_withTuples hcall)

/-- Calls that add tuples do not influence what later calls accept. -/
theorem Valid.accepted_after (hx : x.Valid) (hcalls : ∀ call ∈ calls, call.isAddition = true)
    (later : List TupleCall) : (x.after calls).accepted later = x.accepted later := by
  have hsame := hx.after_eq_withTuples hcalls
  rw [hsame, accepted_withTuples hx (hsame ▸ hx.after calls)]

/-- Several calls that add tuples accept what each of them accepts alone. -/
theorem Valid.mem_accepted_iff (hx : x.Valid) (hcalls : ∀ call ∈ calls, call.isAddition = true)
    {t : Tuple} : t ∈ x.accepted calls ↔ ∃ call ∈ calls, t ∈ x.acceptedBy call := by
  induction calls with
  | nil => simp [accepted]
  | cons call calls ih =>
    obtain ⟨hcall, hrest⟩ := List.forall_mem_cons.1 hcalls
    have hone : ∀ q ∈ [call], q.isAddition = true := List.forall_mem_singleton.2 hcall
    have hkept : (x.handle call).accepted calls = x.accepted calls := hx.accepted_after hone calls
    rw [accepted, hkept, List.mem_append, ih hrest, List.exists_mem_cons_iff]

/-- Additions that accept the same tuples lead to the same tuples, whatever is called next. -/
theorem Valid.contains_after_congr (hx : x.Valid)
    (hcalls : ∀ call ∈ calls, call.isAddition = true)
    (hcalls' : ∀ call ∈ calls', call.isAddition = true)
    (haccepted : ∀ t, t ∈ x.accepted calls ↔ t ∈ x.accepted calls') (later : List TupleCall)
    (t : Tuple) : (x.after (calls ++ later)).relation.contains t =
      (x.after (calls' ++ later)).relation.contains t := by
  have hafter : ∀ front, x.after (front ++ later) = (x.after front).after later :=
    fun front => List.foldl_append
  refine decide_eq_decide.2 ?_
  rw [hafter, hafter, (hx.after calls).mem_tuples_after, (hx.after calls').mem_tuples_after,
    hx.mem_tuples_after, hx.mem_tuples_after, hx.accepted_after hcalls, hx.accepted_after hcalls',
    haccepted]

/-! ## Comparison -/

theorem Valid.interchangeable (hx : x.Valid) (hz : z.Valid)
    (hcalls : ∀ call ∈ calls, call.isAddition = true)
    (hcalls' : ∀ call ∈ calls', call.isAddition = true)
    (haccepted : ∀ t, t ∈ x.accepted calls ↔ t ∈ x.accepted calls') (later : List TupleCall) :
    (x.after (calls ++ later)).relation.Interchangeable (x.after (calls' ++ later)).relation
      z.relation := by
  have hone := hx.after (calls ++ later)
  have hother := hx.after (calls' ++ later)
  obtain ⟨hname, hsig⟩ := hx.name_after (calls ++ later)
  obtain ⟨hname', hsig'⟩ := hx.name_after (calls' ++ later)
  have hcontains := hx.contains_after_congr hcalls hcalls' haccepted later
  refine ⟨(hone.same_iff hother).2 ⟨hname.trans hname'.symm, hsig.trans hsig'.symm, hcontains⟩,
    Bool.eq_iff_iff.2 ?_, Bool.eq_iff_iff.2 ?_⟩
  · rw [hone.same_iff hz, hother.same_iff hz, hname, hname', hsig, hsig']
    simp only [hcontains]
  · rw [hz.same_iff hone, hz.same_iff hother, hname, hname', hsig, hsig']
    simp only [hcontains]

/-- Comparison of relations that calls have led to, refused ones among them, is equality of sets
of tuples, for relations of one name and signature. It is an equivalence. Additions that are made
in another order, or more than once, are seen in no comparison, now or after later calls; nor is the
order or the repetition of tuples that are added in one call, provided that none is refused. -/
theorem comparison_is_extensional (hx : x.Reachable) (hy : y.Reachable) (hz : z.Reachable) :
    (x.relation.name = y.relation.name → x.relation.signature = y.relation.signature →
      (x.relation.same y.relation = true ↔
        ∀ t, x.relation.contains t = y.relation.contains t)) ∧
    (∀ calls calls' later : List TupleCall, (∀ call ∈ calls, call.isAddition = true) →
      (∀ call, call ∈ calls ↔ call ∈ calls') →
      (x.after (calls ++ later)).relation.Interchangeable (x.after (calls' ++ later)).relation
        z.relation) ∧
    (∀ (ts ts' : List Tuple) (n : Nat) (later : List TupleCall),
      (x.relation.extend x.store ts).1 = .ok n → (∀ t, t ∈ ts ↔ t ∈ ts') →
      (x.after (.extend ts :: later)).relation.Interchangeable
        (x.after (.extend ts' :: later)).relation z.relation) ∧
    x.relation.same x.relation = true ∧
    (x.relation.same y.relation = y.relation.same x.relation) ∧
    (x.relation.same y.relation = true → y.relation.same z.relation = true →
      x.relation.same z.relation = true) := by
  have hvx := hx.valid
  have hvy := hy.valid
  have hvz := hz.valid
  refine ⟨fun hname hsig => ?_, fun calls calls' later hcalls hsame => ?_,
    fun ts ts' n later hok hsame => ?_, ?_, ?_, ?_⟩
  · rw [hvx.same_iff hvy]
    exact ⟨fun h => h.2.2, fun h => ⟨hname, hsig, h⟩⟩
  · have hcalls' : ∀ call ∈ calls', call.isAddition = true :=
      fun call hcall => hcalls call ((hsame call).2 hcall)
    refine hvx.interchangeable hvz hcalls hcalls' (fun t => ?_) later
    rw [hvx.mem_accepted_iff hcalls, hvx.mem_accepted_iff hcalls']
    simp only [hsame]
  · have haccepted : ∀ us : List Tuple, (∀ t ∈ us, x.relation.Fits x.store t) →
        x.accepted [.extend us] = us := fun us hus =>
      (List.append_nil _).trans (Relation.accepted_of_fits hus)
    have hadd : ∀ us : List Tuple, ∀ call ∈ [TupleCall.extend us], call.isAddition = true :=
      fun us => List.forall_mem_singleton.2 rfl
    have hfits := Relation.fits_of_extend hok
    refine hvx.interchangeable hvz (hadd ts) (hadd ts') (fun t => ?_) later
    rw [haccepted ts hfits, haccepted ts' fun u hu => hfits u ((hsame u).2 hu), hsame]
  · exact (hvx.same_iff hvx).2 ⟨rfl, rfl, fun _ => rfl⟩
  · refine Bool.eq_iff_iff.2 ?_
    rw [hvx.same_iff hvy, hvy.same_iff hvx]
    exact ⟨fun ⟨hn, hs, ht⟩ => ⟨hn.symm, hs.symm, fun t => (ht t).symm⟩,
      fun ⟨hn, hs, ht⟩ => ⟨hn.symm, hs.symm, fun t => (ht t).symm⟩⟩
  · rw [hvx.same_iff hvy, hvy.same_iff hvz, hvx.same_iff hvz]
    exact fun ⟨hn, hs, ht⟩ ⟨hn', hs', ht'⟩ =>
      ⟨hn.trans hn', hs.trans hs', fun t => (ht t).trans (ht' t)⟩

/-- Two relations over domains of different facts. One refuses an index that comes too early and
one that never fits, and they are equal, with the same tuples in another order. -/
theorem comparison_of_two_histories :
    let sig : Signature := .ofColumns [⟨"M", 0⟩]
    let empty (column : DomainId) : Relation := ⟨"live", sig, [column], []⟩
    let s : Store := ⟨[.empty "M" .text]⟩
    let s' : Store := ⟨[.empty "V" .text, .empty "M" .text]⟩
    let x := (⟨s, empty ⟨0⟩⟩ : RelationState).after
      [.domain ⟨0⟩ .text (.extend ["main", "run"]), .add [0], .add [1], .add [0]]
    let y := (⟨s', empty ⟨1⟩⟩ : RelationState).after
      [.add [0], .domain ⟨1⟩ .text (.extend ["stop", "halt"]), .extend [[1], [0], [7], [2]]]
    let later : List TupleCall := [.domain ⟨0⟩ .text (.intern "stop"), .add [2]]
    let one := x.after ([.extend [[1], [2]], .add [0, 1]] ++ later)
    let other := x.after ([.add [0, 1], .extend [[1], [2]], .add [0, 1]] ++ later)
    x.relation.tuples = [[0], [1]] ∧ y.relation.tuples = [[1], [0]] ∧
    x.relation.same y.relation = true ∧ (∀ t, x.relation.contains t = y.relation.contains t) ∧
    one.relation.same other.relation = true ∧
    one.relation.same y.relation = other.relation.same y.relation := by
  intro sig empty s s' x y later one other
  have hx₀ : Reachable ⟨s, empty ⟨0⟩⟩ :=
    .create (rfl : Relation.create s "live" sig [⟨0⟩] = .ok (empty ⟨0⟩))
  have hy₀ : Reachable ⟨s', empty ⟨1⟩⟩ :=
    .create (rfl : Relation.create s' "live" sig [⟨1⟩] = .ok (empty ⟨1⟩))
  have hx : x.Reachable := hx₀.after _
  have hy : y.Reachable := hy₀.after _
  obtain ⟨hsets, horder, -⟩ := comparison_is_extensional hx hy hy
  obtain ⟨hxname, hxsig⟩ : x.relation.name = "live" ∧ x.relation.signature = sig :=
    hx₀.valid.name_after _
  obtain ⟨hyname, hysig⟩ : y.relation.name = "live" ∧ y.relation.signature = sig :=
    hy₀.valid.name_after _
  have hxt : x.relation.tuples = [[0], [1]] := by decide
  have hyt : y.relation.tuples = [[1], [0]] := by decide
  have hcontains : ∀ t, x.relation.contains t = y.relation.contains t := by
    intro t
    rw [Relation.contains, Relation.contains, hxt, hyt]
    simp [or_comm]
  have hcalls := horder [.extend [[1], [2]], .add [0, 1]]
    [.add [0, 1], .extend [[1], [2]], .add [0, 1]] later (by simp [TupleCall.isAddition])
    (fun call => by simp [or_comm])
  have hsame : x.relation.same y.relation = true :=
    (hsets (hxname.trans hyname.symm) (hxsig.trans hysig.symm)).2 hcontains
  exact ⟨hxt, hyt, hsame, hcontains, hcalls.1, hcalls.2.1⟩

end RelationState

end FactEngine
