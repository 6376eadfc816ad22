import FactEngine.Proofs.Columns
import FactEngine.Proofs.History
import FactEngine.Proofs.Interning
import FactEngine.Proofs.Sorting

/-!
# What targets mean

If population steps are pure, every target of a registry that passes validation means
something on its own. The step of a descriptor is pure (`Registry.Pure`) if a function from
the contents of what is consumed to the contents of the outputs, or to an error, says how
it ends, and if it writes nothing but its outputs and leaves the signal alone. Whether
outputs can be prepared is a matter of the registry alone (`Ready.prepare_isOk_iff`).
`Registry.evaluate` puts all this together along the dependencies (`evaluate_eq`). It knows
nothing of runs, strategies or requests.

Steps that fail at once, that intern facts in the one output, or that add a tuple to the one
output are pure (`Pure.of_fail`, `Pure.of_intern`, `Pure.of_add`).
-/

namespace FactEngine

/-! ## Contents -/

/-- What an artifact contains : the facts of a domain in the order of their indices, or the
tuples of a relation in the order in which they were added. -/
inductive Contents where
  | facts (t : FactType) (fs : List t.Carrier)
  | tuples (ts : List Tuple)

/-- The number of facts or tuples. -/
def Contents.size : Contents → Nat
  | facts _ fs => fs.length
  | tuples ts => ts.length

/-- The contents of a domain. -/
def AnyDomain.contents (d : AnyDomain) : Contents :=
  .facts d.factType d.domain.facts

/-- The contents of an artifact now. -/
def Artifact.contents (s : Store) : Artifact → Contents
  | domain id => (s.get id).contents
  | relation r => .tuples r.tuples

/-- Freezing does not change what a domain contains. -/
theorem AnyDomain.contents_eq_of_freeze {d e : AnyDomain} (h : d.freeze = e.freeze) :
    d.contents = e.contents := by
  have hc := congrArg AnyDomain.contents h
  exact hc

namespace Store

/-- The domains of the first store contain in the second what they contain in the first. -/
def Keeps (s s' : Store) : Prop :=
  ∀ id, id.place < s.domains.length → (s'.get id).contents = (s.get id).contents

theorem Keeps.refl (s : Store) : s.Keeps s :=
  fun _ _ => rfl

end Store

/-- A published artifact keeps its contents while the store does. -/
theorem Artifact.Serves.contents_eq {s s' : Store} {t : Target} {a : Artifact}
    (h : a.Serves s t) (hs : s.Keeps s') : a.contents s' = a.contents s := by
  obtain ⟨n, kind⟩ := t
  cases kind <;> cases a <;> try exact h.elim
  · exact hs _ h.1
  · rfl

/-- Preparing outputs changes the contents of no domain that there was. -/
theorem Outputs.keeps_of_prepare {d : Descriptor} (hd : d.outputs.Nodup)
    {inputs : NameMap Artifact} {s s' : Store} {answer : Except Error Outputs}
    (h : Outputs.prepare d inputs s = (answer, s')) : s.Keeps s' := by
  intro id hid
  have hcontents : ((Outputs.prepare d inputs s).2.get id).contents = (s.get id).contents :=
    AnyDomain.contents_eq_of_freeze (Outputs.freeze_get_prepare hd hid)
  rwa [h] at hcontents

/-- The contents of what a descriptor consumes, by name. -/
def Run.consumed (r : Run) (d : Descriptor) (n : String) : Option Contents :=
  if n ∈ d.consumes then (r.artifact? n).map (Artifact.contents r.store) else none

/-! ## Pure steps -/

/-- A function from the contents of what is consumed to the contents of the outputs, both by
name, or to an error. -/
abbrev Meaning :=
  (String → Option Contents) → Option (String → Option Contents)

/-- A step that began in the run `r` and ended with `answer` in the session `s` did as the
function says : it failed, or it filled the outputs with these contents. It wrote nothing
else and left the signal alone. -/
structure Run.Agrees (r : Run) (d : Descriptor) (f : Meaning) (answer : Except Failure Unit)
    (s : Session) : Prop where
  fails : f (r.consumed d) = none → ∃ failure, answer = .error failure
  fills : ∀ out, f (r.consumed d) = some out → answer = .ok () ∧
    ∀ t ∈ d.produces, ∀ a, s.outputs.artifact? t = some a →
      out t.name = some (a.contents s.run.store)
  keeps : r.store.Keeps s.run.store
  signal : s.run.signal = r.signal

namespace Registry

/-- The step of a descriptor puts no relation of another name in the place of an output, and does
as the function says in every run in which it can be started. -/
structure Pure (registry : Registry) (c : Config) (i : Nat) (f : Meaning) : Prop where
  keepsNames : (registry.descriptor i).fill.KeepsNames
  agrees : ∀ ⦃r : Run⦄ ⦃o : Outputs⦄ ⦃store : Store⦄, r.Coherent registry →
    r.Ready registry i →
    Outputs.prepare (registry.descriptor i) (r.received (registry.descriptor i)) r.store =
      (.ok o, store) →
    ∀ ⦃answer : Except Failure Unit⦄ ⦃s : Session⦄,
      (registry.descriptor i).fill.run (r.session c (registry.descriptor i) o store) =
        (answer, s) →
      r.Agrees (registry.descriptor i) f answer s

end Registry

/-! ## Outputs that can be prepared -/

namespace Registry

/-- Whether the outputs of a descriptor can be prepared : every column ranges over a domain. -/
def preparable (registry : Registry) (i : Nat) : Bool :=
  (registry.descriptor i).produces.all fun t =>
    match t.kind with
    | .domain _ => true
    | .relation sig => sig.columns.all fun c =>
      match registry.target c.domain with
      | .ok u => u.isDomain
      | .error _ => false

theorem preparable_iff {registry : Registry} (hr : registry.WellFormed) {i : Nat} :
    registry.preparable i = true ↔
      ∀ n sig, ⟨n, .relation sig⟩ ∈ (registry.descriptor i).produces → ∀ c ∈ sig.columns,
        ∃ k u, ⟨c.domain, .domain u⟩ ∈ (registry.descriptor k).produces := by
  have hcolumn : ∀ c : Column, (match registry.target c.domain with
      | .ok u => u.isDomain
      | .error _ => false) = true ↔
        ∃ k u, ⟨c.domain, .domain u⟩ ∈ (registry.descriptor k).produces := by
    intro c
    constructor
    · intro h
      split at h
      · rename_i t ht
        obtain ⟨k, hk, hname⟩ := hr.target_eq_ok_iff.1 ht
        obtain ⟨n, u | sig⟩ := t
        · exact ⟨k, u, hname ▸ hk⟩
        · cases h
      · cases h
    · rintro ⟨k, u, hu⟩
      rw [hr.target_eq_ok_iff.2 ⟨k, hu, rfl⟩]
      rfl
  rw [preparable, List.all_eq_true]
  constructor
  · intro h n sig hin c hc
    have hsig := h _ hin
    simp only [List.all_eq_true] at hsig
    exact (hcolumn c).1 (hsig c hc)
  · rintro h ⟨n, u | sig⟩ hin
    · rfl
    · simp only [List.all_eq_true]
      exact fun c hc => (hcolumn c).2 (h n sig hin c hc)

end Registry

namespace Run

open Registry

variable {registry : Registry} {r : Run} {i : Nat}

/-- The outputs of a ready descriptor can be prepared exactly if every column ranges over a
domain. -/
theorem Ready.prepare_isOk_iff (hi : r.Ready registry i) (hr : registry.WellFormed)
    (h : r.Coherent registry) :
    (∃ o store, Outputs.prepare (registry.descriptor i) (r.received (registry.descriptor i))
      r.store = (.ok o, store)) ↔ registry.preparable i = true := by
  have hd := hr.built _ (descriptor_mem hi.bound)
  rw [hi.exists_prepare_iff hr h, preparable_iff hr]
  constructor
  · intro hall n sig ht c hc
    have hknown := hd.columns_known _ ht sig rfl c hc
    exact (hasDomain_iff hr hknown).1 (hall c (Outputs.mem_columns.2 ⟨n, sig, ht, hc⟩))
  · intro hall c hc
    obtain ⟨n, sig, ht, hc⟩ := Outputs.mem_columns.1 hc
    have hknown := hd.columns_known _ ht sig rfl c hc
    exact (hasDomain_iff hr hknown).2 (hall n sig ht c hc)

end Run

/-! ## Evaluation -/

namespace Registry

/-- The contents of the outputs of a descriptor, or `none` for an error : if a descriptor that it
depends on evaluates to an error, if its outputs cannot be prepared, or if its step fails
on what the others evaluate to. -/
def evaluate (registry : Registry) (wf : WellFounded registry.DependsOn) (f : Nat → Meaning)
    (i : Nat) : Option (String → Option Contents) :=
  let result (j : Nat) : Option (String → Option Contents) :=
    if _h : j ∈ registry.dependencies i then registry.evaluate wf f j else none
  if registry.preparable i && (registry.dependencies i).all fun j => (result j).isSome then
    f i fun n =>
      if n ∈ (registry.descriptor i).consumes then
        (registry.producerIndex? n).bind fun j => (result j).bind fun out => out n
      else none
  else none
termination_by wf.wrap i
decreasing_by exact _h

section

variable {registry : Registry} {wf : WellFounded registry.DependsOn} {f : Nat → Meaning}

/-- What a descriptor consumes, evaluated. -/
def supplied (registry : Registry) (wf : WellFounded registry.DependsOn) (f : Nat → Meaning)
    (i : Nat) (n : String) : Option Contents :=
  if n ∈ (registry.descriptor i).consumes then
    (registry.producerIndex? n).bind fun j => (registry.evaluate wf f j).bind fun out => out n
  else none

theorem evaluate_eq (hr : registry.WellFormed) (i : Nat) :
    registry.evaluate wf f i =
      if registry.preparable i = true ∧
        ∀ j ∈ registry.dependencies i, (registry.evaluate wf f j).isSome then
        f i (registry.supplied wf f i)
      else none := by
  have hsupplied : (fun n =>
      if n ∈ (registry.descriptor i).consumes then
        (registry.producerIndex? n).bind fun j =>
          (if _h : j ∈ registry.dependencies i then registry.evaluate wf f j else none).bind
            fun out => out n
      else none) = registry.supplied wf f i := by
    funext n
    unfold supplied
    split
    · rename_i hn
      cases hj : registry.producerIndex? n with
      | none => rfl
      | some j =>
        have hdep := hr.mem_dependencies.2 ⟨n, hn, hj⟩
        simp only [Option.bind_some, dif_pos hdep]
    · rfl
  have hall : ((registry.dependencies i).all fun j =>
      (if _h : j ∈ registry.dependencies i then registry.evaluate wf f j else none).isSome) = true ↔
      ∀ j ∈ registry.dependencies i, (registry.evaluate wf f j).isSome := by
    rw [List.all_eq_true]
    refine forall₂_congr fun j hj => ?_
    rw [dif_pos hj]
  rw [evaluate]
  simp only [Bool.and_eq_true, hall, hsupplied]

/-- What a descriptor with contents depends on has contents. -/
theorem evaluate_isSome_of_mem (hr : registry.WellFormed) {i j : Nat}
    (hi : (registry.evaluate wf f i).isSome) (hj : j ∈ registry.dependencies i) :
    (registry.evaluate wf f j).isSome := by
  rw [evaluate_eq hr] at hi
  split at hi
  · rename_i h
    exact h.2 j hj
  · cases hi

theorem evaluate_isSome_of_reaches (hr : registry.WellFormed) {isDone : String → Bool}
    {i k : Nat} (hi : (registry.evaluate wf f i).isSome) (hk : registry.Reaches isDone i k) :
    (registry.evaluate wf f k).isSome := by
  induction hk with
  | refl => exact hi
  | tail _ hstep ih => exact evaluate_isSome_of_mem hr ih hstep.1

end

end Registry

/-! ## Steps that are pure -/

/-- A step goes on with the reply to its first action. -/
theorem Fill.run_step {s s' : Session} {a : Action} {reply : a.Reply}
    (h : s.perform a = (reply, s')) (next : a.Reply → Fill) :
    (Fill.step a next).run s = (next reply).run s' := by
  rw [Fill.run, h]

/-- The step of a descriptor whose one output is a domain begins if the domain is there. -/
theorem Fill.run_ofDomain {s : Session} {n : String} {t : FactType} {id : DomainId}
    (hid : s.outputs.domains.get? n = some id) {d : Domain t.Carrier}
    (hd : s.run.store.get id = ⟨t, d⟩) (fill : Fill) :
    (Fill.ofDomain n t fill).run s = fill.run s := by
  have hperform : s.perform (.outputDomain n t) = (.ok d, s) := by
    simp only [Session.perform, Session.outputDomain, hid, hd, AnyDomain.downcast_self]
  exact Fill.run_step hperform _

/-- The step of a descriptor whose one output is a relation begins if the relation is there. If it
succeeds and leaves a relation of the name in hand, this is put back. -/
theorem Fill.run_ofRelation {s : Session} {n : String} {r r' : Relation} {o : Outputs} {fill : Fill}
    (hr : s.outputs.relations.get? n = some r)
    (hfill : fill.run s = (.ok (), { s with outputs := o }))
    (hr' : o.relations.get? n = some r') (hn : r'.name = n) :
    ∃ o', (Fill.ofRelation n fill).run s = (.ok (), { s with outputs := o' }) ∧
      o'.relations.get? n = some r' := by
  have hperform : s.perform (.outputRelation n) = (.ok r, s) := by
    simp only [Session.perform, Session.outputRelation, hr]
  have hrestore : ({ s with outputs := o } : Session).restoreRelation n =
      { s with outputs := { o with relations := (o.relations.erase n).insert r'.name r' } } := by
    simp only [Session.restoreRelation, hr']
  refine ⟨{ o with relations := (o.relations.erase n).insert r'.name r' },
    (Fill.run_step hperform _).trans ((Fill.run_followedBy _ fill s).trans ?_), ?_⟩
  · rw [hfill]
    exact congrArg (Prod.mk (Except.ok ())) hrestore
  · rw [hn, NameMap.get?_insert, if_pos rfl]

namespace Session

variable (s : Session) {n : String} {id : DomainId}

/-- Facts are interned in an output domain that is still empty. -/
theorem perform_intern {t : FactType} (hid : s.outputs.domains.get? n = some id)
    (hempty : s.run.store.get id = .empty n t) (fs : List t.Carrier) :
    ∃ is, s.perform (.intern n t fs) =
      (.ok is, s.withStore (s.run.store.set id ⟨t, ⟨n, distinct fs, false⟩⟩)) := by
  have his : (Domain.empty n : Domain t.Carrier).extend fs =
      (.ok (fs.map (distinct fs).idxOf), ⟨n, distinct fs, false⟩) :=
    Domain.extend_of_admits nofun
  refine ⟨fs.map (distinct fs).idxOf, ?_⟩
  have hextend : s.run.store.extend id t fs = (.ok (fs.map (distinct fs).idxOf),
      s.run.store.set id ⟨t, ⟨n, distinct fs, false⟩⟩) := by
    rw [Store.extend, hempty, AnyDomain.empty, AnyDomain.downcast_self]
    simp only [his]
  have hout : s.outputDomain n t = .ok (id, .empty n) := by
    simp only [outputDomain, hid, hempty, AnyDomain.empty, AnyDomain.downcast_self]
  simp only [perform, hout, hextend]

end Session

namespace Registry

namespace Pure

open Run

variable {registry : Registry} {c : Config} {i : Nat}

/-- A step that puts facts in a domain that is the one output. -/
theorem of_domain (hr : registry.WellFormed) (hi : i < registry.size) {n : String} {t : FactType}
    {fs : List t.Carrier} (hproduces : (registry.descriptor i).produces = [⟨n, .domain t⟩])
    (hk : (registry.descriptor i).fill.KeepsNames)
    (hfill : ∀ (s : Session) id, s.outputs.domains.get? n = some id →
      s.run.store.get id = .empty n t → (registry.descriptor i).fill.run s =
        (.ok (), s.withStore (s.run.store.set id ⟨t, ⟨n, distinct fs, false⟩⟩))) :
    registry.Pure c i fun _ => some fun _ => some (.facts t (distinct fs)) := by
  refine ⟨hk, fun r o store h _ hp answer s hrun => ?_⟩
  have hd := (hr.built _ (descriptor_mem hi)).outputs_nodup
  have hkeeps := Outputs.keeps_of_prepare hd hp
  have hprepared := Outputs.prepare_ok hd hp
  have hmem : ⟨n, .domain t⟩ ∈ (registry.descriptor i).produces := by simp [hproduces]
  obtain ⟨id, hid, hle, hlt, -⟩ := hprepared.domain n t hmem
  -- The domain is new, so nothing that is received can have frozen it.
  have hempty : store.get id = .empty n t := hprepared.domain_empty n t id hmem hid
    fun m hm => Nat.lt_irrefl _ ((h.place_lt_of_received hm).trans_le hle)
  have hends := hfill (r.session c (registry.descriptor i) o store) id hid hempty
  rw [hends] at hrun
  obtain ⟨rfl, rfl⟩ := Prod.mk.inj hrun
  refine ⟨fun hnone => (nomatch hnone), fun out hsome => ⟨rfl, fun u hu a ha => ?_⟩,
    fun p hp => ?_, rfl⟩
  · obtain rfl := Option.some.inj hsome
    rw [hproduces, List.mem_singleton] at hu
    subst hu
    have ha' : (o.domains.get? n).map Artifact.domain = some a := ha
    rw [hid] at ha'
    obtain rfl := Option.some.inj ha'
    change _ = some ((store.set id ⟨t, ⟨n, distinct fs, false⟩⟩).get id).contents
    rw [Store.get_set, if_pos ⟨rfl, hlt⟩]
    rfl
  · change ((store.set id ⟨t, ⟨n, distinct fs, false⟩⟩).get p).contents = _
    rw [Store.get_set, if_neg, hkeeps p hp]
    rintro ⟨rfl, -⟩
    exact Nat.lt_irrefl _ (hp.trans_le hle)

/-- A relation of one column that is the one output is bound to the domain that is received under
the name of the column. -/
theorem received_of_unary {d : Descriptor} (hd : d.outputs.Nodup) {n m : String}
    (hproduces : d.produces = [⟨n, .relation (.unary m)⟩]) {inputs : NameMap Artifact}
    {o : Outputs} {s s' : Store} (hp : Outputs.prepare d inputs s = (.ok o, s')) :
    ∃ id, o.relations.get? n = some ⟨n, .unary m, [id], []⟩ ∧
      inputs.get? m = some (.domain id) := by
  have hprepared := Outputs.prepare_ok hd hp
  obtain ⟨ids, hrel, hbound⟩ := hprepared.relation n (.unary m) (by simp [hproduces])
  obtain ⟨id, rfl⟩ : ∃ id, ids = [id] := List.length_eq_one_iff.1 hbound.length_eq.symm
  refine ⟨id, hrel, ?_⟩
  rcases (List.forall₂_cons.1 hbound).1 with hown | ⟨-, hin⟩
  · obtain ⟨t, ht⟩ := hprepared.domain_only m id hown
    simp [hproduces] at ht
  · exact hin

/-- A step that fills a relation of one column that is the one output. The contents of the domain,
which is consumed, tell which tuples it adds, or that it fails. -/
theorem of_unary (hr : registry.WellFormed) (hi : i < registry.size) {n m : String}
    (hproduces : (registry.descriptor i).produces = [⟨n, .relation (.unary m)⟩])
    (hconsumes : m ∈ (registry.descriptor i).consumes)
    (hk : (registry.descriptor i).fill.KeepsNames) (g : Contents → Option (List Tuple))
    (hfill : ∀ (s : Session) id, s.config = c →
      s.outputs.relations.get? n = some ⟨n, .unary m, [id], []⟩ →
      ∃ answer o, (registry.descriptor i).fill.run s = (answer, { s with outputs := o }) ∧
        (g (s.run.store.get id).contents = none → ∃ failure, answer = .error failure) ∧
        ∀ ts, g (s.run.store.get id).contents = some ts → answer = .ok () ∧
          o.relations.get? n = some ⟨n, .unary m, [id], ts⟩) :
    registry.Pure c i fun inputs => (inputs m).bind fun contents =>
      (g contents).map fun ts _ => some (.tuples ts) := by
  refine ⟨hk, fun r o store h _ hp answer s hrun => ?_⟩
  have hd := (hr.built _ (descriptor_mem hi)).outputs_nodup
  have hkeeps := Outputs.keeps_of_prepare hd hp
  obtain ⟨id, hrel, hreceived⟩ := received_of_unary hd hproduces hp
  have hconsumed : r.consumed (registry.descriptor i) m = some (store.get id).contents := by
    rw [consumed, if_pos hconsumes, (artifact?_of_received hreceived).2.2.2,
      hkeeps id (h.place_lt_of_received hreceived)]
    rfl
  obtain ⟨answer', o', hends, hfails, hfills⟩ :=
    hfill (r.session c (registry.descriptor i) o store) id rfl hrel
  rw [hends] at hrun
  obtain ⟨rfl, rfl⟩ := Prod.mk.inj hrun
  refine ⟨fun hnone => ?_, fun out hsome => ?_, hkeeps, rfl⟩
  · have hnone' : g (store.get id).contents = none := by simpa [hconsumed] using hnone
    exact hfails hnone'
  · obtain ⟨ts, hts, rfl⟩ : ∃ ts, g (store.get id).contents = some ts ∧
        (fun _ => some (.tuples ts)) = out := by
      simpa [hconsumed] using hsome
    obtain ⟨rfl, hget⟩ := hfills ts hts
    refine ⟨rfl, fun u hu a ha => ?_⟩
    rw [hproduces, List.mem_singleton] at hu
    subst hu
    have ha' : (o'.relations.get? n).map Artifact.relation = some a := ha
    rw [hget] at ha'
    obtain rfl := Option.some.inj ha'
    rfl

end Pure

end Registry

end FactEngine
