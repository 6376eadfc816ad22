import FactEngine.Proofs.Columns
import FactEngine.Proofs.Freezing
import FactEngine.Proofs.Ownership

/-!
# Steps that begin

The outputs that a step is given are empty, one for each target, and their columns are bound to
new domains and to frozen ones (`Outputs.Opened`). While the step is under way each target is
given out as what it was declared to be, so the check that comes before the step of a domain or
of a relation never fails (`Underway.leads_step`). If there is a column without a domain, the
first one is named in the error, the step does not begin, and the outputs have failed
(`Moment.columns_decide`). All this takes it that steps keep names : a relation that is published
under the name of a domain is refused where that domain is wanted (`letters_refused_as_relation`).
-/

namespace FactEngine

/-! ## Empty outputs -/

/-- The column is bound to the descriptor's own domain of its name, or to the domain that was
published under its name, which is frozen now. -/
def Run.Binds (r : Run) (d : Descriptor) (o : Outputs) (store : Store) (col : Column)
    (id : DomainId) : Prop :=
  (∃ t, ⟨col.domain, .domain t⟩ ∈ d.produces) ∧ o.domains.get? col.domain = some id ∨
    col.domain ∈ d.consumes ∧ r.artifact? col.domain = some (.domain id) ∧
      store.get id = (r.store.get id).freeze

/-- The outputs of a descriptor when its step begins in the run : one for every target, and
nothing in it. -/
structure Outputs.Opened (r : Run) (d : Descriptor) (o : Outputs) (store : Store) : Prop where
  domain : ∀ n t, ⟨n, .domain t⟩ ∈ d.produces → ∃ id, o.domains.get? n = some id ∧
    r.store.domains.length ≤ id.place ∧ store.get id = .empty n t
  domain_only : ∀ n id, o.domains.get? n = some id → ∃ t, ⟨n, .domain t⟩ ∈ d.produces
  relation : ∀ n sig, ⟨n, .relation sig⟩ ∈ d.produces → ∃ ids,
    o.relations.get? n = some ⟨n, sig, ids, []⟩ ∧
      List.Forall₂ (fun col id => r.Binds d o store col id) sig.columns ids ∧
      Relation.create store n sig ids = .ok ⟨n, sig, ids, []⟩
  relation_only : ∀ n rel, o.relations.get? n = some rel →
    ∃ sig, ⟨n, .relation sig⟩ ∈ d.produces

namespace Run

open Registry

variable {registry : Registry} {r : Run} {i : Nat} {col : Column} {o : Outputs} {store : Store}

namespace Ready

variable (hi : r.Ready registry i) (hr : registry.WellFormed) (h : r.Coherent registry)

include hi hr h

/-- A column of a prepared output is bound to a domain of its own, or to a frozen one. -/
theorem binds_of_prepare
    (hp : Outputs.prepare (registry.descriptor i) (r.received (registry.descriptor i)) r.store =
      (.ok o, store)) {n : String} {sig : Signature} {ids : List DomainId}
    (hrel : o.relations.get? n = some ⟨n, sig, ids, []⟩) {id : DomainId} (hid : id ∈ ids)
    (hb : Outputs.Bound o.domains (r.received (registry.descriptor i)) col.domain id) :
    r.Binds (registry.descriptor i) o store col id := by
  have hd := hr.built _ (descriptor_mem hi.bound)
  have hprepared := Outputs.prepare_ok hd.outputs_nodup hp
  rcases hb with hown | ⟨-, hin⟩
  · exact Or.inl ⟨hprepared.domain_only _ id hown, hown⟩
  · obtain ⟨hconsumes, -, -, ha⟩ := artifact?_of_received hin
    have hlt := h.place_lt_of_received hin
    -- a domain that was there is no output, so it is the column that froze it
    have hfrozen : (store.get id).frozen = true := by
      have hsettled := Outputs.settled_prepare (fun _ _ hn => h.place_lt_of_received hn) hp
      exact (hsettled n _ hrel id hid).resolve_left fun ⟨_, hown⟩ =>
        hlt.not_ge (Outputs.place_of_prepare hp hown).1
    have hstore : (Outputs.prepare (registry.descriptor i) (r.received (registry.descriptor i))
        r.store).2 = store := congrArg Prod.snd hp
    have hkept := hstore ▸ Outputs.freeze_get_prepare hd.outputs_nodup hlt
    exact Or.inr ⟨hconsumes, ha, (AnyDomain.freeze_eq_of_frozen hfrozen).symm.trans hkept⟩

/-- Prepared outputs are empty, and there is one for every target. -/
theorem opened_of_prepare
    (hp : Outputs.prepare (registry.descriptor i) (r.received (registry.descriptor i)) r.store =
      (.ok o, store)) :
    o.Opened r (registry.descriptor i) store := by
  have hd := hr.built _ (descriptor_mem hi.bound)
  have hprepared := Outputs.prepare_ok hd.outputs_nodup hp
  refine ⟨fun n t ht => ?_, hprepared.domain_only, fun n sig hs => ?_,
    fun n rel => Outputs.relation_only_of_prepare hp⟩
  · obtain ⟨id, hid, hle, -⟩ := hprepared.domain n t ht
    -- what was received is at old places
    refine ⟨id, hid, hle, hprepared.domain_empty n t id ht hid fun m hm => ?_⟩
    exact hle.not_gt (h.place_lt_of_received hm)
  · obtain ⟨ids, hrel, hbound⟩ := hprepared.relation n sig hs
    refine ⟨ids, hrel, ?_, (h.named_received _).create_of_bound hd.outputs_nodup hp hbound⟩
    refine List.forall₂_iff_zip.2 ⟨hbound.length_eq, fun {col id} hmem => ?_⟩
    have hb := (List.forall₂_iff_zip.1 hbound).2 hmem
    exact hi.binds_of_prepare hr h hp hrel (List.of_mem_zip hmem).2 hb

end Ready

end Run

/-! ## Steps that begin -/

namespace Moment

namespace Underway

variable {s : Scheduler} {i : Nat} {inputs : NameMap Artifact} {outputs : Outputs}
  {rest : List Nat} {r₀ : Run} {o : Outputs} {store : Store} {n : String}

/-- While a step is under way, an output domain is given out with facts of its type. -/
theorem exists_outputDomain (h : Underway s i inputs outputs rest r₀ o store)
    (hr : s.registry.WellFormed) {t : FactType}
    (ht : ⟨n, .domain t⟩ ∈ (s.registry.descriptor i).produces) :
    ∃ id d, (s.session i inputs outputs).outputDomain n t = .ok (id, d) := by
  obtain ⟨id, hid, -, -, -, htype⟩ := (h.filled hr).domain n t ht
  subst htype
  have hdown : (s.run.store.get id).downcast (s.run.store.get id).factType =
      .ok (s.run.store.get id).domain := AnyDomain.downcast_self _
  exact ⟨id, (s.run.store.get id).domain, by
    simp only [Session.outputDomain, Scheduler.session, hid, hdown]⟩

/-- An output relation is given out under its name, and with its signature if the step of the
descriptor replaces no relation. -/
theorem exists_outputRelation (h : Underway s i inputs outputs rest r₀ o store)
    (hr : s.registry.WellFormed) {sig : Signature}
    (ht : ⟨n, .relation sig⟩ ∈ (s.registry.descriptor i).produces) :
    ∃ rel, (s.session i inputs outputs).outputRelation n = .ok rel ∧ rel.name = n ∧
      ((s.registry.descriptor i).fill.InPlace → rel.signature = sig) := by
  have hprepared := Outputs.prepare_ok (h.wellFormed hr).outputs_nodup h.prepared
  obtain ⟨ids, hmade, -⟩ := hprepared.relation n sig ht
  obtain ⟨rel, hrel, hname⟩ := h.named.exists_eq hmade
  refine ⟨rel, by simp only [Session.outputRelation, Scheduler.session, hrel], hname,
    fun hin => ?_⟩
  obtain ⟨rel', hrel', hkept⟩ := (h.kept hin).exists_eq hmade
  obtain rfl : rel = rel' := Option.some.inj (hrel.symm.trans hrel')
  exact congrArg Relation.signature hkept

/-- A step that has not acted yet leads to the one that was registered, and nothing changes. -/
theorem leads_step (h : Underway s i inputs outputs rest r₀ o store)
    (hr : s.registry.WellFormed) {q : Registration}
    (hq : q.toDraft.build = .ok (s.registry.descriptor i)) :
    Leads ⟨s, .filling i inputs outputs (s.registry.descriptor i).fill rest⟩
      ⟨s, .filling i inputs outputs q.remaining rest⟩ := by
  have hbuild := Draft.build_eq hq
  cases q with
  | draft d =>
    rw [hbuild]
    exact .refl _
  | domain n t consumes fill =>
    have ht : ⟨n, .domain t⟩ ∈ (s.registry.descriptor i).produces := by
      rw [hbuild]
      exact List.mem_singleton_self _
    obtain ⟨id, d, hout⟩ := h.exists_outputDomain hr ht
    have hperform : (s.session i inputs outputs).perform (.outputDomain n t) =
        (.ok d, s.session i inputs outputs) := by
      simp only [Session.perform, hout]
    refine .of_next ?_
    rw [hbuild]
    simp only [Registration.toDraft, Fill.ofDomain, next, hperform]
    exact .refl _
  | relation n sig consumes fill =>
    have ht : ⟨n, .relation sig⟩ ∈ (s.registry.descriptor i).produces := by
      rw [hbuild]
      exact List.mem_singleton_self _
    obtain ⟨rel, hout, -⟩ := h.exists_outputRelation hr ht
    have hperform : (s.session i inputs outputs).perform (.outputRelation n) =
        (.ok rel, s.session i inputs outputs) := by
      simp only [Session.perform, hout]
    refine .of_next ?_
    rw [hbuild]
    simp only [Registration.toDraft, Fill.ofRelation, next, hperform]
    exact .refl _

end Underway

/-- If the outputs of the next descriptor cannot be prepared, its step does not begin, nothing else
is executed, and the outputs have failed. -/
theorem next_of_prepare_error {s : Scheduler} {i : Nat} {e : Error} {store : Store}
    (hrunning : s.run.signal.isCancelled.1 = false)
    (hp : Outputs.prepare (s.registry.descriptor i) (s.run.received (s.registry.descriptor i))
      s.run.store = (.error e, store)) (rest : List Nat) :
    ∃ s', next ⟨s, .executing (i :: rest)⟩ = ⟨s', .idle⟩ ∧
      s.executeAll (i :: rest) = (.error e, s') ∧
      s'.run.journal = s.run.journal ++ [.executed (s.registry.descriptor i).name
        (s.run.received (s.registry.descriptor i))] ∧
      ∀ n ∈ (s.registry.descriptor i).outputs,
        s'.run.status n = .failed ∧ s'.run.artifact? n = none := by
  have hnot : ¬s.run.signal.isCancelled.1 = true := by simp [hrunning]
  have hexecute := Run.execute_of_error (Run.fill_of_unprepared (c := s.config) hp)
  let d := s.registry.descriptor i
  refine ⟨{ s with run := (s.run.begun d store).failing d }, ?_, ?_, rfl, fun n hn => ⟨?_, ?_⟩⟩
  · rw [next_executing, if_neg hnot, start_of_error hp]
  · rw [Scheduler.executeAll_cons, if_neg hnot, hexecute]
    rfl
  · exact (Run.status_fail _ _ n).trans (if_pos hn)
  · exact (Run.artifact?_fail _ _ n).trans (if_pos hn)

/-- If steps replace relations by such of the same name only, then whenever a scheduler turns to a
descriptor, the columns of the relations that it produces decide on what follows. If there is a
domain for each, then its outputs are prepared, and its step begins. Otherwise they are refused for
the first column without one, and nothing is left of the step but the failed outputs. While a step
is under way, every output is given out as what it was declared to be, and the step that was
registered is reached. -/
theorem columns_decide {ds : List Draft} (hk : ∀ d ∈ ds, d.fill.KeepsNames) (c : Config) :
    (∀ history target,
      let s := (Scheduler.new (.ofDrafts ds) c).after history
      (∀ k, Reachable (.ofDrafts ds) c (next^[k] (s.accept (.materialize target)))) ∧
        Leads (s.accept (.materialize target)) ⟨(s.materialize target).2, .idle⟩) ∧
    (∀ s i rest, Reachable (.ofDrafts ds) c ⟨s, .executing (i :: rest)⟩ →
      s.run.signal.isCancelled.1 = false →
      let d := s.registry.descriptor i
      let inputs := s.run.received d
      ((∃ o store, Outputs.prepare d inputs s.run.store = (.ok o, store)) ↔
        ∀ col ∈ Outputs.columns d.produces, s.registry.HasDomain i col) ∧
      (∀ o store, Outputs.prepare d inputs s.run.store = (.ok o, store) →
        o.Opened s.run d store ∧ next ⟨s, .executing (i :: rest)⟩ =
          ⟨{ s with run := s.run.begun d store }, .filling i inputs o d.fill rest⟩) ∧
      ∀ e store, Outputs.prepare d inputs s.run.store = (.error e, store) →
        (∃ before col after, Outputs.columns d.produces = before ++ col :: after ∧
          (∀ b ∈ before, s.registry.HasDomain i b) ∧ ¬s.registry.HasDomain i col ∧
          s.registry.Offends i col e) ∧
        ∃ s', next ⟨s, .executing (i :: rest)⟩ = ⟨s', .idle⟩ ∧
          s.executeAll (i :: rest) = (.error e, s') ∧
          s'.run.journal = s.run.journal ++ [.executed d.name inputs] ∧
          ∀ n ∈ d.outputs, s'.run.status n = .failed ∧ s'.run.artifact? n = none) ∧
    ∀ s i inputs outputs fill rest,
      Reachable (.ofDrafts ds) c ⟨s, .filling i inputs outputs fill rest⟩ →
      let x := s.session i inputs outputs
      (∀ n t, ⟨n, .domain t⟩ ∈ x.descriptor.produces →
        ∃ id d, x.outputDomain n t = .ok (id, d)) ∧
      (∀ n sig, ⟨n, .relation sig⟩ ∈ x.descriptor.produces →
        ∃ rel, x.outputRelation n = .ok rel ∧ rel.name = n ∧
          (x.descriptor.fill.InPlace → rel.signature = sig)) ∧
      ∀ q : Registration, q.toDraft.build = .ok x.descriptor → fill = x.descriptor.fill →
        Leads ⟨s, .filling i inputs outputs fill rest⟩
          ⟨s, .filling i inputs outputs q.remaining rest⟩ := by
  refine ⟨fun history target =>
      ⟨reachable_accept _ c history (.materialize target), leads_accept _ (.materialize target)⟩,
    fun s i rest hm hrunning => ?_, fun s i inputs outputs fill rest hm => ?_⟩
  · obtain ⟨hproper, hcoherent, hscheduled⟩ := sound_of_reachable hk hm
    have hr := hproper.toWellFormed
    have hi : s.run.Ready s.registry i := hscheduled.ready
    intro d inputs
    refine ⟨hi.exists_prepare_iff hr hcoherent, fun o store hp => ⟨?_, ?_⟩,
      fun e store hp => ⟨?_, next_of_prepare_error hrunning hp rest⟩⟩
    · exact hi.opened_of_prepare hr hcoherent hp
    · rw [next_executing, if_neg (by simp [hrunning]), start_of_ok hp]
    · obtain ⟨before, col, after, hsplit, hbefore, hcol⟩ := hi.offends_of_prepare hr hcoherent hp
      exact ⟨before, col, after, hsplit, hbefore, hcol.not_hasDomain hr, hcol⟩
  · obtain ⟨hproper, -, r₀, o, store, hu⟩ := sound_of_reachable hk hm
    have hr := hproper.toWellFormed
    intro x
    refine ⟨fun n t ht => hu.exists_outputDomain hr ht,
      fun n sig ht => hu.exists_outputRelation hr ht, fun q hq hfill => ?_⟩
    rw [hfill]
    exact hu.leads_step hr hq

/-- A column that is called like another output is refused if that is a relation, whoever asks. -/
example :
    ((Scheduler.new (.ofDrafts [⟨"calls", [⟨"calls", .relation (.unary "uses")⟩,
      ⟨"uses", .relation (.unary "names")⟩, ⟨"names", .domain .text⟩], [], .finish⟩])
        ⟨.sequential, 0, .empty⟩).materialize "names").1 =
      .error (.undeclaredDependency "calls" "uses" .notDone) := by
  decide +kernel

/-! ### Marks under the name of the letters -/

/-- The descriptors that are left to execute. -/
def left? : Moment → Option (List Nat)
  | ⟨_, .executing rest⟩ => some rest
  | _ => none

theorem eq_of_left? {m : Moment} {rest : List Nat} (h : m.left? = some rest) :
    m = ⟨m.scheduler, .executing rest⟩ := by
  unfold left? at h
  split at h
  · obtain rfl := Option.some.inj h
    rfl
  · cases h

/-- The moment in which the scheduler turns to the index, when marks were replaced. -/
def turningToIndex (label : String) : Moment :=
  next^[7] ((Scheduler.ofMarks (relabelMarks label)).accept (.materialize "index"))

theorem reachable_turningToIndex {label : String}
    (h : (turningToIndex label).left? = some [2]) :
    Reachable (.ofDrafts (lettersAndMarks (relabelMarks label))) ⟨.sequential, 0, .empty⟩
      ⟨(turningToIndex label).scheduler, .executing [2]⟩ := by
  rw [← eq_of_left? h]
  exact reachable_accept _ _ [] (.materialize "index") 7

/-- The column of the index is called like a domain that the index consumes. -/
theorem hasDomain_index (fill : Fill) :
    ∀ col ∈ Outputs.columns ((Registry.ofDrafts (lettersAndMarks fill)).descriptor 2).produces,
      (Registry.ofDrafts (lettersAndMarks fill)).HasDomain 2 col := by
  have hcolumns : Outputs.columns
      ((Registry.ofDrafts (lettersAndMarks fill)).descriptor 2).produces = [⟨"letters", 1⟩] := rfl
  have hconsumes :
      "letters" ∈ ((Registry.ofDrafts (lettersAndMarks fill)).descriptor 2).consumes :=
    .tail _ (.head _)
  have htarget : (Registry.ofDrafts (lettersAndMarks fill)).target "letters" =
      .ok ⟨"letters", .domain .text⟩ := rfl
  intro col hcol
  rw [hcolumns] at hcol
  obtain rfl := List.mem_singleton.1 hcol
  exact Or.inr ⟨hconsumes, .text, htarget⟩

/-- When marks are replaced by a relation that is called so as well, the step of the index begins
with an empty relation over the letters. -/
theorem index_opened :
    (∀ d ∈ lettersAndMarks (relabelMarks "marks"), d.fill.KeepsNames) ∧
      ∃ s rest o store,
        Reachable (.ofDrafts (lettersAndMarks (relabelMarks "marks"))) ⟨.sequential, 0, .empty⟩
          ⟨s, .executing (2 :: rest)⟩ ∧
        s.run.signal.isCancelled.1 = false ∧
        o.Opened s.run (s.registry.descriptor 2) store ∧
        next ⟨s, .executing (2 :: rest)⟩ =
          ⟨{ s with run := s.run.begun (s.registry.descriptor 2) store },
            .filling 2 (s.run.received (s.registry.descriptor 2)) o (s.registry.descriptor 2).fill
              rest⟩ := by
  have hk : ∀ d ∈ lettersAndMarks (relabelMarks "marks"), d.fill.KeepsNames :=
    always_lettersAndMarks trivial trivial keepsNames_relabelMarks
  have hleft : (turningToIndex "marks").left? = some [2] := by decide +kernel
  have hm := reachable_turningToIndex hleft
  have hrunning : (turningToIndex "marks").scheduler.run.signal.isCancelled.1 = false := by
    decide +kernel
  have hregistry := registry_of_reachable hm
  obtain ⟨hprepared, hopened, -⟩ := (columns_decide hk _).2.1 _ 2 [] hm hrunning
  obtain ⟨o, store, hp⟩ := hprepared.2 (by rw [hregistry]; exact hasDomain_index _)
  exact ⟨hk, _, [], o, store, hm, hrunning, hopened o store hp⟩

/-- When marks are replaced by a relation that is called like the letters, it is published as the
letters, and the index is refused for its column, although the letters are registered as a
domain. -/
theorem letters_refused_as_relation :
    ∃ s rest store,
      Reachable (.ofDrafts (lettersAndMarks (relabelMarks "letters"))) ⟨.sequential, 0, .empty⟩
        ⟨s, .executing (2 :: rest)⟩ ∧
      s.run.signal.isCancelled.1 = false ∧
      (∀ col ∈ Outputs.columns (s.registry.descriptor 2).produces,
        s.registry.HasDomain 2 col) ∧
      Outputs.prepare (s.registry.descriptor 2) (s.run.received (s.registry.descriptor 2))
        s.run.store = (.error (.typeMismatch "letters" .domain), store) := by
  have hleft : (turningToIndex "letters").left? = some [2] := by decide +kernel
  have hm := reachable_turningToIndex hleft
  have hregistry := registry_of_reachable hm
  refine ⟨_, [], _, hm, by decide +kernel, ?_, Prod.ext (by decide +kernel) rfl⟩
  rw [hregistry]
  exact hasDomain_index _

end Moment

end FactEngine
