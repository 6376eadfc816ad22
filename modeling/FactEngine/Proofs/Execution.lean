import FactEngine.Proofs.Replacement
import FactEngine.Run.Scheduler

/-!
# One execution

`Run.Outcome` lists the three ways in which the execution of a descriptor can end : its outputs
cannot be prepared, its step fails, or its step succeeds. Every execution is one of them
(`outcome_execute`), and the rest of the development learns from it what an execution does.

Whatever happens, an execution changes nothing about names that are not outputs, lets the
store grow, and leaves one record and one journal entry with what it received
(`Run.Executed`). If it succeeds, and relations were replaced by such of the same name only, every
target is published under its name as what it is, and domains are in new places (`execute_ok`). If
no relation was replaced, they are relations as declared over the domains that are published now
(`declared_of_execute`). If it fails, the outputs are failed and have no artifacts
(`execute_error`).
-/

namespace FactEngine

/-! ## Outputs after a step -/

namespace Outputs

/-- The outputs of a descriptor when its step has ended. -/
structure Filled (d : Descriptor) (s : Store) (o : Outputs) (s' : Store) : Prop where
  domain : ∀ n t, ⟨n, .domain t⟩ ∈ d.produces → ∃ id, o.domains.get? n = some id ∧
    s.domains.length ≤ id.place ∧ id.place < s'.domains.length ∧
      (s'.get id).name = n ∧ (s'.get id).factType = t
  domain_only : ∀ n id, o.domains.get? n = some id → ∃ t, ⟨n, .domain t⟩ ∈ d.produces
  relation : ∀ n sig, ⟨n, .relation sig⟩ ∈ d.produces → ∃ r,
    o.relations.get? n = some r ∧ r.name = n

/-- A step that keeps names leaves an output in every place. -/
theorem Prepared.filled {d : Descriptor} {inputs : NameMap Artifact} {s : Store} {a b : Session}
    (h : Prepared d inputs s a.outputs a.run.store) (hc : a.Continues b)
    (hs : a.outputs.Same Relation.name b.outputs) : Filled d s b.outputs b.run.store := by
  refine ⟨fun n t ht => ?_, fun n id hid => ?_, fun n sig hsig => ?_⟩
  · obtain ⟨id, hid, hle, hlt, hget⟩ := h.domain n t ht
    refine ⟨id, by rw [hc.domains, hid], hle, hlt.trans_le hc.store.length_le, ?_, ?_⟩
    · rw [hc.store.name_eq id hlt]
      exact congrArg (fun d => d.name) hget
    · rw [hc.store.factType_eq id hlt]
      exact congrArg (fun d => d.factType) hget
  · rw [hc.domains] at hid
    exact h.domain_only n id hid
  · obtain ⟨ids, hget, -⟩ := h.relation n sig hsig
    exact hs.exists_eq hget

/-- A step that replaces nothing leaves its relations bound as they were. -/
theorem Prepared.bound {d : Descriptor} {inputs : NameMap Artifact} {s : Store} {a b : Session}
    (h : Prepared d inputs s a.outputs a.run.store) (hc : a.Continues b)
    (hs : a.outputs.Same Relation.emptied b.outputs) {n : String} {sig : Signature}
    (hsig : ⟨n, .relation sig⟩ ∈ d.produces) {r : Relation}
    (hr : b.outputs.relations.get? n = some r) :
    r.signature = sig ∧
      List.Forall₂ (fun c id => Bound b.outputs.domains inputs c.domain id) sig.columns
        r.columns := by
  obtain ⟨ids, hget, hbound⟩ := h.relation n sig hsig
  obtain ⟨r', hr', he⟩ := hs.exists_eq hget
  obtain rfl : r' = r := Option.some.inj (hr'.symm.trans hr)
  have hsame : r'.signature = sig := congrArg Relation.signature he
  have hcolumns : r'.columns = ids := congrArg Relation.columns he
  rw [hc.domains, hcolumns]
  exact ⟨hsame, hbound⟩

theorem mem_artifacts {o : Outputs} {targets : List Target} {t : Target} {a : Artifact}
    (ht : t ∈ targets) (ha : o.artifact? t = some a) : a ∈ o.artifacts targets :=
  List.mem_filterMap.2 ⟨t, ht, ha⟩

/-- Outputs that carry the names of their targets are published under these. -/
theorem names_artifacts {o : Outputs} {s : Store} {targets : List Target}
    (h : ∀ t ∈ targets, ∃ a, o.artifact? t = some a ∧ a.name s = t.name) :
    (o.artifacts targets).map (·.name s) = targets.map Target.name := by
  induction targets with
  | nil => rfl
  | cons t targets ih =>
    obtain ⟨a, ha, hname⟩ := h t List.mem_cons_self
    have htail := ih fun u hu => h u (List.mem_cons_of_mem _ hu)
    simp only [artifacts, List.filterMap_cons, ha, List.map_cons, List.cons.injEq, hname, true_and]
    exact htail

end Outputs

/-! ## What a target is published as -/

/-- An artifact carries the name of a target and is of its kind. -/
def Artifact.Serves (s : Store) (t : Target) (a : Artifact) : Prop :=
  match t.kind, a with
  | .domain u, .domain id =>
    id.place < s.domains.length ∧ (s.get id).name = t.name ∧ (s.get id).factType = u
  | .relation _, .relation r => r.name = t.name
  | _, _ => False

/-- An artifact is what a target was declared to be. -/
def Artifact.Realizes (s : Store) (t : Target) (a : Artifact) : Prop :=
  match t.kind, a with
  | .domain u, .domain id =>
    id.place < s.domains.length ∧ (s.get id).name = t.name ∧ (s.get id).factType = u
  | .relation sig, .relation r => r.name = t.name ∧ r.signature = sig
  | _, _ => False

namespace Artifact.Serves

variable {s s' : Store} {t : Target} {a : Artifact}

theorem grows (h : a.Serves s t) (hs : s.Grows s') : a.Serves s' t := by
  obtain ⟨n, kind⟩ := t
  cases kind <;> cases a <;> try exact h.elim
  · obtain ⟨hlt, hn, ht⟩ := h
    exact ⟨hlt.trans_le hs.length_le, (hs.name_eq _ hlt).trans hn, (hs.factType_eq _ hlt).trans ht⟩
  · exact h

theorem name_eq (h : a.Serves s t) : a.name s = t.name := by
  obtain ⟨n, kind⟩ := t
  cases kind <;> cases a <;> try exact h.elim
  · exact h.2.1
  · exact h

/-- What serves a relation is what was declared if the signature is. -/
theorem realizes (h : a.Serves s t)
    (hsig : ∀ sig r, t.kind = .relation sig → a = .relation r → r.signature = sig) :
    a.Realizes s t := by
  obtain ⟨n, kind⟩ := t
  cases kind <;> cases a <;> try exact h.elim
  · exact h
  · exact ⟨h, hsig _ _ rfl rfl⟩

end Artifact.Serves

namespace Run

/-! ## The three outcomes -/

/-- The artifacts that the execution of a descriptor receives. -/
def received (r : Run) (d : Descriptor) : NameMap Artifact :=
  (r.mark .inProgress d.outputs).inputs d.consumes

/-- The run in which a step begins, its execution entered in the journal. -/
def begun (r : Run) (d : Descriptor) (store : Store) : Run :=
  { (r.mark .inProgress d.outputs).enter (.executed d.name (r.received d)) with store }

/-- The session in which a step begins. -/
def session (r : Run) (c : Config) (d : Descriptor) (o : Outputs) (store : Store) : Session :=
  ⟨d, c, r.received d, o, r.begun d store⟩

/-- How the execution of a descriptor can end. -/
inductive Outcome (r : Run) (c : Config) (d : Descriptor) : Except Error Unit × Run → Prop
  | unprepared {e : Error} {store : Store}
      (prepared : Outputs.prepare d (r.received d) r.store = (.error e, store)) :
      Outcome r c d
        (.error e, ((r.begun d store).fail d.outputs).record ⟨d.name, false, 0, []⟩)
  | failed {o : Outputs} {store : Store} {f : Failure} {s : Session}
      (prepared : Outputs.prepare d (r.received d) r.store = (.ok o, store))
      (ran : d.fill.run (r.session c d o store) = (.error f, s)) :
      Outcome r c d
        (.error (f.surface d.name), (s.run.fail d.outputs).record ⟨d.name, false, 0, []⟩)
  | succeeded {o : Outputs} {store : Store} {s : Session}
      (prepared : Outputs.prepare d (r.received d) r.store = (.ok o, store))
      (ran : d.fill.run (r.session c d o store) = (.ok (), s)) :
      Outcome r c d
        (.ok (), (s.run.publish (s.outputs.artifacts d.produces)).record
          ⟨d.name, true, 0, (s.outputs.artifacts d.produces).map fun a =>
            (a.name s.run.store, a.size s.run.store)⟩)

section

variable {r : Run} {c : Config} {d : Descriptor} {store : Store}

/-- The run in which the outputs of a descriptor are prepared. -/
def entered (r : Run) (d : Descriptor) : Run :=
  (r.mark .inProgress d.outputs).enter (.executed d.name (r.received d))

theorem fill_of_unprepared {e : Error}
    (h : Outputs.prepare d (r.received d) r.store = (.error e, store)) :
    (r.entered d).fill c d (r.received d) = (.error e, r.begun d store) := by
  have h' : Outputs.prepare d (r.received d) (r.entered d).store = (.error e, store) := h
  unfold fill
  rw [h']
  rfl

theorem fill_of_failed {o : Outputs} {f : Failure} {s : Session}
    (h : Outputs.prepare d (r.received d) r.store = (.ok o, store))
    (hrun : d.fill.run (r.session c d o store) = (.error f, s)) :
    (r.entered d).fill c d (r.received d) = (.error (f.surface d.name), s.run) := by
  have h' : Outputs.prepare d (r.received d) (r.entered d).store = (.ok o, store) := h
  have hrun' : d.fill.run ⟨d, c, r.received d, o, { r.entered d with store }⟩ = (.error f, s) :=
    hrun
  unfold fill
  rw [h']
  simp only [hrun']

theorem fill_of_succeeded {o : Outputs} {s : Session}
    (h : Outputs.prepare d (r.received d) r.store = (.ok o, store))
    (hrun : d.fill.run (r.session c d o store) = (.ok (), s)) :
    (r.entered d).fill c d (r.received d) = (.ok s.outputs, s.run) := by
  have h' : Outputs.prepare d (r.received d) (r.entered d).store = (.ok o, store) := h
  have hrun' : d.fill.run ⟨d, c, r.received d, o, { r.entered d with store }⟩ = (.ok (), s) :=
    hrun
  unfold fill
  rw [h']
  simp only [hrun']

theorem execute_of_error {e : Error} {r' : Run}
    (h : (r.entered d).fill c d (r.received d) = (.error e, r')) :
    r.execute c d = (.error e, (r'.fail d.outputs).record ⟨d.name, false, 0, []⟩) := by
  unfold entered received at h
  simp only [execute, h]

theorem execute_of_ok {o : Outputs} {r' : Run}
    (h : (r.entered d).fill c d (r.received d) = (.ok o, r')) :
    r.execute c d = (.ok (), (r'.publish (o.artifacts d.produces)).record
      ⟨d.name, true, 0, (o.artifacts d.produces).map fun a =>
        (a.name r'.store, a.size r'.store)⟩) := by
  unfold entered received at h
  simp only [execute, h]

end

/-- Every execution ends in one of the three ways. -/
theorem outcome_execute (r : Run) (c : Config) (d : Descriptor) :
    r.Outcome c d (r.execute c d) := by
  rcases hp : Outputs.prepare d (r.received d) r.store with ⟨e | o, store⟩
  · rw [execute_of_error (fill_of_unprepared hp)]
    exact .unprepared hp
  · rcases hr : d.fill.run (r.session c d o store) with ⟨f | ⟨⟩, s⟩
    · rw [execute_of_error (fill_of_failed hp hr)]
      exact .failed hp hr
    · rw [execute_of_ok (fill_of_succeeded hp hr)]
      exact .succeeded hp hr

/-! ## What an execution receives -/

/-- An execution receives the artifacts of the consumed names that are done, but never those
of its own outputs. -/
theorem get?_received (r : Run) (d : Descriptor) (n : String) :
    (r.received d).get? n =
      if n ∈ d.consumes ∧ n ∉ d.outputs ∧ r.status n = .done then r.artifact? n else none := by
  rw [received, get?_inputs, artifact?_mark, status_mark]
  by_cases h : n ∈ d.outputs <;> simp [h]

theorem artifact?_of_received {r : Run} {d : Descriptor} {n : String} {a : Artifact}
    (h : (r.received d).get? n = some a) :
    n ∈ d.consumes ∧ n ∉ d.outputs ∧ r.status n = .done ∧ r.artifact? n = some a := by
  rw [get?_received] at h
  split at h
  · rename_i hn
    exact ⟨hn.1, hn.2.1, hn.2.2, h⟩
  · cases h

/-! ## What an execution changes -/

/-- What every execution of a descriptor does. -/
structure Executed (r : Run) (d : Descriptor) (succeeded : Bool) (r' : Run) : Prop where
  status_other : ∀ n ∉ d.outputs, r'.status n = r.status n
  artifact?_other : ∀ n ∉ d.outputs, r'.artifact? n = r.artifact? n
  status : ∀ n ∈ d.outputs, r'.status n = if succeeded then .done else .failed
  store : r.store.Grows r'.store
  journal : ∃ notes, (∀ e ∈ notes, e.IsNote) ∧
    r'.journal = r.journal ++ .executed d.name (r.received d) :: notes
  metrics : ∃ sizes, r'.metrics.executions =
    r.metrics.executions ++ [⟨d.name, succeeded, 0, sizes⟩]

/-- What an execution that succeeds does. -/
structure Succeeded (r : Run) (d : Descriptor) (r' : Run) : Prop extends
    Executed r d true r' where
  served : ∀ t ∈ d.produces, ∃ a, r'.artifact? t.name = some a ∧ a.Serves r'.store t
  fresh : ∀ n ∈ d.outputs, ∀ id, r'.artifact? n = some (.domain id) →
    r.store.domains.length ≤ id.place

/-- Why the execution of a descriptor ended with an error. -/
inductive Cause (r : Run) (c : Config) (d : Descriptor) : Error → Prop
  /-- The outputs could not be prepared. -/
  | unprepared {e : Error} {store : Store}
      (prepared : Outputs.prepare d (r.received d) r.store = (.error e, store)) : Cause r c d e
  /-- The step failed with an error of the engine, whatever contexts it added. -/
  | raised {o : Outputs} {store : Store} {s : Session} {e : Error} {contexts : List String}
      (prepared : Outputs.prepare d (r.received d) r.store = (.ok o, store))
      (ran : d.fill.run (r.session c d o store) = (.error (.engine e contexts), s)) :
      Cause r c d e
  /-- The step failed with a message of its own. -/
  | reported {o : Outputs} {store : Store} {s : Session} {report : Report}
      (prepared : Outputs.prepare d (r.received d) r.store = (.ok o, store))
      (ran : d.fill.run (r.session c d o store) = (.error (.reported report), s)) :
      Cause r c d (.executionFailure d.name report)

/-- What an execution that fails does. -/
structure FailedWith (r : Run) (c : Config) (d : Descriptor) (e : Error) (r' : Run) : Prop extends
    Executed r d false r' where
  artifact?_none : ∀ n ∈ d.outputs, r'.artifact? n = none
  cause : Cause r c d e

/-- What a run has in common with the one in which an execution began. -/
structure Ran (r : Run) (d : Descriptor) (r' : Run) : Prop where
  status : ∀ n, r'.status n = (r.mark .inProgress d.outputs).status n
  artifact? : ∀ n, r'.artifact? n = r.artifact? n
  store : r.store.Grows r'.store
  journal : ∃ notes, (∀ e ∈ notes, e.IsNote) ∧
    r'.journal = r.journal ++ .executed d.name (r.received d) :: notes
  metrics : r'.metrics = r.metrics

theorem ran_begun {r : Run} {d : Descriptor} {store : Store} (h : r.store.Grows store) :
    r.Ran d (r.begun d store) :=
  ⟨fun _ => rfl, fun _ => rfl, h, ⟨[], by simp, rfl⟩, rfl⟩

theorem Ran.continues {r : Run} {d : Descriptor} {a b : Session} (h : r.Ran d a.run)
    (hc : a.Continues b) : r.Ran d b.run := by
  obtain ⟨notes, hn, hj⟩ := h.journal
  obtain ⟨notes', hn', hj'⟩ := hc.journal
  refine ⟨fun n => ?_, fun n => ?_, h.store.trans hc.store,
    ⟨notes ++ notes', ?_, ?_⟩, hc.metrics.trans h.metrics⟩
  · rw [← h.status]
    simp only [Run.status, hc.statuses]
  · rw [← h.artifact?]
    simp only [Run.artifact?, hc.artifacts]
  · exact fun e he => (List.mem_append.1 he).elim (hn e) (hn' e)
  · rw [hj', hj, List.append_assoc, List.cons_append]

theorem Ran.failed {r : Run} {d : Descriptor} {r' : Run} (h : r.Ran d r') :
    Executed r d false ((r'.fail d.outputs).record ⟨d.name, false, 0, []⟩) := by
  refine ⟨fun n hn => ?_, fun n hn => ?_, fun n hn => ?_, h.store, h.journal, [], ?_⟩
  · change (r'.fail d.outputs).status n = _
    rw [status_fail, if_neg hn, h.status, status_mark, if_neg hn]
  · change (r'.fail d.outputs).artifact? n = _
    rw [artifact?_fail, if_neg hn, h.artifact?]
  · change (r'.fail d.outputs).status n = _
    rw [status_fail, if_pos hn]
    rfl
  · rw [← h.metrics]
    rfl

theorem Ran.published {r : Run} {d : Descriptor} {r' : Run} (h : r.Ran d r')
    {published : List Artifact} (hp : published.map (·.name r'.store) = d.outputs)
    (sizes : List (String × Nat)) :
    Executed r d true ((r'.publish published).record ⟨d.name, true, 0, sizes⟩) := by
  refine ⟨fun n hn => ?_, fun n hn => ?_, fun n hn => ?_, h.store, h.journal, sizes, ?_⟩
  · change (r'.publish published).status n = _
    rw [status_publish, hp, if_neg hn, h.status, status_mark, if_neg hn]
  · change (r'.publish published).artifact? n = _
    rw [artifact?_publish_of_not_mem _ (by rwa [hp]), h.artifact?]
  · change (r'.publish published).status n = _
    rw [status_publish, hp, if_pos hn]
    rfl
  · rw [← h.metrics]
    rfl

section

variable {r : Run} {c : Config} {d : Descriptor} {o : Outputs} {store : Store}
  {answer : Except Failure Unit} {s : Session}

/-- The run when a step has ended. -/
theorem ran_of_run (hd : d.WellFormed)
    (prepared : Outputs.prepare d (r.received d) r.store = (.ok o, store))
    (ran : d.fill.run (r.session c d o store) = (answer, s)) : r.Ran d s.run := by
  have hgrows := Outputs.grows_prepare (r.received d) r.store hd.outputs_nodup
  rw [prepared] at hgrows
  have hc := d.fill.continues_run (r.session c d o store)
  rw [ran] at hc
  exact (ran_begun hgrows).continues hc

/-- The outputs when a step that keeps names has ended. -/
theorem filled_of_run (hd : d.WellFormed) (hk : d.fill.KeepsNames)
    (prepared : Outputs.prepare d (r.received d) r.store = (.ok o, store))
    (ran : d.fill.run (r.session c d o store) = (answer, s)) :
    Outputs.Filled d r.store s.outputs s.run.store := by
  have hc := d.fill.continues_run (r.session c d o store)
  have hs := Fill.same_name_run hk (s := r.session c d o store)
    (Outputs.ownNames_of_prepare prepared)
  rw [ran] at hc hs
  have hp : Outputs.Prepared d (r.received d) r.store o store :=
    Outputs.prepare_ok hd.outputs_nodup prepared
  exact hp.filled hc hs

end

/-- What an output is read as serves its target. -/
theorem exists_served {d : Descriptor} {s s' : Store} {o : Outputs}
    (h : Outputs.Filled d s o s') {t : Target} (ht : t ∈ d.produces) :
    ∃ a, o.artifact? t = some a ∧ a.Serves s' t := by
  obtain ⟨n, kind⟩ := t
  cases kind with
  | domain u =>
    obtain ⟨id, hid, -, hlt, hn, ht⟩ := h.domain n u ht
    exact ⟨.domain id, by simp [Outputs.artifact?, hid], hlt, hn, ht⟩
  | relation sig =>
    obtain ⟨r, hr, hn⟩ := h.relation n sig ht
    exact ⟨.relation r, by simp [Outputs.artifact?, hr], hn⟩

/-- What is published is the output that the step filled. -/
theorem artifact?_published {r : Run} {d : Descriptor} (hd : d.outputs.Nodup) {s : Store}
    {o : Outputs} (ho : Outputs.Filled d s o r.store) (e : Execution) {t : Target}
    (ht : t ∈ d.produces) :
    ((r.publish (o.artifacts d.produces)).record e).artifact? t.name = o.artifact? t := by
  have hnames : ∀ t ∈ d.produces, ∃ a, o.artifact? t = some a ∧ a.name r.store = t.name :=
    fun t ht => (exists_served ho ht).imp fun _ ⟨ha, hserves⟩ => ⟨ha, hserves.name_eq⟩
  obtain ⟨a, ha, hname⟩ := hnames t ht
  rw [ha, ← hname]
  refine artifact?_publish_of_mem r ?_ (Outputs.mem_artifacts ht ha)
  rw [Outputs.names_artifacts hnames]
  exact hd

theorem Ran.published_filled {r : Run} {d : Descriptor} {s : Session} (h : r.Ran d s.run)
    (hf : Outputs.Filled d r.store s.outputs s.run.store) (sizes : List (String × Nat)) :
    Executed r d true ((s.run.publish (s.outputs.artifacts d.produces)).record
      ⟨d.name, true, 0, sizes⟩) :=
  h.published (Outputs.names_artifacts fun _ ht =>
    (exists_served hf ht).imp fun _ ⟨ha, hserves⟩ => ⟨ha, hserves.name_eq⟩) sizes

theorem succeeded_of_filled {r : Run} {d : Descriptor} (hd : d.WellFormed) {s : Session}
    (hr : r.Ran d s.run) (hf : Outputs.Filled d r.store s.outputs s.run.store)
    (sizes : List (String × Nat)) :
    Succeeded r d ((s.run.publish (s.outputs.artifacts d.produces)).record
      ⟨d.name, true, 0, sizes⟩) := by
  have hget := fun {t} (ht : t ∈ d.produces) =>
    artifact?_published (r := s.run) hd.outputs_nodup hf ⟨d.name, true, 0, sizes⟩ ht
  refine ⟨hr.published_filled hf sizes, fun t ht => ?_, fun n hn id ha => ?_⟩
  · obtain ⟨a, ha, hserves⟩ := exists_served hf ht
    exact ⟨a, (hget ht).trans ha, hserves⟩
  · obtain ⟨⟨n, kind⟩, ht, rfl⟩ := Descriptor.mem_outputs.1 hn
    rw [hget ht] at ha
    cases kind with
    | domain u =>
      obtain ⟨id', hid, hle, -⟩ := hf.domain n u ht
      obtain rfl : id' = id := by simpa [Outputs.artifact?, hid] using ha
      exact hle
    | relation sig =>
      obtain ⟨r, hr, -⟩ := hf.relation n sig ht
      simp [Outputs.artifact?, hr] at ha

/-- An execution that succeeds publishes under the name of every target what serves it. -/
theorem execute_ok {r r' : Run} {c : Config} {d : Descriptor} (hd : d.WellFormed)
    (hk : d.fill.KeepsNames) (h : r.execute c d = (.ok (), r')) : Succeeded r d r' := by
  have ho := r.outcome_execute c d
  rw [h] at ho
  cases ho with
  | succeeded prepared ran =>
    exact succeeded_of_filled hd (ran_of_run hd prepared ran) (filled_of_run hd hk prepared ran) _

/-- A relation has the signature, and is over the domains that are published now. -/
structure Over (r : Run) (sig : Signature) (rel : Relation) : Prop where
  signature : rel.signature = sig
  columns : List.Forall₂ (fun c id => r.artifact? c.domain = some (.domain id)) sig.columns
    rel.columns

/-- A relation is over the published domains while these stay published. -/
theorem Over.congr {r r' : Run} {sig : Signature} {rel : Relation} (h : r.Over sig rel)
    (hdomains : ∀ c ∈ sig.columns, ∀ id, r.artifact? c.domain = some (.domain id) →
      r'.artifact? c.domain = some (.domain id)) : r'.Over sig rel := by
  refine ⟨h.signature, ?_⟩
  have hmem := (List.forall₂_and_left (p := (· ∈ sig.columns)) _ _).2
    ⟨fun _ hc => hc, h.columns⟩
  exact hmem.imp fun c id ⟨hc, hid⟩ => hdomains c hc id hid

/-- If the step replaced nothing, the relations are as declared over the published domains. -/
theorem declared_of_execute {r r' : Run} {c : Config} {d : Descriptor} (hd : d.WellFormed)
    (hi : d.fill.InPlace) (h : r.execute c d = (.ok (), r')) {n : String} {sig : Signature}
    (hsig : ⟨n, .relation sig⟩ ∈ d.produces) {rel : Relation}
    (hrel : r'.artifact? n = some (.relation rel)) : r'.Over sig rel := by
  have ho := r.outcome_execute c d
  rw [h] at ho
  cases ho with
  | @succeeded o store s prepared ran =>
    have hran := ran_of_run hd prepared ran
    have hf := filled_of_run hd hi.keepsNames prepared ran
    have hget := fun {t} (ht : t ∈ d.produces) (e : Execution) =>
      artifact?_published (r := s.run) hd.outputs_nodup hf e ht
    have hc := d.fill.continues_run (r.session c d o store)
    have hs := Fill.same_emptied_run hi (s := r.session c d o store)
      (Outputs.ownNames_of_prepare prepared)
    rw [ran] at hc hs
    have hp : Outputs.Prepared d (r.received d) r.store o store :=
      Outputs.prepare_ok hd.outputs_nodup prepared
    rw [hget hsig _] at hrel
    have hout : s.outputs.relations.get? n = some rel := by
      simpa [Outputs.artifact?] using hrel
    obtain ⟨hsame, hbound⟩ := hp.bound hc hs hsig hout
    refine ⟨hsame, hbound.imp fun c id hb => ?_⟩
    rcases hb with hown | ⟨hown, hin⟩
    · obtain ⟨u, hu⟩ := hf.domain_only c.domain id hown
      rw [hget hu _]
      simp [Outputs.artifact?, hown]
    · obtain ⟨-, hnot, -, hart⟩ := artifact?_of_received hin
      rw [(hran.published_filled hf _).artifact?_other _ hnot, hart]

/-- An execution that fails leaves its outputs failed and without artifacts. -/
theorem execute_error {r r' : Run} {c : Config} {d : Descriptor} (hd : d.WellFormed)
    {e : Error} (h : r.execute c d = (.error e, r')) : FailedWith r c d e r' := by
  have ho := r.outcome_execute c d
  rw [h] at ho
  cases ho with
  | unprepared prepared =>
    have hgrows := Outputs.grows_prepare (r.received d) r.store hd.outputs_nodup
    rw [prepared] at hgrows
    refine ⟨(ran_begun hgrows).failed, fun n hn => ?_, .unprepared prepared⟩
    exact (artifact?_fail _ _ n).trans (if_pos hn)
  | @failed o store f s prepared ran =>
    refine ⟨(ran_of_run hd prepared ran).failed, fun n hn => ?_, ?_⟩
    · exact (artifact?_fail _ _ n).trans (if_pos hn)
    · cases f with
      | engine e contexts => exact .raised prepared ran
      | reported report => exact .reported prepared ran

theorem executed_execute (r : Run) (c : Config) {d : Descriptor} (hd : d.WellFormed)
    (hk : d.fill.KeepsNames) : ∃ succeeded, Executed r d succeeded (r.execute c d).2 := by
  rcases h : r.execute c d with ⟨e | ⟨⟩, r'⟩
  · exact ⟨false, (execute_error hd h).toExecuted⟩
  · exact ⟨true, (execute_ok hd hk h).toExecuted⟩

end Run

end FactEngine
