import FactEngine.Proofs.History
import Mathlib.Logic.Function.Iterate
import Mathlib.Logic.Relation

/-!
# A run step by step

A request for a target takes many steps : the check of the signal before each execution, the
preparation of outputs, the actions of a population step one by one, and the publication. A
`Moment` is a scheduler with what it is busy with, and `Moment.next` takes the next of these
steps. From the moment in which a request is accepted they lead to the scheduler that has handled
it (`Moment.leads_accept`), so what is said of all moments is said of every run.

While a scheduler is busy, its clients can work on the token and intern facts in domains that they
hold, since neither waits for a request to be finished. `Moment.Reaches` takes that into account.

If steps keep names, every moment that can be reached is `Moment.Sound` : the descriptors left to
execute are scheduled, and a population step that is under way was prepared by a coherent run and
has done since then what steps may do.
-/

namespace FactEngine

/-- What a scheduler is busy with. -/
inductive Phase where
  /-- It waits for a request. -/
  | idle
  /-- It executes descriptors, of which these are left. -/
  | executing (rest : List Nat)
  /-- It fills the outputs of a descriptor. This is left of the population step, and these of the
  descriptors. -/
  | filling (i : Nat) (inputs : NameMap Artifact) (outputs : Outputs) (fill : Fill)
    (rest : List Nat)

/-- A scheduler, and what it is busy with. -/
structure Moment where
  scheduler : Scheduler
  phase : Phase

/-! ## Single steps -/

namespace Run

/-- The run after the execution of a descriptor that failed. -/
def failing (r : Run) (d : Descriptor) : Run :=
  (r.fail d.outputs).record ⟨d.name, false, 0, []⟩

/-- The run after the execution of a descriptor that filled its outputs. -/
def publishing (r : Run) (d : Descriptor) (o : Outputs) : Run :=
  (r.publish (o.artifacts d.produces)).record
    ⟨d.name, true, 0, (o.artifacts d.produces).map fun a => (a.name r.store, a.size r.store)⟩

end Run

/-- An execution that fails leaves a coherent run. -/
theorem Run.Coherent.of_ran_failing {registry : Registry} {r r' : Run} {i : Nat}
    (h : r.Coherent registry) (hr : registry.WellFormed)
    (hran : r.Ran (registry.descriptor i) r') :
    (r'.failing (registry.descriptor i)).Coherent registry := by
  have hnone : ∀ n ∈ (registry.descriptor i).outputs,
      (r'.failing (registry.descriptor i)).artifact? n = none := fun n hn =>
    (Run.artifact?_fail _ _ n).trans (if_pos hn)
  refine h.of_executed hr hran.failed (fun n hn => ?_) fun t ht a hta => ?_
  · simp [hnone n hn]
  · change (r'.failing (registry.descriptor i)).artifact? t.name = some a at hta
    rw [hnone _ (Descriptor.mem_outputs.2 ⟨t, ht, rfl⟩)] at hta
    cases hta

namespace Scheduler

/-- The session in which the outputs of a descriptor are filled. -/
def session (s : Scheduler) (i : Nat) (inputs : NameMap Artifact) (outputs : Outputs) : Session :=
  ⟨s.registry.descriptor i, s.config, inputs, outputs, s.run⟩

/-- Prepare the outputs of a descriptor. -/
def start (s : Scheduler) (i : Nat) (rest : List Nat) : Moment :=
  let d := s.registry.descriptor i
  match Outputs.prepare d (s.run.received d) s.run.store with
  | (.error _, store) => ⟨{ s with run := (s.run.begun d store).failing d }, .idle⟩
  | (.ok outputs, store) =>
    ⟨{ s with run := s.run.begun d store },
      .filling i (s.run.received d) outputs d.fill rest⟩

/-- Plan what a target needs, and turn to the first descriptor. -/
def embark (s : Scheduler) (target : String) : Moment :=
  match s.plan target with
  | .error _ => ⟨s, .idle⟩
  | .ok sequence => ⟨s, .executing sequence⟩

/-- Turn to a target, unless there is an answer at once. -/
def turnTo (s : Scheduler) (target : String) : Moment :=
  match s.registry.lookup target with
  | .error _ => ⟨s, .idle⟩
  | .ok _ =>
    match s.run.status target, s.run.artifact? target with
    | .done, some _ => ⟨s, .idle⟩
    | .failed, _ => ⟨s, .idle⟩
    | _, _ => s.embark target

/-- A target is answered at once, or the scheduler begins to execute what it needs. -/
theorem turnTo_cases (s : Scheduler) (target : String) :
    s.turnTo target = ⟨s, .idle⟩ ∨
      ∃ sequence, s.plan target = .ok sequence ∧
        s.turnTo target = ⟨s, .executing sequence⟩ := by
  have hembark : s.embark target = ⟨s, .idle⟩ ∨
      ∃ sequence, s.plan target = .ok sequence ∧
        s.embark target = ⟨s, .executing sequence⟩ := by
    unfold embark
    cases hp : s.plan target with
    | error e => exact Or.inl rfl
    | ok sequence => exact Or.inr ⟨sequence, rfl, rfl⟩
  unfold turnTo
  split
  · exact Or.inl rfl
  · split
    · exact Or.inl rfl
    · exact Or.inl rfl
    · exact hembark

/-- Accept a request. All but those for targets are done at once. -/
def accept (s : Scheduler) : Request → Moment
  | .materialize target => s.turnTo target
  | q => ⟨s.handle q, .idle⟩

theorem after_concat (s : Scheduler) (history : List Request) (q : Request) :
    s.after (history ++ [q]) = (s.after history).handle q :=
  List.foldl_concat _ _ _ _

end Scheduler

namespace Moment

/-- The run at a moment. -/
def run (m : Moment) : Run :=
  m.scheduler.run

/-- The domains at a moment. -/
def store (m : Moment) : Store :=
  m.scheduler.run.store

/-- The next step of what the scheduler is busy with. -/
def next : Moment → Moment
  | ⟨s, .idle⟩ => ⟨s, .idle⟩
  | ⟨s, .executing []⟩ => ⟨s, .idle⟩
  | ⟨s, .executing (i :: rest)⟩ =>
    match s.update (·.checkCancelled (s.registry.nameOf i)) with
    | (.error _, s) => ⟨s, .idle⟩
    | (.ok (), s) => s.start i rest
  | ⟨s, .filling i _ outputs .finish rest⟩ =>
    ⟨{ s with run := s.run.publishing (s.registry.descriptor i) outputs }, .executing rest⟩
  | ⟨s, .filling i _ _ (.fail _) _⟩ =>
    ⟨{ s with run := s.run.failing (s.registry.descriptor i) }, .idle⟩
  | ⟨s, .filling i inputs outputs (.step a go) rest⟩ =>
    match (s.session i inputs outputs).perform a with
    | (reply, x) => ⟨{ s with run := x.run }, .filling i inputs x.outputs (go reply) rest⟩

/-- What can happen to a scheduler next. -/
inductive Step : Moment → Moment → Prop
  /-- A request is accepted. -/
  | request (s : Scheduler) (q : Request) : Step ⟨s, .idle⟩ (s.accept q)
  /-- The scheduler goes on. -/
  | next (m : Moment) : Step m m.next
  /-- A client works on the token, or interns facts in a domain that it holds. -/
  | client (m : Moment) (q : Request) (hq : ¬q.IsPlain) :
      Step m { m with scheduler := m.scheduler.handle q }

/-- The second moment can come some time after the first. -/
def Reaches : Moment → Moment → Prop :=
  Relation.ReflTransGen Step

/-- The moment can come in a run of a scheduler with the registry and the configuration. -/
def Reachable (registry : Registry) (c : Config) (m : Moment) : Prop :=
  Reaches ⟨Scheduler.new registry c, .idle⟩ m

/-! ## Steps and requests -/

/-- The steps of the scheduler take it from the first moment to the second. -/
def Leads (m m' : Moment) : Prop :=
  ∃ k, next^[k] m = m'

variable {m m' m'' : Moment}

theorem Leads.refl (m : Moment) : m.Leads m :=
  ⟨0, rfl⟩

theorem Leads.trans (h : m.Leads m') (h' : m'.Leads m'') : m.Leads m'' := by
  obtain ⟨k, rfl⟩ := h
  obtain ⟨l, rfl⟩ := h'
  exact ⟨l + k, Function.iterate_add_apply _ _ _ _⟩

theorem Leads.of_next (h : m.next.Leads m') : m.Leads m' :=
  .trans ⟨1, rfl⟩ h

/-- Unless the scheduler is there already, it gets there after its next step. -/
theorem Leads.next (h : m.Leads m') (hne : m ≠ m') : m.next.Leads m' := by
  obtain ⟨k, rfl⟩ := h
  cases k with
  | zero => exact (hne rfl).elim
  | succ k => exact ⟨k, rfl⟩

theorem Leads.reaches (h : m.Leads m') : m.Reaches m' := by
  obtain ⟨k, rfl⟩ := h
  induction k generalizing m with
  | zero => exact .refl
  | succ k ih => exact (Relation.ReflTransGen.single (.next m)).trans ih

/-- The session of an execution that begins is the one in which its outputs are filled. -/
theorem session_eq (s : Scheduler) (i : Nat) (o : Outputs) (store : Store) :
    s.run.session s.config (s.registry.descriptor i) o store =
      ({ s with run := s.run.begun (s.registry.descriptor i) store } : Scheduler).session i
        (s.run.received (s.registry.descriptor i)) o :=
  rfl

theorem session_of_continues {s : Scheduler} {i : Nat} {inputs : NameMap Artifact}
    {outputs : Outputs} {x : Session} (h : (s.session i inputs outputs).Continues x) :
    ({ s with run := x.run } : Scheduler).session i inputs x.outputs = x := by
  obtain ⟨d, c, inputs', outputs', r⟩ := x
  obtain rfl : d = _ := h.descriptor
  obtain rfl : c = _ := h.config
  obtain rfl : inputs' = _ := h.inputs
  rfl

/-- The steps of a population step lead to where the whole of it ends. -/
theorem leads_filling (s : Scheduler) (i : Nat) (inputs : NameMap Artifact) (outputs : Outputs)
    (fill : Fill) (rest : List Nat) :
    Leads ⟨s, .filling i inputs outputs fill rest⟩
      (match fill.run (s.session i inputs outputs) with
      | (.error _, x) => ⟨{ s with run := x.run.failing (s.registry.descriptor i) }, .idle⟩
      | (.ok (), x) =>
        ⟨{ s with run := x.run.publishing (s.registry.descriptor i) x.outputs },
          .executing rest⟩) := by
  induction fill generalizing s outputs with
  | finish => exact .of_next (.refl _)
  | fail f => exact .of_next (.refl _)
  | step a go ih =>
    have hx := session_of_continues ((s.session i inputs outputs).continues_perform a)
    refine .of_next ?_
    have h := ih ((s.session i inputs outputs).perform a).1
      { s with run := ((s.session i inputs outputs).perform a).2.run }
      ((s.session i inputs outputs).perform a).2.outputs
    rw [hx] at h
    exact h

theorem start_of_error {s : Scheduler} {i : Nat} {e : Error} {store : Store}
    (h : Outputs.prepare (s.registry.descriptor i) (s.run.received (s.registry.descriptor i))
      s.run.store = (.error e, store)) (rest : List Nat) :
    s.start i rest =
      ⟨{ s with
        run := (s.run.begun (s.registry.descriptor i) store).failing (s.registry.descriptor i) },
        .idle⟩ := by
  simp only [Scheduler.start, h]

theorem start_of_ok {s : Scheduler} {i : Nat} {o : Outputs} {store : Store}
    (h : Outputs.prepare (s.registry.descriptor i) (s.run.received (s.registry.descriptor i))
      s.run.store = (.ok o, store)) (rest : List Nat) :
    s.start i rest =
      ⟨{ s with run := s.run.begun (s.registry.descriptor i) store },
        .filling i (s.run.received (s.registry.descriptor i)) o (s.registry.descriptor i).fill
          rest⟩ := by
  simp only [Scheduler.start, h]

/-- The steps of an execution lead to where the whole of it ends. -/
theorem leads_start (s : Scheduler) (i : Nat) (rest : List Nat) :
    Leads (s.start i rest)
      (match s.run.execute s.config (s.registry.descriptor i) with
      | (.error _, run) => ⟨{ s with run }, .idle⟩
      | (.ok (), run) => ⟨{ s with run }, .executing rest⟩) := by
  have hout := s.run.outcome_execute s.config (s.registry.descriptor i)
  generalize s.run.execute s.config (s.registry.descriptor i) = result at hout
  cases hout with
  | unprepared prepared =>
    rw [start_of_error prepared]
    exact .refl _
  | @failed o store f x prepared ran =>
    rw [start_of_ok prepared]
    have h := leads_filling { s with run := s.run.begun (s.registry.descriptor i) store } i
      (s.run.received (s.registry.descriptor i)) o (s.registry.descriptor i).fill rest
    rw [← session_eq, ran] at h
    exact h
  | @succeeded o store x prepared ran =>
    rw [start_of_ok prepared]
    have h := leads_filling { s with run := s.run.begun (s.registry.descriptor i) store } i
      (s.run.received (s.registry.descriptor i)) o (s.registry.descriptor i).fill rest
    rw [← session_eq, ran] at h
    exact h

/-- Before an execution the signal is asked, which lets an expired timeout take effect. -/
theorem next_executing (s : Scheduler) (i : Nat) (rest : List Nat) :
    next ⟨s, .executing (i :: rest)⟩ =
      if s.run.signal.isCancelled.1 then
        ⟨{ s with run := { s.run with signal := s.run.signal.isCancelled.2 } }, .idle⟩
      else s.start i rest := by
  obtain ⟨registry, config, run⟩ := s
  simp only [next, Scheduler.update, Run.checkCancelled]
  rcases hc : run.signal.isCancelled with ⟨_ | _, signal⟩
  · have hs := Signal.isCancelled_snd (congrArg Prod.fst hc)
    rw [hc] at hs
    obtain rfl : signal = run.signal := hs
    rfl
  · rfl

/-- The steps of the loop lead to where it ends. -/
theorem leads_executing (s : Scheduler) (sequence : List Nat) :
    Leads ⟨s, .executing sequence⟩ ⟨(s.executeAll sequence).2, .idle⟩ := by
  induction sequence generalizing s with
  | nil => exact .of_next (.refl _)
  | cons i rest ih =>
    refine .of_next ?_
    rw [next_executing, Scheduler.executeAll_cons]
    split
    · exact .refl _
    · refine (leads_start s i rest).trans ?_
      rcases s.run.execute s.config (s.registry.descriptor i) with ⟨e | ⟨⟩, run⟩
      · exact .refl _
      · exact ih _

theorem leads_embark (s : Scheduler) (target : String) :
    Leads (s.embark target) ⟨(s.compute target).2, .idle⟩ := by
  unfold Scheduler.embark
  cases hp : s.plan target with
  | error e =>
    have hcompute : s.compute target = (.error e, s) := by rw [Scheduler.compute, hp]
    rw [hcompute]
    exact .refl _
  | ok sequence =>
    rw [s.compute_snd target hp]
    exact leads_executing s sequence

theorem leads_turnTo (s : Scheduler) (target : String) :
    Leads (s.turnTo target) ⟨(s.materialize target).2, .idle⟩ := by
  unfold Scheduler.turnTo Scheduler.materialize
  cases s.registry.lookup target with
  | error e => exact .refl _
  | ok d =>
    cases s.run.status target with
    | failed => exact .refl _
    | done =>
      cases s.run.artifact? target with
      | none => exact leads_embark s target
      | some a => exact .refl _
    | notStarted => exact leads_embark s target
    | inProgress => exact leads_embark s target

/-- The steps after a request was accepted lead to the scheduler that has handled it. -/
theorem leads_accept (s : Scheduler) (q : Request) : Leads (s.accept q) ⟨s.handle q, .idle⟩ := by
  cases q with
  | materialize target => exact leads_turnTo s target
  | _ => exact .refl _

theorem reaches_handle (s : Scheduler) (q : Request) : Reaches ⟨s, .idle⟩ ⟨s.handle q, .idle⟩ :=
  .head (.request s q) (leads_accept s q).reaches

/-- Every history can come about. -/
theorem reachable_after (registry : Registry) (c : Config) (history : List Request) :
    Reachable registry c ⟨(Scheduler.new registry c).after history, .idle⟩ := by
  induction history using List.reverseRecOn with
  | nil => exact .refl
  | append_singleton history q ih =>
    rw [Scheduler.after_concat]
    exact ih.trans (reaches_handle _ q)

/-- So can every moment in which a request is handled. -/
theorem reachable_accept (registry : Registry) (c : Config) (history : List Request) (q : Request)
    (k : Nat) :
    Reachable registry c (next^[k] (((Scheduler.new registry c).after history).accept q)) := by
  have hsteps : Leads (((Scheduler.new registry c).after history).accept q)
      (next^[k] (((Scheduler.new registry c).after history).accept q)) := ⟨k, rfl⟩
  exact ((reachable_after registry c history).tail (.request _ q)).trans hsteps.reaches

/-! ## The registry -/

theorem registry_accept (s : Scheduler) (q : Request) :
    (s.accept q).scheduler.registry = s.registry := by
  cases q with
  | materialize target =>
    rw [Scheduler.accept]
    rcases s.turnTo_cases target with h | ⟨sequence, -, h⟩ <;> rw [h]
  | invalidate target =>
    simp only [Scheduler.accept, Scheduler.handle, Scheduler.invalidate]
    split <;> rfl
  | _ => rfl

theorem registry_start (s : Scheduler) (i : Nat) (rest : List Nat) :
    (s.start i rest).scheduler.registry = s.registry := by
  rcases hp : Outputs.prepare (s.registry.descriptor i)
    (s.run.received (s.registry.descriptor i)) s.run.store with ⟨e | o, store⟩
  · rw [start_of_error hp]
  · rw [start_of_ok hp]

theorem registry_next (m : Moment) : m.next.scheduler.registry = m.scheduler.registry := by
  obtain ⟨s, phase⟩ := m
  cases phase with
  | idle => rfl
  | executing rest =>
    cases rest with
    | nil => rfl
    | cons i rest =>
      rw [next_executing]
      split
      · rfl
      · exact registry_start s i rest
  | filling i inputs outputs fill rest => cases fill <;> rfl

/-- The registry of a scheduler never changes. -/
theorem registry_of_reachable {registry : Registry} {c : Config}
    (h : Reachable registry c m) : m.scheduler.registry = registry := by
  induction h with
  | refl => rfl
  | tail _ hstep ih =>
    rw [← ih]
    cases hstep with
    | request s q => exact registry_accept s q
    | next => exact registry_next _
    -- what a client does at any time is no request for a target, and is done at once
    | client m q hq =>
      cases q with
      | materialize target => exact absurd trivial hq
      | invalidate target => exact absurd trivial hq
      | _ => rfl

/-! ## Sound moments -/

/-- A population step is under way. It was prepared when the run was `r₀`, and since then only
what the step and clients may do was done. -/
structure Underway (s : Scheduler) (i : Nat) (inputs : NameMap Artifact) (outputs : Outputs)
    (rest : List Nat) (r₀ : Run) (o : Outputs) (store : Store) : Prop where
  coherent : r₀.Coherent s.registry
  scheduled : r₀.Scheduled s.registry (i :: rest)
  prepared : Outputs.prepare (s.registry.descriptor i) (r₀.received (s.registry.descriptor i))
    r₀.store = (.ok o, store)
  continues : (r₀.session s.config (s.registry.descriptor i) o store).Continues
    (s.session i inputs outputs)
  named : o.Same Relation.name outputs
  kept : (s.registry.descriptor i).fill.InPlace → o.Same Relation.emptied outputs

/-- What is left of a step keeps names, and replaces nothing if the whole step does not. -/
structure Within (fill whole : Fill) : Prop where
  keepsNames : fill.KeepsNames
  inPlace : whole.InPlace → fill.InPlace

/-- What holds of a scheduler that is busy. -/
def Sound : Moment → Prop
  | ⟨s, .idle⟩ => s.registry.Proper ∧ s.run.Coherent s.registry
  | ⟨s, .executing rest⟩ =>
    s.registry.Proper ∧ s.run.Coherent s.registry ∧ s.run.Scheduled s.registry rest
  | ⟨s, .filling i inputs outputs fill rest⟩ =>
    s.registry.Proper ∧ Within fill (s.registry.descriptor i).fill ∧
      ∃ r₀ o store, Underway s i inputs outputs rest r₀ o store

namespace Underway

variable {s : Scheduler} {i : Nat} {inputs : NameMap Artifact} {outputs : Outputs}
  {rest : List Nat} {r₀ : Run} {o : Outputs} {store : Store}

theorem ready (h : Underway s i inputs outputs rest r₀ o store) : r₀.Ready s.registry i :=
  h.scheduled.ready

theorem inputs_eq (h : Underway s i inputs outputs rest r₀ o store) :
    inputs = r₀.received (s.registry.descriptor i) :=
  h.continues.inputs

theorem wellFormed (h : Underway s i inputs outputs rest r₀ o store)
    (hr : s.registry.WellFormed) : (s.registry.descriptor i).WellFormed :=
  hr.built _ (Registry.descriptor_mem h.ready.bound)

/-- What the run has in common with the one in which the execution began. -/
theorem ran (h : Underway s i inputs outputs rest r₀ o store) (hr : s.registry.WellFormed) :
    r₀.Ran (s.registry.descriptor i) s.run := by
  have hgrows := Outputs.grows_prepare (r₀.received (s.registry.descriptor i)) r₀.store
    (h.wellFormed hr).outputs_nodup
  rw [h.prepared] at hgrows
  exact (Run.ran_begun hgrows).continues h.continues

theorem filled (h : Underway s i inputs outputs rest r₀ o store) (hr : s.registry.WellFormed) :
    Outputs.Filled (s.registry.descriptor i) r₀.store outputs s.run.store := by
  have hp : Outputs.Prepared (s.registry.descriptor i) (r₀.received (s.registry.descriptor i))
      r₀.store o store := Outputs.prepare_ok (h.wellFormed hr).outputs_nodup h.prepared
  exact hp.filled h.continues h.named

/-- Every output relation carries the name of its place. -/
theorem ownNames (h : Underway s i inputs outputs rest r₀ o store) : outputs.OwnNames :=
  h.named.ownNames (Outputs.ownNames_of_prepare h.prepared)

/-- When the outputs have been filled, the rest can be executed. -/
theorem published (h : Underway s i inputs outputs rest r₀ o store) (hr : s.registry.WellFormed) :
    (s.run.publishing (s.registry.descriptor i) outputs).Coherent s.registry ∧
      (s.run.publishing (s.registry.descriptor i) outputs).Scheduled s.registry rest := by
  have hsucceeded := Run.succeeded_of_filled (h.wellFormed hr) (s := s.session i inputs outputs)
    (h.ran hr) (h.filled hr)
    ((outputs.artifacts (s.registry.descriptor i).produces).map fun a =>
      (a.name s.run.store, a.size s.run.store))
  exact ⟨h.coherent.of_succeeded hr hsucceeded, h.scheduled.step hr hsucceeded.toExecuted⟩

/-- When the step has failed, its outputs have. -/
theorem failed (h : Underway s i inputs outputs rest r₀ o store) (hr : s.registry.WellFormed) :
    (s.run.failing (s.registry.descriptor i)).Coherent s.registry :=
  h.coherent.of_ran_failing hr (h.ran hr)

/-- What the step may do leaves it under way. -/
theorem advance (h : Underway s i inputs outputs rest r₀ o store) {x : Session}
    (hx : (s.session i inputs outputs).Continues x)
    (hnamed : outputs.Same Relation.name x.outputs)
    (hkept : (s.registry.descriptor i).fill.InPlace →
      outputs.Same Relation.emptied x.outputs) :
    Underway { s with run := x.run } i inputs x.outputs rest r₀ o store := by
  refine ⟨h.coherent, h.scheduled, h.prepared, ?_, h.named.trans hnamed,
    fun hi => (h.kept hi).trans (hkept hi)⟩
  rw [session_of_continues hx]
  exact h.continues.trans hx

end Underway

/-- A client changes the signal, or lets a domain that it holds grow. -/
theorem client_cases (s : Scheduler) {q : Request} (hq : ¬q.IsPlain) :
    (∃ signal, s.handle q = { s with run := { s.run with signal } }) ∨
      ∃ (a : Artifact) (t : FactType) (fs : List t.Carrier),
        s.handle q = { s with run := { s.run with store := (a.extend s.run.store t fs).2 } } := by
  cases q with
  | materialize target => exact absurd trivial hq
  | invalidate target => exact absurd trivial hq
  | reset => exact absurd trivial hq
  | cancel reason => exact Or.inl ⟨_, rfl⟩
  | setTimeout ms => exact Or.inl ⟨_, rfl⟩
  | askCancelled => exact Or.inl ⟨_, rfl⟩
  | clearSignal => exact Or.inl ⟨_, rfl⟩
  | extend a t fs => exact Or.inr ⟨a, t, fs, rfl⟩

/-- Another signal and a grown store do not matter. -/
theorem Sound.of_grown {s : Scheduler} {phase : Phase} (h : Sound ⟨s, phase⟩) (signal : Signal)
    {store : Store} (hg : s.run.store.Grows store) :
    Sound ⟨{ s with run := { s.run with signal, store } }, phase⟩ := by
  cases phase with
  | idle => exact ⟨h.1, h.2.of_grows (fun _ => rfl) (fun _ => rfl) hg⟩
  | executing rest =>
    obtain ⟨hr, hc, hsched⟩ := h
    exact ⟨hr, hc.of_grows (fun _ => rfl) (fun _ => rfl) hg,
      hsched.nodup, hsched.bound, hsched.idle, hsched.served⟩
  | filling i inputs outputs fill rest =>
    obtain ⟨hr, hfill, r₀, o, store₀, hu⟩ := h
    have hx : (s.session i inputs outputs).Continues
        ⟨s.registry.descriptor i, s.config, inputs, outputs, { s.run with signal, store }⟩ :=
      ⟨rfl, rfl, rfl, rfl, rfl, rfl, rfl, hg, [], by simp, (List.append_nil _).symm⟩
    exact ⟨hr, hfill, r₀, o, store₀, hu.advance hx (.refl _ _) fun _ => .refl _ _⟩

theorem Sound.client {q : Request} (h : m.Sound) (hq : ¬q.IsPlain) :
    Sound { m with scheduler := m.scheduler.handle q } := by
  obtain ⟨s, phase⟩ := m
  rcases client_cases s hq with ⟨signal, hs⟩ | ⟨a, t, fs, hs⟩
  · rw [hs]
    exact h.of_grown signal (.refl _)
  · rw [hs]
    exact h.of_grown s.run.signal (a.grows_extend s.run.store t fs)

theorem Sound.accept {s : Scheduler} (h : Sound ⟨s, .idle⟩) (q : Request) :
    (s.accept q).Sound := by
  have hhandle : Sound ⟨s.handle q, .idle⟩ := by
    obtain ⟨r, hs, hc⟩ := (Run.stable_coherent h.1 s.config).handle h.1
      (fun _ h => h.of_grows (fun _ => rfl) (fun _ => rfl) (.refl _))
      (fun hg h => h.of_grows (fun _ => rfl) (fun _ => rfl) hg) h.2 q
    rw [hs]
    exact ⟨h.1, hc⟩
  cases q with
  | materialize target =>
    rw [Scheduler.accept]
    rcases s.turnTo_cases target with hs | ⟨sequence, hp, hs⟩
    · rwa [hs]
    · rw [hs]
      exact ⟨h.1, h.2, (Scheduler.plan_ok h.1.toWellFormed h.2 hp).scheduled⟩
  | _ => exact hhandle

theorem Sound.start {s : Scheduler} {i : Nat} {rest : List Nat}
    (h : Sound ⟨s, .executing (i :: rest)⟩) : (s.start i rest).Sound := by
  obtain ⟨hr, hc, hsched⟩ := h
  have hd := hr.built _ (Registry.descriptor_mem hsched.ready.bound)
  rcases hp : Outputs.prepare (s.registry.descriptor i)
    (s.run.received (s.registry.descriptor i)) s.run.store with ⟨e | o, store⟩
  · rw [start_of_error hp]
    have hgrows := Outputs.grows_prepare (s.run.received (s.registry.descriptor i)) s.run.store
      hd.outputs_nodup
    rw [hp] at hgrows
    exact ⟨hr, hc.of_ran_failing hr.toWellFormed (Run.ran_begun hgrows)⟩
  · rw [start_of_ok hp]
    exact ⟨hr, ⟨hr.keepsNames i, id⟩, s.run, o, store, hc, hsched, hp, .refl _, .refl _ _,
      fun _ => .refl _ _⟩

theorem Sound.next (h : m.Sound) : m.next.Sound := by
  obtain ⟨s, phase⟩ := m
  cases phase with
  | idle => exact h
  | executing rest =>
    cases rest with
    | nil => exact ⟨h.1, h.2.1⟩
    | cons i rest =>
      rw [next_executing]
      split
      · exact ⟨h.1, h.2.1.of_grows (fun _ => rfl) (fun _ => rfl) (.refl _)⟩
      · exact h.start
  | filling i inputs outputs fill rest =>
    obtain ⟨hr, hfill, r₀, o, store, hu⟩ := h
    cases fill with
    | finish => exact ⟨hr, hu.published hr.toWellFormed⟩
    | fail f => exact ⟨hr, hu.failed hr.toWellFormed⟩
    | step a go =>
      have hown := hu.ownNames
      refine ⟨hr, ⟨hfill.keepsNames.2 _, fun hi => (hfill.inPlace hi).2 _⟩, r₀, o, store,
        hu.advance (Session.continues_perform _ a) ?_ fun hi => ?_⟩
      · exact Session.same_name_perform (s := s.session i inputs outputs) hown
          hfill.keepsNames.1
      · exact Session.same_emptied_perform (s := s.session i inputs outputs) hown
          (hfill.inPlace hi).1

theorem Sound.step (h : m.Sound) (hs : m.Step m') : m'.Sound := by
  cases hs with
  | request s q => exact h.accept q
  | next => exact h.next
  | client _ q hq => exact h.client hq

/-- If steps keep names, every moment of every run is sound. -/
theorem sound_of_reachable {ds : List Draft} (hk : ∀ d ∈ ds, d.fill.KeepsNames) {c : Config}
    (h : Reachable (.ofDrafts ds) c m) : m.Sound := by
  induction h with
  | refl => exact ⟨Registry.proper_ofDrafts hk, .empty⟩
  | tail _ hs ih => exact ih.step hs

end Moment

end FactEngine
