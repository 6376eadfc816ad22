import FactEngine.Analysis.Resolution
import FactEngine.Run.Session

/-!
# The scheduler

A scheduler owns a registry, a configuration and a run, and answers requests for targets.

`Scheduler.materialize` answers with the artifact of a target that is done, and otherwise
executes what the target needs first. Everything that can be refused without an execution
is checked before the first one : the target must be known, it must not have failed, its
order must resolve, and nothing in the order may have failed. Then the descriptors are
executed one by one (`Scheduler.executeAll`), each unless the run is cancelled, until one
fails. A sequential configuration executes them in the resolved order, a parallel one batch
by batch with a single worker (`Registry.schedule`).

An execution (`Run.execute`) takes the consumed artifacts that are done, makes the outputs,
lets the step fill them, and publishes what it finds in their places, or fails them all. An
artifact is published under the name that it carries, which is the name of its target unless
the step put a relation of another name in its place. Either way it leaves a record.

`Scheduler.invalidate` returns a target to where it was before it was started, together
with the other outputs of its producer and with everything downstream.
-/

namespace FactEngine

/-! ## Execution of one descriptor -/

namespace Run

/-- Make the outputs of a descriptor and let its step fill them. -/
def fill (r : Run) (c : Config) (d : Descriptor) (inputs : NameMap Artifact) :
    Except Error Outputs × Run :=
  match Outputs.prepare d inputs r.store with
  | (.error e, store) => (.error e, { r with store })
  | (.ok outputs, store) =>
    match d.fill.run ⟨d, c, inputs, outputs, { r with store }⟩ with
    | (.error f, s) => (.error (f.surface d.name), s.run)
    | (.ok (), s) => (.ok s.outputs, s.run)

/-- Execute a descriptor, and publish its outputs or let them fail. -/
def execute (r : Run) (c : Config) (d : Descriptor) : Except Error Unit × Run :=
  let begun := (r.mark .inProgress d.outputs)
  let inputs := begun.inputs d.consumes
  match (begun.enter (.executed d.name inputs)).fill c d inputs with
  | (.error e, r) => (.error e, (r.fail d.outputs).record ⟨d.name, false, 0, []⟩)
  | (.ok outputs, r) =>
    let published := outputs.artifacts d.produces
    let sizes := published.map fun a => (a.name r.store, a.size r.store)
    (.ok (), (r.publish published).record ⟨d.name, true, 0, sizes⟩)

end Run

/-- The sequence in which the descriptors of an order are executed. -/
def Registry.schedule (r : Registry) (strategy : Strategy) (order : List Nat) :
    Except Error (List Nat) :=
  match strategy with
  | .sequential => .ok order
  | .parallel =>
    match r.batches order with
    | .error e => .error e
    | .ok batches => .ok batches.flatten

/-! ## Requests -/

/-- A registry with a configuration and the state of a run. -/
structure Scheduler where
  registry : Registry
  config : Config
  run : Run

namespace Scheduler

/-- The scheduler that has not executed anything yet. -/
def new (registry : Registry) (config : Config) : Scheduler :=
  ⟨registry, config, .empty⟩

/-- Change the run by `f`, which answers as well. -/
def update {α : Type} (s : Scheduler) (f : Run → α × Run) : α × Scheduler :=
  match f s.run with
  | (answer, run) => (answer, { s with run })

/-- Execute descriptors one by one until one fails or the run is cancelled. -/
def executeAll (s : Scheduler) : List Nat → Except Error Unit × Scheduler
  | [] => (.ok (), s)
  | i :: is =>
    match s.update (·.checkCancelled (s.registry.nameOf i)) with
    | (.error e, s) => (.error e, s)
    | (.ok (), s) =>
      match s.update (·.execute s.config (s.registry.descriptor i)) with
      | (.error e, s) => (.error e, s)
      | (.ok (), s) => s.executeAll is

/-- The first output of the descriptors that failed. -/
def firstFailed? (s : Scheduler) (order : List Nat) : Option String :=
  (order.flatMap fun i => (s.registry.descriptor i).outputs).find? fun name =>
    s.run.status name = .failed

/-- The descriptors to execute for a target, in sequence. -/
def plan (s : Scheduler) (target : String) : Except Error (List Nat) :=
  match s.registry.orderFor target s.run.isDone with
  | .error e => .error e
  | .ok order =>
    match s.firstFailed? order with
    | some name => .error (.previouslyFailed name)
    | none => s.registry.schedule s.config.strategy order

/-- The artifact of a target. -/
def artifact (s : Scheduler) (target : String) : Except Error Artifact :=
  match s.run.artifact? target with
  | some a => .ok a
  | none => .error (.unknownTarget target none)

/-- Execute what a target needs, and answer with its artifact. -/
def compute (s : Scheduler) (target : String) : Except Error Artifact × Scheduler :=
  match s.plan target with
  | .error e => (.error e, s)
  | .ok sequence =>
    match s.executeAll sequence with
    | (.error e, s) => (.error e, s)
    | (.ok (), s) => (s.artifact target, s)

/-- The artifact of a target, which is executed unless it is done. -/
def materialize (s : Scheduler) (target : String) : Except Error Artifact × Scheduler :=
  match s.registry.lookup target with
  | .error e => (.error e, s)
  | .ok _ =>
    match s.run.status target, s.run.artifact? target with
    | .done, some a => (.ok a, s)
    | .failed, _ => (.error (.previouslyFailed target), s)
    | _, _ => s.compute target

/-- The domain of a handle, materialized, as it is now. -/
def domain (s : Scheduler) {t : FactType} (h : DomainHandle t) :
    Except Error (Domain t.Carrier) × Scheduler :=
  match s.materialize h.name with
  | (.error e, s) => (.error e, s)
  | (.ok a, s) => (a.intoDomain s.run.store t, s)

/-- The relation of a handle, materialized. -/
def relation (s : Scheduler) (h : RelationHandle) : Except Error Relation × Scheduler :=
  match s.materialize h.name with
  | (.error e, s) => (.error e, s)
  | (.ok a, s) => (a.intoRelation s.run.store, s)

/-- The status of a target. -/
def status (s : Scheduler) (name : String) : TargetStatus :=
  s.run.status name

/-- Forget all results and clear the signal. -/
def reset (s : Scheduler) : Scheduler :=
  { s with run := s.run.clear }

/-- The outputs of the producer of a target, and those of everything downstream of it. -/
def downstream (s : Scheduler) (d : Descriptor) : List String :=
  ((d.name :: s.registry.graph.transitiveDependents d.name).filterMap s.registry.named?).flatMap
    Descriptor.outputs

/-- Forget the results of the producer of a target and of everything downstream, and answer
with the names of these targets. -/
def invalidate (s : Scheduler) (name : String) : Except Error (List String) × Scheduler :=
  match s.registry.lookup name with
  | .error e => (.error e, s)
  | .ok d => (.ok (s.downstream d), { s with run := s.run.forget (s.downstream d) })

/-- Let `f` answer from the signal of the run and change it. -/
def signal {α : Type} (s : Scheduler) (f : Signal → α × Signal) : α × Scheduler :=
  s.update fun r =>
    match f r.signal with
    | (answer, signal) => (answer, { r with signal })

/-! ## Artifacts that a client holds -/

/-- How an artifact looks now. -/
def view (s : Scheduler) (a : Artifact) : View :=
  a.view s.run.store

/-- Intern facts in the domain of their type that an artifact is. -/
def extend (s : Scheduler) (a : Artifact) (t : FactType) (fs : List t.Carrier) :
    Except Error (List Nat) × Scheduler :=
  s.update fun r =>
    match a.extend r.store t fs with
    | (answer, store) => (answer, { r with store })

/-- The relation that an artifact is. -/
def heldRelation (s : Scheduler) (a : Artifact) : Except Error Relation :=
  a.intoRelation s.run.store

/-- The labels of a tuple of the relation that an artifact is. -/
def labels (s : Scheduler) (a : Artifact) (t : Tuple) : Except Error (List String) :=
  match s.heldRelation a with
  | .error e => .error e
  | .ok r => r.labels s.run.store t

/-- The values of one column of the relation that an artifact is. -/
def project (s : Scheduler) (a : Artifact) (column : Nat) : Except Error (List Nat) :=
  match s.heldRelation a with
  | .error e => .error e
  | .ok r => r.project column

/-- Whether two artifacts are equal relations. -/
def sameRelation (s : Scheduler) (a b : Artifact) : Except Error Bool :=
  match s.heldRelation a, s.heldRelation b with
  | .ok a, .ok b => .ok (a.same b)
  | .error e, _ => .error e
  | .ok _, .error e => .error e

end Scheduler

end FactEngine
