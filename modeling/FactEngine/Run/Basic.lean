import FactEngine.Analysis.Fill
import FactEngine.Cancellation

/-!
# Runs

A run is what the engine knows between two requests : how far every target is, the
artifacts of the targets that are done, the domains, the signal that cancels it, and the
records of what happened. A name without a status was not started.

Results can be dropped, all of them (`Run.clear`) or those of some targets (`Run.forget`).
The records stay : metrics count every execution, and the journal lists the executions,
each with the artifacts it was given, and the notes that population steps left.
-/

namespace FactEngine

/-- An entry of the journal. -/
inductive Event where
  /-- A descriptor was executed on these inputs. -/
  | executed (descriptor : String) (inputs : NameMap Artifact)
  /-- The step of a descriptor left a note. -/
  | noted (descriptor : String) (note : Note)

/-- The state of a run. -/
structure Run where
  statuses : NameMap TargetStatus
  artifacts : NameMap Artifact
  store : Store
  signal : Signal
  metrics : Metrics
  /-- What happened, oldest first. -/
  journal : List Event

namespace Run

/-- The run in which nothing happened yet. -/
def empty : Run :=
  ⟨.empty, .empty, .empty, .clear, .empty, []⟩

/-- The status of a target. -/
def status (r : Run) (name : String) : TargetStatus :=
  (r.statuses.get? name).getD .notStarted

/-- Whether a target is done. -/
def isDone (r : Run) (name : String) : Bool :=
  r.status name = .done

/-- The artifact of a target. -/
def artifact? (r : Run) (name : String) : Option Artifact :=
  r.artifacts.get? name

/-- The artifacts of those of the names that are done. -/
def inputs (r : Run) (names : List String) : NameMap Artifact :=
  names.foldl
    (fun m name =>
      match r.isDone name, r.artifact? name with
      | true, some a => m.insert name a
      | _, _ => m)
    .empty

/-! ## Changes -/

/-- Give targets a status. -/
def mark (r : Run) (status : TargetStatus) (names : List String) : Run :=
  { r with statuses := names.foldl (fun m name => m.insert name status) r.statuses }

/-- Drop the artifacts of targets. -/
def drop (r : Run) (names : List String) : Run :=
  { r with artifacts := names.foldl .erase r.artifacts }

/-- Publish artifacts, each under the name that it carries. These names are done. -/
def publish (r : Run) (outputs : List Artifact) : Run :=
  { r.mark .done (outputs.map (·.name r.store)) with
    artifacts := outputs.foldl (fun m a => m.insert (a.name r.store) a) r.artifacts }

/-- Let targets fail. They have no artifacts. -/
def fail (r : Run) (names : List String) : Run :=
  (r.drop names).mark .failed names

/-- Return targets to where they were before they were started. -/
def forget (r : Run) (names : List String) : Run :=
  { r.drop names with statuses := names.foldl .erase r.statuses }

/-- Return every target to where it was before it was started, and clear the signal. -/
def clear (r : Run) : Run :=
  { r with statuses := .empty, artifacts := .empty, signal := .clear }

/-- Freeze a domain. -/
def freeze (r : Run) (id : DomainId) : Run :=
  { r with store := r.store.freeze id }

/-- Add an entry to the journal. -/
def enter (r : Run) (e : Event) : Run :=
  { r with journal := r.journal ++ [e] }

/-- Add an execution to the metrics. -/
def record (r : Run) (e : Execution) : Run :=
  { r with metrics := r.metrics.record e }

/-- Whether the run is cancelled, and for what reason. Asking lets an expired timeout take
effect. -/
def checkCancelled (r : Run) (descriptor : String) : Except Error Unit × Run :=
  match r.signal.isCancelled with
  | (true, signal) => (.error (.cancelled descriptor signal.reason), { r with signal })
  | (false, signal) => (.ok (), { r with signal })

end Run

end FactEngine
