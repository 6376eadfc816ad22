import FactEngine.NameMap
import FactEngine.Relation

/-!
# Artifacts

A published artifact is a domain or a relation. An artifact that is a domain is held by its
place in the store, so whoever holds it sees it grow and freeze; a relation is complete when
it is published. `View` is what an artifact looks like at one moment.
-/

namespace FactEngine

/-- How far a target is within a run. -/
inductive TargetStatus where
  | notStarted
  | inProgress
  | done
  | failed
  deriving DecidableEq

/-- The name of a status. -/
def TargetStatus.name : TargetStatus → String
  | notStarted => "not started"
  | inProgress => "in progress"
  | done => "done"
  | failed => "failed"

/-- A published domain or relation. -/
inductive Artifact where
  | domain (id : DomainId)
  | relation (r : Relation)
  deriving DecidableEq

/-- An artifact as it looks at one moment. -/
inductive View where
  | domain (d : AnyDomain)
  | relation (r : Relation)

namespace Artifact

/-- How the artifact looks now. -/
def view (s : Store) : Artifact → View
  | domain id => .domain (s.get id)
  | relation r => .relation r

/-- The name it was published under. -/
def name (s : Store) : Artifact → String
  | domain id => (s.get id).name
  | relation r => r.name

/-- The number of facts or tuples. -/
def size (s : Store) : Artifact → Nat
  | domain id => (s.get id).size
  | relation r => r.size

/-- The domain of facts of the given type that the artifact is. -/
def intoDomain (s : Store) (t : FactType) : Artifact → Except Error (Domain t.Carrier)
  | domain id => (s.get id).downcast t
  | relation r => .error (.typeMismatch r.name .domain)

/-- The relation that the artifact is. -/
def intoRelation (s : Store) : Artifact → Except Error Relation
  | relation r => .ok r
  | domain id => .error (.typeMismatch (s.get id).name .relation)

/-- Intern facts in the domain of their type that the artifact is. -/
def extend (s : Store) (t : FactType) (fs : List t.Carrier) :
    Artifact → Except Error (List Nat) × Store
  | domain id => s.extend id t fs
  | relation r => (.error (.typeMismatch r.name .domain), s)

end Artifact

namespace View

/-- The name of the artifact. -/
def name : View → String
  | domain d => d.name
  | relation r => r.name

/-- The number of facts or tuples. -/
def size : View → Nat
  | domain d => d.size
  | relation r => r.size

end View

end FactEngine
