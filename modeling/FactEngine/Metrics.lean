/-!
# Metrics

Every execution of a descriptor leaves a record, whether it succeeded or not. Totals are
read off the records, so they cannot disagree with them, and they survive whatever happens
to the results of the executions.
-/

namespace FactEngine

/-- One execution of a descriptor. -/
structure Execution where
  descriptor : String
  succeeded : Bool
  /-- The time it took, in microseconds; 0 where nobody measures it. -/
  micros : Nat
  /-- The name and size of every published output, in the order of declaration. -/
  outputs : List (String × Nat)
  deriving DecidableEq

/-- The executions so far, oldest first. -/
structure Metrics where
  executions : List Execution
  deriving DecidableEq

namespace Metrics

/-- No executions. -/
def empty : Metrics :=
  ⟨[]⟩

/-- Add an execution. -/
def record (m : Metrics) (e : Execution) : Metrics :=
  ⟨m.executions ++ [e]⟩

/-- The number of executions. -/
def totalExecuted (m : Metrics) : Nat :=
  m.executions.length

/-- The number of executions that failed. -/
def totalFailed (m : Metrics) : Nat :=
  m.executions.countP (!·.succeeded)

/-- The time all executions took, in microseconds. -/
def totalMicros (m : Metrics) : Nat :=
  m.executions.foldl (fun total e => total + e.micros) 0

/-- The number of executions of one descriptor. -/
def executionsOf (m : Metrics) (descriptor : String) : Nat :=
  m.executions.countP (·.descriptor = descriptor)

end Metrics

end FactEngine
