import FactEngine.Artifact
import FactEngine.Config.Basic
import FactEngine.Metrics

/-!
# Population steps

The logic that fills the outputs of a descriptor is a `Fill` : it ends, or it fails, or it
takes an action and goes on with the reply. An action is all that a population step can
see or do : read the configuration and the artifacts the descriptor consumes, write the
outputs it was given, put another relation in the place of one of them, ask how the run
stands, cancel it, and leave notes in its journal. What an action does is said by the context
the step runs in; here is only the type of its reply (`Action.Reply`).

`Fill.ofDomain` and `Fill.ofRelation` are the steps of descriptors with one output, which
check that the output is there before they begin. The step of a relation takes the relation
in hand, and puts what it has in hand back when it has ended, under the name that this carries.
-/

namespace FactEngine

/-- Something a population step saw, for the journal. -/
inductive Observation where
  | nothing
  | count (n : Nat)
  | indices (is : List Nat)
  | report (r : FilterReport)
  | artifact (v : View)
  | domain (d : AnyDomain)
  | facts (t : FactType) (fs : List t.Carrier)
  | nameIndex (l : List (String × Nat))
  | relation (r : Relation)
  | property (value : Option String)
  | identity (descriptor : String) (strategy : Strategy)
  | status (s : TargetStatus)

/-- An entry that a population step leaves in the journal. -/
inductive Note where
  | started
  | observed (o : Observation)
  | failed (f : Failure)

/-- A domain that a population step can bind a column of a new relation to. -/
inductive ColumnDomain where
  /-- An output domain. -/
  | output (name : String) (t : FactType)
  /-- A consumed domain, which is not frozen by this. -/
  | input (name : String)
  /-- The domain of a column of an output relation. -/
  | ofOutput (relation : String) (column : Nat)
  /-- The domain of a column of a consumed relation. -/
  | ofInput (relation : String) (column : Nat)
  /-- A domain that is made for it. -/
  | new (name : String) (t : FactType) (fs : List t.Carrier)

/-- What a population step can do. -/
inductive Action where
  /-- Read the configuration. -/
  | config
  /-- Ask for the name of the descriptor. -/
  | whoami
  /-- Read a consumed artifact. -/
  | input (name : String)
  /-- Read a consumed domain, and freeze it. -/
  | readDomain (name : String)
  /-- Read a consumed domain with its facts, and freeze it. -/
  | readFacts (name : String) (t : FactType)
  /-- Read a consumed relation. -/
  | readRelation (name : String)
  /-- Intern facts in a consumed domain. -/
  | growInput (name : String) (t : FactType) (fs : List t.Carrier)
  /-- Look at an output domain. -/
  | outputDomain (name : String) (t : FactType)
  /-- Look at an output relation. -/
  | outputRelation (name : String)
  /-- Intern facts in an output domain. -/
  | intern (name : String) (t : FactType) (fs : List t.Carrier)
  /-- Freeze an output domain. -/
  | freeze (name : String) (t : FactType)
  /-- Add tuples to an output relation. -/
  | add (name : String) (ts : List Tuple)
  /-- Fill an output relation from a list of names. -/
  | select (name : String) (list : String) (delimiter : Char)
  /-- Put a new relation without tuples in the place of an output relation. -/
  | replace (name : String) (relation : String) (sig : Signature) (columns : List ColumnDomain)
  /-- Put the relation in the place of an output back under the name that it carries, as the step
  of a registered relation does at its end. -/
  | restore (name : String)
  /-- Ask for the status of a target. -/
  | status (name : String)
  /-- Ask for the executions so far. -/
  | metrics
  /-- Cancel the run. -/
  | cancel (reason : Option String)
  /-- Leave a note in the journal. -/
  | note (n : Note)

/-- What an action is answered with. -/
abbrev Action.Reply : Action → Type
  | config => Config
  | whoami => String
  | input _ => Except Error View
  | readDomain _ => Except Error AnyDomain
  | readFacts _ t => Except Error (Domain t.Carrier)
  | readRelation _ => Except Error Relation
  | growInput .. => Except Error (List Nat)
  | outputDomain _ t => Except Error (Domain t.Carrier)
  | outputRelation _ => Except Error Relation
  | intern .. => Except Error (List Nat)
  | freeze .. => Except Error Unit
  | add .. => Except Error Nat
  | select .. => Except Error FilterReport
  | replace .. => Except Error Unit
  | restore _ => Unit
  | status _ => TargetStatus
  | metrics => Metrics
  | cancel _ => Unit
  | note _ => Unit

/-- A population step. -/
inductive Fill where
  | finish
  | fail (f : Failure)
  | step (a : Action) (next : a.Reply → Fill)

namespace Fill

/-- Go on with the reply of an action unless it is a refusal, which ends the step. -/
def orFail {α : Type} (next : α → Fill) : Except Error α → Fill
  | .ok a => next a
  | .error e => .fail (.ofError e)

/-- The step of a descriptor whose one output is a domain. -/
def ofDomain (name : String) (t : FactType) (fill : Fill) : Fill :=
  .step (.outputDomain name t) (orFail fun _ => fill)

/-- Take an action when the step has ended without a failure. -/
def followedBy (a : Action) : Fill → Fill
  | finish => .step a fun _ => .finish
  | fail f => .fail f
  | step b next => .step b fun reply => (next reply).followedBy a

/-- The step of a descriptor whose one output is a relation. -/
def ofRelation (name : String) (fill : Fill) : Fill :=
  .step (.outputRelation name) (orFail fun _ => fill.followedBy (.restore name))

end Fill

end FactEngine
