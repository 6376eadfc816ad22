import FactEngine.Fact

/-!
# Errors

Every way an operation of the engine can be refused is a constructor of `Error`, with the
names and numbers that the refusal is about. `Error.message` holds all the wording.

A population step of an analysis may also fail for reasons of its own. `Failure` is either
kind : an engine error, which keeps its identity however much context the analysis puts
around it, or a `Report`, a message of which only the outermost context is shown.
`Failure.surface` is the error the engine answers with.
-/

namespace FactEngine

/-- Why a population step was refused an artifact. -/
inductive AccessViolation where
  /-- The name is not among the consumed ones. -/
  | undeclared
  /-- The name is consumed, but was not materialized when the step began. -/
  | notDone
  deriving DecidableEq

/-- What is wrong with the text of a signature. -/
inductive SignatureFault where
  | emptyColumn
  | unnamedColumn (token : String)
  | invalidName (token : String)
  | invalidInstance (token : String)
  | emptyOrder
  /-- A fault in the words of a client. -/
  | described (text : String)
  deriving DecidableEq

/-- What an artifact was expected to be. -/
inductive Expectation where
  | relation
  | domain
  | domainOf (factType : FactType)
  /-- The domain of the given name, which the given column ranges over. -/
  | domainFor (domain column : String)
  /-- An expectation in the words of a client. -/
  | described (text : String)
  deriving DecidableEq

/-- What is wrong with a configuration source. -/
inductive ConfigFault where
  | unknownStrategy (given : String)
  | invalidVerbosity (given : String)
  | unreadable
  | malformed
  | unwritable
  /-- A fault in the words of a client. -/
  | described (text : String)
  deriving DecidableEq

/-- A failure that the engine has no constructor for : a message, and the contexts added
on the way out, innermost first. -/
structure Report where
  message : String
  contexts : List String
  deriving DecidableEq

/-- A report shows its outermost context, or its message if it has none. -/
def Report.text (r : Report) : String :=
  r.contexts.getLast?.getD r.message

/-- Refusals of the engine. -/
inductive Error where
  | outOfRange (domain : String) (index size : Nat)
  | signatureMismatch (relation : String) (expected actual : Nat)
  | indexOutOfBounds (relation : String) (column : Nat) (domain : String) (value size : Nat)
  | invalidSignature (signature : String) (fault : SignatureFault)
  /-- The name is taken by the descriptor `existing`. -/
  | duplicateName (name existing : String)
  | unknownTarget (name : String) (requestedBy : Option String)
  | cyclicDependency (cycle : List String)
  | undeclaredDependency (descriptor target : String) (violation : AccessViolation)
  | typeMismatch (name : String) (expected : Expectation)
  | domainFrozen (domain fact : String)
  | executionFailure (descriptor : String) (source : Report)
  | previouslyFailed (target : String)
  | cancelled (descriptor : String) (reason : Option String)
  | config (fault : ConfigFault)
  deriving DecidableEq

/-! ## Wording -/

def AccessViolation.message : AccessViolation → String
  | undeclared => "not declared as consumed"
  | notDone => "not yet materialized"

def SignatureFault.message : SignatureFault → String
  | emptyColumn => "empty column"
  | unnamedColumn token => "column '" ++ token ++ "' has no domain name"
  | invalidName token => "column '" ++ token ++ "' has an invalid domain name"
  | invalidInstance token => "column '" ++ token ++ "' has an invalid instance number"
  | emptyOrder => "empty variable order"
  | described text => text

def Expectation.message : Expectation → String
  | relation => "relation"
  | domain => "domain"
  | domainOf factType => "domain of " ++ factType.title
  | domainFor name column => "domain " ++ name ++ " for column " ++ column
  | described text => text

def ConfigFault.message : ConfigFault → String
  | unknownStrategy given => "unknown execution strategy '" ++ given ++ "'"
  | invalidVerbosity given => "FACTDB_VERBOSITY must be a small integer, got '" ++ given ++ "'"
  | unreadable => "failed to read"
  | malformed => "failed to parse"
  | unwritable => "failed to write"
  | described text => text

/-- The text of an error. -/
def Error.message : Error → String
  | outOfRange domain index size =>
    "Index " ++ toString index ++ " out of range for domain " ++ domain ++
      " (size " ++ toString size ++ ")"
  | signatureMismatch relation expected actual =>
    "Tuple of arity " ++ toString actual ++ " does not match signature of relation " ++
      relation ++ " (arity " ++ toString expected ++ ")"
  | indexOutOfBounds relation column domain value size =>
    "Column " ++ toString column ++ " of tuple in relation " ++ relation ++ " holds " ++
      toString value ++ ", but domain " ++ domain ++ " has size " ++ toString size
  | invalidSignature signature fault =>
    "Invalid signature '" ++ signature ++ "': " ++ fault.message
  | duplicateName name existing =>
    "Name " ++ name ++ " is already registered by analysis " ++ existing
  | unknownTarget name none => "Unknown target " ++ name
  | unknownTarget name (some consumer) =>
    "Unknown target " ++ name ++ " (consumed by " ++ consumer ++ ")"
  | cyclicDependency cycle => "Cyclic dependency: " ++ " -> ".intercalate cycle
  | undeclaredDependency descriptor target violation =>
    "Analysis " ++ descriptor ++ " read " ++ target ++ ", which is " ++ violation.message
  | typeMismatch name expected => name ++ " is not a " ++ expected.message
  | domainFrozen domain fact => "Domain " ++ domain ++ " is frozen; cannot intern " ++ fact
  | executionFailure descriptor source =>
    "Analysis " ++ descriptor ++ " failed: " ++ source.text
  | previouslyFailed target => "Target " ++ target ++ " failed earlier in this run"
  | cancelled descriptor none => "Run cancelled before analysis " ++ descriptor
  | cancelled descriptor (some reason) =>
    "Run cancelled before analysis " ++ descriptor ++ ": " ++ reason
  | config fault => "Configuration error: " ++ fault.message

/-- Structural errors come from the checks of the engine. The others come from the logic of
an analysis, from a cancellation, or from a configuration source. -/
def Error.isStructural : Error → Bool
  | executionFailure .. | cancelled .. | config .. => false
  | _ => true

/-! ## Failures of a population step -/

/-- What a population step ends with when it does not succeed. -/
inductive Failure where
  | engine (error : Error) (contexts : List String)
  | reported (report : Report)
  deriving DecidableEq

namespace Failure

/-- An engine error that no context was added to. -/
def ofError (e : Error) : Failure :=
  engine e []

/-- A message that no context was added to. -/
def ofMessage (message : String) : Failure :=
  reported ⟨message, []⟩

/-- The failure with one more context around it. -/
def within (context : String) : Failure → Failure
  | engine e contexts => engine e (contexts ++ [context])
  | reported r => reported { r with contexts := r.contexts ++ [context] }

/-- The error that the failure of `descriptor`'s step becomes : engine errors surface
unchanged, and a report becomes an execution failure of the descriptor. -/
def surface (descriptor : String) : Failure → Error
  | engine e _ => e
  | reported r => .executionFailure descriptor r

end Failure

end FactEngine
