import FactEngine.Config.Properties
import FactEngine.Error
import FactEngine.Text.Blank
import FactEngine.Text.Case

/-!
# Configurations

A configuration says in which way a resolved order is executed, how much is logged, and
which properties the analyses see.
-/

namespace FactEngine

open Text

/-- The way a resolved order is executed. -/
inductive Strategy where
  /-- One descriptor after another, in the resolved order. -/
  | sequential
  /-- Batch by batch. -/
  | parallel
  deriving DecidableEq

namespace Strategy

/-- The name of a strategy. -/
def name : Strategy → String
  | sequential => "sequential"
  | parallel => "parallel"

/-- The strategy of a name. -/
def ofName? (s : String) : Option Strategy :=
  if s = "sequential" then some sequential
  else if s = "parallel" then some parallel
  else none

/-- The strategy that a text names, blanks around it and the case of ASCII letters aside. -/
def parse (s : String) : Except Error Strategy :=
  match ofName? (lower (trim s)) with
  | some strategy => .ok strategy
  | none => .error (.config (.unknownStrategy (lower (trim s))))

end Strategy

/-- How much is logged. -/
inductive LogLevel where
  | warn
  | info
  | debug
  | trace
  deriving DecidableEq

/-- The name of a level. -/
def LogLevel.name : LogLevel → String
  | warn => "WARN"
  | info => "INFO"
  | debug => "DEBUG"
  | trace => "TRACE"

/-- The level of a verbosity; all from 3 on log everything. -/
def LogLevel.ofVerbosity (v : UInt8) : LogLevel :=
  if v = 0 then warn else if v = 1 then info else if v = 2 then debug else trace

/-- A configuration of the engine. -/
structure Config where
  strategy : Strategy
  verbosity : UInt8
  properties : Properties
  deriving DecidableEq

namespace Config

/-- The configuration that holds where nothing is configured. -/
def default : Config :=
  ⟨.sequential, 0, .empty⟩

/-- The value of a property. -/
def property (c : Config) (key : String) : Option String :=
  c.properties.get? key

/-- The value of a property, or `fallback` if it is not set. -/
def propertyOr (c : Config) (key fallback : String) : String :=
  (c.property key).getD fallback

/-- Set a property. -/
def setProperty (c : Config) (key value : String) : Config :=
  { c with properties := c.properties.set key value }

/-- Whether a property is set to `true`, blanks around it and the case of ASCII letters
aside. -/
def flag (c : Config) (key : String) : Bool :=
  match c.property key with
  | some v => lower (trim v) = "true"
  | none => false

end Config

end FactEngine
