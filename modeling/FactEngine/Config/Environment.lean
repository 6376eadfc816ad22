import FactEngine.Config.Basic
import FactEngine.Text.Decimal

/-!
# Configuration by environment variables

Variables whose name starts with `FACTDB_` change a configuration. Three of them have names
of their own : one names a configuration file and changes nothing by itself, one sets the
strategy, one the verbosity. Any other sets a property, whose key is the rest of the name
with ASCII letters made small and every underscore turned into a point, so different names
may set one property, and a later variable wins over an earlier one.

`Config.mergeEnv` applies variables from left to right and stops at the first strategy or
verbosity that is not one. `Environment.ofAssignments` is the environment of a process after
assignments made one by one : a name keeps its place and takes its last value.
-/

namespace FactEngine

open Text

/-- Names of variables with their values. -/
abbrev Environment := List (String × String)

namespace Environment

/-- Give a variable a value, in its place if it has one. -/
def assign (env : Environment) (name value : String) : Environment :=
  if env.any (·.1 = name) then env.map fun e => if e.1 = name then (name, value) else e
  else env ++ [(name, value)]

/-- The environment after assignments from left to right. -/
def ofAssignments (l : List (String × String)) : Environment :=
  l.foldl (fun env e => env.assign e.1 e.2) []

/-- The file that the environment names, by the first variable that does. -/
def configFile? (env : Environment) : Option String :=
  env.lookup "FACTDB_CONFIG"

end Environment

/-- What a variable is for. -/
inductive VariableRole where
  | file
  | strategy
  | verbosity
  | property (key : String)
  | foreign
  deriving DecidableEq

namespace VariableRole

/-- The key of the property that the rest of a variable's name stands for. -/
def propertyKey (rest : List Char) : String :=
  String.ofList (rest.map fun c => if c = '_' then '.' else c.toLower)

/-- What the variable of a name is for. -/
def ofName (name : String) : VariableRole :=
  if name = "FACTDB_CONFIG" then file
  else if name = "FACTDB_STRATEGY" then strategy
  else if name = "FACTDB_VERBOSITY" then verbosity
  else
    match "FACTDB_".toList.isPrefixOf? name.toList with
    | some (c :: r) => property (propertyKey (c :: r))
    | _ => foreign

end VariableRole

/-- The verbosity that a text writes : up to 255, in digits with an optional plus sign. -/
def verbosity? (s : String) : Option UInt8 :=
  match number? (trimChars s.toList) with
  | some n => if n < UInt8.size then some (UInt8.ofNat n) else none
  | none => none

namespace Config

/-- Apply one variable. -/
def mergeVariable (c : Config) (name value : String) : Except Error Config :=
  match VariableRole.ofName name with
  | .file => .ok c
  | .strategy =>
    match Strategy.parse value with
    | .ok strategy => .ok { c with strategy }
    | .error e => .error e
  | .verbosity =>
    match verbosity? value with
    | some verbosity => .ok { c with verbosity }
    | none => .error (.config (.invalidVerbosity value))
  | .property key => .ok (c.setProperty key value)
  | .foreign => .ok c

/-- Apply variables from left to right. -/
def mergeEnv (c : Config) (env : Environment) : Except Error Config :=
  env.foldlM (fun c e => c.mergeVariable e.1 e.2) c

/-- The configuration of an environment alone. -/
def ofEnv (env : Environment) : Except Error Config :=
  default.mergeEnv env

end Config

end FactEngine
