import FactEngine.Config.Environment
import FactEngine.Toml.Document
import FactEngine.Toml.Writer

/-!
# Configuration files

A configuration file is a TOML document in UTF-8 with the keys `strategy`, `verbosity` and
`properties`. A missing key means the default, a key of any other name is ignored, and a
value of the wrong type is refused. A strategy may also be written as a table with its name
for the only key and nothing in it, and a date or a time in place of the properties counts as
a table with that moment under a reserved key (`momentKey`).

`Config.write` gives the text of a configuration and `Config.read?` what a text configures.
`Config.save` and `Config.load` do the same on a directory of files (`Files`).

`Config.resolveWith` puts the sources together : the file given by path, or else the one
that the environment names, or else the default, and on top of it the environment.
-/

namespace FactEngine

open Toml

/-! ## Text of a configuration -/

namespace Config

/-- The text of a configuration, with its properties in ascending order of their keys. -/
def write (c : Config) : List Char :=
  writeEntry "strategy".toList (writeString c.strategy.name.toList) ++
    writeEntry "verbosity".toList (Text.digits c.verbosity.toNat) ++
    "\n[properties]\n".toList ++
    c.properties.entries.flatMap fun e => writeEntry e.1.toList (writeString e.2.toList)

/-- Whether a value holds nothing. -/
def isVoid : Value → Bool
  | .array [] => true
  | .table _ [] => true
  | _ => false

/-- The strategy that a value writes. -/
def strategyOf? : Value → Option Strategy
  | .string s => Strategy.ofName? (String.ofList s)
  | .table _ [(k, v)] => if isVoid v then Strategy.ofName? (String.ofList k) else none
  | _ => none

/-- The verbosity that a value writes. -/
def verbosityOf? : Value → Option UInt8
  | .integer n => if 0 ≤ n ∧ n < UInt8.size then some (UInt8.ofNat n.toNat) else none
  | _ => none

/-- A property that a key and its value write. -/
def propertyOf? : List Char × Value → Option (String × String)
  | (k, .string s) => some (String.ofList k, String.ofList s)
  | _ => none

/-- The key of a date or a time that is taken for a table. -/
def momentKey : String :=
  "$__toml_private_datetime"

/-- The properties that a value writes. -/
def propertiesOf? : Value → Option Properties
  | .table _ entries => (entries.mapM propertyOf?).map Properties.ofList
  | .moment m => some (.ofList [(momentKey, String.ofList m.write)])
  | _ => none

/-- Read the value of a key, or take the default if the table does not have the key. -/
def field {α : Type} (t : Table) (key : String) (read : Value → Option α) (d : α) : Option α :=
  match t.get? key.toList with
  | some v => read v
  | none => some d

/-- The configuration that a table writes. -/
def ofTable? (t : Table) : Option Config :=
  match field t "strategy" strategyOf? .sequential, field t "verbosity" verbosityOf? 0,
      field t "properties" propertiesOf? .empty with
  | some strategy, some verbosity, some properties => some ⟨strategy, verbosity, properties⟩
  | _, _, _ => none

/-- The configuration that a text writes. -/
def read? (s : List Char) : Option Config :=
  (parse s).bind ofTable?

end Config

/-! ## Files -/

/-- The files of a directory by name. It has no directories in it. -/
structure Files where
  contents : List (String × ByteArray)

namespace Files

/-- The content of a file. -/
def read? (fs : Files) (name : String) : Option ByteArray :=
  fs.contents.lookup name

/-- Names that a file can have. -/
def isFileName (name : String) : Bool :=
  name ≠ "" && name ≠ "." && name ≠ ".." && name.toList.all fun c => c ≠ '/' && c ≠ '\x00'

/-- Give a file a content, unless no file can have the name. -/
def write? (fs : Files) (name : String) (content : ByteArray) : Option Files :=
  if isFileName name then some ⟨(name, content) :: fs.contents.filter (·.1 ≠ name)⟩ else none

end Files

namespace Config

/-- Write a configuration to a file. -/
def save (c : Config) (fs : Files) (name : String) : Except Error Files :=
  match fs.write? name (String.ofList c.write).toByteArray with
  | some fs => .ok fs
  | none => .error (.config .unwritable)

/-- The configuration in a file. -/
def load (fs : Files) (name : String) : Except Error Config :=
  match (fs.read? name).bind String.fromUTF8? with
  | none => .error (.config .unreadable)
  | some s =>
    match read? s.toList with
    | some c => .ok c
    | none => .error (.config .malformed)

/-- The effective configuration : a file with the environment on top. -/
def resolveWith (fs : Files) (path : Option String) (env : Environment) : Except Error Config :=
  match path.or env.configFile? with
  | none => default.mergeEnv env
  | some name =>
    match load fs name with
    | .ok c => c.mergeEnv env
    | .error e => .error e

/-- Whether a file that the configuration was saved to gives it back. -/
def roundTrips (c : Config) : Except Error Bool :=
  match c.save ⟨[]⟩ "config" with
  | .error e => .error e
  | .ok fs =>
    match load fs "config" with
    | .error e => .error e
    | .ok d => .ok (c = d)

end Config

end FactEngine
