/-!
# Facts

A fact is a value that a domain numbers. All that the engine asks of facts is equality and
a label (`Labelled`), the text by which lists of names and messages refer to them. Two
different facts may share a label.

Analyses agree on what a domain stores through `FactType`, a code for the types in use,
with `FactType.Carrier` the type that a code stands for. Comparing codes is how a domain
whose fact type was forgotten is given its type again.
-/

namespace FactEngine

/-- Facts have a label to be shown and looked up by. -/
class Labelled (F : Type) where
  label : F → String

export Labelled (label)

/-- Fully qualified name of a type of the analysed program. -/
structure TypeName where
  name : String
  deriving DecidableEq

/-- A label with a number that tells facts of one label apart. -/
structure Tagged where
  label : String
  tag : UInt32
  deriving DecidableEq

instance : Labelled String where
  label s := s

instance : Labelled UInt32 where
  label n := toString n.toNat

instance : Labelled TypeName where
  label t := t.name

instance : Labelled Tagged where
  label t := t.label

/-- The fact types that domains are made of. -/
inductive FactType where
  | text
  | u32
  | typeName
  | tagged
  deriving DecidableEq

namespace FactType

/-- The facts of a fact type. -/
abbrev Carrier : FactType → Type
  | text => String
  | u32 => UInt32
  | typeName => TypeName
  | tagged => Tagged

instance : (t : FactType) → DecidableEq t.Carrier
  | text => inferInstanceAs (DecidableEq String)
  | u32 => inferInstanceAs (DecidableEq UInt32)
  | typeName => inferInstanceAs (DecidableEq TypeName)
  | tagged => inferInstanceAs (DecidableEq Tagged)

instance : (t : FactType) → Labelled t.Carrier
  | text => inferInstanceAs (Labelled String)
  | u32 => inferInstanceAs (Labelled UInt32)
  | typeName => inferInstanceAs (Labelled TypeName)
  | tagged => inferInstanceAs (Labelled Tagged)

/-- The name of the fact type in messages. -/
def title : FactType → String
  | text => "alloc::string::String"
  | u32 => "u32"
  | typeName => "factdb_analyses::types::TypeName"
  | tagged => "factdb_oracle::facts::Tagged"

/-- The fact with a given label, in the fact types where a label belongs to one fact at most.
The label of a tagged fact does not tell its tag. -/
def ofLabel? : (t : FactType) → String → Option t.Carrier
  | text, s => some s
  | u32, s => (s.toNat?.map UInt32.ofNat).filter fun n => label n = s
  | typeName, s => some ⟨s⟩
  | tagged, _ => none

end FactType

end FactEngine
