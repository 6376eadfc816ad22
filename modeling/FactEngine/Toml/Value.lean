import FactEngine.Toml.Moment

/-!
# TOML values

A TOML document denotes a table. `Value` is what a key can hold, `Table` the keys of a table
with their values. Floats are kept as they were written.

A table remembers how it came to be (`Origin`), because that decides whether a later line
of the document may add to it.
-/

namespace FactEngine.Toml

/-- How a table was made. -/
inductive Origin where
  /-- By a header of its own. -/
  | header
  /-- By the header of a table inside it. -/
  | implicit
  /-- By a dotted key. -/
  | dotted
  /-- Between braces. -/
  | inline
  deriving DecidableEq

/-- What a key holds. -/
inductive Value where
  | string (text : List Char)
  | integer (n : Int)
  | boolean (b : Bool)
  | float (text : List Char)
  | moment (m : Moment)
  | array (items : List Value)
  | table (origin : Origin) (entries : List (List Char × Value))
  /-- The tables of the headers in double brackets. -/
  | tables (items : List (List (List Char × Value)))

/-- Keys with their values, in order of appearance. -/
abbrev Table := List (List Char × Value)

/-- The value of a key. -/
def Table.get? (t : Table) (key : List Char) : Option Value :=
  t.lookup key

end FactEngine.Toml
