import FactEngine.Signature
import FactEngine.Store
import FactEngine.Text.Quoted

/-!
# Relations

A relation is a set of tuples of indices into the domains of its columns. The tuples are
kept in the order in which they were first added, and comparison is by name, signature and
set of tuples.

A tuple is checked when it is added : its length is the arity, and every component is below
the size that the domain of its column has then (`Relation.check`). Domains only grow, so
a tuple that was accepted stays meaningful. `Relation.extend` keeps the tuples before the
first one that is refused.

`Relation.selectNames` fills a relation of one column from a delimited list of labels. A
label selects the last fact that has it, pieces without a fact are reported, and empty
pieces are dropped, so a fact with an empty label is never selected.
-/

namespace FactEngine

open Text

/-- Indices, one per column. -/
abbrev Tuple := List Nat

/-- What became of the pieces of a list of names. -/
structure FilterReport where
  /-- The pieces that label a fact, with the index that was added. -/
  matched : List (String × Nat)
  /-- The pieces that label no fact. -/
  unmatched : List String
  deriving DecidableEq

/-- A set of tuples over the domains of a signature. -/
structure Relation where
  name : String
  signature : Signature
  /-- The domain of each column. -/
  columns : List DomainId
  tuples : List Tuple
  deriving DecidableEq

namespace Relation

/-- The relation without tuples. It is refused if the domains are not one per column, or if
a domain is not called as its column says. -/
def create (s : Store) (name : String) (sig : Signature) (columns : List DomainId) :
    Except Error Relation :=
  if columns.length ≠ sig.arity then
    .error (.signatureMismatch name sig.arity columns.length)
  else
    match (sig.columns.zip columns).find? fun p => p.1.domain ≠ (s.get p.2).name with
    | some (c, id) => .error (.typeMismatch (s.get id).name (.domainFor c.domain c.text))
    | none => .ok ⟨name, sig, columns, []⟩

/-- The number of columns. -/
def arity (r : Relation) : Nat :=
  r.signature.arity

/-- The number of tuples. -/
def size (r : Relation) : Nat :=
  r.tuples.length

/-- The domain of a column. -/
def domain? (r : Relation) (column : Nat) : Option DomainId :=
  r.columns[column]?

/-- Whether the tuple was added. -/
def contains (r : Relation) (t : Tuple) : Bool :=
  t ∈ r.tuples

/-- The first component, counted from column `column`, that its domain has no fact for. -/
def checkFrom (s : Store) (name : String) (column : Nat) :
    List (Nat × DomainId) → Except Error Unit
  | [] => .ok ()
  | (v, id) :: rest =>
    if v < (s.get id).size then checkFrom s name (column + 1) rest
    else .error (.indexOutOfBounds name column (s.get id).name v (s.get id).size)

/-- Whether the tuple fits the columns and their domains now. -/
def check (s : Store) (r : Relation) (t : Tuple) : Except Error Unit :=
  if t.length ≠ r.arity then .error (.signatureMismatch r.name r.arity t.length)
  else checkFrom s r.name 0 (t.zip r.columns)

/-- Add a tuple that fits, and tell whether it is new. -/
def add (s : Store) (r : Relation) (t : Tuple) : Except Error Bool × Relation :=
  match r.check s t with
  | .error e => (.error e, r)
  | .ok () =>
    if t ∈ r.tuples then (.ok false, r) else (.ok true, { r with tuples := r.tuples ++ [t] })

/-- Add tuples from left to right up to the first that does not fit, and count the new
ones. -/
def extend (s : Store) (r : Relation) : List Tuple → Except Error Nat × Relation
  | [] => (.ok 0, r)
  | t :: ts =>
    match r.add s t with
    | (.error e, r) => (.error e, r)
    | (.ok new, r) =>
      match r.extend s ts with
      | (.error e, r) => (.error e, r)
      | (.ok n, r) => (.ok (if new then n + 1 else n), r)

/-- The values of one column, each once, by first occurrence. -/
def project (r : Relation) (column : Nat) : Except Error (List Nat) :=
  if column < r.arity then .ok (distinct (r.tuples.filterMap (·[column]?)))
  else .error (.signatureMismatch r.name r.arity (column + 1))

/-- The labels of the facts that a fitting tuple refers to. -/
def labels (s : Store) (r : Relation) (t : Tuple) : Except Error (List String) :=
  match r.check s t with
  | .error e => .error e
  | .ok () => (t.zip r.columns).mapM fun p => (s.get p.2).label p.1

/-! ## Selection by name -/

/-- The pieces of a delimited list, trimmed, without the empty ones. -/
def namePieces (list : String) (delimiter : Char) : List String :=
  (((list.toList.splitOn delimiter).map trimChars).filter (· ≠ [])).map String.ofList

/-- Add the fact that each name labels. -/
def selectPieces (s : Store) (d : AnyDomain) (r : Relation) :
    List String → Except Error FilterReport × Relation
  | [] => (.ok ⟨[], []⟩, r)
  | name :: names =>
    match d.indexOfLabel? name with
    | none =>
      match r.selectPieces s d names with
      | (.error e, r) => (.error e, r)
      | (.ok report, r) => (.ok { report with unmatched := name :: report.unmatched }, r)
    | some i =>
      match r.add s [i] with
      | (.error e, r) => (.error e, r)
      | (.ok _, r) =>
        match r.selectPieces s d names with
        | (.error e, r) => (.error e, r)
        | (.ok report, r) => (.ok { report with matched := (name, i) :: report.matched }, r)

/-- Fill a relation of one column with the facts that a delimited list names. A blank list is
not looked into. -/
def selectNames (s : Store) (r : Relation) (list : String) (delimiter : Char) :
    Except Error FilterReport × Relation :=
  match r.arity, r.columns with
  | 1, id :: _ =>
    if trim list = "" then (.ok ⟨[], []⟩, r)
    else r.selectPieces s (s.get id) (namePieces list delimiter)
  | _, _ => (.error (.signatureMismatch r.name r.arity 1), r)

/-! ## Comparison and description -/

/-- Equality of name, signature and set of tuples. -/
def same (a b : Relation) : Bool :=
  a.name = b.name && a.signature = b.signature && a.size = b.size &&
    a.tuples.all fun t => t ∈ b.tuples

/-- A tuple between brackets. -/
def tupleText (t : Tuple) : String :=
  "[" ++ ", ".intercalate (t.map toString) ++ "]"

/-- The name, the signature and the tuples in one line. -/
def describe (r : Relation) : String :=
  "Relation \x7b name: " ++ quoted r.name ++ ", signature: " ++ quoted r.signature.text ++
    ", tuples: \x7b" ++ ", ".intercalate (r.tuples.map tupleText) ++ "\x7d \x7d"

end Relation

end FactEngine
