import FactEngine.Distinct
import FactEngine.Error

/-!
# Domains

A domain numbers facts : the index of a fact is its position in the list of facts, in order
of first insertion, so indices are contiguous from zero. `Domain.intern` answers with the
index of a fact and appends the fact if it is new. Nothing removes a fact, and no index
ever changes. A frozen domain still answers for the facts it has and refuses new ones.

`AnyDomain` is a domain whose fact type is known by its code only. Sizes, labels and look-up
by label need no more, and `AnyDomain.downcast` recovers the typed domain. When several
facts share a label, the label stands for the last of them (`lastIndexOf?`).
-/

namespace FactEngine

/-- The position of the last occurrence of `a`. -/
def lastIndexOf? {α : Type} [DecidableEq α] (a : α) : List α → Option Nat
  | [] => none
  | b :: l =>
    match lastIndexOf? a l with
    | some i => some (i + 1)
    | none => if b = a then some 0 else none

/-- Facts numbered by insertion. -/
structure Domain (F : Type) where
  name : String
  facts : List F
  frozen : Bool

namespace Domain

variable {F : Type}

/-- The domain without facts. -/
def empty (name : String) : Domain F :=
  ⟨name, [], false⟩

/-- The number of facts. -/
def size (d : Domain F) : Nat :=
  d.facts.length

/-- Refuse new facts from now on. -/
def freeze (d : Domain F) : Domain F :=
  { d with frozen := true }

/-- The facts of the domain as it is now, with their indices. -/
def entries (d : Domain F) : List (Nat × F) :=
  d.facts.mapIdx fun i f => (i, f)

/-- The fact at an index. -/
def get (d : Domain F) (i : Nat) : Except Error F :=
  match d.facts[i]? with
  | some f => .ok f
  | none => .error (.outOfRange d.name i d.size)

variable [DecidableEq F]

/-- The index of a fact. -/
def indexOf? (d : Domain F) (f : F) : Option Nat :=
  d.facts.idxOf? f

/-- Whether the fact has an index. -/
def contains (d : Domain F) (f : F) : Bool :=
  (d.indexOf? f).isSome

variable [Labelled F]

/-- The labels of the facts in index order. -/
def labels (d : Domain F) : List String :=
  d.facts.map label

/-- The index of `f`, which is appended if it is new. A new fact is refused once the domain
is frozen. -/
def intern (d : Domain F) (f : F) : Except Error Nat × Domain F :=
  match d.indexOf? f with
  | some i => (.ok i, d)
  | none =>
    if d.frozen then (.error (.domainFrozen d.name (label f)), d)
    else (.ok d.size, { d with facts := d.facts ++ [f] })

/-- The indices of the facts, interned from left to right up to the first refusal. -/
def extend (d : Domain F) : List F → Except Error (List Nat) × Domain F
  | [] => (.ok [], d)
  | f :: fs =>
    match d.intern f with
    | (.error e, d) => (.error e, d)
    | (.ok i, d) =>
      match d.extend fs with
      | (.error e, d) => (.error e, d)
      | (.ok is, d) => (.ok (i :: is), d)

end Domain

/-- A domain with the code of its fact type. -/
structure AnyDomain where
  factType : FactType
  domain : Domain factType.Carrier

namespace AnyDomain

instance : Inhabited AnyDomain where
  default := ⟨.text, .empty ""⟩

/-- The domain without facts of a fact type. -/
def empty (name : String) (t : FactType) : AnyDomain :=
  ⟨t, .empty name⟩

def name (d : AnyDomain) : String :=
  d.domain.name

def size (d : AnyDomain) : Nat :=
  d.domain.size

def frozen (d : AnyDomain) : Bool :=
  d.domain.frozen

def freeze (d : AnyDomain) : AnyDomain :=
  ⟨d.factType, d.domain.freeze⟩

/-- The labels of the facts in index order. -/
def labels (d : AnyDomain) : List String :=
  d.domain.labels

/-- The label of the fact at an index. -/
def label (d : AnyDomain) (i : Nat) : Except Error String :=
  match d.domain.get i with
  | .ok f => .ok (Labelled.label f)
  | .error e => .error e

/-- The last index whose fact has the label. -/
def indexOfLabel? (d : AnyDomain) (s : String) : Option Nat :=
  lastIndexOf? s d.labels

/-- Every label once, in ascending order, with the last index it stands for. -/
def nameIndex (d : AnyDomain) : List (String × Nat) :=
  ((distinct d.labels).mergeSort (· ≤ ·)).filterMap fun s =>
    (d.indexOfLabel? s).map fun i => (s, i)

/-- Whether the domain stores facts of the given type. -/
def stores (d : AnyDomain) (t : FactType) : Bool :=
  d.factType = t

/-- The domain with the facts it stores, if they are of the given type. -/
def downcast (d : AnyDomain) (t : FactType) : Except Error (Domain t.Carrier) :=
  if h : d.factType = t then .ok (h ▸ d.domain)
  else .error (.typeMismatch d.name (.domainOf t))

end AnyDomain

end FactEngine
