import FactEngine.Domain

/-!
# The store of domains

Relations, published artifacts and clients share domains : whoever holds one sees the facts
that others intern and the freezing that others cause. A `Store` keeps every domain at a
fixed place, and a `DomainId` is the place. Domains are added at the end and never removed,
so an identifier means the same domain forever.
-/

namespace FactEngine

/-- The place of a domain in the store. -/
structure DomainId where
  place : Nat
  deriving DecidableEq

/-- The domains made so far. -/
structure Store where
  domains : List AnyDomain

namespace Store

/-- The store without domains. -/
def empty : Store :=
  ⟨[]⟩

/-- The domain at a place. A place that was never given out reads as a nameless domain
without facts. -/
def get (s : Store) (id : DomainId) : AnyDomain :=
  s.domains.getD id.place default

/-- The store with `d` at a place given out before. -/
def set (s : Store) (id : DomainId) (d : AnyDomain) : Store :=
  ⟨s.domains.set id.place d⟩

/-- A place for a new domain, and the store that has it there. -/
def add (s : Store) (d : AnyDomain) : DomainId × Store :=
  (⟨s.domains.length⟩, ⟨s.domains ++ [d]⟩)

/-- Freeze the domain at a place. -/
def freeze (s : Store) (id : DomainId) : Store :=
  s.set id (s.get id).freeze

/-- Intern facts in the domain at a place, which must store facts of their type. -/
def extend (s : Store) (id : DomainId) (t : FactType) (fs : List t.Carrier) :
    Except Error (List Nat) × Store :=
  match (s.get id).downcast t with
  | .error e => (.error e, s)
  | .ok d =>
    match d.extend fs with
    | (r, d) => (r, s.set id ⟨t, d⟩)

end Store

end FactEngine
