import FactEngine.Analysis.Descriptor
import FactEngine.Analysis.Graph

/-!
# The registry

A registry lists descriptors in order of registration. Descriptors have names of their own,
and every target has one producer; a registration that would break either is refused and
leaves the registry as it was. Descriptor names and target names are apart, so a descriptor
may be called like the output of another. The registry finds places in two maps that it keeps
beside the list : `byOutput` by the name of a target, `byName` by the name of a descriptor.
Registration writes both.

Handles are names that the registry has checked : a `DomainHandle` names a registered domain
of its fact type, a `RelationHandle` a registered relation.
-/

namespace FactEngine

/-- The name of a registered domain of the given facts. -/
structure DomainHandle (t : FactType) where
  name : String
  deriving DecidableEq

/-- The fact type and the name of a handle in one line. -/
def DomainHandle.describe {t : FactType} (h : DomainHandle t) : String :=
  "DomainHandle<" ++ t.title ++ ">(" ++ h.name ++ ")"

/-- The name of a registered relation. -/
structure RelationHandle where
  name : String
  deriving DecidableEq

/-- The name of a handle in one line. -/
def RelationHandle.describe (h : RelationHandle) : String :=
  "RelationHandle(" ++ h.name ++ ")"

/-- Descriptors in order of registration, and the places of their names and outputs. -/
structure Registry where
  descriptors : List Descriptor
  /-- The place of the producer, under the name of every target. -/
  byOutput : NameMap Nat
  /-- The place of the descriptor, under the name of every descriptor. -/
  byName : NameMap Nat

namespace Registry

/-- The registry without descriptors. -/
def empty : Registry :=
  ⟨[], .empty, .empty⟩

/-- The number of descriptors. -/
def size (r : Registry) : Nat :=
  r.descriptors.length

/-- The descriptor at a place in the order of registration; an empty one past the end. -/
def descriptor (r : Registry) (i : Nat) : Descriptor :=
  r.descriptors.getD i default

/-- The name of the descriptor at a place. -/
def nameOf (r : Registry) (i : Nat) : String :=
  (r.descriptor i).name

/-! ## Look-up -/

/-- The place of the producer of a target. -/
def producerIndex? (r : Registry) (name : String) : Option Nat :=
  r.byOutput.get? name

/-- The place of the descriptor of a name. -/
def descriptorIndex? (r : Registry) (name : String) : Option Nat :=
  r.byName.get? name

/-- The descriptor of a name. -/
def named? (r : Registry) (name : String) : Option Descriptor :=
  (r.descriptorIndex? name).map r.descriptor

/-- The producer of a target. -/
def lookup (r : Registry) (name : String) : Except Error Descriptor :=
  match r.producerIndex? name with
  | some i => .ok (r.descriptor i)
  | none => .error (.unknownTarget name none)

/-- The target of a name. -/
def target (r : Registry) (name : String) : Except Error Target :=
  match r.lookup name with
  | .error e => .error e
  | .ok d =>
    match d.target? name with
    | some t => .ok t
    | none => .error (.unknownTarget name none)

/-- The handle of a domain of the given facts. -/
def domainHandle (r : Registry) (name : String) (t : FactType) :
    Except Error (DomainHandle t) :=
  match r.target name with
  | .error e => .error e
  | .ok target =>
    if target.isDomainOf t then .ok ⟨name⟩ else .error (.typeMismatch name (.domainOf t))

/-- The handle of a relation. -/
def relationHandle (r : Registry) (name : String) : Except Error RelationHandle :=
  match r.target name with
  | .error e => .error e
  | .ok target =>
    if target.isDomain then .error (.typeMismatch name .relation) else .ok ⟨name⟩

/-! ## Registration -/

/-- The first of some names that has a producer, with the name of the producer. -/
def taken? (r : Registry) : List String → Option (String × String)
  | [] => none
  | n :: ns =>
    match r.producerIndex? n with
    | some i => some (n, r.nameOf i)
    | none => r.taken? ns

/-- Add a descriptor at the end, and record its place under its name and its outputs. -/
def push (r : Registry) (d : Descriptor) : Registry where
  descriptors := r.descriptors ++ [d]
  byOutput := d.outputs.foldl (fun m name => m.insert name r.size) r.byOutput
  byName := r.byName.insert d.name r.size

/-- Add a descriptor whose name and outputs are free. -/
def register (r : Registry) (d : Descriptor) : Except Error Unit × Registry :=
  match r.descriptorIndex? d.name with
  | some i => (.error (.duplicateName d.name (r.nameOf i)), r)
  | none =>
    match r.taken? d.outputs with
    | some (name, existing) => (.error (.duplicateName name existing), r)
    | none => (.ok (), r.push d)

/-- Add the descriptor of a draft. -/
def registerDraft (r : Registry) (d : Draft) : Except Error Unit × Registry :=
  match d.build with
  | .error e => (.error e, r)
  | .ok d => r.register d

/-- Add a descriptor that produces one domain of its own name. -/
def registerDomain (r : Registry) (name : String) (t : FactType) (consumes : List String)
    (fill : Fill) : Except Error (DomainHandle t) × Registry :=
  match r.registerDraft ⟨name, [⟨name, .domain t⟩], consumes, .ofDomain name t fill⟩ with
  | (.error e, r) => (.error e, r)
  | (.ok (), r) => (.ok ⟨name⟩, r)

/-- Add a descriptor that produces one relation of its own name. -/
def registerRelation (r : Registry) (name : String) (sig : Signature)
    (consumes : List String) (fill : Fill) : Except Error RelationHandle × Registry :=
  match r.registerDraft ⟨name, [⟨name, .relation sig⟩], consumes, .ofRelation name fill⟩ with
  | (.error e, r) => (.error e, r)
  | (.ok (), r) => (.ok ⟨name⟩, r)

/-! ## The graph of the descriptors -/

/-- Add a descriptor to a graph, with an edge from the producer of every name it consumes.
A name without a producer adds no edge. -/
def addToGraph (r : Registry) (g : DependencyGraph) (d : Descriptor) : DependencyGraph :=
  d.consumes.foldl
    (fun g name =>
      match r.producerIndex? name with
      | some i => g.addDependency d.name (r.nameOf i)
      | none => g)
    (g.addNode d.name).2

/-- The graph of the descriptors. -/
def graph (r : Registry) : DependencyGraph :=
  r.descriptors.foldl r.addToGraph .empty

end Registry

end FactEngine
