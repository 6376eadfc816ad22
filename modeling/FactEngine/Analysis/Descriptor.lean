import FactEngine.Analysis.Fill

/-!
# Descriptors

A descriptor declares one analysis : the targets it produces, the names it consumes, and
the step that fills the targets. A `Draft` lists what is declared, in order of declaration.
`Draft.build` refuses a draft that produces one name twice. It lists the declared consumed
names once each, own outputs included, and after them the domains of the produced relations
that are neither consumed nor produced already, since a relation cannot be made before the
domains of its columns.
-/

namespace FactEngine

open Text

/-- What a target is. -/
inductive TargetKind where
  | domain (t : FactType)
  | relation (sig : Signature)
  deriving DecidableEq

/-- A name that is produced, and what it stands for. -/
structure Target where
  name : String
  kind : TargetKind
  deriving DecidableEq

namespace Target

/-- Whether the target is a domain. -/
def isDomain (t : Target) : Bool :=
  t.kind matches .domain _

/-- Whether the target is a domain of the given facts. -/
def isDomainOf (target : Target) (t : FactType) : Bool :=
  target.kind = .domain t

/-- The signature of a relation. -/
def signature? (t : Target) : Option Signature :=
  match t.kind with
  | .relation sig => some sig
  | .domain _ => none

/-- The name and the kind in one line. -/
def describe (t : Target) : String :=
  let kind := match t.kind with
    | .domain factType => "Domain<" ++ factType.title ++ ">"
    | .relation sig => "Relation(" ++ sig.text ++ ")"
  "Target \x7b name: " ++ quoted t.name ++ ", kind: " ++ kind ++ " \x7d"

end Target

/-- The declaration of one analysis. -/
structure Descriptor where
  name : String
  produces : List Target
  consumes : List String
  fill : Fill

namespace Descriptor

instance : Inhabited Descriptor where
  default := ⟨"", [], [], .finish⟩

/-- The names of the targets. -/
def outputs (d : Descriptor) : List String :=
  d.produces.map Target.name

/-- Whether a name is produced. -/
def producesName (d : Descriptor) (name : String) : Bool :=
  name ∈ d.outputs

/-- Whether a name is consumed. -/
def consumesName (d : Descriptor) (name : String) : Bool :=
  name ∈ d.consumes

/-- The target of a name. -/
def target? (d : Descriptor) (name : String) : Option Target :=
  d.produces.find? (·.name = name)

/-- The name, the targets and the consumed names in one line. -/
def describe (d : Descriptor) : String :=
  "AnalysisDescriptor \x7b name: " ++ quoted d.name ++
    ", produces: [" ++ ", ".intercalate (d.produces.map Target.describe) ++
    "], consumes: [" ++ ", ".intercalate (d.consumes.map quoted) ++ "], .. \x7d"

end Descriptor

/-- What is declared of an analysis. -/
structure Draft where
  name : String
  produces : List Target
  consumes : List String
  fill : Fill

namespace Draft

/-- The draft of an analysis of which nothing is declared yet. Its step leaves the outputs
empty. -/
def empty (name : String) : Draft :=
  ⟨name, [], [], .finish⟩

/-- Declare a target. -/
def produce (d : Draft) (t : Target) : Draft :=
  { d with produces := d.produces ++ [t] }

/-- Declare a domain. -/
def produceDomain (d : Draft) (name : String) (t : FactType) : Draft :=
  d.produce ⟨name, .domain t⟩

/-- Declare a relation. -/
def produceRelation (d : Draft) (name : String) (sig : Signature) : Draft :=
  d.produce ⟨name, .relation sig⟩

/-- Declare consumed names. -/
def consume (d : Draft) (names : List String) : Draft :=
  { d with consumes := d.consumes ++ names }

/-- Set the step that fills the outputs. -/
def withFill (d : Draft) (fill : Fill) : Draft :=
  { d with fill }

/-- The first name that occurs again after the names `seen`. -/
def repeated? (seen : List String) : List String → Option String
  | [] => none
  | n :: ns => if n ∈ seen then some n else repeated? (n :: seen) ns

/-- The column domains of the produced relations, in order of mention. -/
def columnDomains (d : Draft) : List String :=
  (d.produces.filterMap Target.signature?).flatMap fun sig => sig.columns.map Column.domain

/-- The consumed names : the declared ones, then the column domains not produced here. -/
def allConsumed (d : Draft) : List String :=
  distinct (d.consumes ++ d.columnDomains.filter (· ∉ d.produces.map Target.name))

/-- The descriptor that the draft declares. -/
def build (d : Draft) : Except Error Descriptor :=
  match repeated? [] (d.produces.map Target.name) with
  | some name => .error (.duplicateName name d.name)
  | none => .ok ⟨d.name, d.produces, d.allConsumed, d.fill⟩

end Draft

end FactEngine
