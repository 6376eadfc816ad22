import FactEngine.Analysis.Descriptor
import FactEngine.Run.Basic

/-!
# Sessions

The population step of a descriptor runs in a session. The session holds what the step may
see : the configuration, the artifacts of the consumed names that were done when it began
(`Session.inputs`), and the outputs of the descriptor, which were made empty before it began.
`Session.perform` says what every action of a step does, and `Fill.run` lets a step act
until it ends.

Reading is confined to the consumed names. To read a domain freezes it, so that every
reader of a published domain sees the same facts; to look at an input without asking for
its facts does not. Writing is confined to the outputs, and what was written before
a refusal stays written. A step may also make a relation of its own and put it in the place of
an output relation (`Session.replaceRelation`), whatever the name of the new one.

`Outputs.prepare` makes the outputs : first the domains, then the relations over them and
over consumed domains. A consumed domain that a relation is bound to counts as read.
-/

namespace FactEngine

/-! ## Outputs -/

/-- The outputs that the step of a descriptor fills. -/
structure Outputs where
  domains : NameMap DomainId
  relations : NameMap Relation
  deriving DecidableEq

namespace Outputs

/-- Make the domains among the targets. -/
def makeDomains (s : Store) : List Target → NameMap DomainId × Store
  | [] => (.empty, s)
  | ⟨_, .relation _⟩ :: targets => makeDomains s targets
  | ⟨name, .domain t⟩ :: targets =>
    match s.add (.empty name t) with
    | (id, s) =>
      match makeDomains s targets with
      | (m, s) => (m.insert name id, s)

/-- The domain of a column : the output of the name, or else the consumed domain, which is
frozen. -/
def bindColumn (descriptor : String) (inputs : NameMap Artifact) (own : NameMap DomainId)
    (s : Store) (name : String) : Except Error DomainId × Store :=
  match own.get? name, inputs.get? name with
  | some id, _ => (.ok id, s)
  | none, some (.domain id) => (.ok id, s.freeze id)
  | none, some (.relation _) => (.error (.typeMismatch name .domain), s)
  | none, none => (.error (.undeclaredDependency descriptor name .notDone), s)

/-- The domains of columns, up to the first that has none. -/
def bindColumns (descriptor : String) (inputs : NameMap Artifact) (own : NameMap DomainId)
    (s : Store) : List Column → Except Error (List DomainId) × Store
  | [] => (.ok [], s)
  | c :: cs =>
    match bindColumn descriptor inputs own s c.domain with
    | (.error e, s) => (.error e, s)
    | (.ok id, s) =>
      match bindColumns descriptor inputs own s cs with
      | (.error e, s) => (.error e, s)
      | (.ok ids, s) => (.ok (id :: ids), s)

/-- Make the relations among the targets. -/
def makeRelations (descriptor : String) (inputs : NameMap Artifact) (o : Outputs) (s : Store) :
    List Target → Except Error Outputs × Store
  | [] => (.ok o, s)
  | ⟨_, .domain _⟩ :: targets => makeRelations descriptor inputs o s targets
  | ⟨name, .relation sig⟩ :: targets =>
    match bindColumns descriptor inputs o.domains s sig.columns with
    | (.error e, s) => (.error e, s)
    | (.ok ids, s) =>
      match Relation.create s name sig ids with
      | .error e => (.error e, s)
      | .ok r =>
        makeRelations descriptor inputs { o with relations := o.relations.insert name r } s
          targets

/-- Make all outputs of a descriptor, empty. -/
def prepare (d : Descriptor) (inputs : NameMap Artifact) (s : Store) :
    Except Error Outputs × Store :=
  match makeDomains s d.produces with
  | (domains, s) => makeRelations d.name inputs ⟨domains, .empty⟩ s d.produces

/-- The output of a target. -/
def artifact? (o : Outputs) (t : Target) : Option Artifact :=
  match t.kind with
  | .domain _ => (o.domains.get? t.name).map .domain
  | .relation _ => (o.relations.get? t.name).map .relation

/-- The outputs of targets, in the order of the targets. A target without one is left out. -/
def artifacts (o : Outputs) (targets : List Target) : List Artifact :=
  targets.filterMap o.artifact?

end Outputs

/-! ## Sessions -/

/-- What the step of a descriptor runs in. -/
structure Session where
  descriptor : Descriptor
  config : Config
  inputs : NameMap Artifact
  outputs : Outputs
  run : Run

namespace Session

/-- The consumed artifact of a name. -/
def input (s : Session) (name : String) : Except Error Artifact :=
  if s.descriptor.consumesName name then
    match s.inputs.get? name with
    | some a => .ok a
    | none => .error (.undeclaredDependency s.descriptor.name name .notDone)
  else .error (.undeclaredDependency s.descriptor.name name .undeclared)

/-- The consumed domain of a name. -/
def inputDomain (s : Session) (name : String) : Except Error DomainId :=
  match s.input name with
  | .error e => .error e
  | .ok (.domain id) => .ok id
  | .ok (.relation _) => .error (.typeMismatch name .domain)

/-- The consumed relation of a name. -/
def inputRelation (s : Session) (name : String) : Except Error Relation :=
  match s.input name with
  | .error e => .error e
  | .ok a => a.intoRelation s.run.store

/-- The refusal of a name that is not an output. -/
def notProduced (s : Session) (name : String) : Error :=
  .unknownTarget name (some s.descriptor.name)

/-- The output domain of a name, which must store facts of the given type. -/
def outputDomain (s : Session) (name : String) (t : FactType) :
    Except Error (DomainId × Domain t.Carrier) :=
  match s.outputs.domains.get? name with
  | none => .error (s.notProduced name)
  | some id =>
    match (s.run.store.get id).downcast t with
    | .error e => .error e
    | .ok d => .ok (id, d)

/-- The output relation of a name. -/
def outputRelation (s : Session) (name : String) : Except Error Relation :=
  match s.outputs.relations.get? name with
  | none => .error (s.notProduced name)
  | some r => .ok r

/-- Freeze a domain. -/
def freeze (s : Session) (id : DomainId) : Session :=
  { s with run := s.run.freeze id }

/-- Put another store in place. -/
def withStore (s : Session) (store : Store) : Session :=
  { s with run := { s.run with store } }

/-- Put a relation in the place of an output. -/
def withRelation (s : Session) (name : String) (r : Relation) : Session :=
  { s with outputs := { s.outputs with relations := s.outputs.relations.insert name r } }

/-- Read a consumed domain, and freeze it. -/
def readDomain (s : Session) (name : String) : Except Error AnyDomain × Session :=
  match s.inputDomain name with
  | .error e => (.error e, s)
  | .ok id => (.ok ((s.freeze id).run.store.get id), s.freeze id)

/-- Change an output relation by `f`, which answers as well. -/
def updateRelation {α : Type} (s : Session) (name : String)
    (f : Store → Relation → Except Error α × Relation) : Except Error α × Session :=
  match s.outputRelation name with
  | .error e => (.error e, s)
  | .ok r =>
    match f s.run.store r with
    | (answer, r) => (answer, s.withRelation name r)

/-- The domain of a column of a relation, if the relation was not refused and has the column. -/
def columnOf (column : Nat) : Except Error Relation → Except Error DomainId
  | .error e => .error e
  | .ok r =>
    match r.domain? column with
    | some id => .ok id
    | none => .error (.signatureMismatch r.name r.arity (column + 1))

/-- The domain that a column of a new relation is bound to. It is added to the store if it is
made for it. -/
def columnDomain (s : Session) (store : Store) : ColumnDomain → Except Error DomainId × Store
  | .output name t => ((s.outputDomain name t).map Prod.fst, store)
  | .input name => (s.inputDomain name, store)
  | .ofOutput relation column => (columnOf column (s.outputRelation relation), store)
  | .ofInput relation column => (columnOf column (s.inputRelation relation), store)
  | .new name t fs =>
    match store.add ⟨t, ((Domain.empty name).extend fs).2⟩ with
    | (id, store) => (.ok id, store)

/-- The domains of the columns of a new relation, up to the first that is refused. -/
def columnDomains (s : Session) (store : Store) :
    List ColumnDomain → Except Error (List DomainId) × Store
  | [] => (.ok [], store)
  | c :: cs =>
    match s.columnDomain store c with
    | (.error e, store) => (.error e, store)
    | (.ok id, store) =>
      match s.columnDomains store cs with
      | (.error e, store) => (.error e, store)
      | (.ok ids, store) => (.ok (id :: ids), store)

/-- Make a relation without tuples and put it in the place of an output relation. It carries
a name of its own. -/
def replaceRelation (s : Session) (name : String) (relation : String) (sig : Signature)
    (columns : List ColumnDomain) : Except Error Unit × Session :=
  match s.columnDomains s.run.store columns with
  | (.error e, store) => (.error e, s.withStore store)
  | (.ok ids, store) =>
    match Relation.create store relation sig ids with
    | .error e => (.error e, s.withStore store)
    | .ok r =>
      match s.outputRelation name with
      | .error e => (.error e, s.withStore store)
      | .ok _ => (.ok (), (s.withStore store).withRelation name r)

/-- Put the relation in the place of an output back under the name that it carries. -/
def restoreRelation (s : Session) (name : String) : Session :=
  match s.outputs.relations.get? name with
  | none => s
  | some r =>
    { s with
      outputs := { s.outputs with
        relations := (s.outputs.relations.erase name).insert r.name r } }

/-- What an action is answered with, and the session after it. -/
def perform (s : Session) : (a : Action) → a.Reply × Session
  | .config => (s.config, s)
  | .whoami => (s.descriptor.name, s)
  | .input name =>
    match s.input name with
    | .error e => (.error e, s)
    | .ok a => (.ok (a.view s.run.store), s)
  | .readDomain name => s.readDomain name
  | .readFacts name t =>
    match s.readDomain name with
    | (.error e, s) => (.error e, s)
    | (.ok d, s) => (d.downcast t, s)
  | .readRelation name => (s.inputRelation name, s)
  | .growInput name t fs =>
    match s.input name with
    | .error e => (.error e, s)
    | .ok a =>
      match a.extend s.run.store t fs with
      | (answer, store) => (answer, s.withStore store)
  | .outputDomain name t =>
    match s.outputDomain name t with
    | .error e => (.error e, s)
    | .ok (_, d) => (.ok d, s)
  | .outputRelation name => (s.outputRelation name, s)
  | .intern name t fs =>
    match s.outputDomain name t with
    | .error e => (.error e, s)
    | .ok (id, _) =>
      match s.run.store.extend id t fs with
      | (answer, store) => (answer, s.withStore store)
  | .freeze name t =>
    match s.outputDomain name t with
    | .error e => (.error e, s)
    | .ok (id, _) => (.ok (), s.freeze id)
  | .add name ts => s.updateRelation name fun store r => r.extend store ts
  | .select name list delimiter =>
    s.updateRelation name fun store r => r.selectNames store list delimiter
  | .replace name relation sig columns => s.replaceRelation name relation sig columns
  | .restore name => ((), s.restoreRelation name)
  | .status name => (s.run.status name, s)
  | .metrics => (s.run.metrics, s)
  | .cancel reason => ((), { s with run := { s.run with signal := s.run.signal.cancel reason } })
  | .note n => ((), { s with run := s.run.enter (.noted s.descriptor.name n) })

end Session

/-- Let a step act until it ends. -/
def Fill.run (s : Session) : Fill → Except Failure Unit × Session
  | .finish => (.ok (), s)
  | .fail f => (.error f, s)
  | .step a next =>
    match s.perform a with
    | (reply, s) => (next reply).run s

end FactEngine
