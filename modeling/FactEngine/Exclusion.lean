import FactEngine.Run.Scheduler

/-!
# Excluded types

Race detection can be told to ignore objects of some types. Two analyses provide for that.
The domain `T` holds the types of the program, in the order in which they were discovered.
The relation `excludeType` holds those of them that are excluded : the types that a property
lists by name, separated by commas. Names that are no type of the program are passed over.

Whether the exclusion is applied is a separate property, a flag. `TypeGate.ofScheduler`
reads the flag first, and materializes the relation only if it is set.
-/

namespace FactEngine

/-- The namespace of the properties that control the exclusion. -/
structure ExclusionSettings where
  ns : String
  deriving DecidableEq

namespace ExclusionSettings

/-- The settings that hold where no namespace is chosen. -/
def default : ExclusionSettings :=
  ⟨"chord.datarace"⟩

/-- The property that lists the excluded types. -/
def listKey (s : ExclusionSettings) : String :=
  s.ns ++ ".exclude.type"

/-- The property that says whether the exclusion is applied. -/
def flagKey (s : ExclusionSettings) : String :=
  s.ns ++ ".exclude.typeflag"

/-- The list of the excluded types; empty if it is not set. -/
def list (s : ExclusionSettings) (c : Config) : String :=
  c.propertyOr s.listKey ""

/-- Whether the exclusion is applied. -/
def enabled (s : ExclusionSettings) (c : Config) : Bool :=
  c.flag s.flagKey

end ExclusionSettings

/-! ## The analyses -/

/-- The name of the domain of types. -/
def typesName : String :=
  "T"

/-- The name of the relation of excluded types. -/
def excludedName : String :=
  "excludeType"

/-- The signature of the relation of excluded types : one column over the types. -/
def excludedSignature : String :=
  "T1:T1"

/-- The names of the types of a program, in order of discovery, or why they are unknown. -/
abbrev TypeSource := Except Failure (List String)

/-- The step that fills the domain of types. -/
def TypeSource.fill : TypeSource → Fill
  | .error f => .fail (f.within "failed to enumerate program types")
  | .ok names =>
    .step (.intern typesName .typeName (names.map TypeName.mk)) (Fill.orFail fun _ => .finish)

/-- The step that fills the relation of excluded types. -/
def ExclusionSettings.fill (s : ExclusionSettings) : Fill :=
  .step .config fun c =>
    if s.list c = "" then .finish
    else .step (.select excludedName (s.list c) ',') (Fill.orFail fun _ => .finish)

namespace Registry

/-- Register the domain of types. -/
def registerTypes (r : Registry) (source : TypeSource) :
    Except Error (DomainHandle .typeName) × Registry :=
  r.registerDomain typesName .typeName [] source.fill

/-- Register the relation of excluded types. -/
def registerExcluded (r : Registry) (settings : ExclusionSettings) :
    Except Error RelationHandle × Registry :=
  match Signature.parse excludedSignature with
  | .error e => (.error e, r)
  | .ok sig => r.registerRelation excludedName sig [typesName] settings.fill

/-- Register both. The domain of types stays if the relation is refused. -/
def registerExclusion (r : Registry) (source : TypeSource) (settings : ExclusionSettings) :
    Except Error (DomainHandle .typeName × RelationHandle) × Registry :=
  match r.registerTypes source with
  | (.error e, r) => (.error e, r)
  | (.ok types, r) =>
    match r.registerExcluded settings with
    | (.error e, r) => (.error e, r)
    | (.ok excluded, r) => (.ok (types, excluded), r)

end Registry

/-! ## The gate -/

/-- The excluded types, or none if the exclusion is not applied. -/
structure TypeGate where
  excluded : Option Relation
  deriving DecidableEq

namespace TypeGate

/-- The gate that excludes nothing. -/
def disabled : TypeGate :=
  ⟨none⟩

/-- The gate that excludes the types in a relation. -/
def enabled (r : Relation) : TypeGate :=
  ⟨some r⟩

/-- The gate of a scheduler, by its configuration. -/
def ofScheduler (s : Scheduler) (h : RelationHandle) (settings : ExclusionSettings) :
    Except Error TypeGate × Scheduler :=
  if settings.enabled s.config then
    match s.relation h with
    | (.error e, s) => (.error e, s)
    | (.ok r, s) => (.ok (enabled r), s)
  else (.ok disabled, s)

/-- Whether the exclusion is applied. -/
def isEnabled (g : TypeGate) : Bool :=
  g.excluded.isSome

/-- Whether the type at an index is excluded. -/
def excludes (g : TypeGate) (i : Nat) : Bool :=
  match g.excluded with
  | some r => r.contains [i]
  | none => false

/-- The indices of the excluded types, in the order in which they were added. -/
def types (g : TypeGate) : List Nat :=
  match g.excluded with
  | some r => r.tuples.filterMap List.head?
  | none => []

end TypeGate

end FactEngine
