import FactEngine.Analysis.Registry

/-!
# Resolution

To materialize a target, the descriptors it needs run in an order in which every descriptor
comes after the producers of what it consumes. Descriptors are named here by their place in
the order of registration.

`Registry.orderFor` finds the order by depth-first search from the producer of the target
(`Registry.visit`). Descriptors whose outputs are all done are neither listed nor searched
through. Dependencies are visited by place, and a descriptor is listed when its
dependencies are. The search carries the places that are not on the current path; meeting
a place that is on it closes a cycle, which the error names from its first descriptor round
to the same one.

`Registry.batches` groups an order by levels (`Registry.rounds`) : a batch holds what depends
on nothing that is still pending. It looks up once what every descriptor of the order depends
on (`Registry.dependencyTable`). `Registry.validate` checks a whole registry, by the graph
of the descriptors, and names a cycle by a search.
-/

namespace FactEngine

namespace Registry

/-- The first consumed name of a descriptor that has no producer. -/
def missing? (r : Registry) (i : Nat) : Option String :=
  (r.descriptor i).consumes.find? fun name => (r.producerIndex? name).isNone

/-- The producers of what a descriptor consumes, by consumed name. -/
def producers (r : Registry) (i : Nat) : List Nat :=
  (r.descriptor i).consumes.filterMap r.producerIndex?

/-- The descriptors that a descriptor depends on, by place. -/
def dependencies (r : Registry) (i : Nat) : List Nat :=
  let producers := r.producers i
  (List.range r.size).filter (· ∈ producers)

/-- Whether all outputs of a descriptor are done. -/
def outputsDone (r : Registry) (isDone : String → Bool) (i : Nat) : Bool :=
  (r.descriptor i).outputs.all isDone

/-- The cycle that a path closes by coming back to `i`. -/
def cycleThrough (r : Registry) (path : List Nat) (i : Nat) : List String :=
  (path.dropWhile (· ≠ i) ++ [i]).map r.nameOf

/-- Extend an order by the descriptor at `i` and what it depends on. The places in `free`
are those that are not on the path to `i`. -/
def visit (r : Registry) (isDone : String → Bool) (free path : List Nat) (i : Nat)
    (order : List Nat) : Except Error (List Nat) :=
  if i ∈ order then .ok order
  else if i ∈ free then
    match r.missing? i with
    | some name => .error (.unknownTarget name (some (r.nameOf i)))
    | none =>
      match (r.dependencies i).foldlM
          (fun order j =>
            if r.outputsDone isDone j then .ok order
            else r.visit isDone (free.erase i) (path ++ [i]) j order)
          order with
      | .error e => .error e
      | .ok order => .ok (order ++ [i])
  else .error (.cyclicDependency (r.cycleThrough path i))
termination_by free.length
decreasing_by
  rename_i h _
  have hlt := List.length_erase_of_mem h
  have hpos := List.length_pos_of_mem h
  omega

/-- The descriptors to run, in order, so that a target becomes available. -/
def orderFor (r : Registry) (target : String) (isDone : String → Bool) :
    Except Error (List Nat) :=
  match r.producerIndex? target with
  | none => .error (.unknownTarget target none)
  | some i =>
    if r.outputsDone isDone i then .ok []
    else r.visit isDone (List.range r.size) [] i []

/-! ## Batches -/

/-- Those of the pending descriptors that depend on none of them. -/
def ready (dependencies : Nat → List Nat) (pending : List Nat) : List Nat :=
  pending.filter fun i => (dependencies i).all (· ∉ pending)

/-- The pending descriptors that are not in a batch. -/
def remaining (batch pending : List Nat) : List Nat :=
  pending.filter (· ∉ batch)

theorem length_remaining_lt {batch pending : List Nat} {i : Nat} (h : i ∈ batch)
    (hp : i ∈ pending) : (remaining batch pending).length < pending.length :=
  List.length_filter_lt_length_iff_exists.2 ⟨i, hp, by simpa using h⟩

/-- The batches that are ready one after another, or the descriptors that never are. -/
def rounds (dependencies : Nat → List Nat) (pending : List Nat) :
    Except (List Nat) (List (List Nat)) :=
  if pending = [] then .ok []
  else
    match _h : ready dependencies pending with
    | [] => .error pending
    | i :: is =>
      match rounds dependencies (remaining (i :: is) pending) with
      | .error stuck => .error stuck
      | .ok batches => .ok ((i :: is).mergeSort (· ≤ ·) :: batches)
termination_by pending.length
decreasing_by
  have hi : i ∈ ready dependencies pending := _h ▸ List.mem_cons_self
  exact length_remaining_lt List.mem_cons_self (List.mem_filter.1 hi).1

/-- The descriptors of a list with what they depend on. -/
def dependencyTable (r : Registry) (order : List Nat) : List (Nat × List Nat) :=
  order.map fun i => (i, r.dependencies i)

/-- An order grouped into batches. An order that lists a descriptor twice has none. -/
def batches (r : Registry) (order : List Nat) : Except Error (List (List Nat)) :=
  let table := r.dependencyTable order
  match rounds (fun i => (table.lookup i).getD []) order with
  | .error stuck => .error (.cyclicDependency (stuck.map r.nameOf))
  | .ok batches => if order.Nodup then .ok batches else .error (.cyclicDependency [])

/-! ## Validation -/

/-- The first consumed name that has no producer, with its consumer, by place from `i`. -/
def firstMissing? (r : Registry) : List Nat → Option (String × String)
  | [] => none
  | i :: is =>
    match r.missing? i with
    | some name => some (name, r.nameOf i)
    | none => r.firstMissing? is

/-- The first output of the descriptor of a name, or the name if there is none. -/
def firstOutput (r : Registry) (name : String) : String :=
  ((r.named? name).bind (·.outputs.head?)).getD name

/-- Check that every consumed name has a producer and that no descriptor depends on itself,
directly or through others. -/
def validate (r : Registry) : Except Error Unit :=
  match r.firstMissing? (List.range r.size) with
  | some (name, consumer) => .error (.unknownTarget name (some consumer))
  | none =>
    match r.graph.sort with
    | .order _ => .ok ()
    | .cyclic name =>
      match r.orderFor (r.firstOutput name) fun _ => false with
      | .error e => .error e
      | .ok _ => .error (.cyclicDependency [name])

end Registry

end FactEngine
