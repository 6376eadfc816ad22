import FactEngine.NameMap

/-!
# The dependency graph

Nodes are descriptor names, numbered by first mention, and an edge runs from a dependency
to a descriptor that depends on it. The number of a name is kept in a map beside the list of
nodes, which is written when the node is added. An edge is recorded once. The neighbours of
a node are listed with the most recently recorded edge first, in either direction.

`DependencyGraph.reachable` is breadth-first search along the edges. It marks a node when
the node enters the queue, and the unmarked nodes are an argument, so the search ends because
every step shortens the queue or the list of unmarked nodes.

`DependencyGraph.sort` lists the nodes with dependencies first, or names a node on a cycle.
It works in two passes. `DependencyGraph.finish` is depth-first search with a stack of its
own that records the nodes in the order in which they are left for good; a node with an edge
to itself ends it at once. The reverse of that record is the order, unless the graph has
a cycle, which shows in the second pass (`DependencyGraph.firstBackward`) as a node that
depends on one placed after it.
-/

namespace FactEngine

/-- Named nodes and the edges between them. -/
structure DependencyGraph where
  /-- The names by number. -/
  names : List String
  /-- The edges, newest first, as pairs of a dependency and its dependent. -/
  edges : List (Nat × Nat)
  /-- The numbers by name. -/
  index : NameMap Nat
  deriving DecidableEq

namespace DependencyGraph

/-- The graph without nodes. -/
def empty : DependencyGraph :=
  ⟨[], [], .empty⟩

/-- The number of nodes. -/
def size (g : DependencyGraph) : Nat :=
  g.names.length

/-- The number of a name. -/
def node? (g : DependencyGraph) (name : String) : Option Nat :=
  g.index.get? name

/-- The name of a node. -/
def nameOf (g : DependencyGraph) (n : Nat) : String :=
  g.names.getD n ""

/-- Add a name unless it is a node, and give its number. -/
def addNode (g : DependencyGraph) (name : String) : Nat × DependencyGraph :=
  match g.node? name with
  | some n => (n, g)
  | none =>
    (g.size, { g with names := g.names ++ [name], index := g.index.insert name g.size })

/-- Record that `dependent` depends on `dependency`. Both become nodes, the dependent
first. -/
def addDependency (g : DependencyGraph) (dependent dependency : String) : DependencyGraph :=
  match g.addNode dependent with
  | (b, g) =>
    match g.addNode dependency with
    | (a, g) => if (a, b) ∈ g.edges then g else { g with edges := (a, b) :: g.edges }

/-- The nodes that depend on a node, newest edge first. -/
def successors (g : DependencyGraph) (n : Nat) : List Nat :=
  g.edges.filterMap fun e => if e.1 = n then some e.2 else none

/-- The nodes that a node depends on, newest edge first. -/
def predecessors (g : DependencyGraph) (n : Nat) : List Nat :=
  g.edges.filterMap fun e => if e.2 = n then some e.1 else none

/-- The names that depend on a name directly. -/
def dependents (g : DependencyGraph) (name : String) : List String :=
  match g.node? name with
  | some n => (g.successors n).map g.nameOf
  | none => []

/-- The names that a name depends on directly. -/
def dependencies (g : DependencyGraph) (name : String) : List String :=
  match g.node? name with
  | some n => (g.predecessors n).map g.nameOf
  | none => []

/-! ## Reachability -/

/-- Move the unmarked nodes among the neighbours to the end of the queue. -/
def enqueue (unmarked queue : List Nat) : List Nat → List Nat × List Nat
  | [] => (unmarked, queue)
  | n :: ns =>
    if n ∈ unmarked then enqueue (unmarked.erase n) (queue ++ [n]) ns
    else enqueue unmarked queue ns

theorem enqueue_shrinks (ns unmarked queue : List Nat) :
    (enqueue unmarked queue ns).1.length < unmarked.length ∨
      enqueue unmarked queue ns = (unmarked, queue) := by
  induction ns generalizing unmarked queue with
  | nil => exact Or.inr rfl
  | cons n ns ih =>
    unfold enqueue
    split
    · rename_i h
      have hlt := List.length_erase_of_mem h
      have hpos := List.length_pos_of_mem h
      rcases ih (unmarked.erase n) (queue ++ [n]) with h' | h'
      · exact Or.inl (by omega)
      · refine Or.inl ?_
        rw [h']
        simp only
        omega
    · exact ih unmarked queue

/-- The nodes that leave the queue, in order, until it is empty. -/
def search (g : DependencyGraph) (unmarked queue : List Nat) : List Nat :=
  match queue with
  | [] => []
  | n :: queue =>
    n :: g.search (enqueue unmarked queue (g.successors n)).1
      (enqueue unmarked queue (g.successors n)).2
termination_by (unmarked.length, queue.length)
decreasing_by
  rcases enqueue_shrinks (g.successors n) unmarked queue with h | h
  · exact Prod.Lex.left _ _ h
  · rw [h]
    exact Prod.Lex.right _ (by simp)

/-- The nodes reached from a node, itself first, nearer ones before farther ones. -/
def reachable (g : DependencyGraph) (n : Nat) : List Nat :=
  g.search ((List.range g.size).erase n) [n]

/-- The names that depend on a name directly or through others, without the name itself. -/
def transitiveDependents (g : DependencyGraph) (name : String) : List String :=
  match g.node? name with
  | some n => ((g.reachable n).filter (· ≠ n)).map g.nameOf
  | none => []

/-! ## Sorting -/

/-- What a sort answers : an order of the nodes, or a node on a cycle. -/
inductive Sorted (α : Type) where
  | order (nodes : List α)
  | cyclic (node : α)
  deriving DecidableEq

/-- Depth-first search from the nodes on the stack. A node on top for the first time is
struck off `fresh` and its fresh neighbours go on the stack; on top again it is popped, and
recorded in front of `finished` unless it was recorded before. -/
def finish (g : DependencyGraph) (fresh stack finished : List Nat) :
    Sorted Nat × List Nat :=
  match stack with
  | [] => (.order finished, fresh)
  | n :: rest =>
    if n ∈ fresh then
      if n ∈ g.successors n then (.cyclic n, fresh)
      else
        g.finish (fresh.erase n)
          (((g.successors n).filter (· ∈ fresh.erase n)).reverse ++ n :: rest) finished
    else g.finish fresh rest (if n ∈ finished then finished else n :: finished)
termination_by (fresh.length, stack.length)
decreasing_by
  · rename_i h _
    have hlt := List.length_erase_of_mem h
    have hpos := List.length_pos_of_mem h
    exact Prod.Lex.left _ _ (by omega)
  · exact Prod.Lex.right _ (by simp)

/-- Depth-first search from every node that is still fresh, by number. -/
def finishAll (g : DependencyGraph) : List Nat → List Nat → List Nat → Sorted Nat
  | [], _, finished => .order finished
  | n :: ns, fresh, finished =>
    if n ∈ fresh then
      match g.finish fresh [n] finished with
      | (.cyclic k, _) => .cyclic k
      | (.order finished, fresh) => g.finishAll ns fresh finished
    else g.finishAll ns fresh finished

/-- The first node in the list that depends on one neither placed before it nor itself gives
the dependency, the earliest recorded of several. -/
def firstBackward (g : DependencyGraph) (before : List Nat) : List Nat → Option Nat
  | [] => none
  | n :: ns =>
    match ((g.predecessors n).filter (· ∉ n :: before)).getLast? with
    | some k => some k
    | none => g.firstBackward (n :: before) ns

/-- The nodes with dependencies first, or a node on a cycle. -/
def sortNodes (g : DependencyGraph) : Sorted Nat :=
  match g.finishAll (List.range g.size) (List.range g.size) [] with
  | .cyclic n => .cyclic n
  | .order nodes =>
    match g.firstBackward [] nodes with
    | some n => .cyclic n
    | none => .order nodes

/-- The names with dependencies first, or a name on a cycle. -/
def sort (g : DependencyGraph) : Sorted String :=
  match g.sortNodes with
  | .order nodes => .order (nodes.map g.nameOf)
  | .cyclic n => .cyclic (g.nameOf n)

end DependencyGraph

end FactEngine
