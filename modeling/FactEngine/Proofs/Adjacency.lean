import FactEngine.Proofs.Ownership
import FactEngine.Proofs.Recording
import FactEngine.Proofs.Sorting
import Mathlib.Data.Finset.Card

/-!
# Nodes and neighbours

A graph that was made by recording has the mentioned names as nodes, numbered by first mention
(`DependencyGraph.names_ofCalls`). Later calls only add names behind them, so a name keeps its
number (`DependencyGraph.addNode_fst_ofCalls`).

Dependents and dependencies are the neighbours along the edges and against them. An edge is kept
once, so neither list has a name twice (`DependencyGraph.nodup_neighbours_ofCalls`), and each has
the names that a dependency was recorded with.

The graph of a registry is recorded as well : every descriptor records its name and the producers
of what it consumes (`Registry.graph_eq_ofCalls`). So its nodes are the descriptors, and there is an
edge to a descriptor from each that produces what it consumes
(`DependencyGraph.nodes_and_neighbours_ofCalls`).
-/

namespace FactEngine

/-- Dropping repetitions leaves as many elements as there are different ones. -/
theorem length_distinct {α : Type} [DecidableEq α] (l : List α) :
    (distinct l).length = l.toFinset.card := by
  have hset : (distinct l).toFinset = l.toFinset := by
    ext a
    simp
  rw [← hset, List.toFinset_card_of_nodup (nodup_distinct l)]

namespace DependencyGraph

variable {g : DependencyGraph} {calls : List GraphCall} {name x p d : String} {k n : Nat}

/-! ## Nodes -/

theorem WellFormed.names_handle (hg : g.WellFormed) (call : GraphCall) :
    (g.handle call).names = call.mentions.foldl appendNew g.names := by
  cases call with
  | node name => exact hg.names_addNode name
  | edge dependent dependency =>
    rw [handle, hg.names_addDependency, DependencyGraph.addEnds,
      (hg.addNode dependent).names_addNode, hg.names_addNode]
    rfl

/-- The nodes are the mentioned names, by first mention. -/
theorem names_ofCalls (calls : List GraphCall) :
    (ofCalls calls).names = distinct (calls.flatMap GraphCall.mentions) := by
  induction calls using List.reverseRecOn with
  | nil => rfl
  | append_singleton calls call ih =>
    have hg := (recordOf_ofCalls calls).wellFormed
    have hlast : ofCalls (calls ++ [call]) = (ofCalls calls).handle call := List.foldl_concat ..
    rw [hlast, hg.names_handle, ih, List.flatMap_append, distinct, distinct, List.foldl_append,
      List.flatMap_singleton]

theorem mem_names_ofCalls :
    name ∈ (ofCalls calls).names ↔ ∃ call ∈ calls, name ∈ call.mentions := by
  rw [names_ofCalls, mem_distinct, List.mem_flatMap]

/-- A name that is a node is one node only. -/
theorem WellFormed.mem_names_iff (hg : g.WellFormed) :
    name ∈ g.names ↔ ∃! n : Nat, g.names[n]? = some name := by
  constructor
  · intro h
    obtain ⟨n, hn⟩ := List.mem_iff_getElem?.1 h
    refine ⟨n, hn, fun m hm => ?_⟩
    rw [← hg.idxOf_eq hn, hg.idxOf_eq hm]
  · rintro ⟨n, hn, -⟩
    exact List.mem_of_getElem? hn

/-- Later calls add names behind those that are there. -/
theorem prefix_names_ofCalls (calls later : List GraphCall) :
    (ofCalls calls).names <+: (ofCalls (calls ++ later)).names := by
  rw [names_ofCalls, names_ofCalls, List.flatMap_append]
  exact prefix_distinct_append _ _

/-- Adding a name that is a node answers the number of the node, now and after later calls. -/
theorem addNode_fst_ofCalls (h : (ofCalls calls).names[n]? = some name)
    (later : List GraphCall) : ((ofCalls (calls ++ later)).addNode name).1 = n := by
  have hg := (recordOf_ofCalls (calls ++ later)).wellFormed
  obtain ⟨hn, -⟩ := List.getElem?_eq_some_iff.1 h
  obtain ⟨added, hadded⟩ := prefix_names_ofCalls calls later
  have hlater : (ofCalls (calls ++ later)).names[n]? = some name := by
    rw [← hadded, List.getElem?_append_left hn, h]
  have hnode := (hg.addNode name).node?_eq_some_iff.2 (hg.getElem?_addNode name)
  rw [(hg.addNode name).node?_eq_some_iff.2 (hg.getElem?_of_addNode hlater)] at hnode
  exact (Option.some.inj hnode).symm

theorem getElem?_ofCalls_concat (calls : List GraphCall) (name : String) :
    (ofCalls (calls ++ [.node name])).names[((ofCalls calls).addNode name).1]? = some name := by
  rw [ofCalls, List.foldl_append]
  exact (recordOf_ofCalls calls).wellFormed.getElem?_addNode name

/-! ## Neighbours -/

/-- The names of the nodes that are listed for the node of a name. -/
def neighbours (g : DependencyGraph) (listed : Nat → List Nat) (name : String) : List String :=
  match g.node? name with
  | some n => (listed n).map g.nameOf
  | none => []

theorem WellFormed.mem_neighbours_iff (hg : g.WellFormed) {listed : Nat → List Nat}
    (hbound : ∀ n, ∀ k ∈ listed n, k < g.size) : x ∈ g.neighbours listed name ↔
      ∃ n k, k ∈ listed n ∧ g.names[n]? = some name ∧ g.names[k]? = some x := by
  have hnode : ∀ n : Nat, g.names[n]? = some name ↔ g.node? name = some n :=
    fun n => hg.node?_eq_some_iff.symm
  simp only [hnode]
  unfold neighbours
  cases g.node? name with
  | none => simp
  | some n =>
    simp only [List.mem_map, Option.some.injEq]
    constructor
    · rintro ⟨k, hk, rfl⟩
      exact ⟨n, k, hk, rfl, getElem?_nameOf (hbound n k hk)⟩
    · rintro ⟨m, k, hk, rfl, hx⟩
      exact ⟨k, hk, nameOf_eq hx⟩

theorem WellFormed.nodup_neighbours (hg : g.WellFormed) {listed : Nat → List Nat}
    (hbound : ∀ n, ∀ k ∈ listed n, k < g.size) (hnodup : ∀ n, (listed n).Nodup) (name : String) :
    (g.neighbours listed name).Nodup := by
  unfold neighbours
  cases g.node? name with
  | none => exact List.nodup_nil
  | some n =>
    exact (hnodup n).map_on fun a ha b hb he =>
      hg.nameOf_injective (hbound n a ha) (hbound n b hb) he

theorem WellFormed.lt_size_of_mem_successors (hg : g.WellFormed) (h : k ∈ g.successors n) :
    k < g.size :=
  (hg.bound _ (mem_successors.1 h)).2

theorem WellFormed.lt_size_of_mem_predecessors (hg : g.WellFormed) (h : k ∈ g.predecessors n) :
    k < g.size :=
  (hg.bound _ (mem_predecessors.1 h)).1

theorem dependents_eq (g : DependencyGraph) (name : String) :
    g.dependents name = g.neighbours g.successors name :=
  rfl

theorem dependencies_eq (g : DependencyGraph) (name : String) :
    g.dependencies name = g.neighbours g.predecessors name :=
  rfl

/-- The dependents of a name are those that edges lead to. -/
theorem WellFormed.mem_dependents_iff (hg : g.WellFormed) : d ∈ g.dependents p ↔ g.Edge p d := by
  rw [dependents_eq, hg.mem_neighbours_iff fun n k => hg.lt_size_of_mem_successors]
  simp only [mem_successors]
  exact .rfl

/-- The dependencies of a name are those that edges come from. -/
theorem WellFormed.mem_dependencies_iff (hg : g.WellFormed) :
    p ∈ g.dependencies d ↔ g.Edge p d := by
  rw [dependencies_eq, hg.mem_neighbours_iff fun n k => hg.lt_size_of_mem_predecessors]
  simp only [mem_predecessors]
  exact exists_comm.trans (exists₂_congr fun a b => and_congr_right' and_comm)

/-- A call keeps every edge once. -/
theorem WellFormed.nodup_edges_handle (hg : g.WellFormed) (h : g.edges.Nodup)
    (call : GraphCall) : (g.handle call).edges.Nodup := by
  cases call with
  | node name => rwa [handle, hg.edges_addNode]
  | edge dependent dependency =>
    have hends : (g.addEnds dependent dependency).edges.Nodup := by
      rwa [DependencyGraph.addEnds, (hg.addNode dependent).edges_addNode, hg.edges_addNode]
    obtain ⟨a, b, -, -, heq⟩ := hg.addDependency_eq dependent dependency
    rw [handle, heq]
    split
    · exact hends
    · rename_i hnew
      exact List.nodup_cons.2 ⟨hnew, hends⟩

theorem nodup_edges_ofCalls (calls : List GraphCall) : (ofCalls calls).edges.Nodup := by
  induction calls using List.reverseRecOn with
  | nil => exact List.nodup_nil
  | append_singleton calls call ih =>
    rw [ofCalls, List.foldl_append]
    exact (recordOf_ofCalls calls).wellFormed.nodup_edges_handle ih call

theorem nodup_successors (h : g.edges.Nodup) (n : Nat) : (g.successors n).Nodup := by
  refine h.filterMap fun e e' k he he' => ?_
  simp only [Option.mem_def, Option.ite_none_right_eq_some, Option.some.injEq] at he he'
  exact Prod.ext (he.1.trans he'.1.symm) (he.2.trans he'.2.symm)

theorem nodup_predecessors (h : g.edges.Nodup) (n : Nat) : (g.predecessors n).Nodup := by
  refine h.filterMap fun e e' k he he' => ?_
  simp only [Option.mem_def, Option.ite_none_right_eq_some, Option.some.injEq] at he he'
  exact Prod.ext (he.2.trans he'.2.symm) (he.1.trans he'.1.symm)

/-- No neighbour is listed twice, however often a dependency was recorded. -/
theorem nodup_neighbours_ofCalls (calls : List GraphCall) (name : String) :
    ((ofCalls calls).dependents name).Nodup ∧ ((ofCalls calls).dependencies name).Nodup := by
  have hg := (recordOf_ofCalls calls).wellFormed
  have hedges := nodup_edges_ofCalls calls
  rw [dependents_eq, dependencies_eq]
  constructor
  · exact hg.nodup_neighbours (fun n k => hg.lt_size_of_mem_successors)
      (nodup_successors hedges) name
  · exact hg.nodup_neighbours (fun n k => hg.lt_size_of_mem_predecessors)
      (nodup_predecessors hedges) name

end DependencyGraph

/-! ## The graph of a registry -/

namespace Registry

open DependencyGraph

variable {r : Registry} {p d : String}

/-- What a descriptor records : its name, and then for every consumed name that has a producer
a dependency on it. -/
def recording (r : Registry) (d : Descriptor) : List GraphCall :=
  .node d.name :: d.consumes.filterMap fun n =>
    (r.producerIndex? n).map fun i => .edge d.name (r.nameOf i)

theorem addToGraph_eq_foldl (g : DependencyGraph) (d : Descriptor) :
    r.addToGraph g d = (r.recording d).foldl DependencyGraph.handle g := by
  rw [recording, List.foldl_cons, List.foldl_filterMap, addToGraph_eq]
  congr 1
  funext g n
  unfold linkProducer
  cases r.producerIndex? n <;> rfl

/-- The graph of a registry is made by recording its descriptors, one after another. -/
theorem graph_eq_ofCalls (r : Registry) :
    r.graph = ofCalls (r.descriptors.flatMap r.recording) := by
  rw [ofCalls, List.foldl_flatMap, graph]
  congr 1
  funext g d
  exact addToGraph_eq_foldl g d

/-- The nodes are the descriptors. -/
theorem perm_names_graph (hr : r.WellFormed) :
    r.graph.names.Perm (r.descriptors.map Descriptor.name) := by
  refine (List.perm_ext_iff_of_nodup isGraphOf_graph.wellFormed.names_nodup hr.names_nodup).2
    fun x => ⟨fun hx => ?_, fun hx => ?_⟩
  · rw [graph_eq_ofCalls, mem_names_ofCalls] at hx
    obtain ⟨call, hcall, hx⟩ := hx
    obtain ⟨d, hd, hcall⟩ := List.mem_flatMap.1 hcall
    rcases List.mem_cons.1 hcall with rfl | hcall
    · obtain rfl := List.mem_singleton.1 hx
      exact List.mem_map_of_mem hd
    · obtain ⟨n, -, hn⟩ := List.mem_filterMap.1 hcall
      obtain ⟨i, hi, rfl⟩ := Option.map_eq_some_iff.1 hn
      rcases List.mem_pair.1 hx with rfl | rfl
      · exact List.mem_map_of_mem hd
      · exact List.mem_map_of_mem (descriptor_mem (hr.lt_size_of_producerIndex? hi))
  · obtain ⟨d, hd, rfl⟩ := List.mem_map.1 hx
    exact isGraphOf_graph.names d hd

/-- The descriptor of the one name produces what the descriptor of the other consumes. -/
def Feeds (r : Registry) (producer consumer : String) : Prop :=
  ∃ p ∈ r.descriptors, ∃ c ∈ r.descriptors, p.name = producer ∧ c.name = consumer ∧
    ∃ n ∈ c.consumes, n ∈ p.outputs

theorem edge_graph_iff_feeds (hr : r.WellFormed) : r.graph.Edge p d ↔ r.Feeds p d := by
  rw [isGraphOf_graph.edge]
  constructor
  · rintro ⟨c, hc, rfl, n, hn, i, hi, rfl⟩
    exact ⟨_, descriptor_mem (hr.lt_size_of_producerIndex? hi), c, hc, rfl, rfl, n, hn,
      hr.producerIndex?_eq_some_iff.1 hi⟩
  · rintro ⟨e, he, c, hc, rfl, rfl, n, hn, hout⟩
    obtain ⟨i, -, rfl⟩ := exists_place he
    exact ⟨c, hc, rfl, n, hn, i, hr.producerIndex?_eq_some_iff.2 hout, rfl⟩

end Registry

namespace DependencyGraph

/-- A graph made by recording has one node for every mentioned name, and look-up finds it. Adding
a name answers the number of its node, which is the same forever. The dependents and the
dependencies of a name are those that were recorded, once each. Hence the graph of a registry has
one node for every descriptor, and an edge exactly where a name is produced and consumed. -/
theorem nodes_and_neighbours_ofCalls (calls : List GraphCall) (history : List Registration) :
    let g := ofCalls calls
    let r := Registry.registered history
    g.size = (calls.flatMap GraphCall.mentions).toFinset.card ∧
    (∀ name, (∃ call ∈ calls, name ∈ call.mentions) ↔ ∃! n : Nat, g.names[n]? = some name) ∧
    (∀ name n, g.node? name = some n ↔ g.names[n]? = some name) ∧
    (∀ (name : String) (n : Nat), g.names[n]? = some name →
      ∀ later, ((ofCalls (calls ++ later)).addNode name).1 = n) ∧
    (∀ name later,
      (ofCalls (calls ++ [.node name])).names[(g.addNode name).1]? = some name ∧
      ((ofCalls (calls ++ .node name :: later)).addNode name).1 = (g.addNode name).1) ∧
    (∀ a b, b ∈ g.dependents a ↔ .edge b a ∈ calls) ∧
    (∀ a b, a ∈ g.dependencies b ↔ .edge b a ∈ calls) ∧
    (∀ name, (g.dependents name).Nodup ∧ (g.dependencies name).Nodup) ∧
    r.graph.names.Perm (r.descriptors.map Descriptor.name) ∧
    (∀ p d, d ∈ r.graph.dependents p ↔ r.Feeds p d) ∧
    (∀ p d, p ∈ r.graph.dependencies d ↔ r.Feeds p d) ∧
    (∀ name, (r.graph.dependents name).Nodup ∧ (r.graph.dependencies name).Nodup) := by
  intro g r
  have hg : RecordOf calls g := recordOf_ofCalls calls
  have hr : r.WellFormed := Registry.wellFormed_registered history
  have hgraph := (Registry.isGraphOf_graph (r := r)).wellFormed
  refine ⟨?_, fun name => ?_, fun name n => hg.wellFormed.node?_eq_some_iff,
    fun name n => addNode_fst_ofCalls, fun name later => ⟨getElem?_ofCalls_concat calls name, ?_⟩,
    fun a b => hg.wellFormed.mem_dependents_iff.trans (hg.edge a b),
    fun a b => hg.wellFormed.mem_dependencies_iff.trans (hg.edge a b),
    nodup_neighbours_ofCalls calls, Registry.perm_names_graph hr,
    fun p d => hgraph.mem_dependents_iff.trans (Registry.edge_graph_iff_feeds hr),
    fun p d => hgraph.mem_dependencies_iff.trans (Registry.edge_graph_iff_feeds hr), ?_⟩
  · rw [size, names_ofCalls, length_distinct]
  · rw [← mem_names_ofCalls]
    exact hg.wellFormed.mem_names_iff
  · rw [List.append_cons]
    exact addNode_fst_ofCalls (getElem?_ofCalls_concat calls name) later
  · rw [Registry.graph_eq_ofCalls]
    exact nodup_neighbours_ofCalls _

/-- A name may depend on itself, and be mentioned before it is added. -/
example :
    let g := ofCalls [.edge "b" "a", .node "c", .edge "a" "a", .node "a", .edge "b" "a"]
    g.names = ["b", "a", "c"] ∧ g.dependents "a" = ["a", "b"] ∧ g.dependencies "a" = ["a"] := by
  decide

end DependencyGraph

end FactEngine
