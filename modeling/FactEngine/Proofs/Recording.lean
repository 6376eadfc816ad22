import FactEngine.Proofs.Downstream

/-!
# Graphs made by recording

Only recording makes graphs (`DependencyGraph.ofCalls`). In whatever sequence names and
dependencies are recorded, and however often, the graph has the names that were mentioned and
an edge for every dependency that was recorded (`RecordOf`).

Paths along nodes are paths along their names (`WellFormed.reaches_iff`), and what breadth-first
search lists is what such paths lead to. So the names downstream of a name are those that the
recorded dependencies lead to (`transitiveDependents_ofCalls`).
-/

namespace FactEngine

/-- A call that records a name, or a dependency between two. -/
inductive GraphCall where
  | node (name : String)
  | edge (dependent dependency : String)
  deriving DecidableEq

namespace GraphCall

/-- The names in a call. -/
def mentions : GraphCall → List String
  | node name => [name]
  | edge dependent dependency => [dependent, dependency]

end GraphCall

/-- A call records that `dependent` depends on `dependency`. -/
def Recorded (calls : List GraphCall) (dependency dependent : String) : Prop :=
  .edge dependent dependency ∈ calls

namespace DependencyGraph

variable {g : DependencyGraph} {calls : List GraphCall} {a b n k : Nat} {p d name : String}

/-- The graph after a call. -/
def handle (g : DependencyGraph) : GraphCall → DependencyGraph
  | .node name => (g.addNode name).2
  | .edge dependent dependency => g.addDependency dependent dependency

/-- The graph that some calls make. -/
def ofCalls (calls : List GraphCall) : DependencyGraph :=
  calls.foldl handle empty

/-! ## What calls record -/

/-- The graph has the names in the calls, and the dependencies that these record. -/
structure RecordOf (calls : List GraphCall) (g : DependencyGraph) : Prop where
  wellFormed : g.WellFormed
  names : ∀ x, x ∈ g.names ↔ ∃ call ∈ calls, x ∈ call.mentions
  edge : ∀ p d, g.Edge p d ↔ Recorded calls p d

theorem RecordOf.handle (h : RecordOf calls g) (call : GraphCall) :
    RecordOf (calls ++ [call]) (g.handle call) := by
  cases call with
  | node name =>
    refine ⟨h.wellFormed.addNode name, fun x => ?_, fun p d => ?_⟩
    · simp [DependencyGraph.handle, h.wellFormed.names_addNode, mem_appendNew, h.names,
        GraphCall.mentions, or_and_right, exists_or]
    · simp [DependencyGraph.handle, h.wellFormed.edge_addNode, h.edge, Recorded]
  | edge dependent dependency =>
    refine ⟨h.wellFormed.addDependency dependent dependency, fun x => ?_, fun p d => ?_⟩
    · simp [DependencyGraph.handle, h.wellFormed.mem_names_addDependency, h.names,
        GraphCall.mentions, or_and_right, exists_or, or_assoc]
    · simp [DependencyGraph.handle, h.wellFormed.edge_addDependency, h.edge, Recorded,
        and_comm]

theorem recordOf_ofCalls (calls : List GraphCall) : RecordOf calls (ofCalls calls) := by
  induction calls using List.reverseRecOn with
  | nil => exact ⟨.empty, by simp [ofCalls, empty], by simp [ofCalls, empty, Edge, Recorded]⟩
  | append_singleton calls call ih =>
    rw [ofCalls, List.foldl_append]
    exact ih.handle call

/-! ## Paths -/

theorem WellFormed.edge_of_arrow (hg : g.WellFormed) (h : g.Arrow a b) :
    g.Edge (g.nameOf a) (g.nameOf b) := by
  obtain ⟨ha, hb⟩ := hg.bound _ h
  exact ⟨a, b, h, getElem?_nameOf ha, getElem?_nameOf hb⟩

theorem WellFormed.arrow_of_edge (hg : g.WellFormed) (h : g.Edge p d) :
    g.Arrow (g.names.idxOf p) (g.names.idxOf d) := by
  obtain ⟨a, b, he, ha, hb⟩ := h
  rwa [hg.idxOf_eq ha, hg.idxOf_eq hb]

/-- Edges lead from one name to another as they do from its node to the other's. -/
theorem WellFormed.reaches_iff (hg : g.WellFormed) (ha : g.names[a]? = some p)
    (hb : g.names[b]? = some d) :
    Relation.TransGen g.Edge p d ↔ Relation.TransGen g.Arrow a b := by
  constructor
  · intro h
    rw [← hg.idxOf_eq ha, ← hg.idxOf_eq hb]
    exact h.lift g.names.idxOf fun _ _ => hg.arrow_of_edge
  · intro h
    rw [← nameOf_eq ha, ← nameOf_eq hb]
    exact h.lift g.nameOf fun _ _ => hg.edge_of_arrow

/-- Breadth-first search lists what edges lead to. -/
theorem WellFormed.mem_reachable_iff (hg : g.WellFormed) :
    k ∈ g.reachable n ↔ Relation.ReflTransGen g.Arrow n k := by
  constructor
  · intro h
    obtain ⟨m, hm, hreach⟩ := reaches_of_mem_search _ _ h
    rwa [← List.mem_singleton.1 hm]
  · intro h
    induction h with
    | refl => exact self_mem_reachable n
    | tail _ hstep ih => exact hg.mem_reachable_of_edge ih hstep

/-! ## Downstream -/

/-- An edge leads from a name that is a node. -/
theorem WellFormed.exists_node_of_edge (hg : g.WellFormed) (h : g.Edge p d) :
    ∃ n, g.node? p = some n := by
  obtain ⟨a, -, -, ha, -⟩ := h
  exact ⟨a, hg.node?_eq_some_iff.2 ha⟩

/-- Downstream of a name are the other names that edges lead to. -/
theorem WellFormed.mem_transitiveDependents_iff (hg : g.WellFormed) :
    d ∈ g.transitiveDependents name ↔ d ≠ name ∧ Relation.TransGen g.Edge name d := by
  obtain ⟨hself, -⟩ := List.nodup_cons.1 (hg.nodup_downstream name)
  cases hn : g.node? name with
  | none =>
    simp only [transitiveDependents, hn, List.not_mem_nil, false_iff, not_and]
    intro _ h
    obtain ⟨y, hy, -⟩ := Relation.TransGen.head'_iff.1 h
    obtain ⟨n, hn'⟩ := hg.exists_node_of_edge hy
    rw [hn] at hn'
    cases hn'
  | some n =>
    have hname := hg.node?_eq_some_iff.1 hn
    have hiff := mem_downstream_iff (x := d) hg hn
    rw [List.mem_cons] at hiff
    constructor
    · intro hd
      have hne : d ≠ name := fun he => hself (he ▸ hd)
      obtain ⟨k, hk, hkd⟩ := hiff.1 (Or.inr hd)
      rcases Relation.reflTransGen_iff_eq_or_transGen.1 (hg.mem_reachable_iff.1 hk) with rfl | hnk
      · exact (hne (Option.some.inj (hkd.symm.trans hname))).elim
      · exact ⟨hne, (hg.reaches_iff hname hkd).2 hnk⟩
    · rintro ⟨hne, hreach⟩
      obtain ⟨y, -, a, b, -, -, hb⟩ := Relation.TransGen.tail'_iff.1 hreach
      have hnb := (hg.reaches_iff hname hb).1 hreach
      exact (hiff.2 ⟨b, hg.mem_reachable_iff.2 hnb.to_reflTransGen, hb⟩).resolve_left hne

/-- Downstream of a name are, once each, the other names that recorded dependencies lead to. There
are none downstream of a name that was never mentioned. -/
theorem transitiveDependents_ofCalls (calls : List GraphCall) (name : String) :
    let downstream := (ofCalls calls).transitiveDependents name
    downstream.Nodup ∧
    (∀ x, x ∈ downstream ↔ x ≠ name ∧ Relation.TransGen (Recorded calls) name x) ∧
    ((∀ call ∈ calls, name ∉ call.mentions) → downstream = []) := by
  intro downstream
  have h := recordOf_ofCalls calls
  have hedge : (ofCalls calls).Edge = Recorded calls :=
    funext fun p => funext fun d => propext (h.edge p d)
  have hmem : ∀ x, x ∈ downstream ↔ x ≠ name ∧ Relation.TransGen (Recorded calls) name x := by
    intro x
    rw [← hedge]
    exact h.wellFormed.mem_transitiveDependents_iff
  refine ⟨(List.nodup_cons.1 (h.wellFormed.nodup_downstream name)).2, hmem, fun hnone => ?_⟩
  refine List.eq_nil_iff_forall_not_mem.2 fun x hx => ?_
  obtain ⟨y, hy, -⟩ := Relation.TransGen.head'_iff.1 ((hmem x).1 hx).2
  exact hnone _ hy (by simp [GraphCall.mentions])

end DependencyGraph

end FactEngine
