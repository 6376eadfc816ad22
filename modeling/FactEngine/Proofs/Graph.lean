import FactEngine.Proofs.Resolution
import Mathlib.Data.List.Nodup

/-!
# The graph of the descriptors

The map from names to nodes and the list of nodes are inverse to each other, and adding a node
keeps them so (`WellFormed.addNode`).

`DependencyGraph.Edge` reads the edges of a graph by name. Adding a node changes no edge, and
adding a dependency adds one (`edge_addDependency`), so the graph of a registry has the edge
from one descriptor to another exactly if the other depends on the one (`edge_graph_iff`).

Breadth-first search leaves nothing behind : a neighbour of a node that it lists was listed
too, or was marked before the search began (`mem_search_of_successor`). Hence the names
downstream of a descriptor are closed under edges (`mem_downstream_of_edge`).
-/

namespace FactEngine

namespace DependencyGraph

variable {g : DependencyGraph}

/-- A map that is inverse to the list of names, and edges between nodes. -/
structure WellFormed (g : DependencyGraph) : Prop where
  index : ∀ name n, g.index.get? name = some n ↔ g.names[n]? = some name
  bound : ∀ e ∈ g.edges, e.1 < g.size ∧ e.2 < g.size

theorem WellFormed.empty : empty.WellFormed :=
  ⟨by simp [DependencyGraph.empty], by simp [DependencyGraph.empty]⟩

/-- There is an edge from `dependency` to `dependent`. -/
def Edge (g : DependencyGraph) (dependency dependent : String) : Prop :=
  ∃ a b, (a, b) ∈ g.edges ∧ g.names[a]? = some dependency ∧ g.names[b]? = some dependent

theorem WellFormed.node?_eq_some_iff (hg : g.WellFormed) {name : String} {i : Nat} :
    g.node? name = some i ↔ g.names[i]? = some name :=
  hg.index name i

theorem WellFormed.exists_node_iff (hg : g.WellFormed) {name : String} :
    (∃ n, g.node? name = some n) ↔ name ∈ g.names := by
  simp only [hg.node?_eq_some_iff, List.mem_iff_getElem?]

theorem WellFormed.node?_eq_none_iff (hg : g.WellFormed) {name : String} :
    g.node? name = none ↔ name ∉ g.names := by
  rw [← hg.exists_node_iff, ← Option.ne_none_iff_exists', not_not]

theorem WellFormed.names_nodup (hg : g.WellFormed) : g.names.Nodup := by
  refine List.nodup_iff_getElem?_ne_getElem?.2 fun i j hlt hj heq => hlt.ne ?_
  have hj := List.getElem?_eq_getElem hj
  have hplace := hg.node?_eq_some_iff.2 hj
  rw [hg.node?_eq_some_iff.2 (heq.trans hj)] at hplace
  exact Option.some.inj hplace

theorem WellFormed.idxOf_eq (hg : g.WellFormed) {i : Nat} {name : String}
    (h : g.names[i]? = some name) : g.names.idxOf name = i := by
  obtain ⟨hi, rfl⟩ := List.getElem?_eq_some_iff.1 h
  exact hg.names_nodup.idxOf_getElem i hi

theorem nameOf_eq {i : Nat} {name : String} (h : g.names[i]? = some name) :
    g.nameOf i = name := by
  rw [nameOf, List.getD_eq_getElem?_getD, h, Option.getD_some]

theorem getElem?_nameOf {i : Nat} (hi : i < g.size) : g.names[i]? = some (g.nameOf i) := by
  have hi : i < g.names.length := hi
  rw [nameOf_eq (List.getElem?_eq_getElem hi), List.getElem?_eq_getElem hi]

/-- Different nodes have different names. -/
theorem WellFormed.nameOf_injective (hg : g.WellFormed) {a b : Nat} (ha : a < g.size)
    (hb : b < g.size) (h : g.nameOf a = g.nameOf b) : a = b := by
  rw [← hg.idxOf_eq (getElem?_nameOf ha), h, hg.idxOf_eq (getElem?_nameOf hb)]

/-! ## Adding nodes and edges -/

/-- A name that is a node keeps its number; another one gets the next. -/
theorem WellFormed.addNode_cases (hg : g.WellFormed) (name : String) :
    (∃ n, g.names[n]? = some name ∧ g.addNode name = (n, g)) ∨
      name ∉ g.names ∧ g.addNode name = (g.size, { g with
        names := g.names ++ [name]
        index := g.index.insert name g.size }) := by
  unfold addNode
  cases hn : g.node? name with
  | some n => exact Or.inl ⟨n, hg.node?_eq_some_iff.1 hn, rfl⟩
  | none => exact Or.inr ⟨hg.node?_eq_none_iff.1 hn, rfl⟩

theorem WellFormed.names_addNode (hg : g.WellFormed) (name : String) :
    (g.addNode name).2.names = appendNew g.names name := by
  unfold appendNew
  rcases hg.addNode_cases name with ⟨n, hn, h⟩ | ⟨hn, h⟩
  · rw [h, if_pos (List.mem_of_getElem? hn)]
  · rw [h, if_neg hn]

theorem WellFormed.edges_addNode (hg : g.WellFormed) (name : String) :
    (g.addNode name).2.edges = g.edges := by
  rcases hg.addNode_cases name with ⟨n, -, h⟩ | ⟨-, h⟩ <;> rw [h]

theorem WellFormed.getElem?_addNode (hg : g.WellFormed) (name : String) :
    (g.addNode name).2.names[(g.addNode name).1]? = some name := by
  rcases hg.addNode_cases name with ⟨n, hn, h⟩ | ⟨-, h⟩
  · rw [h, hn]
  · rw [h]
    exact List.getElem?_concat_length

theorem WellFormed.getElem?_addNode_of_lt (hg : g.WellFormed) {name : String} {i : Nat}
    (hi : i < g.size) : (g.addNode name).2.names[i]? = g.names[i]? := by
  obtain ⟨t, ht⟩ := prefix_appendNew g.names name
  rw [hg.names_addNode, ← ht, List.getElem?_append_left hi]

theorem WellFormed.getElem?_of_addNode (hg : g.WellFormed) {name other : String} {i : Nat}
    (h : g.names[i]? = some other) : (g.addNode name).2.names[i]? = some other :=
  (hg.getElem?_addNode_of_lt (List.getElem?_eq_some_iff.1 h).1).trans h

/-- Adding a node keeps the map inverse to the names, since it is asked first. -/
theorem WellFormed.addNode (hg : g.WellFormed) (name : String) :
    (g.addNode name).2.WellFormed := by
  rcases hg.addNode_cases name with ⟨n, -, h⟩ | ⟨hn, h⟩
  · rwa [h]
  · rw [h]
    have hle : ∀ {i}, i < g.size → i < g.size + 1 := fun hi => hi.trans (Nat.lt_succ_self _)
    refine ⟨fun other i => ?_, fun e he => ?_⟩
    · have hkept := hg.index other i
      rw [NameMap.get?_insert, List.getElem?_append, List.getElem?_singleton]
      have hother : other = name → g.names[i]? ≠ some other :=
        fun he hm => hn (he ▸ List.mem_of_getElem? hm)
      have hend : g.size ≤ i → g.names[i]? = none := List.getElem?_eq_none
      change _ ↔ (if i < g.size then _ else if i - g.size = 0 then _ else _) = _
      grind
    · obtain ⟨h1, h2⟩ := hg.bound e he
      have hsize : g.size + 1 = (g.names ++ [name]).length := by
        rw [List.length_append]
        rfl
      exact ⟨(hle h1).trans_eq hsize, (hle h2).trans_eq hsize⟩

theorem WellFormed.edge_addNode (hg : g.WellFormed) {name p d : String} :
    (g.addNode name).2.Edge p d ↔ g.Edge p d := by
  simp only [Edge, hg.edges_addNode]
  constructor
  · rintro ⟨a, b, he, ha, hb⟩
    obtain ⟨hal, hbl⟩ := hg.bound _ he
    rw [hg.getElem?_addNode_of_lt hal] at ha
    rw [hg.getElem?_addNode_of_lt hbl] at hb
    exact ⟨a, b, he, ha, hb⟩
  · rintro ⟨a, b, he, ha, hb⟩
    exact ⟨a, b, he, hg.getElem?_of_addNode ha, hg.getElem?_of_addNode hb⟩

/-- The graph that has both ends of a dependency as nodes, without its edge. -/
def addEnds (g : DependencyGraph) (dependent dependency : String) : DependencyGraph :=
  ((g.addNode dependent).2.addNode dependency).2

theorem WellFormed.addEnds (hg : g.WellFormed) (dependent dependency : String) :
    (g.addEnds dependent dependency).WellFormed :=
  (hg.addNode dependent).addNode dependency

theorem WellFormed.addDependency_eq (hg : g.WellFormed) (dependent dependency : String) :
    ∃ a b, (g.addEnds dependent dependency).names[a]? = some dependency ∧
      (g.addEnds dependent dependency).names[b]? = some dependent ∧
      g.addDependency dependent dependency =
        if (a, b) ∈ (g.addEnds dependent dependency).edges then g.addEnds dependent dependency
        else { g.addEnds dependent dependency with
          edges := (a, b) :: (g.addEnds dependent dependency).edges } := by
  have hdependent := hg.addNode dependent
  exact ⟨_, _, hdependent.getElem?_addNode dependency,
    hdependent.getElem?_of_addNode (hg.getElem?_addNode dependent), rfl⟩

theorem WellFormed.names_addDependency (hg : g.WellFormed) (dependent dependency : String) :
    (g.addDependency dependent dependency).names = (g.addEnds dependent dependency).names := by
  obtain ⟨a, b, -, -, h⟩ := hg.addDependency_eq dependent dependency
  rw [h]
  split <;> rfl

theorem WellFormed.mem_names_addDependency (hg : g.WellFormed)
    {dependent dependency name : String} :
    name ∈ (g.addDependency dependent dependency).names ↔
      (name ∈ g.names ∨ name = dependent) ∨ name = dependency := by
  rw [hg.names_addDependency, DependencyGraph.addEnds, (hg.addNode dependent).names_addNode,
    mem_appendNew, hg.names_addNode, mem_appendNew]

theorem WellFormed.addDependency (hg : g.WellFormed) (dependent dependency : String) :
    (g.addDependency dependent dependency).WellFormed := by
  have hends := hg.addEnds dependent dependency
  obtain ⟨a, b, ha, hb, h⟩ := hg.addDependency_eq dependent dependency
  rw [h]
  split
  · exact hends
  · refine ⟨hends.index, List.forall_mem_cons.2 ⟨⟨?_, ?_⟩, hends.bound⟩⟩
    · exact (List.getElem?_eq_some_iff.1 ha).1
    · exact (List.getElem?_eq_some_iff.1 hb).1

/-- A dependency adds the one edge. -/
theorem WellFormed.edge_addDependency (hg : g.WellFormed) {dependent dependency p d : String} :
    (g.addDependency dependent dependency).Edge p d ↔
      g.Edge p d ∨ p = dependency ∧ d = dependent := by
  have hends : (g.addEnds dependent dependency).Edge p d ↔ g.Edge p d :=
    ((hg.addNode _).edge_addNode).trans hg.edge_addNode
  obtain ⟨a, b, ha, hb, h⟩ := hg.addDependency_eq dependent dependency
  rw [h, ← hends]
  split
  · rename_i hm
    refine ⟨Or.inl, fun he => he.elim id ?_⟩
    rintro ⟨rfl, rfl⟩
    exact ⟨a, b, hm, ha, hb⟩
  · constructor
    · rintro ⟨a', b', he, ha', hb'⟩
      rcases List.mem_cons.1 he with he | he
      · obtain ⟨rfl, rfl⟩ := Prod.mk.inj he
        exact Or.inr ⟨Option.some.inj (ha'.symm.trans ha), Option.some.inj (hb'.symm.trans hb)⟩
      · exact Or.inl ⟨a', b', he, ha', hb'⟩
    · rintro (⟨a', b', he, ha', hb'⟩ | ⟨rfl, rfl⟩)
      · exact ⟨a', b', List.mem_cons_of_mem _ he, ha', hb'⟩
      · exact ⟨a, b, List.mem_cons_self, ha, hb⟩

/-! ## Search -/

theorem queue_subset_enqueue (ns unmarked queue : List Nat) :
    queue ⊆ (enqueue unmarked queue ns).2 := by
  induction ns generalizing unmarked queue with
  | nil => exact List.Subset.refl _
  | cons n ns ih =>
    unfold enqueue
    split
    · exact fun k hk => ih _ _ (List.mem_append_left _ hk)
    · exact ih _ _

/-- An unmarked node stays unmarked if it is no neighbour, or else enters the queue. -/
theorem mem_enqueue_or {k : Nat} (ns unmarked queue : List Nat) (hk : k ∈ unmarked) :
    k ∈ (enqueue unmarked queue ns).2 ∨ k ∉ ns ∧ k ∈ (enqueue unmarked queue ns).1 := by
  induction ns generalizing unmarked queue with
  | nil => exact Or.inr ⟨by simp, hk⟩
  | cons n ns ih =>
    unfold enqueue
    by_cases hkn : k = n
    · subst hkn
      rw [if_pos hk]
      exact Or.inl (queue_subset_enqueue _ _ _ (by simp))
    · have hmem : ∀ u q, k ∈ u → k ∈ (enqueue u q ns).2 ∨
          k ∉ n :: ns ∧ k ∈ (enqueue u q ns).1 := fun u q hu =>
        (ih u q hu).imp_right fun h => ⟨by simp [hkn, h.1], h.2⟩
      split
      · exact hmem _ _ ((List.mem_erase_of_ne hkn).2 hk)
      · exact hmem _ _ hk

/-- Nothing enters the queue but unmarked nodes. -/
theorem mem_of_mem_enqueue {k : Nat} (ns unmarked queue : List Nat) :
    (k ∈ (enqueue unmarked queue ns).1 → k ∈ unmarked) ∧
      (k ∈ (enqueue unmarked queue ns).2 → k ∈ queue ∨ k ∈ unmarked) := by
  induction ns generalizing unmarked queue with
  | nil => exact ⟨id, Or.inl⟩
  | cons n ns ih =>
    unfold enqueue
    split
    · rename_i hn
      obtain ⟨h1, h2⟩ := ih (unmarked.erase n) (queue ++ [n])
      refine ⟨fun h => List.mem_of_mem_erase (h1 h), fun h => ?_⟩
      rcases h2 h with h | h
      · rcases List.mem_append.1 h with h | h
        · exact Or.inl h
        · exact Or.inr (List.mem_singleton.1 h ▸ hn)
      · exact Or.inr (List.mem_of_mem_erase h)
    · exact ih unmarked queue

theorem queue_subset_search (unmarked queue : List Nat) : queue ⊆ g.search unmarked queue := by
  fun_induction g.search unmarked queue with
  | case1 => exact List.Subset.refl _
  | case2 unmarked n queue ih =>
    exact List.cons_subset_cons n fun k hk => ih (queue_subset_enqueue _ _ _ hk)

theorem mem_of_mem_search {k : Nat} (unmarked queue : List Nat)
    (hk : k ∈ g.search unmarked queue) : k ∈ queue ∨ k ∈ unmarked := by
  fun_induction g.search unmarked queue with
  | case1 => exact Or.inl hk
  | case2 unmarked n queue ih =>
    rcases List.mem_cons.1 hk with rfl | hk
    · exact Or.inl List.mem_cons_self
    · have hm := mem_of_mem_enqueue (k := k) (g.successors n) unmarked queue
      rcases ih hk with h | h
      · exact (hm.2 h).imp_left (List.mem_cons_of_mem _)
      · exact Or.inr (hm.1 h)

/-- The search lists the neighbours of what it lists, unless they were marked before. -/
theorem mem_search_of_successor {a b : Nat} (unmarked queue : List Nat)
    (ha : a ∈ g.search unmarked queue) (hab : b ∈ g.successors a) (hb : b ∈ unmarked) :
    b ∈ g.search unmarked queue := by
  fun_induction g.search unmarked queue with
  | case1 => simp at ha
  | case2 unmarked n queue ih =>
    refine List.mem_cons_of_mem _ ?_
    rcases mem_enqueue_or (g.successors n) unmarked queue hb with h | ⟨h, h'⟩
    · exact queue_subset_search _ _ h
    · rcases List.mem_cons.1 ha with rfl | ha
      · exact (h hab).elim
      · exact ih ha h'

theorem mem_successors {a b : Nat} : b ∈ g.successors a ↔ (a, b) ∈ g.edges := by
  simp only [successors, List.mem_filterMap, Option.ite_none_right_eq_some, Option.some.injEq]
  constructor
  · rintro ⟨⟨a', b'⟩, he, rfl, rfl⟩
    exact he
  · exact fun he => ⟨(a, b), he, rfl, rfl⟩

theorem self_mem_reachable (n : Nat) : n ∈ g.reachable n :=
  queue_subset_search _ _ List.mem_cons_self

theorem lt_size_of_mem_reachable {n k : Nat} (hn : n < g.size) (hk : k ∈ g.reachable n) :
    k < g.size := by
  rcases mem_of_mem_search _ _ hk with h | h
  · rwa [List.mem_singleton.1 h]
  · exact List.mem_range.1 (List.mem_of_mem_erase h)

theorem WellFormed.mem_reachable_of_edge (hg : g.WellFormed) {n a b : Nat}
    (ha : a ∈ g.reachable n) (he : (a, b) ∈ g.edges) : b ∈ g.reachable n := by
  by_cases hb : b = n
  · subst hb
    exact self_mem_reachable b
  · refine mem_search_of_successor _ _ ha (mem_successors.2 he) ((List.mem_erase_of_ne hb).2 ?_)
    exact List.mem_range.2 (hg.bound _ he).2

/-- The names downstream of a name, itself included, are those of the reachable nodes. -/
theorem mem_downstream_iff {name x : String} {n : Nat} (hg : g.WellFormed)
    (hn : g.node? name = some n) :
    x ∈ name :: g.transitiveDependents name ↔ ∃ k ∈ g.reachable n, g.names[k]? = some x := by
  have hname := hg.node?_eq_some_iff.1 hn
  have hlt := (List.getElem?_eq_some_iff.1 hname).1
  have hreach : ∀ k ∈ g.reachable n, g.names[k]? = some (g.nameOf k) :=
    fun k hk => getElem?_nameOf (lt_size_of_mem_reachable hlt hk)
  simp only [transitiveDependents, hn, List.mem_cons, List.mem_map, List.mem_filter,
    decide_eq_true_eq]
  constructor
  · rintro (rfl | ⟨k, ⟨hk, -⟩, rfl⟩)
    · exact ⟨n, self_mem_reachable n, hname⟩
    · exact ⟨k, hk, hreach k hk⟩
  · rintro ⟨k, hk, hx⟩
    by_cases hkn : k = n
    · subst hkn
      exact Or.inl (Option.some.inj (hx.symm.trans hname))
    · exact Or.inr ⟨k, ⟨hk, hkn⟩, nameOf_eq hx⟩

/-- What is downstream of a name is closed under edges. -/
theorem mem_downstream_of_edge {name p d : String} {n : Nat} (hg : g.WellFormed)
    (hn : g.node? name = some n) (hp : p ∈ name :: g.transitiveDependents name)
    (he : g.Edge p d) : d ∈ name :: g.transitiveDependents name := by
  rw [mem_downstream_iff hg hn] at hp ⊢
  obtain ⟨k, hk, hkp⟩ := hp
  obtain ⟨a, b, hab, ha, hb⟩ := he
  obtain rfl : a = k :=
    Option.some.inj ((hg.node?_eq_some_iff.2 ha).symm.trans (hg.node?_eq_some_iff.2 hkp))
  exact ⟨b, hg.mem_reachable_of_edge hk hab, hb⟩

end DependencyGraph

/-! ## The graph of a registry -/

namespace Registry

open DependencyGraph

variable {r : Registry}

/-- What adding a descriptor to a graph does, after the first of the names it consumes. -/
structure AddedTo (r : Registry) (g : DependencyGraph) (name : String) (ns : List String)
    (g' : DependencyGraph) : Prop where
  wellFormed : g'.WellFormed
  names : ∀ x, x ∈ g'.names ↔ x ∈ g.names ∨ x = name ∨
    ∃ n ∈ ns, ∃ i, r.producerIndex? n = some i ∧ r.nameOf i = x
  edge : ∀ p d, g'.Edge p d ↔ g.Edge p d ∨ d = name ∧
    ∃ n ∈ ns, ∃ i, r.producerIndex? n = some i ∧ r.nameOf i = p

/-- Record the producer of a consumed name, if it has one. -/
def linkProducer (r : Registry) (name : String) (g : DependencyGraph) (n : String) :
    DependencyGraph :=
  match r.producerIndex? n with
  | some i => g.addDependency name (r.nameOf i)
  | none => g

theorem addToGraph_eq (g : DependencyGraph) (d : Descriptor) :
    r.addToGraph g d = d.consumes.foldl (r.linkProducer d.name) (g.addNode d.name).2 :=
  rfl

theorem AddedTo.link {g g' : DependencyGraph} {name : String} {ns : List String}
    (h : r.AddedTo g name ns g') (n : String) :
    r.AddedTo g name (ns ++ [n]) (r.linkProducer name g' n) := by
  unfold linkProducer
  cases hn : r.producerIndex? n with
  | none =>
    refine ⟨h.wellFormed, fun x => ?_, fun p q => ?_⟩
    · simp [h.names, or_and_right, exists_or, hn]
    · simp [h.edge, or_and_right, exists_or, hn]
  | some i =>
    refine ⟨h.wellFormed.addDependency _ _, fun x => ?_, fun p q => ?_⟩
    · rw [h.wellFormed.mem_names_addDependency, h.names]
      simp only [List.mem_append, List.mem_singleton, or_and_right, exists_or, exists_eq_left,
        hn, Option.some.injEq, exists_eq_left']
      grind
    · rw [h.wellFormed.edge_addDependency, h.edge]
      simp only [List.mem_append, List.mem_singleton, or_and_right, exists_or, exists_eq_left,
        hn, Option.some.injEq, exists_eq_left']
      grind

theorem addedTo_addToGraph {g : DependencyGraph} (hg : g.WellFormed) (d : Descriptor) :
    r.AddedTo g d.name d.consumes (r.addToGraph g d) := by
  rw [addToGraph_eq]
  induction d.consumes using List.reverseRecOn with
  | nil =>
    exact ⟨hg.addNode _, by simp [hg.names_addNode, mem_appendNew], by simp [hg.edge_addNode]⟩
  | append_singleton ns n ih =>
    rw [List.foldl_append]
    exact ih.link n

/-- A graph whose nodes are descriptors, with an edge to each of them from the producer of
every name that it consumes. -/
structure IsGraphOf (r : Registry) (ds : List Descriptor) (g : DependencyGraph) : Prop where
  wellFormed : g.WellFormed
  names : ∀ d ∈ ds, d.name ∈ g.names
  edge : ∀ p q, g.Edge p q ↔ ∃ d ∈ ds, d.name = q ∧
    ∃ n ∈ d.consumes, ∃ i, r.producerIndex? n = some i ∧ r.nameOf i = p

theorem IsGraphOf.add {ds : List Descriptor} {g : DependencyGraph} (h : r.IsGraphOf ds g)
    (d : Descriptor) : r.IsGraphOf (ds ++ [d]) (r.addToGraph g d) := by
  have ha := addedTo_addToGraph (r := r) h.wellFormed d
  refine ⟨ha.wellFormed, fun e he => ?_, fun p q => ?_⟩
  · rw [ha.names]
    rcases List.mem_append.1 he with he | he
    · exact Or.inl (h.names e he)
    · exact Or.inr (Or.inl (List.mem_singleton.1 he ▸ rfl))
  · rw [ha.edge, h.edge]
    simp only [List.mem_append, List.mem_singleton, or_and_right, exists_or, exists_eq_left]
    exact or_congr_right (and_congr_left' eq_comm)

theorem isGraphOf_graph : r.IsGraphOf r.descriptors r.graph := by
  unfold graph
  induction r.descriptors using List.reverseRecOn with
  | nil => exact ⟨.empty, by simp, by simp [Edge, DependencyGraph.empty]⟩
  | append_singleton ds d ih =>
    rw [List.foldl_append]
    exact ih.add d

/-- Every descriptor is a node. -/
theorem exists_node {i : Nat} (hi : i < r.size) :
    ∃ n, r.graph.node? (r.nameOf i) = some n :=
  isGraphOf_graph.wellFormed.exists_node_iff.2 (isGraphOf_graph.names _ (descriptor_mem hi))

/-- There is an edge to a descriptor from each that it depends on. -/
theorem edge_graph_iff (hr : r.WellFormed) {i j : Nat} (hi : i < r.size) (hj : j < r.size) :
    r.graph.Edge (r.nameOf j) (r.nameOf i) ↔ j ∈ r.dependencies i := by
  rw [isGraphOf_graph.edge, hr.mem_dependencies]
  constructor
  · rintro ⟨d, hd, hname, n, hn, k, hk, hkj⟩
    obtain ⟨m, hm, rfl⟩ := exists_place hd
    obtain rfl := hr.nameOf_injective hm hi hname
    obtain rfl := hr.nameOf_injective (hr.lt_size_of_producerIndex? hk) hj hkj
    exact ⟨n, hn, hk⟩
  · rintro ⟨n, hn, hk⟩
    exact ⟨_, descriptor_mem hi, rfl, n, hn, j, hk, rfl⟩

/-- Whether a descriptor is `i` or lies downstream of it. -/
def Downstream (r : Registry) (i k : Nat) : Prop :=
  k < r.size ∧ r.nameOf k ∈ r.nameOf i :: r.graph.transitiveDependents (r.nameOf i)

theorem Downstream.refl {i : Nat} (hi : i < r.size) : r.Downstream i i :=
  ⟨hi, List.mem_cons_self⟩

/-- What depends on something downstream is downstream as well. -/
theorem Downstream.step (hr : r.WellFormed) {i j k : Nat} (hi : i < r.size)
    (hj : r.Downstream i j) (hk : k < r.size) (hjk : j ∈ r.dependencies k) :
    r.Downstream i k := by
  obtain ⟨n, hn⟩ := exists_node (r := r) hi
  refine ⟨hk, mem_downstream_of_edge isGraphOf_graph.wellFormed hn hj.2 ?_⟩
  exact (edge_graph_iff hr hk hj.1).2 hjk

end Registry

end FactEngine
