import FactEngine.Proofs.History

/-!
# What lies downstream

Breadth-first search lists every node once (`DependencyGraph.nodup_search`), and none that
edges do not lead to (`reaches_of_mem_search`). Since it leaves nothing behind either, what
lies downstream of a descriptor is exactly what consumes from it, directly or through others
(`Registry.downstream_iff`), and an invalidation forgets the outputs of these, each once
(`Scheduler.nodup_downstream`).
-/

namespace FactEngine

/-! ## Search -/

namespace DependencyGraph

variable {g : DependencyGraph}

/-- Nodes that are apart stay apart when neighbours enter the queue. -/
theorem nodup_enqueue (ns unmarked queue : List Nat) (h : (queue ++ unmarked).Nodup) :
    ((enqueue unmarked queue ns).2 ++ (enqueue unmarked queue ns).1).Nodup := by
  induction ns generalizing unmarked queue with
  | nil => exact h
  | cons n ns ih =>
    unfold enqueue
    split
    · rename_i hn
      refine ih _ _ ?_
      have hperm : (queue ++ [n] ++ unmarked.erase n).Perm (queue ++ unmarked) := by
        rw [List.append_assoc]
        exact (List.perm_cons_erase hn).symm.append_left queue
      exact hperm.nodup_iff.2 h
    · exact ih _ _ h

/-- The search lists no node twice. -/
theorem nodup_search (unmarked queue : List Nat) (h : (queue ++ unmarked).Nodup) :
    (g.search unmarked queue).Nodup := by
  fun_induction g.search unmarked queue with
  | case1 => exact List.nodup_nil
  | case2 unmarked n queue ih =>
    obtain ⟨hn, h⟩ := List.nodup_cons.1 h
    refine List.nodup_cons.2 ⟨fun hmem => hn ?_, ih (nodup_enqueue _ _ _ h)⟩
    have hm := mem_of_mem_enqueue (k := n) (g.successors n) unmarked queue
    refine List.mem_append.2 ?_
    rcases mem_of_mem_search _ _ hmem with hq | hu
    · exact hm.2 hq
    · exact Or.inr (hm.1 hu)

/-- What enters the queue are neighbours. -/
theorem mem_queue_or_of_enqueue {k : Nat} (ns unmarked queue : List Nat)
    (hk : k ∈ (enqueue unmarked queue ns).2) : k ∈ queue ∨ k ∈ ns := by
  induction ns generalizing unmarked queue with
  | nil => exact Or.inl hk
  | cons n ns ih =>
    unfold enqueue at hk
    split at hk
    · rcases ih _ _ hk with h | h
      · rcases List.mem_append.1 h with h | h
        · exact Or.inl h
        · exact Or.inr (List.mem_singleton.1 h ▸ List.mem_cons_self)
      · exact Or.inr (List.mem_cons_of_mem _ h)
    · exact (ih _ _ hk).imp_right (List.mem_cons_of_mem _)

/-- There is an edge from one node to another. -/
def Arrow (g : DependencyGraph) (a b : Nat) : Prop :=
  (a, b) ∈ g.edges

/-- What the search lists is reached from the queue. -/
theorem reaches_of_mem_search {k : Nat} (unmarked queue : List Nat)
    (hk : k ∈ g.search unmarked queue) : ∃ n ∈ queue, Relation.ReflTransGen g.Arrow n k := by
  fun_induction g.search unmarked queue with
  | case1 => cases hk
  | case2 unmarked n queue ih =>
    rcases List.mem_cons.1 hk with rfl | hk
    · exact ⟨k, List.mem_cons_self, .refl⟩
    · obtain ⟨m, hm, hreach⟩ := ih hk
      rcases mem_queue_or_of_enqueue _ _ _ hm with hq | hs
      · exact ⟨m, List.mem_cons_of_mem _ hq, hreach⟩
      · exact ⟨n, List.mem_cons_self, .head (mem_successors.1 hs) hreach⟩

theorem nodup_reachable (n : Nat) : (g.reachable n).Nodup := by
  refine nodup_search _ _ ?_
  rw [List.singleton_append, List.nodup_cons]
  exact ⟨List.nodup_range.not_mem_erase, List.nodup_range.erase n⟩

/-- The names downstream of a name, itself included, are listed once each. -/
theorem WellFormed.nodup_downstream (hg : g.WellFormed) (name : String) :
    (name :: g.transitiveDependents name).Nodup := by
  unfold transitiveDependents
  cases hn : g.node? name with
  | none => simp
  | some n =>
    have hname := hg.node?_eq_some_iff.1 hn
    have hlt := (List.getElem?_eq_some_iff.1 hname).1
    have hinj : ∀ a ∈ g.reachable n, ∀ b ∈ g.reachable n, g.nameOf a = g.nameOf b → a = b := by
      intro a ha b hb
      exact hg.nameOf_injective (lt_size_of_mem_reachable hlt ha) (lt_size_of_mem_reachable hlt hb)
    refine List.nodup_cons.2 ⟨fun hmem => ?_, ?_⟩
    · obtain ⟨k, hk, hkn⟩ := List.mem_map.1 hmem
      obtain ⟨hk, hne⟩ := List.mem_filter.1 hk
      refine of_decide_eq_true hne (hinj k hk n (self_mem_reachable n) ?_)
      rw [hkn, nameOf_eq hname]
    · refine ((nodup_reachable n).filter _).map_on fun a ha b hb he => ?_
      exact hinj a (List.mem_filter.1 ha).1 b (List.mem_filter.1 hb).1 he

end DependencyGraph

/-! ## Descriptors downstream -/

namespace Registry

open DependencyGraph

variable {r : Registry}

/-- Edges lead from the nodes of descriptors to the nodes of those that consume from them. -/
theorem consumesFrom_of_arrow (hr : r.WellFormed) {a b k : Nat} (hab : r.graph.Arrow a b)
    (hk : k < r.size) (ha : r.graph.names[a]? = some (r.nameOf k)) :
    ∃ l, r.graph.names[b]? = some (r.nameOf l) ∧ r.ConsumesFrom l k := by
  have hb := List.getElem?_eq_getElem (isGraphOf_graph.wellFormed.bound _ hab).2
  obtain ⟨d, hd, hname, n, hn, j, hj, hjk⟩ := (isGraphOf_graph.edge _ _).1 ⟨a, b, hab, ha, hb⟩
  obtain ⟨l, hl, rfl⟩ := exists_place hd
  obtain rfl := hr.nameOf_injective (hr.lt_size_of_producerIndex? hj) hk hjk
  exact ⟨l, hb.trans (congrArg some hname.symm), n, hn, hr.producerIndex?_eq_some_iff.1 hj⟩

/-- Downstream of a descriptor is what consumes from it, directly or through others. -/
theorem downstream_iff (hr : r.WellFormed) {i k : Nat} (hi : i < r.size) :
    r.Downstream i k ↔ Relation.ReflTransGen r.ConsumesFrom k i := by
  have hg := (isGraphOf_graph (r := r)).wellFormed
  obtain ⟨n, hn⟩ := exists_node (r := r) hi
  have hni := hg.node?_eq_some_iff.1 hn
  have hreached : ∀ {m}, Relation.ReflTransGen r.graph.Arrow n m → ∃ l < r.size,
      r.graph.names[m]? = some (r.nameOf l) ∧ Relation.ReflTransGen r.ConsumesFrom l i := by
    intro m hm
    induction hm with
    | refl => exact ⟨i, hi, hni, .refl⟩
    | tail _ hstep ih =>
      obtain ⟨l, hl, hname, hli⟩ := ih
      obtain ⟨l', hname', hstep'⟩ := consumesFrom_of_arrow hr hstep hl hname
      exact ⟨l', hstep'.lt_size.1, hname', .head hstep' hli⟩
  constructor
  · rintro ⟨hk, hmem⟩
    obtain ⟨m, hm, hname⟩ := (mem_downstream_iff hg hn).1 hmem
    obtain ⟨n', hn', hreach⟩ := reaches_of_mem_search _ _ hm
    obtain rfl := List.mem_singleton.1 hn'
    obtain ⟨l, hl, hname', hli⟩ := hreached hreach
    rwa [hr.nameOf_injective hk hl (Option.some.inj (hname.symm.trans hname'))]
  · intro h
    induction h using Relation.ReflTransGen.head_induction_on with
    | refl => exact .refl hi
    | head hstep _ ih =>
      exact ih.step hr hi hstep.lt_size.1 (hr.mem_dependencies_iff.2 hstep)

end Registry

namespace Scheduler

open Registry

variable {s : Scheduler}

/-- What an invalidation forgets is listed without repetition. -/
theorem nodup_downstream (hr : s.registry.WellFormed) (d : Descriptor) :
    (s.downstream d).Nodup := by
  refine List.nodup_flatMap.2 ⟨fun e he => ?_, ?_⟩
  · obtain ⟨name, -, hname⟩ := List.mem_filterMap.1 he
    obtain ⟨k, hk, -, rfl⟩ := (named?_eq_some_iff hr).1 hname
    exact (hr.built _ (descriptor_mem hk)).outputs_nodup
  · have hnames := isGraphOf_graph.wellFormed.nodup_downstream (g := s.registry.graph) d.name
    refine List.pairwise_filterMap.2 (hnames.imp fun hne e he e' he' => ?_)
    obtain ⟨k, -, rfl, rfl⟩ := (named?_eq_some_iff hr).1 he
    obtain ⟨k', -, rfl, rfl⟩ := (named?_eq_some_iff hr).1 he'
    intro n hn hn'
    exact hne (by rw [hr.place_unique hn hn'])

end Scheduler

end FactEngine
