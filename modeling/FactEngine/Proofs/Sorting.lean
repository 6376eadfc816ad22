import FactEngine.Proofs.Graph
import Mathlib.Order.WellFounded

/-!
# Validated registries

A depth-first search that ends with an order has struck off every node, none of which has an
edge to itself, and lists them all (`finishAll_order`). If no node in the list depends on
a later one, every edge leads from an earlier node to a later one (`idxOf_lt_of_edge`).

So the dependencies of a registry that passes validation are well-founded
(`wellFounded_dependsOn`), and since every consumed name has a producer as well, every
target of the registry has a resolved order, whatever is done already
(`orderFor_isOk_of_validate`).
-/

namespace FactEngine

namespace DependencyGraph

variable {g : DependencyGraph}

/-! ## Depth-first search -/

/-- What a depth-first search that ends with an order has done. -/
structure Listed (g : DependencyGraph) (fresh stack finished nodes fresh' : List Nat) : Prop where
  fresh_subset : fresh' ⊆ fresh
  fresh_nodup : fresh'.Nodup
  finished_subset : finished ⊆ nodes
  stack_subset : stack ⊆ nodes
  stack_struck : ∀ n ∈ stack, n ∉ fresh'
  struck : ∀ n ∈ fresh, n ∈ fresh' ∨ n ∈ nodes ∧ n ∉ g.successors n

theorem finish_order {fresh stack finished nodes fresh' : List Nat} (hn : fresh.Nodup)
    (h : g.finish fresh stack finished = (.order nodes, fresh')) :
    g.Listed fresh stack finished nodes fresh' := by
  fun_induction g.finish fresh stack finished with
  | case1 fresh finished =>
    obtain ⟨hnodes, rfl⟩ := Prod.mk.inj h
    obtain rfl := Sorted.order.inj hnodes
    exact ⟨List.Subset.refl _, hn, List.Subset.refl _, by simp, by simp, fun n hn => Or.inl hn⟩
  | case2 fresh finished n rest hmem hself => cases (Prod.mk.inj h).1
  | case3 fresh finished n rest hmem hself ih =>
    obtain ⟨hsub, hnodup, hfin, hstack, hstruck, hall⟩ := ih (hn.erase n) h
    have hrest : n :: rest ⊆ nodes := fun k hk => hstack (List.mem_append_right _ hk)
    refine ⟨fun k hk => List.mem_of_mem_erase (hsub hk), hnodup, hfin, hrest,
      fun k hk => hstruck k (List.mem_append_right _ hk), fun k hk => ?_⟩
    by_cases hkn : k = n
    · subst hkn
      exact Or.inr ⟨hrest List.mem_cons_self, hself⟩
    · exact hall k ((List.mem_erase_of_ne hkn).2 hk)
  | case4 fresh finished n rest hmem ih =>
    obtain ⟨hsub, hnodup, hfin, hstack, hstruck, hall⟩ := ih hn h
    have hn : n ∈ nodes := by
      refine hfin ?_
      split
      · assumption
      · exact List.mem_cons_self
    refine ⟨hsub, hnodup, fun k hk => hfin ?_, List.cons_subset.2 ⟨hn, hstack⟩,
      List.forall_mem_cons.2 ⟨fun hk => hmem (hsub hk), hstruck⟩, hall⟩
    split
    · exact hk
    · exact List.mem_cons_of_mem _ hk

theorem finishAll_order {ns fresh finished nodes : List Nat} (hn : fresh.Nodup)
    (h : g.finishAll ns fresh finished = .order nodes) :
    finished ⊆ nodes ∧ ∀ n ∈ ns, n ∈ fresh → n ∈ nodes ∧ n ∉ g.successors n := by
  induction ns generalizing fresh finished with
  | nil =>
    obtain rfl := Sorted.order.inj h
    exact ⟨List.Subset.refl _, by simp⟩
  | cons n ns ih =>
    unfold finishAll at h
    split at h
    · rename_i hmem
      split at h
      · cases h
      · rename_i nodes' fresh' hfinish
        have hl := finish_order hn hfinish
        obtain ⟨hsub, hall⟩ := ih hl.fresh_nodup h
        have hstep : ∀ k ∈ fresh, k ∈ fresh' ∨ k ∈ nodes ∧ k ∉ g.successors k :=
          fun k hk => (hl.struck k hk).imp_right fun ⟨hm, hs⟩ => ⟨hsub hm, hs⟩
        refine ⟨fun k hk => hsub (hl.finished_subset hk),
          List.forall_mem_cons.2 ⟨fun hk => ?_, fun k hk hf => ?_⟩⟩
        · exact (hstep n hk).resolve_left (hl.stack_struck n List.mem_cons_self)
        · exact (hstep k hf).elim (hall k hk) id
    · rename_i hmem
      obtain ⟨hsub, hall⟩ := ih hn h
      exact ⟨hsub, List.forall_mem_cons.2 ⟨fun hk => (hmem hk).elim, hall⟩⟩

/-! ## Orders of the nodes -/

/-- If no node depends on a later one, what a node depends on stands before it. -/
theorem firstBackward_eq_none {before ns : List Nat} (h : g.firstBackward before ns = none)
    {pre post : List Nat} {n k : Nat} (hs : ns = pre ++ n :: post)
    (hk : k ∈ g.predecessors n) : k = n ∨ k ∈ pre ∨ k ∈ before := by
  induction ns generalizing before pre with
  | nil => simp at hs
  | cons m ns ih =>
    unfold firstBackward at h
    split at h
    · cases h
    · rename_i hlast
      rcases List.cons_eq_append_iff.1 hs with ⟨rfl, heq⟩ | ⟨pre', rfl, heq⟩
      · obtain ⟨rfl, rfl⟩ := List.cons.inj heq
        have := List.filter_eq_nil_iff.1 (List.getLast?_eq_none_iff.1 hlast) k hk
        exact or_iff_not_imp_left.2 fun hkn => Or.inr (by simpa [hkn] using this)
      · rcases ih h heq with hkn | hkpre | hkb
        · exact Or.inl hkn
        · exact Or.inr (Or.inl (List.mem_cons_of_mem _ hkpre))
        · rcases List.mem_cons.1 hkb with rfl | hkb
          · exact Or.inr (Or.inl List.mem_cons_self)
          · exact Or.inr (Or.inr hkb)

theorem mem_predecessors {a b : Nat} : a ∈ g.predecessors b ↔ (a, b) ∈ g.edges := by
  simp only [predecessors, List.mem_filterMap, Option.ite_none_right_eq_some, Option.some.injEq]
  constructor
  · rintro ⟨⟨a', b'⟩, he, rfl, rfl⟩
    exact he
  · exact fun he => ⟨(a, b), he, rfl, rfl⟩

theorem sortNodes_eq_order {nodes : List Nat} (h : g.sortNodes = .order nodes) :
    g.finishAll (List.range g.size) (List.range g.size) [] = .order nodes ∧
      g.firstBackward [] nodes = none := by
  unfold sortNodes at h
  split at h
  · cases h
  · rename_i nodes' hall
    split at h
    · cases h
    · rename_i hback
      obtain rfl := Sorted.order.inj h
      exact ⟨hall, hback⟩

/-- In an order of the nodes, a node stands behind all that it depends on. -/
theorem WellFormed.mem_before_of_edge (hg : g.WellFormed) {nodes pre post : List Nat}
    (h : g.sortNodes = .order nodes) {a b : Nat} (hs : nodes = pre ++ b :: post)
    (he : (a, b) ∈ g.edges) : a ∈ pre := by
  obtain ⟨hall, hback⟩ := sortNodes_eq_order h
  have hb := List.mem_range.2 (hg.bound _ he).2
  obtain ⟨-, hself⟩ := (finishAll_order List.nodup_range hall).2 b hb hb
  rcases firstBackward_eq_none hback hs (mem_predecessors.2 he) with rfl | hpre | hnil
  · exact (hself (mem_successors.2 he)).elim
  · exact hpre
  · cases hnil

/-- In an order of the nodes, edges lead forward. -/
theorem WellFormed.idxOf_lt_of_edge (hg : g.WellFormed) {nodes : List Nat}
    (h : g.sortNodes = .order nodes) {a b : Nat} (he : (a, b) ∈ g.edges) :
    nodes.idxOf a < nodes.idxOf b := by
  have hb := List.mem_range.2 (hg.bound _ he).2
  obtain ⟨hmem, -⟩ := (finishAll_order List.nodup_range (sortNodes_eq_order h).1).2 b hb hb
  obtain ⟨pre, post, hsplit, hnot⟩ := List.eq_append_cons_of_mem hmem
  have hapre := hg.mem_before_of_edge h hsplit he
  rw [hsplit, List.idxOf_append_of_mem hapre, List.idxOf_append_of_notMem hnot,
    List.idxOf_cons_self, Nat.add_zero]
  exact List.idxOf_lt_length_of_mem hapre

end DependencyGraph

/-! ## Registries -/

namespace Registry

open DependencyGraph

variable {r : Registry}

/-- The descriptor at `i` depends on the one at `j`. -/
def DependsOn (r : Registry) (j i : Nat) : Prop :=
  j ∈ r.dependencies i

theorem lt_size_of_dependsOn {i j : Nat} (h : r.DependsOn j i) : j < r.size ∧ i < r.size := by
  obtain ⟨hj, n, hn, -⟩ := mem_dependencies.1 h
  exact ⟨hj, lt_size_of_mem_consumes hn⟩

theorem firstMissing?_eq_none {l : List Nat} (h : r.firstMissing? l = none) :
    ∀ i ∈ l, r.missing? i = none := by
  induction l with
  | nil => simp
  | cons i l ih =>
    unfold firstMissing? at h
    split at h
    · cases h
    · rename_i hi
      exact List.forall_mem_cons.2 ⟨hi, ih h⟩

theorem validate_ok (h : r.validate = .ok ()) :
    (∀ i < r.size, r.missing? i = none) ∧ ∃ nodes, r.graph.sortNodes = .order nodes := by
  unfold validate at h
  split at h
  · cases h
  · rename_i hnone
    refine ⟨fun i hi => firstMissing?_eq_none hnone i (List.mem_range.2 hi), ?_⟩
    cases hs : r.graph.sortNodes with
    | order nodes => exact ⟨nodes, rfl⟩
    | cyclic n =>
      simp only [sort, hs] at h
      split at h <;> cases h

/-- The rank of a descriptor in an order of the nodes is the place of its node there. -/
def rank (r : Registry) (nodes : List Nat) (i : Nat) : Nat :=
  nodes.idxOf (r.graph.names.idxOf (r.nameOf i))

theorem rank_lt_of_dependsOn (hr : r.WellFormed) {nodes : List Nat}
    (hsort : r.graph.sortNodes = .order nodes) {i j : Nat} (hij : r.DependsOn j i) :
    r.rank nodes j < r.rank nodes i := by
  have hg := (isGraphOf_graph (r := r)).wellFormed
  obtain ⟨hj, hi⟩ := lt_size_of_dependsOn hij
  obtain ⟨a, b, he, ha, hb⟩ := (edge_graph_iff hr hi hj).2 hij
  rw [rank, rank, hg.idxOf_eq ha, hg.idxOf_eq hb]
  exact hg.idxOf_lt_of_edge hsort he

/-- The dependencies of a registry that passes validation are well-founded. -/
theorem wellFounded_dependsOn (hr : r.WellFormed) (h : r.validate = .ok ()) :
    WellFounded r.DependsOn := by
  obtain ⟨-, nodes, hsort⟩ := validate_ok h
  exact Subrelation.wf (rank_lt_of_dependsOn hr hsort)
    (InvImage.wf (r.rank nodes) Nat.lt_wfRel.wf)

/-- In a registry that passes validation, every target has a resolved order. -/
theorem orderFor_isOk_of_validate (hr : r.WellFormed) (h : r.validate = .ok ()) {target : String}
    {i : Nat} (hi : r.producerIndex? target = some i) (isDone : String → Bool) :
    ∃ order, r.orderFor target isDone = .ok order := by
  cases ho : r.orderFor target isDone with
  | ok order => exact ⟨order, rfl⟩
  | error e =>
    rcases orderFor_error hr ho with ⟨hnone, -⟩ | ⟨j, -, -, hrefused⟩
    · rw [hi] at hnone
      cases hnone
    · cases hrefused with
      | @missing k n reached consumed unknown =>
        have hk := (validate_ok h).1 k (lt_size_of_mem_consumes consumed)
        obtain ⟨l, hl⟩ := missing?_eq_none_iff.1 hk n consumed
        rw [unknown] at hl
        cases hl
      | cyclic walk reached =>
        obtain ⟨k, -, hself⟩ := walk.exists_needs_self
        have hdep : Relation.TransGen r.DependsOn k k := by
          rw [← Relation.transGen_swap]
          exact hself.lift id fun _ _ hstep => hstep.1
        exact ((wellFounded_dependsOn hr h).transGen.irrefl.irrefl k hdep).elim

end Registry

end FactEngine
