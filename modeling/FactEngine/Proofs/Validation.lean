import FactEngine.Proofs.Downstream
import FactEngine.Proofs.Resolvability
import FactEngine.Proofs.Sorting

/-!
# Validation and resolution agree

Validation looks for cycles by sorting the graph of the descriptors, resolution by a search
along consumed names. They agree (`validate_agrees_with_resolution`) : a registry passes
exactly if every consumed name has a producer and nothing consumes from itself, directly or
through others, and then every target has an order.

The sort names a node only if the node is on a cycle (`DependencyGraph.WellFormed.arrow_self`).
That rests on what the stack of its first pass looks like (`DependencyGraph.Walk`). A node
that was struck off but not recorded is on the path of the search, and everything above it
on the stack is reached from it (`DependencyGraph.OnPath`). A node is therefore recorded
when the nodes that depend on it are recorded already or else reach it.

The search that validation starts from the named node meets a cycle for sure, and so the path
that is reported is one that resolution found (`Registry.Verdict`).
-/

namespace FactEngine

/-! ## Nodes that a sort refuses -/

namespace DependencyGraph

variable {g : DependencyGraph} {fresh stack finished nodes fresh' : List Nat} {n k : Nat}

/-- The node is on the path of a depth-first search. What stands above it on the stack is reached
from it, and the fresh ones of its neighbours are there. -/
def OnPath (g : DependencyGraph) (fresh stack : List Nat) (n : Nat) : Prop :=
  ∃ above below, stack = above ++ n :: below ∧ n ∉ above ∧
    (∀ m ∈ above, Relation.TransGen g.Arrow n m) ∧ ∀ m ∈ g.successors n, m ∈ fresh → m ∈ above

/-- The state of a depth-first search. Whoever depends on a recorded node was recorded before it,
or reaches it. -/
structure Walk (g : DependencyGraph) (fresh stack finished : List Nat) : Prop where
  fresh_nodup : fresh.Nodup
  finished_nodup : finished.Nodup
  bound : ∀ n ∈ stack, n < g.size
  listed : ∀ n ∈ finished, n < g.size
  struck : ∀ n < g.size, n ∈ fresh ∨ n ∈ finished ∨ g.OnPath fresh stack n
  settled : ∀ n earlier, n :: earlier <:+ finished → ∀ m ∈ g.successors n,
    m ∈ n :: earlier ∨ Relation.TransGen g.Arrow m n

/-- A node on top of the stack is on the path when it has been struck off and its fresh
neighbours were put above it. -/
theorem onPath_top (hn : fresh.Nodup) (rest : List Nat) :
    g.OnPath (fresh.erase n)
      (((g.successors n).filter (· ∈ fresh.erase n)).reverse ++ n :: rest) n := by
  refine ⟨_, rest, rfl, fun hmem => ?_, fun m hm => ?_, fun m hm hf => ?_⟩
  · have hmem := (List.mem_filter.1 (List.mem_reverse.1 hmem)).2
    exact hn.not_mem_erase (of_decide_eq_true hmem)
  · exact .single (mem_successors.1 (List.mem_filter.1 (List.mem_reverse.1 hm)).1)
  · exact List.mem_reverse.2 (List.mem_filter.2 ⟨hm, decide_eq_true hf⟩)

/-- A node stays on the path when what is put on the stack is fresh and reached from its top. -/
theorem OnPath.push {rest pushed : List Nat} (h : g.OnPath fresh (n :: rest) k) (hk : k ∉ fresh)
    (hkn : k ≠ n) (hfresh : pushed ⊆ fresh) (hreach : ∀ m ∈ pushed, Relation.TransGen g.Arrow n m) :
    g.OnPath (fresh.erase n) (pushed ++ n :: rest) k := by
  obtain ⟨above, below, hstack, hnot, habove, hsucc⟩ := h
  rcases List.cons_eq_append_iff.1 hstack with ⟨rfl, heq⟩ | ⟨above', rfl, rfl⟩
  · exact (hkn (List.cons.inj heq).1).elim
  · refine ⟨pushed ++ n :: above', below, by simp, ?_, fun m hm => ?_, fun m hm hf => ?_⟩
    · rw [List.mem_append, not_or]
      exact ⟨fun hp => hk (hfresh hp), hnot⟩
    · rcases List.mem_append.1 hm with hm | hm
      · exact (habove n List.mem_cons_self).trans (hreach m hm)
      · exact habove m hm
    · exact List.mem_append_right _ (hsucc m hm (List.mem_of_mem_erase hf))

theorem Walk.strike (hg : g.WellFormed) {rest : List Nat} (h : g.Walk fresh (n :: rest) finished)
    (hn : n ∈ fresh) :
    g.Walk (fresh.erase n)
      (((g.successors n).filter (· ∈ fresh.erase n)).reverse ++ n :: rest) finished := by
  have hpushed : ∀ m ∈ ((g.successors n).filter (· ∈ fresh.erase n)).reverse,
      (n, m) ∈ g.edges ∧ m ∈ fresh := fun m hm => by
    obtain ⟨hs, hf⟩ := List.mem_filter.1 (List.mem_reverse.1 hm)
    exact ⟨mem_successors.1 hs, List.mem_of_mem_erase (of_decide_eq_true hf)⟩
  refine ⟨h.fresh_nodup.erase n, h.finished_nodup, fun m hm => ?_, h.listed, fun m hm => ?_,
    h.settled⟩
  · rcases List.mem_append.1 hm with hm | hm
    · exact (hg.bound _ (hpushed m hm).1).2
    · exact h.bound m hm
  · by_cases hmn : m = n
    · subst hmn
      exact Or.inr (Or.inr (onPath_top h.fresh_nodup rest))
    · by_cases hf : m ∈ fresh
      · exact Or.inl ((List.mem_erase_of_ne hmn).2 hf)
      · refine Or.inr (((h.struck m hm).resolve_left hf).imp_right fun hpath => ?_)
        exact hpath.push hf hmn (fun k hk => (hpushed k hk).2)
          fun k hk => .single (hpushed k hk).1

/-- When a node of the path is on top of the stack, its neighbours are recorded, or reach it. -/
theorem Walk.settled_top (hg : g.WellFormed) {rest : List Nat}
    (h : g.Walk fresh (n :: rest) finished) (hn : n ∉ fresh) (hf : n ∉ finished) {m : Nat}
    (hm : m ∈ g.successors n) : m ∈ n :: finished ∨ Relation.TransGen g.Arrow m n := by
  have hstruck : m ∉ fresh := by
    obtain ⟨above, below, hstack, hnot, -, hsucc⟩ :=
      ((h.struck n (h.bound n List.mem_cons_self)).resolve_left hn).resolve_left hf
    rcases List.cons_eq_append_iff.1 hstack with ⟨rfl, -⟩ | ⟨above', rfl, -⟩
    · exact fun hmf => by cases hsucc m hm hmf
    · exact (hnot List.mem_cons_self).elim
  rcases (h.struck m (hg.bound _ (mem_successors.1 hm)).2).resolve_left hstruck with hmf | hpath
  · exact Or.inl (List.mem_cons_of_mem _ hmf)
  · obtain ⟨above, below, hstack, -, habove, -⟩ := hpath
    rcases List.cons_eq_append_iff.1 hstack with ⟨rfl, heq⟩ | ⟨above', rfl, -⟩
    · exact Or.inl ((List.cons.inj heq).1 ▸ List.mem_cons_self)
    · exact Or.inr (habove n List.mem_cons_self)

theorem Walk.pop (hg : g.WellFormed) {rest : List Nat} (h : g.Walk fresh (n :: rest) finished)
    (hn : n ∉ fresh) :
    g.Walk fresh rest (if n ∈ finished then finished else n :: finished) := by
  have hrecorded : n ∈ (if n ∈ finished then finished else n :: finished) ∧
      finished ⊆ (if n ∈ finished then finished else n :: finished) := by
    split
    · exact ⟨‹_›, List.Subset.refl _⟩
    · exact ⟨List.mem_cons_self, List.subset_cons_self _ _⟩
  refine ⟨h.fresh_nodup, ?_, fun m hm => h.bound m (List.mem_cons_of_mem _ hm), ?_,
    fun m hm => ?_, ?_⟩
  · split
    · exact h.finished_nodup
    · exact List.nodup_cons.2 ⟨‹_›, h.finished_nodup⟩
  · split
    · exact h.listed
    · exact List.forall_mem_cons.2 ⟨h.bound n List.mem_cons_self, h.listed⟩
  · rcases h.struck m hm with hf | hf | ⟨above, below, hstack, hnot, habove, hsucc⟩
    · exact Or.inl hf
    · exact Or.inr (Or.inl (hrecorded.2 hf))
    · rcases List.cons_eq_append_iff.1 hstack with ⟨rfl, heq⟩ | ⟨above', rfl, rfl⟩
      · exact Or.inr (Or.inl ((List.cons.inj heq).1 ▸ hrecorded.1))
      · have hne : m ≠ n := fun he => hnot (he ▸ List.mem_cons_self)
        refine Or.inr (Or.inr ⟨above', below, rfl, fun hm' => hnot (List.mem_cons_of_mem _ hm'),
          fun k hk => habove k (List.mem_cons_of_mem _ hk), fun k hk hf => ?_⟩)
        exact (List.mem_cons.1 (hsucc k hk hf)).resolve_left fun he => hn (he ▸ hf)
  · split
    · exact h.settled
    · rename_i hf
      intro k earlier hsuffix m hm
      rcases List.suffix_cons_iff.1 hsuffix with heq | hsuffix
      · obtain ⟨rfl, rfl⟩ := List.cons.inj heq
        exact h.settled_top hg hn hf hm
      · exact h.settled k earlier hsuffix m hm

theorem walk_of_finish (hg : g.WellFormed) (hw : g.Walk fresh stack finished)
    (h : g.finish fresh stack finished = (.order nodes, fresh')) : g.Walk fresh' [] nodes := by
  fun_induction g.finish fresh stack finished with
  | case1 fresh finished =>
    obtain ⟨hnodes, rfl⟩ := Prod.mk.inj h
    obtain rfl := Sorted.order.inj hnodes
    exact hw
  | case2 fresh finished n rest hmem hself => cases (Prod.mk.inj h).1
  | case3 fresh finished n rest hmem hself ih => exact ih (hw.strike hg hmem) h
  | case4 fresh finished n rest hmem ih => exact ih (hw.pop hg hmem) h

/-- Depth-first search stops early at a node with an edge to itself only. -/
theorem self_of_finish (h : g.finish fresh stack finished = (.cyclic k, fresh')) :
    g.Arrow k k := by
  fun_induction g.finish fresh stack finished with
  | case1 fresh finished => cases (Prod.mk.inj h).1
  | case2 fresh finished n rest hmem hself =>
    obtain rfl := Sorted.cyclic.inj (Prod.mk.inj h).1
    exact mem_successors.1 hself
  | case3 fresh finished n rest hmem hself ih => exact ih h
  | case4 fresh finished n rest hmem ih => exact ih h

/-- A search begins with a fresh node on an empty stack. -/
theorem Walk.start (h : g.Walk fresh [] finished) (hn : n < g.size) :
    g.Walk fresh [n] finished := by
  refine ⟨h.fresh_nodup, h.finished_nodup, by simpa using hn, h.listed, fun m hm => ?_,
    h.settled⟩
  rcases h.struck m hm with hf | hf | ⟨above, below, hstack, -⟩
  · exact Or.inl hf
  · exact Or.inr (Or.inl hf)
  · simp at hstack

theorem walk_of_finishAll (hg : g.WellFormed) {ns : List Nat} (hns : ∀ n ∈ ns, n < g.size)
    (hw : g.Walk fresh [] finished) (h : g.finishAll ns fresh finished = .order nodes) :
    ∃ fresh', g.Walk fresh' [] nodes := by
  induction ns generalizing fresh finished with
  | nil =>
    obtain rfl := Sorted.order.inj h
    exact ⟨fresh, hw⟩
  | cons n ns ih =>
    obtain ⟨hn, hns⟩ := List.forall_mem_cons.1 hns
    unfold finishAll at h
    split at h
    · split at h
      · cases h
      · rename_i hfinish
        exact ih hns (walk_of_finish hg (hw.start hn) hfinish) h
    · exact ih hns hw h

theorem self_of_finishAll {ns : List Nat} (h : g.finishAll ns fresh finished = .cyclic k) :
    g.Arrow k k := by
  induction ns generalizing fresh finished with
  | nil => cases h
  | cons n ns ih =>
    unfold finishAll at h
    split at h
    · split at h
      · rename_i hfinish
        obtain rfl := Sorted.cyclic.inj h
        exact self_of_finish hfinish
      · exact ih h
    · exact ih h

/-- The dependency that turns up in the wrong place stands neither before its dependent nor at
it. -/
theorem firstBackward_eq_some {before ns : List Nat} (h : g.firstBackward before ns = some k) :
    ∃ pre n post, ns = pre ++ n :: post ∧ k ∈ g.predecessors n ∧ k ≠ n ∧ k ∉ pre ∧
      k ∉ before := by
  induction ns generalizing before with
  | nil => cases h
  | cons m ns ih =>
    unfold firstBackward at h
    split at h
    · rename_i hlast
      obtain rfl := Option.some.inj h
      obtain ⟨hmem, hnot⟩ := List.mem_filter.1 (List.mem_of_getLast? hlast)
      simp only [List.mem_cons, not_or, decide_eq_true_eq] at hnot
      exact ⟨[], m, ns, rfl, hmem, hnot.1, by simp, hnot.2⟩
    · obtain ⟨pre, n, post, rfl, hmem, hne, hpre, hbefore⟩ := ih h
      rw [List.mem_cons, not_or] at hbefore
      exact ⟨m :: pre, n, post, rfl, hmem, hne, by simp [hbefore.1, hpre], hbefore.2⟩

/-- The first pass of a sort ends in a state of the search, with the stack empty. -/
theorem WellFormed.walk_of_order (hg : g.WellFormed)
    (h : g.finishAll (List.range g.size) (List.range g.size) [] = .order nodes) :
    ∃ fresh', g.Walk fresh' [] nodes := by
  have hinit : g.Walk (List.range g.size) [] [] :=
    ⟨List.nodup_range, List.nodup_nil, by simp, by simp,
      fun n hn => Or.inl (List.mem_range.2 hn), by simp⟩
  exact walk_of_finishAll hg (fun n hn => List.mem_range.1 hn) hinit h

/-- A node that a sort names depends on itself, directly or through others. -/
theorem WellFormed.arrow_self (hg : g.WellFormed) (h : g.sortNodes = .cyclic k) :
    Relation.TransGen g.Arrow k k := by
  unfold sortNodes at h
  split at h
  · rename_i hall
    obtain rfl := Sorted.cyclic.inj h
    exact .single (self_of_finishAll hall)
  · rename_i nodes hall
    obtain ⟨fresh', hw⟩ := hg.walk_of_order hall
    split at h
    · rename_i m hback
      obtain rfl : k = m := (Sorted.cyclic.inj h).symm
      obtain ⟨pre, n, post, rfl, hpred, hne, hpre, -⟩ := firstBackward_eq_some hback
      have hkn := mem_predecessors.1 hpred
      have hk := List.mem_range.2 (hg.bound _ hkn).1
      have hmem : k ∈ pre ++ n :: post := ((finishAll_order List.nodup_range hall).2 k hk hk).1
      have hpost : k ∈ post := by simpa [hpre, hne] using hmem
      -- The dependent was recorded after the node, so the node is reached from it.
      obtain ⟨mid, earlier, rfl⟩ := List.append_of_mem hpost
      have hsuffix : k :: earlier <:+ pre ++ n :: (mid ++ k :: earlier) :=
        ⟨pre ++ n :: mid, by simp⟩
      have hlater : n ∉ k :: earlier := by
        have hnodup := (List.nodup_append.1 hw.finished_nodup).2.1
        exact fun hn => (List.nodup_cons.1 hnodup).1 (List.mem_append_right _ hn)
      exact .head hkn ((hw.settled k earlier hsuffix n (mem_successors.2 hkn)).resolve_left hlater)
    · cases h

end DependencyGraph

/-! ## Registries -/

namespace Registry

open DependencyGraph

variable {r : Registry}

/-- Every consumed name has a producer. -/
def Served (r : Registry) : Prop :=
  ∀ i, ∀ n ∈ (r.descriptor i).consumes, ∃ j, n ∈ (r.descriptor j).outputs

/-- No descriptor consumes from itself, directly or through others. -/
def Acyclic (r : Registry) : Prop :=
  ∀ i, ¬Relation.TransGen r.ConsumesFrom i i

/-- Descriptors each of which consumes from the next, and that end where they began. -/
structure ClosedPath (r : Registry) (cycle : List Nat) : Prop where
  chain : cycle.IsChain r.ConsumesFrom
  nontrivial : 2 ≤ cycle.length
  closed : cycle.head? = cycle.getLast?

/-- Every verdict that validation can reach. -/
inductive Verdict (r : Registry) : Except Error Unit → Prop
  /-- A descriptor consumes a name that nothing produces. -/
  | incomplete {i : Nat} {n : String} (consumed : n ∈ (r.descriptor i).consumes)
      (unproduced : ∀ j, n ∉ (r.descriptor j).outputs) :
      Verdict r (.error (.unknownTarget n (some (r.nameOf i))))
  /-- All names have producers, but some descriptors consume from one another in a circle. -/
  | cyclic {cycle : List Nat} (served : r.Served) (path : r.ClosedPath cycle) :
      Verdict r (.error (.cyclicDependency (cycle.map r.nameOf)))
  /-- Nothing is wrong. -/
  | sound (served : r.Served) (acyclic : r.Acyclic) : Verdict r (.ok ())

/-- A closed path leads a descriptor back to itself. -/
theorem ClosedPath.not_acyclic {cycle : List Nat} (h : r.ClosedPath cycle) : ¬r.Acyclic := by
  obtain ⟨hchain, hlength, hclosed⟩ := h
  match cycle, hlength with
  | i :: j :: rest, _ =>
    have hpairwise := List.isChain_iff_pairwise.1
      (hchain.imp fun _ _ hstep => Relation.TransGen.single hstep)
    have hlast : i ∈ j :: rest := by
      rw [List.head?_cons, List.getLast?_cons_cons] at hclosed
      exact List.mem_of_getLast? hclosed.symm
    exact fun hacyclic => hacyclic i ((List.pairwise_cons.1 hpairwise).1 i hlast)

/-! ### What the sort says about descriptors -/

/-- Along the edges of the graph lie the descriptors that consume from one another. -/
theorem consumes_of_arrows (hr : r.WellFormed) {a b j : Nat} (hj : j < r.size)
    (ha : r.graph.names[a]? = some (r.nameOf j)) (h : Relation.TransGen r.graph.Arrow a b) :
    ∃ l, r.graph.names[b]? = some (r.nameOf l) ∧ Relation.TransGen r.ConsumesFrom l j := by
  induction h with
  | single hstep =>
    obtain ⟨l, hl, hlj⟩ := consumesFrom_of_arrow hr hstep hj ha
    exact ⟨l, hl, .single hlj⟩
  | tail _ hstep ih =>
    obtain ⟨k, hk, hkj⟩ := ih
    obtain ⟨m, hkm, -⟩ := Relation.TransGen.head'_iff.1 hkj
    obtain ⟨l, hl, hlk⟩ := consumesFrom_of_arrow hr hstep hkm.lt_size.1 hk
    exact ⟨l, hl, .head hlk hkj⟩

/-- A descriptor that the sort names consumes from itself, directly or through others. -/
theorem self_of_sort (hr : r.WellFormed) {name : String} (h : r.graph.sort = .cyclic name) :
    ∃ i < r.size, name = r.nameOf i ∧ Relation.TransGen r.ConsumesFrom i i := by
  have hg := (isGraphOf_graph (r := r)).wellFormed
  unfold sort at h
  split at h
  · cases h
  · rename_i k hk
    obtain rfl := Sorted.cyclic.inj h
    have hself := hg.arrow_self hk
    obtain ⟨b, hkb, -⟩ := Relation.TransGen.head'_iff.1 hself
    have hka := List.getElem?_eq_getElem (hg.bound _ hkb).1
    have hbb := List.getElem?_eq_getElem (hg.bound _ hkb).2
    obtain ⟨d, -, -, n, -, i, hi, hname⟩ := (isGraphOf_graph.edge _ _).1 ⟨k, b, hkb, hka, hbb⟩
    have hil := hr.lt_size_of_producerIndex? hi
    rw [← hname] at hka
    obtain ⟨l, hl, hli⟩ := consumes_of_arrows hr hil hka hself
    obtain ⟨m, hlm, -⟩ := Relation.TransGen.head'_iff.1 hli
    obtain rfl := hr.nameOf_injective hlm.lt_size.1 hil (Option.some.inj (hl.symm.trans hka))
    exact ⟨l, hil, nameOf_eq hka, hli⟩

/-- If the sort finds an order, nothing consumes from itself. -/
theorem acyclic_of_sort (hr : r.WellFormed) {nodes : List Nat}
    (h : r.graph.sortNodes = .order nodes) : r.Acyclic := by
  have hrank : ∀ {i j}, Relation.TransGen r.ConsumesFrom i j → r.rank nodes j < r.rank nodes i := by
    intro i j hij
    induction hij with
    | single hstep => exact rank_lt_of_dependsOn hr h (hr.mem_dependencies_iff.2 hstep)
    | tail _ hstep ih =>
      exact (rank_lt_of_dependsOn hr h (hr.mem_dependencies_iff.2 hstep)).trans ih
  exact fun i hself => Nat.lt_irrefl _ (hrank hself)

/-! ### Verdicts -/

theorem firstMissing?_eq_some {l : List Nat} {n consumer : String}
    (h : r.firstMissing? l = some (n, consumer)) :
    ∃ i ∈ l, r.missing? i = some n ∧ r.nameOf i = consumer := by
  induction l with
  | nil => cases h
  | cons i l ih =>
    unfold firstMissing? at h
    split at h
    · rename_i hi
      obtain ⟨rfl, rfl⟩ := Prod.mk.inj (Option.some.inj h)
      exact ⟨i, List.mem_cons_self, hi, rfl⟩
    · obtain ⟨j, hj, hmissing⟩ := ih h
      exact ⟨j, List.mem_cons_of_mem _ hj, hmissing⟩

theorem WellFormed.served_of_firstMissing? (hr : r.WellFormed)
    (h : r.firstMissing? (List.range r.size) = none) : r.Served := by
  intro i n hn
  have hi := List.mem_range.2 (lt_size_of_mem_consumes hn)
  obtain ⟨j, hj⟩ := missing?_eq_none_iff.1 (firstMissing?_eq_none h i hi) n hn
  exact ⟨j, hr.producerIndex?_eq_some_iff.1 hj⟩

/-- As long as nothing is done, to be consumed from is to be awaited. -/
theorem awaits_of_consumesFrom {i j : Nat} (h : r.ConsumesFrom i j) :
    r.Awaits (fun _ => false) i j := by
  obtain ⟨n, hn, hj⟩ := h
  exact ⟨⟨n, hn, hj⟩, n, hj, rfl⟩

/-- The first output of a descriptor that is consumed from. -/
theorem WellFormed.firstOutput_mem (hr : r.WellFormed) {i j : Nat} (h : r.ConsumesFrom j i) :
    r.firstOutput (r.nameOf i) ∈ (r.descriptor i).outputs := by
  have hnamed := (named?_eq_some_iff hr).2 ⟨i, h.lt_size.2, rfl, rfl⟩
  obtain ⟨n, -, hn⟩ := h
  rw [firstOutput, hnamed, Option.bind_some]
  cases houtputs : (r.descriptor i).outputs with
  | nil => simp [houtputs] at hn
  | cons m ms => simp

/-- From a descriptor that consumes from itself, resolution finds a closed path if all names have
producers. -/
theorem WellFormed.orderFor_firstOutput (hr : r.WellFormed) (hs : r.Served) {i : Nat}
    (h : Relation.TransGen r.ConsumesFrom i i) :
    ∃ cycle, r.ClosedPath cycle ∧ r.orderFor (r.firstOutput (r.nameOf i)) (fun _ => false) =
      .error (.cyclicDependency (cycle.map r.nameOf)) := by
  obtain ⟨j, -, hji⟩ := Relation.TransGen.tail'_iff.1 h
  have hmem := hr.firstOutput_mem hji
  have hneeded : r.NeededFor (fun _ => false) (r.firstOutput (r.nameOf i)) i :=
    ⟨i, hmem, ⟨_, hmem, rfl⟩, .refl⟩
  have hself : Relation.TransGen (r.Awaits fun _ => false) i i :=
    h.lift id fun _ _ => awaits_of_consumesFrom
  obtain ⟨e, he⟩ := hr.stuck_iff.1 (Or.inr ⟨i, hneeded, Or.inr hself⟩)
  rcases orderFor_error hr he with ⟨hnone, -⟩ | ⟨k, hk, hd, hrefused⟩
  · exact (hr.producerIndex?_eq_none_iff.1 hnone i hmem).elim
  · cases hrefused.explains hr hk hd with
    | unknown unproduced => exact (unproduced i hmem).elim
    | @missing k n needed consumed unproduced =>
      obtain ⟨l, hl⟩ := hs k n consumed
      exact (unproduced l hl).elim
    | @cyclic cycle needed chain nontrivial closed simple =>
      exact ⟨cycle, ⟨chain, nontrivial, closed⟩, he⟩

/-- Validation reaches a true verdict. -/
theorem WellFormed.verdict_validate (hr : r.WellFormed) : r.Verdict r.validate := by
  unfold validate
  split
  · rename_i n consumer hmissing
    obtain ⟨i, -, hi, rfl⟩ := firstMissing?_eq_some hmissing
    obtain ⟨hn, hnone⟩ := missing?_eq_some hi
    exact .incomplete hn (hr.producerIndex?_eq_none_iff.1 hnone)
  · rename_i hmissing
    have hs := hr.served_of_firstMissing? hmissing
    split
    · rename_i names hsort
      refine .sound hs ?_
      unfold sort at hsort
      split at hsort
      · rename_i nodes hnodes
        exact acyclic_of_sort hr hnodes
      · cases hsort
    · rename_i name hsort
      obtain ⟨i, -, rfl, hself⟩ := self_of_sort hr hsort
      obtain ⟨cycle, hpath, horder⟩ := hr.orderFor_firstOutput hs hself
      rw [horder]
      exact .cyclic hs hpath

theorem WellFormed.validate_eq_ok_iff (hr : r.WellFormed) :
    r.validate = .ok () ↔ r.Served ∧ r.Acyclic := by
  have hverdict := hr.verdict_validate
  constructor
  · intro h
    rw [h] at hverdict
    cases hverdict with
    | sound served acyclic => exact ⟨served, acyclic⟩
  · rintro ⟨hs, ha⟩
    generalize r.validate = answer at hverdict
    cases hverdict with
    | @incomplete i n consumed unproduced =>
      obtain ⟨j, hj⟩ := hs i n consumed
      exact (unproduced j hj).elim
    | cyclic served path => exact (path.not_acyclic ha).elim
    | sound served acyclic => rfl

/-- A registry passes if whatever a descriptor consumes is produced by one registered before it. -/
theorem WellFormed.validate_of_earlier (hr : r.WellFormed)
    (h : ∀ i, ∀ n ∈ (r.descriptor i).consumes, ∃ j < i, n ∈ (r.descriptor j).outputs) :
    r.validate = .ok () := by
  have hlt : ∀ i j, r.ConsumesFrom i j → j < i := by
    rintro i j ⟨n, hi, hj⟩
    obtain ⟨k, hk, hkn⟩ := h i n hi
    rwa [hr.place_unique hj hkn]
  refine hr.validate_eq_ok_iff.2 ⟨fun i n hn => ?_, fun i hi => ?_⟩
  · obtain ⟨j, -, hj⟩ := h i n hn
    exact ⟨j, hj⟩
  · have hself : Relation.TransGen (· > ·) i i := Relation.TransGen.mono hlt i i hi
    rw [Relation.transGen_eq_self] at hself
    exact Nat.lt_irrefl i hself

end Registry

/-! ## Requests -/

namespace Scheduler

open Registry

variable {s : Scheduler} {target : String}

/-- In a registry that passes validation, a target that is produced is refused only if something
failed. -/
theorem previouslyFailed_of_plan (hr : s.registry.WellFormed) (hv : s.registry.validate = .ok ())
    {i : Nat} (hi : s.registry.producerIndex? target = some i) {e : Error}
    (h : s.plan target = .error e) : ∃ n, s.status n = .failed ∧ e = .previouslyFailed n := by
  obtain ⟨order, horder⟩ := orderFor_isOk_of_validate hr hv hi s.run.isDone
  unfold plan at h
  rw [horder] at h
  simp only at h
  split at h
  · rename_i n hn
    have hfailed : s.run.status n = .failed := by simpa using List.find?_some hn
    exact ⟨n, hfailed, (Except.error.inj h).symm⟩
  · obtain ⟨-, -, hordered, -⟩ := orderFor_ok horder
    obtain ⟨sequence, hseq, -⟩ := schedule_ok s.config.strategy hordered
    rw [hseq] at h
    cases h

/-- An error that a request is answered with before anything is executed. -/
theorem materialize_error (hr : s.registry.WellFormed) (hv : s.registry.validate = .ok ())
    {i : Nat} (hi : s.registry.producerIndex? target = some i) {e : Error} {s' : Scheduler}
    (h : s.materialize target = (.error e, s')) :
    (∃ n, s.status n = .failed ∧ e = .previouslyFailed n) ∨
      ∃ sequence, s.plan target = .ok sequence ∧ s' = (s.executeAll sequence).2 := by
  rw [materialize, lookup_eq_ok_iff.2 ⟨i, hi, rfl⟩] at h
  simp only at h
  split at h
  · cases (Prod.mk.inj h).1
  · rename_i hfailed
    exact Or.inl ⟨target, hfailed, (Except.error.inj (Prod.mk.inj h).1).symm⟩
  · cases hp : s.plan target with
    | error e' =>
      rw [compute, hp] at h
      obtain rfl := Except.error.inj (Prod.mk.inj h).1
      exact Or.inl (previouslyFailed_of_plan hr hv hi hp)
    | ok sequence =>
      exact Or.inr ⟨sequence, rfl, by rw [← compute_snd s target hp, h]⟩

end Scheduler

namespace Registry

/-- A registry passes validation exactly if every consumed name has a producer and no descriptor
consumes from itself. Then every target that is produced has an order, whatever is done, and
a request for it fails before anything is executed only if something has failed already. If all
names have producers but there is a cycle, a closed path is reported, never one name alone. -/
theorem validate_agrees_with_resolution (ds : List Draft) :
    let r := ofDrafts ds
    (r.validate = .ok () ↔ r.Served ∧ r.Acyclic) ∧
    (r.validate = .ok () → ∀ target i, target ∈ (r.descriptor i).outputs →
      (∀ isDone, ∃ order, r.orderFor target isDone = .ok order) ∧
      ∀ s : Scheduler, s.registry = r → ∀ e s', s.materialize target = (.error e, s') →
        (∃ n, s.status n = .failed ∧ e = .previouslyFailed n) ∨
          ∃ sequence, s.plan target = .ok sequence ∧ s' = (s.executeAll sequence).2) ∧
    (r.Served → ¬r.Acyclic → ∃ cycle, r.ClosedPath cycle ∧
      r.validate = .error (.cyclicDependency (cycle.map r.nameOf))) ∧
    (∀ name, r.validate ≠ .error (.cyclicDependency [name])) := by
  intro r
  have hr : r.WellFormed := wellFormed_ofDrafts ds
  refine ⟨hr.validate_eq_ok_iff, fun hv target i hi => ?_, fun hs hcyclic => ?_, fun name h => ?_⟩
  · have hproducer := hr.producerIndex?_eq_some_iff.2 hi
    refine ⟨orderFor_isOk_of_validate hr hv hproducer, fun s hs e s' h => ?_⟩
    rw [← hs] at hr hv hproducer
    exact Scheduler.materialize_error hr hv hproducer h
  · have hverdict := hr.verdict_validate
    generalize r.validate = answer at hverdict
    cases hverdict with
    | @incomplete i n consumed unproduced =>
      obtain ⟨j, hj⟩ := hs i n consumed
      exact (unproduced j hj).elim
    | @cyclic cycle served path => exact ⟨cycle, path, rfl⟩
    | sound served acyclic => exact (hcyclic acyclic).elim
  · have hverdict := hr.verdict_validate
    rw [h] at hverdict
    generalize hname : [name] = names at hverdict
    cases hverdict with
    | @cyclic cycle served path =>
      have hlength := congrArg List.length hname
      rw [List.length_map] at hlength
      have := path.nontrivial
      simp at hlength
      omega

end Registry

end FactEngine
