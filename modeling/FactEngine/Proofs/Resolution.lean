import FactEngine.Analysis.Resolution
import FactEngine.Proofs.Registration
import Mathlib.Data.List.Chain
import Mathlib.Data.List.TakeWhile
import Mathlib.Logic.Relation

/-!
# What resolution answers

`Registry.Needs` is one step of the search : from a descriptor to a descriptor that it depends
on and that is not done. An order is `Ordered` if nothing in it depends on itself or on
something later, and whatever its members depend on is done or a member.

A search that succeeds extends the order to an ordered one by descriptors that it reaches
(`visit_ok`), so a resolved order lists exactly what the producer of the target reaches, the
producer last (`orderFor_ok`). A search that fails has met a descriptor with a consumed name
nobody produces, or a cycle (`orderFor_error`), and the error names it. Either way it has
met a descriptor that no order can contain (`Registry.Barred`).
-/

namespace FactEngine

namespace Registry

variable {r : Registry} {isDone : String → Bool}

/-- To depend on a descriptor is to consume a name whose producer it is. -/
theorem mem_dependencies {i j : Nat} :
    j ∈ r.dependencies i ↔
      j < r.size ∧ ∃ n ∈ (r.descriptor i).consumes, r.producerIndex? n = some j := by
  simp only [dependencies, producers, List.mem_filter, List.mem_range, decide_eq_true_eq,
    List.mem_filterMap]

theorem WellFormed.mem_dependencies (hr : r.WellFormed) {i j : Nat} :
    j ∈ r.dependencies i ↔ ∃ n ∈ (r.descriptor i).consumes, r.producerIndex? n = some j := by
  rw [Registry.mem_dependencies]
  exact and_iff_right_of_imp fun ⟨_, _, hj⟩ => hr.lt_size_of_producerIndex? hj

/-- The descriptor at `i` consumes an output of the one at `j`. -/
def ConsumesFrom (r : Registry) (i j : Nat) : Prop :=
  ∃ n ∈ (r.descriptor i).consumes, n ∈ (r.descriptor j).outputs

theorem ConsumesFrom.lt_size {i j : Nat} (h : r.ConsumesFrom i j) : i < r.size ∧ j < r.size := by
  obtain ⟨n, hi, hj⟩ := h
  exact ⟨lt_size_of_mem_consumes hi, lt_size_of_mem_outputs hj⟩

/-- Dependencies are what is consumed from. -/
theorem WellFormed.mem_dependencies_iff (hr : r.WellFormed) {i j : Nat} :
    j ∈ r.dependencies i ↔ r.ConsumesFrom i j := by
  simp only [hr.mem_dependencies, hr.producerIndex?_eq_some_iff, ConsumesFrom]

theorem missing?_eq_none_iff {i : Nat} :
    r.missing? i = none ↔ ∀ n ∈ (r.descriptor i).consumes, ∃ j, r.producerIndex? n = some j := by
  simp only [missing?, List.find?_eq_none, Option.isNone_iff_eq_none, Option.ne_none_iff_exists']

theorem missing?_eq_some {i : Nat} {n : String} (h : r.missing? i = some n) :
    n ∈ (r.descriptor i).consumes ∧ r.producerIndex? n = none :=
  ⟨List.mem_of_find?_eq_some h, by simpa using List.find?_some h⟩

/-! ## Orders -/

/-- One step of the search, to a dependency that is not done. -/
def Needs (r : Registry) (isDone : String → Bool) (i j : Nat) : Prop :=
  j ∈ r.dependencies i ∧ r.outputsDone isDone j = false

/-- A number of steps of the search. -/
abbrev Reaches (r : Registry) (isDone : String → Bool) : Nat → Nat → Prop :=
  Relation.ReflTransGen (r.Needs isDone)

/-- The descriptor at a place consumes a name without a producer, or needs itself, directly or
through others. -/
def Barred (r : Registry) (isDone : String → Bool) (i : Nat) : Prop :=
  (∃ n ∈ (r.descriptor i).consumes, r.producerIndex? n = none) ∨
    Relation.TransGen (r.Needs isDone) i i

/-- A list in which nothing depends on itself or on something later. -/
structure Forward (dependencies : Nat → List Nat) (l : List Nat) : Prop where
  pairwise : l.Pairwise fun i j => j ∉ dependencies i
  irrefl : ∀ i ∈ l, i ∉ dependencies i

/-- An order in which every descriptor finds what it depends on done or placed before it. -/
structure Ordered (r : Registry) (isDone : String → Bool) (order : List Nat) : Prop where
  nodup : order.Nodup
  pending : ∀ i ∈ order, r.outputsDone isDone i = false
  complete : ∀ i ∈ order, r.missing? i = none
  closed : ∀ i ∈ order, ∀ j ∈ r.dependencies i, r.outputsDone isDone j = true ∨ j ∈ order
  forward : Forward r.dependencies order

namespace Ordered

variable {order : List Nat}

theorem nil : r.Ordered isDone [] :=
  ⟨by simp, by simp, by simp, by simp, ⟨by simp, by simp⟩⟩

theorem snoc (h : r.Ordered isDone order) {i : Nat} (hi : i ∉ order)
    (hp : r.outputsDone isDone i = false) (hm : r.missing? i = none)
    (hd : ∀ j ∈ r.dependencies i, r.outputsDone isDone j = true ∨ j ∈ order) :
    r.Ordered isDone (order ++ [i]) := by
  have hself : i ∉ r.dependencies i := by
    intro h
    rcases hd i h with h | h
    · simp [hp] at h
    · exact hi h
  -- A member depends on `i` only if `i` is done or a member, and it is neither.
  have hlater : ∀ k ∈ order, i ∉ r.dependencies k := by
    intro k hk h'
    rcases h.closed k hk i h' with h' | h'
    · simp [hp] at h'
    · exact hi h'
  refine ⟨?_, ?_, ?_, ?_, ?_, ?_⟩
  · refine List.nodup_append.2 ⟨h.nodup, by simp, ?_⟩
    intro k hk j hj
    rw [List.mem_singleton.1 hj]
    exact fun he => hi (he ▸ hk)
  · simpa [or_imp, forall_and] using ⟨h.pending, hp⟩
  · simpa [or_imp, forall_and] using ⟨h.complete, hm⟩
  · intro k hk j hj
    rcases List.mem_append.1 hk with hk | hk
    · exact (h.closed k hk j hj).imp_right (List.mem_append_left _)
    · rw [List.mem_singleton.1 hk] at hj
      exact (hd j hj).imp_right (List.mem_append_left _)
  · exact List.pairwise_append.2 ⟨h.forward.pairwise, by simp, by simpa using hlater⟩
  · simpa [or_imp, forall_and] using ⟨h.forward.irrefl, hself⟩

/-- Dependencies are done or come earlier. -/
theorem earlier (h : r.Ordered isDone order) {pre post : List Nat} {i j : Nat}
    (he : order = pre ++ i :: post) (hj : j ∈ r.dependencies i) :
    r.outputsDone isDone j = true ∨ j ∈ pre := by
  subst he
  rcases h.closed i (by simp) j hj with hd | hm
  · exact Or.inl hd
  · rcases List.mem_append.1 hm with hm | hm
    · exact Or.inr hm
    · rcases List.mem_cons.1 hm with rfl | hm
      · exact (h.forward.irrefl j (by simp) hj).elim
      · have hp := (List.pairwise_append.1 h.forward.pairwise).2.1
        exact ((List.pairwise_cons.1 hp).1 j hm hj).elim

/-- What a descriptor needs has an earlier place in the order. -/
theorem idxOf_lt_of_needs (h : r.Ordered isDone order) {i j : Nat} (hi : i ∈ order)
    (hj : r.Needs isDone i j) : j ∈ order ∧ order.idxOf j < order.idxOf i := by
  obtain ⟨pre, post, hsplit⟩ := List.append_of_mem hi
  rcases h.earlier hsplit hj.1 with hd | hm
  · rw [hj.2] at hd
    cases hd
  · have hnot : i ∉ pre := by
      intro hmem
      have hn := h.nodup
      rw [hsplit, List.nodup_append] at hn
      exact hn.2.2 i hmem i List.mem_cons_self rfl
    subst hsplit
    refine ⟨List.mem_append_left _ hm, ?_⟩
    rw [List.idxOf_append_of_mem hm, List.idxOf_append_of_notMem hnot, List.idxOf_cons_self,
      Nat.add_zero]
    exact List.idxOf_lt_length_of_mem hm

/-- Nothing in the order needs itself, directly or through others. -/
theorem not_needs_self (h : r.Ordered isDone order) {i : Nat} (hi : i ∈ order) :
    ¬Relation.TransGen (r.Needs isDone) i i := by
  have hlt : ∀ {k}, Relation.TransGen (r.Needs isDone) i k →
      k ∈ order ∧ order.idxOf k < order.idxOf i := by
    intro k hk
    induction hk with
    | single hstep => exact h.idxOf_lt_of_needs hi hstep
    | tail _ hstep ih =>
      obtain ⟨hm, hlt⟩ := h.idxOf_lt_of_needs ih.1 hstep
      exact ⟨hm, hlt.trans ih.2⟩
  exact fun hself => Nat.lt_irrefl _ (hlt hself).2

/-- Nothing in the order is barred. -/
theorem not_barred (h : r.Ordered isDone order) {i : Nat} (hi : i ∈ order) :
    ¬r.Barred isDone i := by
  rintro (⟨n, hn, hnone⟩ | hself)
  · obtain ⟨j, hj⟩ := missing?_eq_none_iff.1 (h.complete i hi) n hn
    rw [hnone] at hj
    cases hj
  · exact h.not_needs_self hi hself

/-- An order contains all that its members reach. -/
theorem mem_of_reaches (h : r.Ordered isDone order) {i k : Nat} (hi : i ∈ order)
    (hk : r.Reaches isDone i k) : k ∈ order := by
  induction hk with
  | refl => exact hi
  | tail _ hstep ih =>
    rcases h.closed _ ih _ hstep.1 with hd | hm
    · simp [hstep.2] at hd
    · exact hm

end Ordered

/-! ## The search -/

/-- Extend an order by those of the places that are not done. -/
def visitAll (r : Registry) (isDone : String → Bool) (free path js order : List Nat) :
    Except Error (List Nat) :=
  js.foldlM
    (fun order j => if r.outputsDone isDone j then .ok order else r.visit isDone free path j order)
    order

theorem visit_eq (free path : List Nat) (i : Nat) (order : List Nat) :
    r.visit isDone free path i order =
      if i ∈ order then .ok order
      else if i ∈ free then
        match r.missing? i with
        | some name => .error (.unknownTarget name (some (r.nameOf i)))
        | none =>
          match r.visitAll isDone (free.erase i) (path ++ [i]) (r.dependencies i) order with
          | .error e => .error e
          | .ok order => .ok (order ++ [i])
      else .error (.cyclicDependency (r.cycleThrough path i)) := by
  rw [visit]
  rfl

theorem visitAll_cons (free path : List Nat) (j : Nat) (js order : List Nat) :
    r.visitAll isDone free path (j :: js) order =
      match (if r.outputsDone isDone j then .ok order else r.visit isDone free path j order) with
      | .error e => .error e
      | .ok order => r.visitAll isDone free path js order := by
  rw [visitAll, List.foldlM_cons]
  cases (if r.outputsDone isDone j then .ok order else r.visit isDone free path j order :
    Except Error (List Nat)) <;> rfl

/-- What a search from `i` that succeeds makes of an order. -/
structure Visited (r : Registry) (isDone : String → Bool) (free : List Nat) (i : Nat)
    (order order' : List Nat) : Prop where
  ordered : r.Ordered isDone order'
  grows : order ⊆ order'
  mem : i ∈ order'
  new : ∀ k ∈ order', k ∈ order ∨ k ∈ free ∧ r.Reaches isDone i k
  last : i ∈ order ∨ order'.getLast? = some i

/-- What searches from several places that succeed make of an order. -/
structure VisitedAll (r : Registry) (isDone : String → Bool) (free js : List Nat)
    (order order' : List Nat) : Prop where
  ordered : r.Ordered isDone order'
  grows : order ⊆ order'
  mem : ∀ j ∈ js, r.outputsDone isDone j = true ∨ j ∈ order'
  new : ∀ k ∈ order', k ∈ order ∨
    k ∈ free ∧ ∃ j ∈ js, r.outputsDone isDone j = false ∧ r.Reaches isDone j k

theorem visitAll_ok {free path js order order' : List Nat}
    (visit_ok : ∀ {j order order'}, r.outputsDone isDone j = false → r.Ordered isDone order →
      r.visit isDone free path j order = .ok order' → r.Visited isDone free j order order')
    (ho : r.Ordered isDone order) (h : r.visitAll isDone free path js order = .ok order') :
    r.VisitedAll isDone free js order order' := by
  induction js generalizing order with
  | nil =>
    obtain rfl := Except.ok.inj h
    exact ⟨ho, fun _ hk => hk, by simp, fun k hk => Or.inl hk⟩
  | cons j js ih =>
    rw [visitAll_cons] at h
    cases hd : r.outputsDone isDone j with
    | true =>
      rw [if_pos hd] at h
      have hv := ih ho h
      refine ⟨hv.ordered, hv.grows, List.forall_mem_cons.2 ⟨Or.inl hd, hv.mem⟩, fun k hk => ?_⟩
      refine (hv.new k hk).imp_right fun ⟨hf, l, hl, hr⟩ => ⟨hf, l, List.mem_cons_of_mem _ hl, hr⟩
    | false =>
      rw [if_neg (by simp [hd])] at h
      cases hj : r.visit isDone free path j order with
      | error e => rw [hj] at h; cases h
      | ok between =>
        rw [hj] at h
        have hv := visit_ok hd ho hj
        have hvs := ih hv.ordered h
        refine ⟨hvs.ordered, fun k hk => hvs.grows (hv.grows hk),
          List.forall_mem_cons.2 ⟨Or.inr (hvs.grows hv.mem), hvs.mem⟩, fun k hk => ?_⟩
        rcases hvs.new k hk with hk | ⟨hf, l, hl, hr⟩
        · exact (hv.new k hk).imp_right fun ⟨hf, hr⟩ => ⟨hf, j, List.mem_cons_self, hd, hr⟩
        · exact Or.inr ⟨hf, l, List.mem_cons_of_mem _ hl, hr⟩

theorem visit_ok {free path order order' : List Nat} {i : Nat} (hn : free.Nodup)
    (hp : r.outputsDone isDone i = false) (ho : r.Ordered isDone order)
    (h : r.visit isDone free path i order = .ok order') :
    r.Visited isDone free i order order' := by
  induction hl : free.length using Nat.strong_induction_on
    generalizing free path i order order' with
  | _ n ih =>
    subst hl
    rw [visit_eq] at h
    split at h
    · rename_i hi
      obtain rfl := Except.ok.inj h
      exact ⟨ho, fun _ hk => hk, hi, fun k hk => Or.inl hk, Or.inl hi⟩
    · rename_i hi
      split at h
      · rename_i hf
        split at h
        · cases h
        · rename_i hm
          split at h
          · cases h
          · rename_i middle hall
            obtain rfl := Except.ok.inj h
            have hlt : (free.erase i).length < free.length := by
              have := List.length_erase_of_mem hf
              have := List.length_pos_of_mem hf
              omega
            have hv := visitAll_ok (fun hpj hoj hj => ih _ hlt (hn.erase i) hpj hoj hj rfl) ho hall
            -- The searches below do not list `i`, which is not free for them.
            have hnew : i ∉ middle := by
              intro him
              rcases hv.new i him with h' | ⟨h', -⟩
              · exact hi h'
              · exact hn.not_mem_erase h'
            refine ⟨hv.ordered.snoc hnew hp hm hv.mem, ?_, by simp, ?_, by simp⟩
            · exact fun k hk => List.mem_append_left _ (hv.grows hk)
            · intro k hk
              rcases List.mem_append.1 hk with hk | hk
              · rcases hv.new k hk with hk | ⟨hkf, j, hj, hjp, hr⟩
                · exact Or.inl hk
                · exact Or.inr ⟨List.mem_of_mem_erase hkf, .head ⟨hj, hjp⟩ hr⟩
              · rw [List.mem_singleton.1 hk]
                exact Or.inr ⟨hf, .refl⟩
      · cases h

/-! ## Refusals -/

/-- A closed walk of the search, written with its first place again at the end. It meets no other
place twice. -/
structure IsCycle (r : Registry) (isDone : String → Bool) (cycle : List Nat) : Prop where
  chain : cycle.IsChain (r.Needs isDone)
  closed : ∃ i l, cycle = i :: l ++ [i]
  simple : cycle.dropLast.Nodup

/-- The first descriptor of a cycle needs itself. -/
theorem IsCycle.exists_needs_self {cycle : List Nat} (h : r.IsCycle isDone cycle) :
    ∃ i ∈ cycle, Relation.TransGen (r.Needs isDone) i i := by
  obtain ⟨i, l, rfl⟩ := h.closed
  refine ⟨i, by simp, ?_⟩
  have hchain : (i :: (l ++ [i])).IsChain (Relation.TransGen (r.Needs isDone)) :=
    h.chain.imp fun _ _ hstep => .single hstep
  have hpairwise := List.isChain_iff_pairwise.1 hchain
  exact (List.pairwise_cons.1 hpairwise).1 i (by simp)

/-- What a search from `root` can fail with. -/
inductive Refused (r : Registry) (isDone : String → Bool) (root : Nat) : Error → Prop
  | missing {i : Nat} {n : String} (reached : r.Reaches isDone root i)
      (consumed : n ∈ (r.descriptor i).consumes) (unknown : r.producerIndex? n = none) :
      Refused r isDone root (.unknownTarget n (some (r.nameOf i)))
  | cyclic {cycle : List Nat} (walk : r.IsCycle isDone cycle)
      (reached : ∀ i ∈ cycle, r.Reaches isDone root i) :
      Refused r isDone root (.cyclicDependency (cycle.map r.nameOf))

/-- A search that fails has met something barred. -/
theorem Refused.exists_barred {root : Nat} {e : Error} (h : r.Refused isDone root e) :
    ∃ i, r.Reaches isDone root i ∧ r.Barred isDone i := by
  cases h with
  | missing reached consumed unknown => exact ⟨_, reached, Or.inl ⟨_, consumed, unknown⟩⟩
  | cyclic walk reached =>
    obtain ⟨i, hi, hself⟩ := walk.exists_needs_self
    exact ⟨i, reached i hi, Or.inr hself⟩

/-- The path of a search from `root` to `i`. What is not on it is free, and nothing else is. -/
structure IsPath (r : Registry) (isDone : String → Bool) (free : List Nat) (root : Nat)
    (path : List Nat) (i : Nat) : Prop where
  nodup : free.Nodup
  bound : i < r.size
  free_or_mem : ∀ k < r.size, k ∈ free ∨ k ∈ path
  not_free : ∀ k ∈ path, k ∉ free
  simple : path.Nodup
  chain : (path ++ [i]).IsChain (r.Needs isDone)
  reached : ∀ k ∈ path ++ [i], r.Reaches isDone root k

theorem IsPath.step {free path : List Nat} {root i j : Nat}
    (h : r.IsPath isDone free root path i) (hi : i ∈ free) (hj : r.Needs isDone i j) :
    r.IsPath isDone (free.erase i) root (path ++ [i]) j := by
  have hsimple : (path ++ [i]).Nodup := by
    simpa using h.simple.concat fun hmem => h.not_free i hmem hi
  refine ⟨h.nodup.erase i, (mem_dependencies.1 hj.1).1, ?_, ?_, hsimple, ?_, ?_⟩
  · intro k hk
    by_cases hki : k = i
    · exact Or.inr (by simp [hki])
    · refine (h.free_or_mem k hk).imp (fun hf => ?_) (List.mem_append_left _)
      exact (List.mem_erase_of_ne hki).2 hf
  · intro k hk hf
    rcases List.mem_append.1 hk with hk | hk
    · exact h.not_free k hk (List.mem_of_mem_erase hf)
    · rw [List.mem_singleton.1 hk] at hf
      exact h.nodup.not_mem_erase hf
  · refine List.isChain_append.2 ⟨h.chain, by simp, ?_⟩
    simpa using hj
  · intro k hk
    rcases List.mem_append.1 hk with hk | hk
    · exact h.reached k hk
    · rw [List.mem_singleton.1 hk]
      exact (h.reached i (by simp)).tail hj

/-- Coming back to a place of the path closes a cycle. -/
theorem IsPath.refused {free path : List Nat} {root i : Nat}
    (h : r.IsPath isDone free root path i) (hf : i ∉ free) :
    r.Refused isDone root (.cyclicDependency (r.cycleThrough path i)) := by
  have hi : i ∈ path := (h.free_or_mem i h.bound).resolve_left hf
  have hsuffix : path.dropWhile (· ≠ i) ++ [i] <:+ path ++ [i] := by
    obtain ⟨pre, hpre⟩ := List.dropWhile_suffix (l := path) (fun k => decide (k ≠ i))
    exact ⟨pre, by rw [← List.append_assoc, hpre]⟩
  have hsimple : (path.dropWhile (· ≠ i)).Nodup := h.simple.sublist (List.dropWhile_sublist _)
  refine .cyclic ⟨h.chain.suffix hsuffix, ?_, by rwa [List.dropLast_concat]⟩
    fun k hk => h.reached k (hsuffix.subset hk)
  cases hd : path.dropWhile (· ≠ i) with
  | nil => simpa using List.dropWhile_eq_nil_iff.1 hd i hi
  | cons k l =>
    have hk := List.head?_dropWhile_not (fun k => decide (k ≠ i)) path
    rw [hd] at hk
    obtain rfl : k = i := by simpa using hk
    exact ⟨k, l, rfl⟩

theorem visitAll_error {free path js order : List Nat} {root i : Nat} {e : Error}
    (hn : free.Nodup)
    (visit_error : ∀ {j order}, r.Needs isDone i j → r.Ordered isDone order →
      r.visit isDone free path j order = .error e → r.Refused isDone root e)
    (hjs : js ⊆ r.dependencies i) (ho : r.Ordered isDone order)
    (h : r.visitAll isDone free path js order = .error e) : r.Refused isDone root e := by
  induction js generalizing order with
  | nil => cases h
  | cons j js ih =>
    obtain ⟨hj, hjs⟩ := List.cons_subset.1 hjs
    rw [visitAll_cons] at h
    cases hd : r.outputsDone isDone j with
    | true =>
      rw [if_pos hd] at h
      exact ih hjs ho h
    | false =>
      rw [if_neg (by simp [hd])] at h
      cases hv : r.visit isDone free path j order with
      | error e' =>
        rw [hv] at h
        exact visit_error ⟨hj, hd⟩ ho (hv.trans (congrArg _ (Except.error.inj h)))
      | ok between =>
        rw [hv] at h
        exact ih hjs (visit_ok hn hd ho hv).ordered h

theorem visit_error {free path order : List Nat} {root i : Nat} {e : Error}
    (hp : r.IsPath isDone free root path i) (ho : r.Ordered isDone order)
    (h : r.visit isDone free path i order = .error e) : r.Refused isDone root e := by
  induction hl : free.length using Nat.strong_induction_on generalizing free path i order with
  | _ n ih =>
    subst hl
    rw [visit_eq] at h
    split at h
    · cases h
    · split at h
      · rename_i hf
        split at h
        · rename_i hm
          obtain rfl := Except.error.inj h
          obtain ⟨hc, hu⟩ := missing?_eq_some hm
          exact .missing (hp.reached i (by simp)) hc hu
        · split at h
          · rename_i hall
            obtain rfl := Except.error.inj h
            have hlt : (free.erase i).length < free.length := by
              have := List.length_erase_of_mem hf
              have := List.length_pos_of_mem hf
              omega
            exact visitAll_error (hp.nodup.erase i)
              (fun hj hoj hv => ih _ hlt (hp.step hf hj) hoj hv rfl) (List.Subset.refl _) ho hall
          · cases h
      · rename_i hf
        obtain rfl := Except.error.inj h
        exact hp.refused hf

/-! ## Resolved orders -/

/-- A resolved order lists what the producer of the target reaches, the producer last. -/
theorem orderFor_ok {target : String} {order : List Nat}
    (h : r.orderFor target isDone = .ok order) :
    ∃ i, r.producerIndex? target = some i ∧ r.Ordered isDone order ∧
      (r.outputsDone isDone i = true ∧ order = [] ∨
        r.outputsDone isDone i = false ∧ (∀ k, k ∈ order ↔ r.Reaches isDone i k) ∧
          order.getLast? = some i) := by
  unfold orderFor at h
  split at h
  · cases h
  · rename_i i hi
    refine ⟨i, hi, ?_⟩
    split at h
    · rename_i hd
      obtain rfl := Except.ok.inj h
      exact ⟨.nil, Or.inl ⟨hd, rfl⟩⟩
    · rename_i hd
      replace hd := Bool.eq_false_iff.2 hd
      have hv := visit_ok List.nodup_range hd .nil h
      refine ⟨hv.ordered, Or.inr ⟨hd, fun k => ⟨fun hk => ?_, ?_⟩, ?_⟩⟩
      · exact ((hv.new k hk).resolve_left (by simp)).2
      · exact hv.ordered.mem_of_reaches hv.mem
      · exact hv.last.resolve_left (by simp)

theorem mem_orderFor_iff {target : String} {order : List Nat}
    (h : r.orderFor target isDone = .ok order) {k : Nat} :
    k ∈ order ↔ ∃ i, r.producerIndex? target = some i ∧ r.outputsDone isDone i = false ∧
      r.Reaches isDone i k := by
  obtain ⟨i, hi, -, ⟨hd, rfl⟩ | ⟨hd, hreach, -⟩⟩ := orderFor_ok h
  · simp [hi, hd]
  · simp [hi, hd, hreach]

/-- Resolution fails for an unknown target, or because of what the search meets. -/
theorem orderFor_error (hr : r.WellFormed) {target : String} {e : Error}
    (h : r.orderFor target isDone = .error e) :
    (r.producerIndex? target = none ∧ e = .unknownTarget target none) ∨
      ∃ i, r.producerIndex? target = some i ∧ r.outputsDone isDone i = false ∧
        r.Refused isDone i e := by
  unfold orderFor at h
  split at h
  · rename_i hi
    exact Or.inl ⟨hi, (Except.error.inj h).symm⟩
  · rename_i i hi
    refine Or.inr ⟨i, hi, ?_⟩
    split at h
    · cases h
    · rename_i hd
      have hpath : r.IsPath isDone (List.range r.size) i [] i := by
        have hlt := hr.lt_size_of_producerIndex? hi
        refine ⟨List.nodup_range, hlt, ?_, by simp, by simp, by simp, ?_⟩
        · exact fun k hk => Or.inl (List.mem_range.2 hk)
        · simpa using Relation.ReflTransGen.refl
      exact ⟨Bool.eq_false_iff.2 hd, visit_error hpath .nil h⟩

end Registry

end FactEngine
