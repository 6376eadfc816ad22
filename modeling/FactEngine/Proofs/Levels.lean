import FactEngine.Proofs.Batches
import FactEngine.Proofs.Resolvability
import Mathlib.Data.Fintype.Card
import Mathlib.Data.List.Sort
import Mathlib.Data.Set.Finite.Basic
import Mathlib.Order.Bounds.Basic

/-!
# Batches as levels

What is not listed counts as done, so batches are about dependencies among the listed
descriptors only (`Among`). A descriptor that depends on no other of the list is in the first
batch, and any other comes one batch after the last of those that it depends on
(`Layered.below`, `Layered.next`).

Batching gets stuck on what is left when nothing is ready, and then everything left depends on
something left. A finite list of such descriptors has a cycle, and every descriptor of it leads
to one (`endless_of_forall_exists`). On the other hand what leads to a cycle is never ready, so
exactly the descriptors that lead to cycles are left (`stuck_of_rounds`).
-/

namespace FactEngine

namespace Registry

variable {dependencies : Nat → List Nat} {members pending stuck : List Nat}
  {batches : List (List Nat)} {i j m n : Nat}

/-! ## Cycles in a list -/

/-- The member `i` depends on the member `j`. -/
def Among (dependencies : Nat → List Nat) (members : List Nat) (i j : Nat) : Prop :=
  i ∈ members ∧ j ∈ members ∧ j ∈ dependencies i

/-- Dependencies lead from `i` to a cycle and do not leave the members on the way. -/
def Endless (dependencies : Nat → List Nat) (members : List Nat) (i : Nat) : Prop :=
  ∃ j, Relation.ReflTransGen (Among dependencies members) i j ∧
    Relation.TransGen (Among dependencies members) j j

theorem Among.mono (hsub : pending ⊆ members) :
    Among dependencies pending ≤ Among dependencies members :=
  fun _ _ h => ⟨hsub h.1, hsub h.2.1, h.2.2⟩

theorem Endless.mono (h : Endless dependencies pending i) (hsub : pending ⊆ members) :
    Endless dependencies members i := by
  obtain ⟨j, hij, hj⟩ := h
  exact ⟨j, Relation.ReflTransGen.mono (Among.mono hsub) _ _ hij,
    Relation.TransGen.mono (Among.mono hsub) _ _ hj⟩

theorem Endless.head (hij : Among dependencies members i j) (h : Endless dependencies members j) :
    Endless dependencies members i := by
  obtain ⟨k, hjk, hk⟩ := h
  exact ⟨k, .head hij hjk, hk⟩

/-- What leads to a cycle depends on something that leads to a cycle. -/
theorem Endless.exists_among (h : Endless dependencies members i) :
    ∃ j, Among dependencies members i j ∧ Endless dependencies members j := by
  obtain ⟨k, hik, hk⟩ := h
  rcases hik.cases_head with rfl | ⟨j, hij, hjk⟩
  · obtain ⟨j, hij, hji⟩ := Relation.TransGen.head'_iff.1 hk
    exact ⟨j, hij, i, hji, hk⟩
  · exact ⟨j, hij, k, hjk, hk⟩

/-- If every member depends on a member, every member leads to a cycle. -/
theorem endless_of_forall_exists (h : ∀ i ∈ members, ∃ j, Among dependencies members i j)
    (hi : i ∈ members) : Endless dependencies members i := by
  by_contra hnot
  let Rest := { k // k ∈ members ∧ ¬Endless dependencies members k }
  let onward (a b : Rest) : Prop := Relation.TransGen (Among dependencies members) b a
  have : Finite Rest := members.finite_toSet.subset fun k hk => hk.1
  have : IsTrans Rest onward := ⟨fun a b c hab hbc => hbc.trans hab⟩
  have : Std.Irrefl onward := ⟨fun a ha => a.2.2 ⟨a, .refl, ha⟩⟩
  have hwf : WellFounded onward := Finite.wellFounded_of_trans_of_irrefl onward
  -- From a member that leads to no cycle dependencies lead on to another one.
  refine hwf.induction (C := fun _ => False) ⟨i, hi, hnot⟩ fun a ih => ?_
  obtain ⟨j, hj⟩ := h a a.2.1
  exact ih ⟨j, hj.2.1, fun he => a.2.2 (.head hj he)⟩ (.single hj)

/-! ## What is ready and what remains -/

theorem mem_ready : i ∈ ready dependencies pending ↔
    i ∈ pending ∧ ∀ j, ¬Among dependencies pending i j := by
  simp only [ready, List.mem_filter, List.all_eq_true, decide_eq_true_eq, Among]
  refine and_congr_right fun hi => ⟨fun h j hij => ?_, fun h j hd hj => h j ⟨hi, hj, hd⟩⟩
  exact h j hij.2.2 hij.2.1

theorem exists_among_of_not_mem_ready (hi : i ∈ pending) (h : i ∉ ready dependencies pending) :
    ∃ j, Among dependencies pending i j := by
  simpa [mem_ready, hi] using h

theorem mem_remaining {batch : List Nat} :
    i ∈ remaining batch pending ↔ i ∈ pending ∧ i ∉ batch := by
  simp [remaining]

/-- What leads to a cycle is never ready, and leads to a cycle of what remains. -/
theorem Endless.remaining (h : Endless dependencies pending i) :
    Endless dependencies (remaining (ready dependencies pending) pending) i := by
  classical
  let endless := pending.filter fun k => Endless dependencies pending k
  have hmem : ∀ {k}, Endless dependencies pending k → k ∈ endless := by
    intro k hk
    obtain ⟨l, hkl, -⟩ := hk.exists_among
    exact List.mem_filter.2 ⟨hkl.1, decide_eq_true hk⟩
  have hloops : ∀ {k}, k ∈ endless → ∃ l, Among dependencies endless k l := by
    intro k hk
    obtain ⟨l, hkl, hl⟩ := (of_decide_eq_true (List.mem_filter.1 hk).2).exists_among
    exact ⟨l, hk, hmem hl, hkl.2.2⟩
  have hremains : endless ⊆ Registry.remaining (ready dependencies pending) pending := by
    intro k hk
    obtain ⟨hpending, hendless⟩ := List.mem_filter.1 hk
    obtain ⟨l, hkl, -⟩ := (of_decide_eq_true hendless).exists_among
    exact mem_remaining.2 ⟨hpending, fun hready => (mem_ready.1 hready).2 l hkl⟩
  exact (endless_of_forall_exists (fun k hk => hloops hk) (hmem h)).mono hremains

/-! ## Rounds -/

/-- The descriptor at `i` is in the batch of the given number. -/
def InBatch (batches : List (List Nat)) (n i : Nat) : Prop :=
  ∃ batch, batches[n]? = some batch ∧ i ∈ batch

@[simp] theorem inBatch_zero {batch : List Nat} : InBatch (batch :: batches) 0 i ↔ i ∈ batch := by
  simp [InBatch]

@[simp] theorem inBatch_succ {batch : List Nat} :
    InBatch (batch :: batches) (n + 1) i ↔ InBatch batches n i := by
  simp [InBatch]

theorem mem_flatten_iff : i ∈ batches.flatten ↔ ∃ n, InBatch batches n i := by
  rw [List.mem_flatten]
  constructor
  · rintro ⟨batch, hbatch, hi⟩
    obtain ⟨n, hn⟩ := List.mem_iff_getElem?.1 hbatch
    exact ⟨n, batch, hn, hi⟩
  · rintro ⟨n, batch, hn, hi⟩
    exact ⟨batch, List.mem_of_getElem? hn, hi⟩

/-- Batches without repetition have no descriptor in common. -/
theorem inBatch_unique (hn : batches.flatten.Nodup) (h : InBatch batches n i)
    (h' : InBatch batches m i) : n = m := by
  induction batches generalizing n m with
  | nil => simp [InBatch] at h
  | cons batch batches ih =>
    obtain ⟨-, hrest, hdisjoint⟩ := List.nodup_append.1 (List.flatten_cons ▸ hn)
    have hapart : ∀ {k}, i ∈ batch → ¬InBatch batches k i := fun hi hk =>
      hdisjoint i hi i (mem_flatten_iff.2 ⟨_, hk⟩) rfl
    cases n with
    | zero =>
      cases m with
      | zero => rfl
      | succ m => exact (hapart (inBatch_zero.1 h) (inBatch_succ.1 h')).elim
    | succ n =>
      cases m with
      | zero => exact (hapart (inBatch_zero.1 h') (inBatch_succ.1 h)).elim
      | succ m => rw [ih hrest (inBatch_succ.1 h) (inBatch_succ.1 h')]

/-- The batches are the levels of the members. -/
structure Layered (dependencies : Nat → List Nat) (members : List Nat)
    (batches : List (List Nat)) : Prop where
  perm : batches.flatten.Perm members
  nonempty : ∀ batch ∈ batches, batch ≠ []
  sorted : ∀ batch ∈ batches, batch.Pairwise (· ≤ ·)
  below : ∀ {n i j}, InBatch batches n i → Among dependencies members i j →
    ∃ m < n, InBatch batches m j
  next : ∀ {n i}, InBatch batches (n + 1) i →
    ∃ j, Among dependencies members i j ∧ InBatch batches n j

/-- What is ready is a level below the levels of what remains. -/
theorem Layered.cons
    (h : Layered dependencies (remaining (ready dependencies pending) pending) batches)
    (hready : ready dependencies pending ≠ []) : Layered dependencies pending
      ((ready dependencies pending).mergeSort (· ≤ ·) :: batches) := by
  have hsort := List.mergeSort_perm (ready dependencies pending) (· ≤ ·)
  have hremains : ∀ {n i}, InBatch batches n i →
      i ∈ remaining (ready dependencies pending) pending :=
    fun hi => h.perm.subset (mem_flatten_iff.2 ⟨_, hi⟩)
  refine ⟨?_, ?_, ?_, ?_, ?_⟩
  · rw [List.flatten_cons]
    exact (hsort.append h.perm).trans (perm_ready_remaining dependencies pending)
  · exact List.forall_mem_cons.2 ⟨fun he => hready (by simpa [he] using hsort.symm), h.nonempty⟩
  · exact List.forall_mem_cons.2 ⟨List.pairwise_mergeSort' (· ≤ ·) _, h.sorted⟩
  · intro n i j hi hij
    cases n with
    | zero => exact ((mem_ready.1 (hsort.subset (inBatch_zero.1 hi))).2 j hij).elim
    | succ n =>
      rw [inBatch_succ] at hi
      by_cases hj : j ∈ ready dependencies pending
      · exact ⟨0, n.succ_pos, inBatch_zero.2 (hsort.mem_iff.2 hj)⟩
      · obtain ⟨m, hm, hjm⟩ := h.below hi ⟨hremains hi, mem_remaining.2 ⟨hij.2.1, hj⟩, hij.2.2⟩
        exact ⟨m + 1, Nat.succ_lt_succ hm, inBatch_succ.2 hjm⟩
  · intro n i hi
    rw [inBatch_succ] at hi
    have hsub := (remaining_sublist (ready dependencies pending) pending).subset
    cases n with
    | zero =>
      -- It was not ready, and all that it depends on is below.
      obtain ⟨hpending, hnot⟩ := mem_remaining.1 (hremains hi)
      obtain ⟨j, hij⟩ := exists_among_of_not_mem_ready hpending hnot
      refine ⟨j, hij, inBatch_zero.2 (hsort.mem_iff.2 (by_contra fun hj => ?_))⟩
      obtain ⟨m, hm, -⟩ := h.below hi ⟨hremains hi, mem_remaining.2 ⟨hij.2.1, hj⟩, hij.2.2⟩
      exact Nat.not_lt_zero m hm
    | succ n =>
      obtain ⟨j, hij, hj⟩ := h.next hi
      exact ⟨j, Among.mono hsub _ _ hij, inBatch_succ.2 hj⟩

theorem layered_of_rounds (h : rounds dependencies pending = .ok batches) :
    Layered dependencies pending batches := by
  refine rounds_induction (motive := fun pending answer => ∀ batches, answer = .ok batches →
    Layered dependencies pending batches) ?done ?stuck ?round pending batches h
  case done =>
    rintro batches ⟨⟩
    exact ⟨.refl _, by simp, by simp, by simp [InBatch], by simp [InBatch]⟩
  case stuck =>
    rintro pending - - batches ⟨⟩
  case round =>
    intro pending answer hready ih batches h
    cases answer with
    | error stuck => cases h
    | ok rest =>
      obtain rfl := Except.ok.inj h
      exact (ih rest rfl).cons hready

/-- When the rounds get stuck, what is left is what leads to a cycle. -/
theorem stuck_of_rounds (h : rounds dependencies pending = .error stuck) :
    stuck ≠ [] ∧ stuck.Sublist pending ∧ ∀ i, i ∈ stuck ↔ Endless dependencies pending i := by
  refine rounds_induction (motive := fun pending answer => ∀ stuck, answer = .error stuck →
    stuck ≠ [] ∧ stuck.Sublist pending ∧ ∀ i, i ∈ stuck ↔ Endless dependencies pending i)
    ?done ?stuck ?round pending stuck h
  case done =>
    rintro stuck ⟨⟩
  case stuck =>
    rintro pending hne hready stuck ⟨⟩
    refine ⟨hne, .refl _, fun i => ⟨endless_of_forall_exists fun k hk => ?_, fun hi => ?_⟩⟩
    · exact exists_among_of_not_mem_ready hk (hready ▸ List.not_mem_nil)
    · obtain ⟨j, hij, -⟩ := hi.exists_among
      exact hij.1
  case round =>
    intro pending answer _ ih stuck h
    cases answer with
    | ok rest => cases h
    | error stuck' =>
      obtain rfl := Except.error.inj h
      obtain ⟨hnil, hsub, hmem⟩ := ih stuck' rfl
      have hremaining := remaining_sublist (ready dependencies pending) pending
      refine ⟨hnil, hsub.trans hremaining, fun i => (hmem i).trans ⟨fun hi => ?_, ?_⟩⟩
      · exact hi.mono hremaining.subset
      · exact Endless.remaining

/-- In batches nothing leads back to itself. -/
theorem Layered.acyclic (h : Layered dependencies members batches) (i : Nat) :
    ¬Relation.TransGen (Among dependencies members) i i := by
  have hdown : ∀ {n j k}, InBatch batches n j → Relation.TransGen (Among dependencies members) j k →
      ∃ m < n, InBatch batches m k := by
    intro n j k hj hjk
    induction hjk with
    | single hstep => exact h.below hj hstep
    | tail _ hstep ih =>
      obtain ⟨m, hm, hk⟩ := ih
      obtain ⟨l, hl, hk'⟩ := h.below hk hstep
      exact ⟨l, hl.trans hm, hk'⟩
  intro hself
  have hnever : ∀ n, ¬InBatch batches n i := by
    intro n
    induction n using Nat.strong_induction_on with
    | _ n ih =>
      intro hn
      obtain ⟨m, hm, hi⟩ := hdown hn hself
      exact ih m hm hi
  obtain ⟨j, hij, -⟩ := Relation.TransGen.head'_iff.1 hself
  obtain ⟨n, hn⟩ := mem_flatten_iff.1 (h.perm.mem_iff.2 hij.1)
  exact hnever n hn

theorem exists_rounds_iff : (∃ batches, rounds dependencies pending = .ok batches) ↔
    ∀ i, ¬Relation.TransGen (Among dependencies pending) i i := by
  constructor
  · rintro ⟨batches, h⟩
    exact (layered_of_rounds h).acyclic
  · intro hacyclic
    cases h : rounds dependencies pending with
    | ok batches => exact ⟨batches, rfl⟩
    | error stuck =>
      obtain ⟨hnil, -, hmem⟩ := stuck_of_rounds h
      obtain ⟨i, hi⟩ := List.exists_mem_of_ne_nil _ hnil
      obtain ⟨j, -, hj⟩ := (hmem i).1 hi
      exact (hacyclic j hj).elim

/-! ## Registries -/

variable {r : Registry} {order : List Nat} {isDone : String → Bool}

/-- The listed descriptor at `i` consumes an output of the one at `j`, which is listed as well. -/
def ConsumesAmong (r : Registry) (order : List Nat) (i j : Nat) : Prop :=
  i ∈ order ∧ j ∈ order ∧ r.ConsumesFrom i j

/-- What a listed descriptor depends on, as batching looks it up. -/
def listedDependencies (r : Registry) (order : List Nat) (i : Nat) : List Nat :=
  ((r.dependencyTable order).lookup i).getD []

theorem WellFormed.among_listedDependencies (hr : r.WellFormed) (order : List Nat) :
    Among (r.listedDependencies order) order = r.ConsumesAmong order := by
  funext i j
  refine propext (and_congr_right fun hi => and_congr_right fun _ => ?_)
  rw [listedDependencies, lookup_dependencyTable hi, Option.getD_some, hr.mem_dependencies_iff]

theorem batches_eq (hn : order.Nodup) : r.batches order =
    (rounds (r.listedDependencies order) order).mapError
      fun stuck => .cyclicDependency (stuck.map r.nameOf) := by
  cases h : rounds (r.listedDependencies order) order with
  | error stuck =>
    unfold listedDependencies at h
    simp only [batches, h]
    rfl
  | ok levels =>
    unfold listedDependencies at h
    simp only [batches, h, if_pos hn]
    rfl

/-- Batches of a list : every listed descriptor is in one batch, its number is one more than the
largest among what it consumes from in the list, and a batch is in the order of registration. -/
structure Leveled (r : Registry) (order : List Nat) (batches : List (List Nat)) : Prop where
  one_batch : ∀ i ∈ order, ∃! n, InBatch batches n i
  listed : ∀ n i, InBatch batches n i → i ∈ order
  nonempty : ∀ batch ∈ batches, batch ≠ []
  registered : ∀ batch ∈ batches, batch.Pairwise (· < ·)
  level : ∀ n i, InBatch batches n i → (n = 0 ∧ ∀ j, ¬r.ConsumesAmong order i j) ∨
    ∃ m, n = m + 1 ∧ IsGreatest {k | ∃ j, r.ConsumesAmong order i j ∧ InBatch batches k j} m

theorem Layered.leveled (h : Layered dependencies order batches) (hn : order.Nodup)
    (hr : Among dependencies order = r.ConsumesAmong order) : r.Leveled order batches := by
  have hnodup : batches.flatten.Nodup := h.perm.nodup_iff.2 hn
  have hlisted : ∀ n i, InBatch batches n i → i ∈ order :=
    fun n i hi => h.perm.mem_iff.1 (mem_flatten_iff.2 ⟨n, hi⟩)
  refine ⟨fun i hi => ?_, hlisted, h.nonempty, fun batch hbatch => ?_, fun n i hi => ?_⟩
  · obtain ⟨n, hn⟩ := mem_flatten_iff.1 (h.perm.mem_iff.2 hi)
    exact ⟨n, hn, fun m hm => inBatch_unique hnodup hm hn⟩
  · have hbatch' : batch.Nodup := (List.nodup_flatten.1 hnodup).1 batch hbatch
    exact (h.sorted batch hbatch).imp₂ (fun _ _ hle hne => lt_of_le_of_ne hle hne) hbatch'
  · rw [← hr]
    cases n with
    | zero =>
      refine Or.inl ⟨rfl, fun j hij => ?_⟩
      obtain ⟨m, hm, -⟩ := h.below hi hij
      exact Nat.not_lt_zero m hm
    | succ n =>
      refine Or.inr ⟨n, rfl, h.next hi, fun k hk => ?_⟩
      obtain ⟨j, hij, hj⟩ := hk
      obtain ⟨m, hm, hj'⟩ := h.below hi hij
      rw [inBatch_unique hnodup hj hj']
      exact Nat.le_of_lt_succ hm

/-- A list without repetition has batches exactly if no cycle of consumption lies inside it, and
then they are its levels. Otherwise the error lists, in the order of the list, the descriptors
from which consumption leads to a cycle inside it, where what is not listed counts as done and no
way leads through it. Whatever resolution answers has batches. -/
theorem batches_are_levels (ds : List Draft) (order : List Nat) (hn : order.Nodup) :
    let r := ofDrafts ds
    let feeds := r.ConsumesAmong order
    ((∃ batches, r.batches order = .ok batches) ↔ ∀ i, ¬Relation.TransGen feeds i i) ∧
    (∀ batches, r.batches order = .ok batches → r.Leveled order batches) ∧
    (∀ e, r.batches order = .error e → ∃ stuck : List Nat, stuck.Sublist order ∧
      e = .cyclicDependency (stuck.map r.nameOf) ∧
      ∀ i, i ∈ stuck ↔ i ∈ order ∧
        ∃ j, Relation.ReflTransGen feeds i j ∧ Relation.TransGen feeds j j) ∧
    ∀ isDone target resolved, r.orderFor target isDone = .ok resolved →
      resolved.Nodup ∧ ∃ batches, r.batches resolved = .ok batches := by
  intro r feeds
  have hr : r.WellFormed := wellFormed_ofDrafts ds
  have hamong := hr.among_listedDependencies order
  refine ⟨?_, fun batches h => ?_, fun e h => ?_, fun isDone target resolved h => ?_⟩
  · change _ ↔ ∀ i, ¬Relation.TransGen (r.ConsumesAmong order) i i
    rw [← hamong, ← exists_rounds_iff, batches_eq hn]
    cases rounds (r.listedDependencies order) order <;> simp [Except.mapError]
  · rw [batches_eq hn] at h
    cases hrounds : rounds (r.listedDependencies order) order with
    | error stuck =>
      rw [hrounds] at h
      cases h
    | ok levels =>
      rw [hrounds] at h
      obtain rfl := Except.ok.inj h
      exact (layered_of_rounds hrounds).leveled hn hamong
  · rw [batches_eq hn] at h
    cases hrounds : rounds (r.listedDependencies order) order with
    | ok levels =>
      rw [hrounds] at h
      cases h
    | error stuck =>
      rw [hrounds] at h
      obtain ⟨-, hsub, hmem⟩ := stuck_of_rounds hrounds
      have hendless : ∀ i, i ∈ stuck ↔
          ∃ j, Relation.ReflTransGen feeds i j ∧ Relation.TransGen feeds j j := by
        intro i
        rw [hmem, Endless, hamong]
      exact ⟨stuck, hsub, (Except.error.inj h).symm, fun i =>
        ⟨fun hi => ⟨hsub.subset hi, (hendless i).1 hi⟩, fun hi => (hendless i).2 hi.2⟩⟩
  · obtain ⟨-, -, hordered, -⟩ := orderFor_ok h
    obtain ⟨batches, hok, -⟩ := batches_ok hordered
    exact ⟨hordered.nodup, batches, hok⟩

/-- With the pages taken as done, the words and the notes are batched first. -/
theorem levels_of_book : [4, 2, 3, 1].Nodup ∧
    (ofDrafts bookIndex).batches [4, 2, 3, 1] = .ok [[1, 3], [2], [4]] ∧
    (ofDrafts bookIndex).Leveled [4, 2, 3, 1] [[1, 3], [2], [4]] := by
  have hn : [4, 2, 3, 1].Nodup := by decide
  have hdeps : [4, 2, 3, 1].map ((ofDrafts bookIndex).listedDependencies [4, 2, 3, 1]) =
      [[1, 2], [0, 1], [], [0]] := by
    decide +kernel
  have hbatches : (ofDrafts bookIndex).batches [4, 2, 3, 1] = .ok [[1, 3], [2], [4]] := by
    rw [batches_eq hn]
    simp only [List.map_cons, List.cons.injEq, List.map_nil] at hdeps
    simp [rounds_eq, ready, remaining, hdeps, Except.map, Except.mapError, List.mergeSort,
      List.MergeSort.Internal.splitInTwo]
  exact ⟨hn, hbatches, (batches_are_levels bookIndex [4, 2, 3, 1] hn).2.1 _ hbatches⟩

/-- Only consumption inside the list counts : the way from `a` to the cycle leaves it. -/
example : (ofDrafts [⟨"a", [⟨"a", .domain .text⟩], ["b"], .finish⟩,
    ⟨"b", [⟨"b", .domain .text⟩], ["c"], .finish⟩,
    ⟨"c", [⟨"c", .domain .text⟩], ["c"], .finish⟩]).batches [0, 2] =
      .error (.cyclicDependency ["c"]) := by
  decide +kernel

end Registry

end FactEngine
