import FactEngine.Proofs.Resolution
import FactEngine.Run.Scheduler

/-!
# Batches of a resolved order

A list in which nothing depends on itself or on something later never gets stuck : the first
of the pending descriptors is always ready. So it is cut into batches (`rounds_ok`), and the
batches one after another are the list in another sequence, again with nothing before what
it depends on. A resolved order therefore has a sequence under either strategy
(`schedule_ok`), and the sequence is ordered as well.
-/

namespace FactEngine

namespace Registry

variable {r : Registry} {isDone : String → Bool}

theorem Forward.sublist {dependencies : Nat → List Nat} {l l' : List Nat}
    (h : Forward dependencies l) (hl : l'.Sublist l) : Forward dependencies l' :=
  ⟨h.pairwise.sublist hl, fun i hi => h.irrefl i (hl.subset hi)⟩

theorem remaining_sublist (batch pending : List Nat) : (remaining batch pending).Sublist pending :=
  List.filter_sublist

/-- The first of the pending descriptors depends on none of them. -/
theorem Forward.head_mem_ready {dependencies : Nat → List Nat} {i : Nat} {l : List Nat}
    (h : Forward dependencies (i :: l)) : i ∈ ready dependencies (i :: l) := by
  refine List.mem_filter.2 ⟨List.mem_cons_self, ?_⟩
  rw [List.all_eq_true]
  intro j hj
  rw [decide_eq_true_eq]
  intro hm
  rcases List.mem_cons.1 hm with rfl | hm
  · exact h.irrefl j List.mem_cons_self hj
  · exact (List.pairwise_cons.1 h.pairwise).1 j hm hj

theorem perm_ready_remaining (dependencies : Nat → List Nat) (pending : List Nat) :
    (ready dependencies pending ++ remaining (ready dependencies pending) pending).Perm
      pending := by
  have hrem : remaining (ready dependencies pending) pending =
      pending.filter fun i => !(dependencies i).all (· ∉ pending) := by
    refine List.filter_congr fun i hi => ?_
    rw [Bool.eq_iff_iff, decide_eq_true_eq, ready, List.mem_filter, Bool.not_eq_true',
      Bool.eq_false_iff]
    simp only [hi, true_and, ne_eq]
  rw [hrem]
  exact List.filter_append_perm _ _

/-- What is ready depends on nothing pending. -/
theorem not_mem_dependencies_of_ready {dependencies : Nat → List Nat} {pending : List Nat}
    {i j : Nat} (hi : i ∈ ready dependencies pending) (hj : j ∈ pending) :
    j ∉ dependencies i := by
  intro hd
  have := List.all_eq_true.1 (List.mem_filter.1 hi).2 j hd
  simp [hj] at this

theorem Forward.append_ready {dependencies : Nat → List Nat} {pending batch rest : List Nat}
    (hb : batch.Perm (ready dependencies pending)) (hr : Forward dependencies rest)
    (hsub : rest ⊆ pending) : Forward dependencies (batch ++ rest) := by
  have hready : ∀ i ∈ batch, ∀ j ∈ pending, j ∉ dependencies i :=
    fun i hi j hj => not_mem_dependencies_of_ready (hb.subset hi) hj
  have hpending : ∀ i ∈ batch, i ∈ pending := fun i hi => (List.mem_filter.1 (hb.subset hi)).1
  refine ⟨List.pairwise_append.2 ⟨?_, hr.pairwise, ?_⟩, fun i hi => ?_⟩
  · exact List.pairwise_of_forall_mem_list fun i hi j hj => hready i hi j (hpending j hj)
  · exact fun i hi j hj => hready i hi j (hsub hj)
  · rcases List.mem_append.1 hi with hi | hi
    · exact hready i hi i (hpending i hi)
    · exact hr.irrefl i hi

/-- One round takes what is ready off the pending descriptors. -/
theorem rounds_eq (dependencies : Nat → List Nat) (pending : List Nat) :
    rounds dependencies pending =
      if pending = [] then .ok []
      else if ready dependencies pending = [] then .error pending
      else (rounds dependencies (remaining (ready dependencies pending) pending)).map
        ((ready dependencies pending).mergeSort (· ≤ ·) :: ·) := by
  rw [rounds]
  split
  · rfl
  · split
    · rename_i hready
      rw [if_pos hready]
    · rename_i i is hready
      rw [if_neg (by simp [hready]), hready]
      cases rounds dependencies (remaining (i :: is) pending) <;> rfl

/-- What holds when nothing is left, when nothing is ready, and after a round if it held of the
rounds behind, holds of the rounds of any list. -/
theorem rounds_induction {dependencies : Nat → List Nat}
    {motive : List Nat → Except (List Nat) (List (List Nat)) → Prop} (done : motive [] (.ok []))
    (stuck : ∀ pending, pending ≠ [] → ready dependencies pending = [] →
      motive pending (.error pending))
    (round : ∀ pending answer, ready dependencies pending ≠ [] →
      motive (remaining (ready dependencies pending) pending) answer →
      motive pending (answer.map ((ready dependencies pending).mergeSort (· ≤ ·) :: ·)))
    (pending : List Nat) : motive pending (rounds dependencies pending) := by
  induction hl : pending.length using Nat.strong_induction_on generalizing pending with
  | _ n ih =>
    subst hl
    rw [rounds_eq]
    split
    · rename_i hnil
      subst hnil
      exact done
    · rename_i hne
      split
      · rename_i hready
        exact stuck pending hne hready
      · rename_i hready
        obtain ⟨i, hi⟩ := List.exists_mem_of_ne_nil _ hready
        have hlt := length_remaining_lt hi (List.mem_filter.1 hi).1
        exact round pending _ hready (ih _ hlt _ rfl)

theorem rounds_ok {dependencies : Nat → List Nat} {pending : List Nat}
    (h : Forward dependencies pending) :
    ∃ batches, rounds dependencies pending = .ok batches ∧ batches.flatten.Perm pending ∧
      Forward dependencies batches.flatten := by
  refine rounds_induction (motive := fun pending answer => Forward dependencies pending →
    ∃ batches, answer = .ok batches ∧ batches.flatten.Perm pending ∧
      Forward dependencies batches.flatten) ?done ?stuck ?round pending h
  case done => exact fun h => ⟨[], rfl, .refl _, h⟩
  case stuck =>
    intro pending hne hready h
    obtain ⟨p, ps, rfl⟩ := List.exists_cons_of_ne_nil hne
    exact (List.ne_nil_of_mem h.head_mem_ready hready).elim
  case round =>
    intro pending answer _ ih h
    have hsub := remaining_sublist (ready dependencies pending) pending
    obtain ⟨batches, rfl, hbatches, hforward⟩ := ih (h.sublist hsub)
    have hsort := List.mergeSort_perm (ready dependencies pending) (· ≤ ·)
    refine ⟨_, rfl, ?_, ?_⟩
    · rw [List.flatten_cons]
      exact (hsort.append hbatches).trans (perm_ready_remaining dependencies pending)
    · rw [List.flatten_cons]
      exact hforward.append_ready hsort fun k hk => hsub.subset (hbatches.subset hk)

theorem lookup_dependencyTable {order : List Nat} {i : Nat} (hi : i ∈ order) :
    (r.dependencyTable order).lookup i = some (r.dependencies i) := by
  induction order with
  | nil => simp at hi
  | cons k order ih =>
    rw [dependencyTable, List.map_cons, List.lookup_cons]
    split
    · rename_i h
      rw [eq_of_beq h]
    · rename_i h
      refine ih ((List.mem_cons.1 hi).resolve_left fun e => ?_)
      simp [e] at h

theorem Forward.congr {f g : Nat → List Nat} {l : List Nat} (h : Forward f l)
    (hfg : ∀ i ∈ l, f i = g i) : Forward g l := by
  refine ⟨h.pairwise.imp_of_mem fun hi _ hij => ?_, fun i hi => ?_⟩
  · rwa [← hfg _ hi]
  · rw [← hfg i hi]
    exact h.irrefl i hi

theorem Ordered.of_perm {order sequence : List Nat} (h : r.Ordered isDone order)
    (hp : sequence.Perm order) (hf : Forward r.dependencies sequence) :
    r.Ordered isDone sequence :=
  ⟨hp.nodup_iff.2 h.nodup, fun i hi => h.pending i (hp.subset hi),
    fun i hi => h.complete i (hp.subset hi),
    fun i hi j hj => (h.closed i (hp.subset hi) j hj).imp_right hp.mem_iff.2, hf⟩

theorem batches_ok {order : List Nat} (h : r.Ordered isDone order) :
    ∃ batches, r.batches order = .ok batches ∧ batches.flatten.Perm order ∧
      r.Ordered isDone batches.flatten := by
  have htable : ∀ i ∈ order,
      ((r.dependencyTable order).lookup i).getD [] = r.dependencies i :=
    fun i hi => by rw [lookup_dependencyTable hi, Option.getD_some]
  obtain ⟨batches, hok, hperm, hforward⟩ :=
    rounds_ok (h.forward.congr fun i hi => (htable i hi).symm)
  refine ⟨batches, ?_, hperm, h.of_perm hperm ?_⟩
  · rw [Registry.batches]
    simp only [hok, if_pos h.nodup]
  · exact hforward.congr fun i hi => htable i (hperm.subset hi)

/-- Every ordered list has a sequence under either strategy, which is ordered as well. -/
theorem schedule_ok (strategy : Strategy) {order : List Nat} (h : r.Ordered isDone order) :
    ∃ sequence, r.schedule strategy order = .ok sequence ∧ sequence.Perm order ∧
      r.Ordered isDone sequence := by
  cases strategy with
  | sequential => exact ⟨order, rfl, .refl _, h⟩
  | parallel =>
    obtain ⟨batches, hok, hperm, hordered⟩ := batches_ok h
    exact ⟨batches.flatten, by simp only [schedule, hok], hperm, hordered⟩

end Registry

end FactEngine
