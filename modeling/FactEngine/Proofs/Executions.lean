import FactEngine.Proofs.Downstream
import FactEngine.Proofs.Effect

/-!
# How often descriptors are executed

A descriptor is executed only while its outputs are not started, and an execution starts them,
whether it succeeds or fails. `Run.allowance` adds to the executions of a descriptor one more
if its outputs are not started. No request raises it (`allowance_handle_le`) but those that
return the outputs to where they were : a reset, and an invalidation of something that the
descriptor produces or consumes, directly or through others (`Request.Restarts`). So between
two executions of a descriptor there is one of these (`executed_once_between_restarts`).
-/

namespace FactEngine

theorem Metrics.executionsOf_eq_count (m : Metrics) (name : String) :
    m.executionsOf name = (m.executions.map Execution.descriptor).count name := by
  rw [executionsOf, List.count, List.countP_map]
  rfl

namespace Scheduler

open Run Registry

variable {s : Scheduler}

/-! ## What one request executes -/

namespace Effect

variable {target : String} {executed rest : List Nat} {answer : Except Error Artifact} {r : Run}

/-- The executed descriptors are the beginning of an ordered list. -/
theorem ordered (h : s.Effect target executed rest answer r) :
    s.registry.Ordered s.run.isDone (executed ++ rest) := by
  obtain ⟨order, horder, hsequence⟩ := h.sequence
  obtain ⟨-, -, hordered, -⟩ := orderFor_ok horder
  obtain ⟨sequence, hschedule, -, hsched⟩ := schedule_ok s.config.strategy hordered
  rwa [Except.ok.inj (hschedule.symm.trans hsequence)] at hsched

theorem nodup (h : s.Effect target executed rest answer r) : executed.Nodup :=
  (List.nodup_append.1 h.ordered.nodup).1

/-- What is executed has outputs. -/
theorem exists_output (h : s.Effect target executed rest answer r) {i : Nat}
    (hi : i ∈ executed) : ∃ n, n ∈ (s.registry.descriptor i).outputs := by
  obtain ⟨n, hn, -⟩ := List.all_eq_false.1 (h.ordered.pending i (List.mem_append_left _ hi))
  exact ⟨n, hn⟩

theorem lt_size (h : s.Effect target executed rest answer r) {i : Nat} (hi : i ∈ executed) :
    i < s.registry.size := by
  obtain ⟨n, hn⟩ := h.exists_output hi
  exact lt_size_of_mem_outputs hn

/-- What was executed is done or failed. -/
theorem status_ne_notStarted (hr : s.registry.Proper)
    (h : s.Effect target executed rest answer r) {i : Nat} (hi : i ∈ executed) {n : String}
    (hn : n ∈ (s.registry.descriptor i).outputs) : r.status n ≠ .notStarted := by
  have hbound : ∀ k ∈ executed, k < s.registry.size := fun k hk => h.lt_size hk
  have hdone : ∀ {r' : Run}, Completes s.registry s.config s.run executed r' →
      r'.status n ≠ .notStarted := by
    intro r' hc
    rw [(hc.completed hr hbound).status i hi n hn]
    exact TargetStatus.noConfusion
  cases h.ending with
  | answered completed => exact hdone completed
  | cancelled _ completed =>
    have hne := hdone completed
    exact hne
  | @failed before k _ _ _ last _ _ _ failed =>
    subst last
    rcases List.mem_append.1 hi with hi | hi
    · rw [(h.published i (by rwa [List.dropLast_concat]) n hn).1]
      exact TargetStatus.noConfusion
    · rw [List.mem_singleton.1 hi] at hn
      rw [(failed n hn).1]
      exact TargetStatus.noConfusion

theorem executionsOf_eq (hr : s.registry.WellFormed)
    (h : s.Effect target executed rest answer r) {i : Nat} (hi : i < s.registry.size) :
    r.metrics.executionsOf (s.registry.nameOf i) =
      s.run.metrics.executionsOf (s.registry.nameOf i) + if i ∈ executed then 1 else 0 := by
  obtain ⟨records, hrecords, hnames⟩ := h.metrics
  have hnodup := hr.nodup_map_nameOf h.nodup fun k hk => h.lt_size hk
  have hmem : s.registry.nameOf i ∈ executed.map s.registry.nameOf ↔ i ∈ executed := by
    refine ⟨fun hm => ?_, List.mem_map_of_mem⟩
    obtain ⟨k, hk, he⟩ := List.mem_map.1 hm
    rwa [← hr.nameOf_injective (h.lt_size hk) hi he]
  simp only [Metrics.executionsOf_eq_count, hrecords, List.map_append, List.count_append, hnames,
    hnodup.count, hmem]

end Effect

/-- A request for a target either executes nothing and changes nothing, or has an effect. -/
theorem materialize_effect (hr : s.registry.Proper) (hs : s.run.Coherent s.registry)
    (target : String) : (s.materialize target).2 = s ∨
      ∃ executed rest r, (s.materialize target).2 = { s with run := r } ∧
        s.Effect target executed rest (s.materialize target).1 r := by
  rcases materialize_cases hs target with
    ⟨-, h⟩ | ⟨i, -, ⟨-, a, -, h⟩ | ⟨-, h⟩ | ⟨-, h⟩⟩
  · exact Or.inl (by rw [h])
  · exact Or.inl (by rw [h])
  · exact Or.inl (by rw [h])
  · rw [h]
    cases hp : s.plan target with
    | error e => exact Or.inl (by rw [compute, hp])
    | ok sequence => exact Or.inr (effect_of_plan hr hs hp)

end Scheduler

/-! ## The allowance of a descriptor -/

namespace Run

/-- Some output of the descriptor at `i` was started. -/
def Started (registry : Registry) (r : Run) (i : Nat) : Prop :=
  ∃ n ∈ (registry.descriptor i).outputs, r.status n ≠ .notStarted

instance {registry : Registry} {r : Run} {i : Nat} : Decidable (r.Started registry i) :=
  inferInstanceAs (Decidable (∃ n ∈ _, _))

/-- The executions of a descriptor so far, and one more if its outputs are not started. -/
def allowance (registry : Registry) (r : Run) (i : Nat) : Nat :=
  r.metrics.executionsOf (registry.nameOf i) + if r.Started registry i then 0 else 1

variable {registry : Registry} {r r' : Run} {i : Nat}

theorem executionsOf_le_allowance :
    r.metrics.executionsOf (registry.nameOf i) ≤ r.allowance registry i :=
  Nat.le_add_right _ _

theorem allowance_le : r.allowance registry i ≤ r.metrics.executionsOf (registry.nameOf i) + 1 := by
  unfold allowance
  split <;> omega

theorem allowance_congr
    (hm : r'.metrics.executionsOf (registry.nameOf i) =
      r.metrics.executionsOf (registry.nameOf i))
    (hs : ∀ n ∈ (registry.descriptor i).outputs, r'.status n = r.status n) :
    r'.allowance registry i = r.allowance registry i := by
  have hiff : r'.Started registry i ↔ r.Started registry i :=
    exists_congr fun n => and_congr_right fun hn => by rw [hs n hn]
  simp only [allowance, hm, hiff]

end Run

/-- The request lets the descriptor at `i` start over : a reset, or an invalidation of a name that
it produces or that is produced by a descriptor from which it consumes, directly or through
others. -/
def Request.Restarts (registry : Registry) (i : Nat) : Request → Prop
  | .reset => True
  | .invalidate n => ∃ j, n ∈ (registry.descriptor j).outputs ∧
      Relation.ReflTransGen registry.ConsumesFrom i j
  | _ => False

namespace Scheduler

open Run Registry

variable {s : Scheduler} {i : Nat}

theorem allowance_materialize_le (hr : s.registry.Proper) (hs : s.run.Coherent s.registry)
    (hi : i < s.registry.size) (target : String) :
    (s.materialize target).2.run.allowance s.registry i ≤ s.run.allowance s.registry i := by
  rcases materialize_effect hr hs target with h | ⟨executed, rest, r, h, heffect⟩
  · rw [h]
  · rw [h]
    have hcount := heffect.executionsOf_eq hr.toWellFormed hi
    by_cases hmem : i ∈ executed
    · -- The execution is the one more that was allowed, since the outputs were not started.
      obtain ⟨n, hn⟩ := heffect.exists_output hmem
      have hbefore : ¬s.run.Started s.registry i := by
        rintro ⟨m, hm, hstarted⟩
        exact hstarted (heffect.idle i hmem m hm)
      have hafter : r.Started s.registry i := ⟨n, hn, heffect.status_ne_notStarted hr hmem hn⟩
      rw [if_pos hmem] at hcount
      simp only [allowance, hcount, hbefore, hafter, if_true, if_false, Nat.add_zero, le_refl]
    · rw [if_neg hmem] at hcount
      refine (allowance_congr hcount fun n hn => (heffect.other n fun k hk hnk => ?_).1).le
      exact hmem (hr.place_unique hn hnk ▸ hk)

theorem allowance_invalidate_le (hr : s.registry.WellFormed) (name : String)
    (h : ¬(Request.invalidate name).Restarts s.registry i) :
    (s.invalidate name).2.run.allowance s.registry i ≤ s.run.allowance s.registry i := by
  unfold invalidate
  split
  · exact le_rfl
  · rename_i d hd
    obtain ⟨j, hj, rfl⟩ := lookup_eq_ok_iff.1 hd
    have hkept : ∀ n ∈ (s.registry.descriptor i).outputs,
        n ∉ s.downstream (s.registry.descriptor j) := by
      intro n hn hmem
      obtain ⟨k, hdown, hnk⟩ := (mem_downstream hr).1 hmem
      obtain rfl := hr.place_unique hn hnk
      exact h ⟨j, hr.producerIndex?_eq_some_iff.1 hj,
        (downstream_iff hr (hr.lt_size_of_producerIndex? hj)).1 hdown⟩
    refine le_of_eq (allowance_congr ?_ fun n hn => ?_)
    · rfl
    · change (s.run.forget _).status n = _
      rw [status_forget, if_neg (hkept n hn)]

/-- No request raises the allowance of a descriptor that it does not restart. -/
theorem allowance_handle_le (hr : s.registry.Proper) (hs : s.run.Coherent s.registry)
    (hi : i < s.registry.size) {q : Request} (hq : ¬q.Restarts s.registry i) :
    (s.handle q).run.allowance s.registry i ≤ s.run.allowance s.registry i := by
  cases q with
  | materialize target => exact allowance_materialize_le hr hs hi target
  | invalidate target => exact allowance_invalidate_le hr.toWellFormed target hq
  | reset => exact (hq trivial).elim
  | _ => exact (allowance_congr rfl fun _ _ => rfl).le

/-- Requests that do not restart a descriptor do not raise its allowance. -/
theorem allowance_after_le {registry : Registry} (hr : registry.Proper) (c : Config)
    (hi : i < registry.size) {history : List Request}
    (hq : ∀ q ∈ history, ¬q.Restarts registry i) {r : Run} (h : r.Coherent registry) :
    (after ⟨registry, c, r⟩ history).run.allowance registry i ≤ r.allowance registry i := by
  induction history generalizing r with
  | nil => exact le_rfl
  | cons q history ih =>
    obtain ⟨hq, hrest⟩ := List.forall_mem_cons.1 hq
    have hle := allowance_handle_le (s := ⟨registry, c, r⟩) hr h hi hq
    obtain ⟨r', hr', h'⟩ := (stable_coherent hr c).handle hr
      (fun _ h => h.of_grows (fun _ => rfl) (fun _ => rfl) (.refl _))
      (fun hg h => h.of_grows (fun _ => rfl) (fun _ => rfl) hg) h q
    rw [hr'] at hle
    rw [after, List.foldl_cons, hr']
    exact (ih hrest h').trans hle

/-- If a descriptor is executed twice in the course of some requests, one of them restarts it.
Before the first reset or invalidation, no descriptor is executed twice. -/
theorem executed_once_between_restarts {ds : List Draft} (hk : ∀ d ∈ ds, d.fill.KeepsNames)
    (c : Config) (history between : List Request) :
    let registry := Registry.ofDrafts ds
    let s := (Scheduler.new registry c).after history
    (∀ i < registry.size,
      s.run.metrics.executionsOf (registry.nameOf i) + 2 ≤
          (s.after between).run.metrics.executionsOf (registry.nameOf i) →
        ∃ q ∈ between, q.Restarts registry i) ∧
    ((∀ q ∈ history, q ≠ .reset ∧ ∀ n, q ≠ .invalidate n) →
      ∀ i < registry.size, s.run.metrics.executionsOf (registry.nameOf i) ≤ 1) := by
  intro registry s
  have hr : registry.Proper := proper_ofDrafts hk
  refine ⟨fun i hi htwice => ?_, fun hplain i hi => ?_⟩
  · obtain ⟨r, hs, hc⟩ : ∃ r, s = ⟨registry, c, r⟩ ∧ r.Coherent registry :=
      coherent_after hk c history
    by_contra hnone
    simp only [not_exists, not_and] at hnone
    rw [hs] at htwice
    have honce := executionsOf_le_allowance.trans
      ((allowance_after_le hr c hi hnone hc).trans allowance_le)
    exact Nat.not_succ_le_self _ (htwice.trans honce)
  · have hnone : ∀ q ∈ history, ¬q.Restarts registry i := by
      intro q hq hrestarts
      obtain ⟨hreset, hinvalidate⟩ := hplain q hq
      cases q with
      | reset => exact hreset rfl
      | invalidate n => exact hinvalidate n rfl
      | _ => exact hrestarts
    have hle : s.run.allowance registry i ≤ Run.empty.allowance registry i :=
      allowance_after_le hr c hi hnone .empty
    exact executionsOf_le_allowance.trans (hle.trans allowance_le)

/-- However often marks of the same name are asked for, they are made once. -/
theorem marks_made_once :
    (∀ d ∈ lettersAndMarks (renameMarks "marks"), d.fill.KeepsNames) ∧
      (∀ q ∈ [Request.materialize "marks", .materialize "index", .materialize "marks"],
        q ≠ .reset ∧ ∀ n, q ≠ .invalidate n) ∧
      ((ofMarks (renameMarks "marks")).after
        [.materialize "marks", .materialize "index", .materialize "marks"]).run.metrics.executionsOf
          "marks" ≤ 1 := by
  have hplain : ∀ q ∈ [Request.materialize "marks", .materialize "index", .materialize "marks"],
      q ≠ .reset ∧ ∀ n, q ≠ .invalidate n := by simp
  obtain ⟨-, honce⟩ :=
    executed_once_between_restarts keepsNames_renameMarks ⟨.sequential, 0, .empty⟩
      [.materialize "marks", .materialize "index", .materialize "marks"] []
  exact ⟨keepsNames_renameMarks, hplain, honce hplain 1 (by decide)⟩

/-- Marks that are replaced by a relation of another name are made for every request, although
nothing is reset or invalidated. -/
theorem marks_made_twice :
    (∀ q ∈ [Request.materialize "marks", .materialize "marks"],
        q ≠ .reset ∧ ∀ n, q ≠ .invalidate n) ∧
      ((ofMarks (renameMarks "notes")).after
        [.materialize "marks", .materialize "marks"]).run.metrics.executionsOf "marks" = 2 :=
  ⟨by simp, by decide +kernel⟩

end Scheduler

end FactEngine
