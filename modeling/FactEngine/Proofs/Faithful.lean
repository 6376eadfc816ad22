import FactEngine.Proofs.Meaning

/-!
# Runs that contain what targets mean

A run is `Run.Faithful` if its done targets contain what they evaluate to, and its failed ones
evaluate to an error. Executing a ready descriptor keeps this, since what it receives is
what the others evaluate to (`Faithful.execute`), and so do all changes of a run that is
not cancelled (`stable_faithful`). A request for a target in such a run is answered exactly
if the target evaluates to contents (`materialize_isOk`).

What a request is answered with (`Scheduler.Answers`) therefore depends neither on the requests
before it nor on the strategy (`materialize_evaluates`).
-/

namespace FactEngine

/-! ## Faithful runs -/

namespace Run

open Registry

variable {registry : Registry} {wf : WellFounded registry.DependsOn} {f : Nat → Meaning}
  {c : Config} {r r' : Run} {i : Nat}

/-- Done targets contain what they evaluate to, failed ones evaluate to an error, and the run
is not cancelled. -/
structure Faithful (registry : Registry) (wf : WellFounded registry.DependsOn)
    (f : Nat → Meaning) (r : Run) : Prop extends Coherent registry r where
  contents : ∀ i, ∀ n ∈ (registry.descriptor i).outputs, ∀ a, r.artifact? n = some a →
    ∃ out, registry.evaluate wf f i = some out ∧ out n = some (a.contents r.store)
  failures : ∀ i, ∀ n ∈ (registry.descriptor i).outputs, r.status n = .failed →
    registry.evaluate wf f i = none
  signal : r.signal = .clear

namespace Faithful

theorem of_notStarted (hs : ∀ n, r.status n = .notStarted) (ha : ∀ n, r.artifact? n = none)
    (hsignal : r.signal = .clear) : r.Faithful registry wf f := by
  refine ⟨.of_notStarted hs ha, fun i n _ a hn => ?_, fun i n _ hn => ?_, hsignal⟩
  · simp [ha] at hn
  · simp [hs] at hn

theorem forget (h : r.Faithful registry wf f) {names : List String}
    (hc : registry.Closed names) : (r.forget names).Faithful registry wf f := by
  refine ⟨h.toCoherent.forget hc.together, fun i n hn a ha => ?_, fun i n hn hst => ?_, h.signal⟩
  · rw [artifact?_forget] at ha
    split at ha
    · cases ha
    · exact h.contents i n hn a ha
  · rw [status_forget] at hst
    split at hst
    · cases hst
    · exact h.failures i n hn hst

theorem notice (h : r.Faithful registry wf f) :
    Faithful registry wf f { r with signal := r.signal.isCancelled.2 } := by
  refine ⟨h.toCoherent.of_grows (fun _ => rfl) (fun _ => rfl) (.refl _), h.contents, h.failures, ?_⟩
  change r.signal.isCancelled.2 = .clear
  rw [h.signal]
  rfl

/-- A ready descriptor depends on descriptors that have contents, and it consumes what they
evaluate to. -/
theorem supplied_of_ready (h : r.Faithful registry wf f) (hr : registry.WellFormed)
    (hi : r.Ready registry i) :
    (∀ j ∈ registry.dependencies i, (registry.evaluate wf f j).isSome) ∧
      registry.supplied wf f i = r.consumed (registry.descriptor i) := by
  have hserved : ∀ n ∈ (registry.descriptor i).consumes, ∀ j,
      registry.producerIndex? n = some j →
      ∃ out a, registry.evaluate wf f j = some out ∧ r.artifact? n = some a ∧
        out n = some (a.contents r.store) := by
    intro n hn j hj
    obtain ⟨a, ha⟩ := (h.done_iff n).1 (hi.served n hn)
    obtain ⟨out, hout, hcontents⟩ := h.contents j n (hr.producerIndex?_eq_some_iff.1 hj) a ha
    exact ⟨out, a, hout, ha, hcontents⟩
  refine ⟨fun j hj => ?_, funext fun n => ?_⟩
  · obtain ⟨-, n, hn, hnj⟩ := mem_dependencies.1 hj
    obtain ⟨out, -, hout, -⟩ := hserved n hn j hnj
    rw [hout]
    rfl
  · unfold supplied consumed
    split
    · rename_i hn
      obtain ⟨k, hk⟩ : ∃ k, n ∈ (registry.descriptor k).outputs :=
        h.produced n (by rw [hi.served n hn]; exact TargetStatus.noConfusion)
      have hnk := hr.producerIndex?_eq_some_iff.2 hk
      obtain ⟨out, a, hout, ha, hcontents⟩ := hserved n hn k hnk
      rw [hnk, ha, Option.bind_some, hout, Option.bind_some, hcontents, Option.map_some]
    · rfl

/-- What an execution leaves is faithful if its own outputs are, and the store keeps the
contents that there were. -/
theorem of_executed (h : r.Faithful registry wf f) (hr : registry.WellFormed)
    {succeeded : Bool} (he : Executed r (registry.descriptor i) succeeded r')
    (hcoherent : r'.Coherent registry) (hkeeps : r.store.Keeps r'.store)
    (hsignal : r'.signal = r.signal)
    (hcontents : ∀ n ∈ (registry.descriptor i).outputs, ∀ a, r'.artifact? n = some a →
      ∃ out, registry.evaluate wf f i = some out ∧ out n = some (a.contents r'.store))
    (hfailures : succeeded = false → registry.evaluate wf f i = none) :
    r'.Faithful registry wf f := by
  refine ⟨hcoherent, fun k n hn a ha => ?_, fun k n hn hst => ?_, hsignal.trans h.signal⟩
  · by_cases hki : k = i
    · subst hki
      exact hcontents n hn a ha
    · have hni : n ∉ (registry.descriptor i).outputs := fun hm => hki (hr.place_unique hn hm)
      rw [he.artifact?_other n hni] at ha
      obtain ⟨out, hout, hcont⟩ := h.contents k n hn a ha
      obtain ⟨t, ht, rfl⟩ := Descriptor.mem_outputs.1 hn
      exact ⟨out, hout, by rw [hcont, (h.served k t ht a ha).contents_eq hkeeps]⟩
  · by_cases hki : k = i
    · subst hki
      rw [he.status n hn] at hst
      cases succeeded
      · exact hfailures rfl
      · cases hst
    · have hni : n ∉ (registry.descriptor i).outputs := fun hm => hki (hr.place_unique hn hm)
      rw [he.status_other n hni] at hst
      exact h.failures k n hn hst

/-- A ready descriptor whose execution fails evaluates to an error. -/
theorem evaluate_of_error (h : r.Faithful registry wf f) (hr : registry.WellFormed)
    (hi : r.Ready registry i) (hpure : registry.Pure c i (f i)) {e : Error}
    (he : r.execute c (registry.descriptor i) = (.error e, r')) :
    registry.evaluate wf f i = none ∧ r.store.Keeps r'.store ∧ r'.signal = r.signal := by
  obtain ⟨hdeps, hsupplied⟩ := h.supplied_of_ready hr hi
  have hprepare := hi.prepare_isOk_iff hr h.toCoherent
  have hout := r.outcome_execute c (registry.descriptor i)
  rw [he] at hout
  cases hout with
  | unprepared prepared =>
    refine ⟨?_, ?_, rfl⟩
    · rw [evaluate_eq hr, if_neg]
      rintro ⟨hp, -⟩
      obtain ⟨o, store, hok⟩ := hprepare.2 hp
      rw [prepared] at hok
      cases hok
    · exact Outputs.keeps_of_prepare (hr.built _ (descriptor_mem hi.bound)).outputs_nodup prepared
  | failed prepared ran =>
    have hagrees := hpure.agrees h.toCoherent hi prepared ran
    refine ⟨?_, hagrees.keeps, hagrees.signal⟩
    rw [evaluate_eq hr, if_pos ⟨hprepare.1 ⟨_, _, prepared⟩, hdeps⟩, hsupplied]
    cases hf : f i (r.consumed (registry.descriptor i)) with
    | none => rfl
    | some out => cases (hagrees.fills out hf).1

/-- A ready descriptor whose execution succeeds publishes what it evaluates to. -/
theorem evaluate_of_ok (h : r.Faithful registry wf f) (hr : registry.WellFormed)
    (hi : r.Ready registry i) (hpure : registry.Pure c i (f i))
    (he : r.execute c (registry.descriptor i) = (.ok (), r')) :
    (∃ out, registry.evaluate wf f i = some out ∧
      ∀ n ∈ (registry.descriptor i).outputs, ∀ a, r'.artifact? n = some a →
        out n = some (a.contents r'.store)) ∧
      r.store.Keeps r'.store ∧ r'.signal = r.signal := by
  have hd := hr.built _ (descriptor_mem hi.bound)
  obtain ⟨hdeps, hsupplied⟩ := h.supplied_of_ready hr hi
  have hprepare := hi.prepare_isOk_iff hr h.toCoherent
  have hout := r.outcome_execute c (registry.descriptor i)
  rw [he] at hout
  cases hout with
  | succeeded prepared ran =>
    have hagrees := hpure.agrees h.toCoherent hi prepared ran
    have hfilled := filled_of_run hd hpure.keepsNames prepared ran
    refine ⟨?_, hagrees.keeps, hagrees.signal⟩
    rw [evaluate_eq hr, if_pos ⟨hprepare.1 ⟨_, _, prepared⟩, hdeps⟩, hsupplied]
    cases hf : f i (r.consumed (registry.descriptor i)) with
    | none =>
      obtain ⟨failure, hfail⟩ := hagrees.fails hf
      cases hfail
    | some out =>
      refine ⟨out, rfl, fun n hn a ha => ?_⟩
      obtain ⟨t, ht, rfl⟩ := Descriptor.mem_outputs.1 hn
      rw [artifact?_published hd.outputs_nodup hfilled _ ht] at ha
      exact (hagrees.fills out hf).2 t ht a ha

/-- Executing a ready descriptor with a pure step keeps a run faithful. -/
theorem execute (h : r.Faithful registry wf f) (hr : registry.Proper)
    (hi : r.Ready registry i) (hpure : registry.Pure c i (f i)) :
    (r.execute c (registry.descriptor i)).2.Faithful registry wf f := by
  have hcoherent := h.toCoherent.execute hr hi.bound c
  rcases he : r.execute c (registry.descriptor i) with ⟨e | ⟨⟩, r'⟩ <;> rw [he] at hcoherent
  · have hx := hr.failed hi.bound he
    obtain ⟨hnone, hkeeps, hsignal⟩ := h.evaluate_of_error hr.toWellFormed hi hpure he
    refine h.of_executed hr.toWellFormed hx.toExecuted hcoherent hkeeps hsignal
      (fun n hn a ha => ?_) fun _ => hnone
    rw [hx.artifact?_none n hn] at ha
    cases ha
  · have hx := hr.succeeded hi.bound he
    obtain ⟨⟨out, hout, hall⟩, hkeeps, hsignal⟩ := h.evaluate_of_ok hr.toWellFormed hi hpure he
    exact h.of_executed hr.toWellFormed hx.toExecuted hcoherent hkeeps hsignal
      (fun n hn a ha => ⟨out, hout, hall n hn a ha⟩) fun hfalse => by cases hfalse

end Faithful

/-- Pure steps keep names. -/
theorem proper_of_pure (hr : registry.WellFormed)
    (hpure : ∀ i < registry.size, registry.Pure c i (f i)) : registry.Proper := by
  refine ⟨hr, fun i => ?_⟩
  by_cases hi : i < registry.size
  · exact (hpure i hi).keepsNames
  · rw [descriptor_eq_default (Nat.le_of_not_lt hi)]
    trivial

theorem stable_faithful (hr : registry.Proper)
    (hpure : ∀ i < registry.size, registry.Pure c i (f i)) :
    Stable registry c (Faithful registry wf f) where
  empty := .of_notStarted (fun _ => rfl) (fun _ => rfl) rfl
  coherent h := h.toCoherent
  execute h hi := h.execute hr hi (hpure _ hi.bound)
  notice h := h.notice
  forget h hc := h.forget hc
  clear _ := .of_notStarted (fun _ => rfl) (fun _ => rfl) rfl

end Run

namespace Scheduler

open Run Registry

variable {s : Scheduler} {wf : WellFounded s.registry.DependsOn} {f : Nat → Meaning}

/-- In a faithful run, a target whose producer has contents has a plan. -/
theorem exists_plan (hr : s.registry.WellFormed) (hv : s.registry.validate = .ok ())
    (h : s.run.Faithful s.registry wf f) {target : String} {i : Nat}
    (hi : s.registry.producerIndex? target = some i)
    (he : (s.registry.evaluate wf f i).isSome) : ∃ sequence, s.plan target = .ok sequence := by
  obtain ⟨order, horder⟩ := orderFor_isOk_of_validate hr hv hi s.run.isDone
  obtain ⟨j, hj, -, hcase⟩ := orderFor_ok horder
  obtain rfl : i = j := Option.some.inj (hi.symm.trans hj)
  -- Everything in the order is reached by the producer and therefore has contents.
  obtain ⟨sequence, hp, -⟩ := plan_of_order horder fun k hk n hnk hfailed => by
    have hsome : (s.registry.evaluate wf f k).isSome := by
      rcases hcase with ⟨-, rfl⟩ | ⟨-, hreach, -⟩
      · cases hk
      · exact evaluate_isSome_of_reaches hr he ((hreach k).1 hk)
    rw [h.failures k n hnk hfailed] at hsome
    cases hsome
  exact ⟨sequence, hp⟩

/-- In a faithful run, the plan of a target whose producer has contents is executed to its end. -/
theorem executeAll_ok (hr : s.registry.Proper) (h : s.run.Faithful s.registry wf f)
    (hpure : ∀ i < s.registry.size, s.registry.Pure s.config i (f i)) {target : String} {i : Nat}
    (hi : s.registry.producerIndex? target = some i)
    (he : (s.registry.evaluate wf f i).isSome) {sequence : List Nat}
    (hp : s.plan target = .ok sequence) : ∃ s', s.executeAll sequence = (.ok (), s') := by
  obtain ⟨-, hsched, j, hj, -, hreach⟩ := plan_ok hr.toWellFormed h.toCoherent hp
  obtain rfl : i = j := Option.some.inj (hi.symm.trans hj)
  have hstep : ∀ {r r' : Run} {i : Nat}, r.Faithful s.registry wf f → r.Ready s.registry i →
      r.execute s.config (s.registry.descriptor i) = (.ok (), r') →
      r'.Faithful s.registry wf f := by
    intro r r' i hr' hready hex
    have := hr'.execute hr hready (hpure i hready.bound)
    rwa [hex] at this
  obtain ⟨r, hrun, hstops⟩ := s.stops_executeAll sequence
  rcases hx : s.executeAll sequence with ⟨answer, s'⟩
  rw [hx] at hstops
  cases hstops with
  | finished completed => exact ⟨s', rfl⟩
  | @failed done rest k e r₁ r' split completed _ executed =>
    -- The producer reaches `k`, so `k` has contents, and its execution cannot have failed.
    have hk := evaluate_isSome_of_reaches hr.toWellFormed he (hreach k (by simp [split]))
    rw [split] at hsched
    have hready := (completed.scheduled hr hsched).ready
    obtain ⟨hnone, -⟩ := (completed.preserves hr hstep hsched h).evaluate_of_error
      hr.toWellFormed hready (hpure k hready.bound) executed
    rw [hnone] at hk
    cases hk
  | cancelled done rest split completed noticed =>
    rw [split] at hsched
    rw [(completed.preserves hr hstep hsched h).signal] at noticed
    cases noticed

/-- In a faithful run, a target whose producer has contents is answered. -/
theorem materialize_isOk (hr : s.registry.Proper) (hv : s.registry.validate = .ok ())
    (h : s.run.Faithful s.registry wf f)
    (hpure : ∀ i < s.registry.size, s.registry.Pure s.config i (f i)) {target : String} {i : Nat}
    (hi : s.registry.producerIndex? target = some i)
    (he : (s.registry.evaluate wf f i).isSome) :
    ∃ a s', s.materialize target = (.ok a, s') := by
  rcases materialize_cases h.toCoherent target with
    ⟨hnone, -⟩ | ⟨j, hj, ⟨-, a, -, hm⟩ | ⟨hfailed, -⟩ | ⟨-, hm⟩⟩
  · rw [hi] at hnone
    cases hnone
  · exact ⟨a, s, hm⟩
  · rw [h.failures i target (hr.producerIndex?_eq_some_iff.1 hi) hfailed] at he
    cases he
  · obtain ⟨sequence, hp⟩ := exists_plan hr.toWellFormed hv h hi he
    obtain ⟨s', hx⟩ := executeAll_ok hr h hpure hi he hp
    obtain ⟨hcoherent, hdone⟩ := status_of_plan hr h.toCoherent hp hx
    obtain ⟨a, ha⟩ := (hcoherent.done_iff target).1 hdone
    exact ⟨a, s', by rw [hm, compute_of_ok hp hx, artifact, ha]⟩

/-- A scheduler answers as an evaluation of its descriptors says : done targets contain what
they evaluate to, the producers of failed ones evaluate to an error, and a request is answered,
with the contents that its target evaluates to, exactly if there are some. -/
structure Answers (s : Scheduler) (evaluate : Nat → Option (String → Option Contents)) :
    Prop where
  done : ∀ i, ∀ n ∈ (s.registry.descriptor i).outputs, s.status n = .done →
    ∃ a out, s.run.artifact? n = some a ∧ evaluate i = some out ∧
      out n = some (a.contents s.run.store)
  failed : ∀ i, ∀ n ∈ (s.registry.descriptor i).outputs, s.status n = .failed → evaluate i = none
  answered : ∀ i, ∀ n ∈ (s.registry.descriptor i).outputs, ∀ out, evaluate i = some out →
    ∃ a s', s.materialize n = (.ok a, s') ∧ out n = some (a.contents s'.run.store)
  refused : ∀ i, ∀ n ∈ (s.registry.descriptor i).outputs, evaluate i = none →
    ∃ e s', s.materialize n = (.error e, s')
  unknown : ∀ n, s.registry.producerIndex? n = none →
    s.materialize n = (.error (.unknownTarget n none), s)

/-- What a request leaves is faithful, so that the contents it is answered with are those that the
target evaluates to. -/
theorem evaluate_of_materialize (hr : s.registry.Proper)
    (h : s.run.Faithful s.registry wf f)
    (hpure : ∀ i < s.registry.size, s.registry.Pure s.config i (f i)) {n : String} {i : Nat}
    (hn : n ∈ (s.registry.descriptor i).outputs) {a : Artifact} {s' : Scheduler}
    (hm : s.materialize n = (.ok a, s')) :
    ∃ out, s.registry.evaluate wf f i = some out ∧ out n = some (a.contents s'.run.store) := by
  obtain ⟨registry, c, r⟩ := s
  have hstable : Stable registry c (Faithful registry wf f) := stable_faithful hr hpure
  obtain ⟨r', hr', hf'⟩ := hstable.materialize hr h n
  obtain ⟨-, ha⟩ := status_of_materialize hr h.toCoherent hm
  rw [hm] at hr'
  obtain rfl : s' = ⟨registry, c, r'⟩ := hr'
  exact hf'.contents i n hn a ha

/-- A faithful run answers as the evaluation says. -/
theorem answers_of_faithful (hr : s.registry.Proper) (hv : s.registry.validate = .ok ())
    (h : s.run.Faithful s.registry wf f)
    (hpure : ∀ i < s.registry.size, s.registry.Pure s.config i (f i)) :
    s.Answers (s.registry.evaluate wf f) where
  done i n hn hst := by
    obtain ⟨a, ha⟩ := (h.done_iff n).1 hst
    obtain ⟨out, hout, hcontents⟩ := h.contents i n hn a ha
    exact ⟨a, out, ha, hout, hcontents⟩
  failed := h.failures
  answered i n hn out he := by
    obtain ⟨a, s', hm⟩ := materialize_isOk hr hv h hpure (hr.producerIndex?_eq_some_iff.2 hn)
      (Option.isSome_iff_exists.2 ⟨out, he⟩)
    obtain ⟨out', hout', hcontents⟩ := evaluate_of_materialize hr h hpure hn hm
    obtain rfl : out = out' := Option.some.inj (he.symm.trans hout')
    exact ⟨a, s', hm, hcontents⟩
  refused i n hn he := by
    rcases hm : s.materialize n with ⟨e | a, s'⟩
    · exact ⟨e, s', rfl⟩
    · obtain ⟨out, hout, -⟩ := evaluate_of_materialize hr h hpure hn hm
      rw [he] at hout
      cases hout
  unknown n hn := by
    rcases materialize_cases h.toCoherent n with ⟨-, hm⟩ | ⟨j, hj, -⟩
    · exact hm
    · rw [hn] at hj
      cases hj

end Scheduler

end FactEngine
