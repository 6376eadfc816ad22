import FactEngine.Proofs.Batches
import FactEngine.Proofs.Coherence

/-!
# What a plan promises and what the loop does with it

A descriptor is `Run.Ready` if it is registered, not started, and all that it consumes is done.
In a sequence that is `Run.Scheduled` the first descriptor is ready, and when it has been
executed the rest is scheduled again. The plan of a coherent run is scheduled (`plan_ok`).

`Run.Completes` executes a list of descriptors with success, each while the run is not
cancelled. The loop completes a part of its sequence, and then it has reached the end, or
the next descriptor fails, or the run is cancelled before it (`stops_executeAll`). What
holds before a request and is kept by every execution of a ready descriptor holds after it
(`materialize_preserves`).
-/

namespace FactEngine

namespace Run

variable {registry : Registry} {c : Config} {r r' r'' : Run} {i : Nat}

/-! ## Ready descriptors -/

/-- The descriptor at a place can be executed. -/
structure Ready (registry : Registry) (r : Run) (i : Nat) : Prop where
  bound : i < registry.size
  idle : ∀ n ∈ (registry.descriptor i).outputs, r.status n = .notStarted
  served : ∀ n ∈ (registry.descriptor i).consumes, r.status n = .done

/-- What a ready descriptor consumes is not among its own outputs. -/
theorem Ready.not_mem_outputs (h : r.Ready registry i) {n : String}
    (hn : n ∈ (registry.descriptor i).consumes) : n ∉ (registry.descriptor i).outputs := by
  intro hm
  have hidle := h.idle n hm
  rw [h.served n hn] at hidle
  cases hidle

/-- A ready descriptor receives the artifacts of all that it consumes. -/
theorem Ready.get?_received (h : r.Ready registry i) {n : String}
    (hn : n ∈ (registry.descriptor i).consumes) :
    (r.received (registry.descriptor i)).get? n = r.artifact? n := by
  rw [Run.get?_received, if_pos ⟨hn, h.not_mem_outputs hn, h.served n hn⟩]

/-! ## Scheduled sequences -/

/-- Descriptors that can be executed one after another. -/
structure Scheduled (registry : Registry) (r : Run) (sequence : List Nat) : Prop where
  nodup : sequence.Nodup
  bound : ∀ i ∈ sequence, i < registry.size
  idle : ∀ i ∈ sequence, ∀ n ∈ (registry.descriptor i).outputs, r.status n = .notStarted
  served : ∀ pre i post, sequence = pre ++ i :: post →
    ∀ n ∈ (registry.descriptor i).consumes,
      r.status n = .done ∨ ∃ j ∈ pre, n ∈ (registry.descriptor j).outputs

theorem Scheduled.ready {sequence : List Nat} (h : r.Scheduled registry (i :: sequence)) :
    r.Ready registry i := by
  refine ⟨h.bound i List.mem_cons_self, h.idle i List.mem_cons_self, fun n hn => ?_⟩
  rcases h.served [] i sequence rfl n hn with hd | ⟨j, hj, -⟩
  · exact hd
  · cases hj

/-- When the first descriptor has been executed, the others are scheduled. -/
theorem Scheduled.step (hr : registry.WellFormed) {sequence : List Nat}
    (h : r.Scheduled registry (i :: sequence))
    (he : Executed r (registry.descriptor i) true r') : r'.Scheduled registry sequence := by
  obtain ⟨hnot, hnodup⟩ := List.nodup_cons.1 h.nodup
  refine ⟨hnodup, fun k hk => h.bound k (List.mem_cons_of_mem _ hk), fun k hk n hn => ?_, ?_⟩
  · have hni : n ∉ (registry.descriptor i).outputs := by
      intro hi
      exact hnot (hr.place_unique hn hi ▸ hk)
    rw [he.status_other n hni]
    exact h.idle k (List.mem_cons_of_mem _ hk) n hn
  · rintro pre k post rfl n hn
    by_cases hni : n ∈ (registry.descriptor i).outputs
    · exact Or.inl (by rw [he.status n hni, if_pos rfl])
    · rw [he.status_other n hni]
      rcases h.served (i :: pre) k post rfl n hn with hd | ⟨j, hj, hnj⟩
      · exact Or.inl hd
      · rcases List.mem_cons.1 hj with rfl | hj
        · exact (hni hnj).elim
        · exact Or.inr ⟨j, hj, hnj⟩

/-! ## Completed sequences -/

/-- All descriptors of a list are executed with success, each while the run is not cancelled. -/
inductive Completes (registry : Registry) (c : Config) : Run → List Nat → Run → Prop
  | nil {r : Run} : Completes registry c r [] r
  | cons {r r' r'' : Run} {i : Nat} {is : List Nat}
      (running : r.signal.isCancelled.1 = false)
      (executed : r.execute c (registry.descriptor i) = (.ok (), r'))
      (rest : Completes registry c r' is r'') : Completes registry c r (i :: is) r''

theorem Completes.scheduled (hr : registry.Proper) {done rest : List Nat}
    (hc : Completes registry c r done r') (h : r.Scheduled registry (done ++ rest)) :
    r'.Scheduled registry rest := by
  induction hc with
  | nil => exact h
  | cons _ executed _ ih =>
    have he := hr.succeeded (h.bound _ List.mem_cons_self) executed
    exact ih (h.step hr.toWellFormed he.toExecuted)

/-- Each descriptor was started while the run was not cancelled. -/
theorem Completes.running {done : List Nat} (hc : Completes registry c r done r') {j : Nat}
    (hj : j < done.length) : ∃ r₁, Completes registry c r (done.take j) r₁ ∧
      r₁.signal.isCancelled.1 = false := by
  induction hc generalizing j with
  | nil => cases hj
  | @cons r _ _ _ _ running executed _ ih =>
    cases j with
    | zero => exact ⟨r, .nil, running⟩
    | succ j =>
      obtain ⟨r₁, hr₁, hrunning⟩ := ih (Nat.lt_of_succ_lt_succ hj)
      exact ⟨r₁, .cons running executed hr₁, hrunning⟩

/-- What every execution of a ready descriptor keeps is kept. -/
theorem Completes.preserves (hr : registry.Proper) {I : Run → Prop}
    (hstep : ∀ {r r' : Run} {i : Nat}, I r → r.Ready registry i →
      r.execute c (registry.descriptor i) = (.ok (), r') → I r')
    {done rest : List Nat} (hc : Completes registry c r done r')
    (h : r.Scheduled registry (done ++ rest)) (hI : I r) : I r' := by
  induction hc with
  | nil => exact hI
  | cons _ executed _ ih =>
    have he := hr.succeeded (h.bound _ List.mem_cons_self) executed
    exact ih (h.step hr.toWellFormed he.toExecuted) (hstep hI h.ready executed)

/-- What executing a list of descriptors with success does. -/
structure Completed (registry : Registry) (r : Run) (done : List Nat) (r' : Run) : Prop where
  status : ∀ i ∈ done, ∀ n ∈ (registry.descriptor i).outputs, r'.status n = .done
  status_other : ∀ n, (∀ i ∈ done, n ∉ (registry.descriptor i).outputs) →
    r'.status n = r.status n
  artifact?_other : ∀ n, (∀ i ∈ done, n ∉ (registry.descriptor i).outputs) →
    r'.artifact? n = r.artifact? n
  metrics : ∃ records, r'.metrics.executions = r.metrics.executions ++ records ∧
    records.map (fun e => (e.descriptor, e.succeeded)) =
      done.map fun i => (registry.nameOf i, true)

theorem Completed.cons {is : List Nat}
    (he : Executed r (registry.descriptor i) true r') (h : Completed registry r' is r'') :
    Completed registry r (i :: is) r'' := by
  obtain ⟨sizes, hsizes⟩ := he.metrics
  obtain ⟨records, hrecords, hmap⟩ := h.metrics
  refine ⟨fun k hk n hn => ?_, fun n hn => ?_, fun n hn => ?_,
    ⟨registry.nameOf i, true, 0, sizes⟩ :: records, ?_, ?_⟩
  · by_cases hlater : ∃ j ∈ is, n ∈ (registry.descriptor j).outputs
    · obtain ⟨j, hj, hnj⟩ := hlater
      exact h.status j hj n hnj
    · simp only [not_exists, not_and] at hlater
      rcases List.mem_cons.1 hk with rfl | hk
      · rw [h.status_other n hlater, he.status n hn, if_pos rfl]
      · exact (hlater k hk hn).elim
  · obtain ⟨hni, hrest⟩ := List.forall_mem_cons.1 hn
    rw [h.status_other n hrest, he.status_other n hni]
  · obtain ⟨hni, hrest⟩ := List.forall_mem_cons.1 hn
    rw [h.artifact?_other n hrest, he.artifact?_other n hni]
  · rw [hrecords, hsizes, List.append_assoc, List.singleton_append, Registry.nameOf]
  · rw [List.map_cons, List.map_cons, hmap]

/-- The executions recorded are those of the descriptors, in their order. -/
theorem Completed.records {done : List Nat} (h : Completed registry r done r') :
    ∃ records, r'.metrics.executions = r.metrics.executions ++ records ∧
      records.map Execution.descriptor = done.map registry.nameOf := by
  obtain ⟨records, hrecords, hmap⟩ := h.metrics
  refine ⟨records, hrecords, ?_⟩
  simpa [Function.comp_def] using congrArg (List.map Prod.fst) hmap

theorem Completes.completed (hr : registry.Proper) {done : List Nat}
    (hc : Completes registry c r done r') (hbound : ∀ i ∈ done, i < registry.size) :
    Completed registry r done r' := by
  induction hc with
  | nil => exact ⟨by simp, fun _ _ => rfl, fun _ _ => rfl, [], by simp, rfl⟩
  | cons _ executed _ ih =>
    obtain ⟨hi, his⟩ := List.forall_mem_cons.1 hbound
    exact (ih his).cons (hr.succeeded hi executed).toExecuted

theorem Completes.coherent (hr : registry.Proper) {done : List Nat}
    (hc : Completes registry c r done r') (hbound : ∀ i ∈ done, i < registry.size)
    (h : r.Coherent registry) : r'.Coherent registry := by
  induction hc with
  | nil => exact h
  | cons _ executed _ ih =>
    obtain ⟨hi, his⟩ := List.forall_mem_cons.1 hbound
    have h' := h.execute hr hi c
    rw [executed] at h'
    exact ih his h'

/-- Every way in which the loop over a sequence can stop. -/
inductive Stops (registry : Registry) (c : Config) (r : Run) (sequence : List Nat) :
    Except Error Unit × Run → Prop
  /-- Everything was executed. -/
  | finished {r' : Run} (completed : Completes registry c r sequence r') :
      Stops registry c r sequence (.ok (), r')
  /-- A descriptor failed. -/
  | failed (done rest : List Nat) {i : Nat} {e : Error} {r₁ r' : Run}
      (split : sequence = done ++ i :: rest) (completed : Completes registry c r done r₁)
      (running : r₁.signal.isCancelled.1 = false)
      (executed : r₁.execute c (registry.descriptor i) = (.error e, r')) :
      Stops registry c r sequence (.error e, r')
  /-- The run was cancelled before a descriptor. -/
  | cancelled (done rest : List Nat) {i : Nat} {r₁ : Run}
      (split : sequence = done ++ i :: rest) (completed : Completes registry c r done r₁)
      (noticed : r₁.signal.isCancelled.1 = true) :
      Stops registry c r sequence
        (.error (.cancelled (registry.nameOf i) r₁.signal.isCancelled.2.reason),
          { r₁ with signal := r₁.signal.isCancelled.2 })

theorem Stops.cons {is : List Nat} {result : Except Error Unit × Run}
    (running : r.signal.isCancelled.1 = false)
    (executed : r.execute c (registry.descriptor i) = (.ok (), r'))
    (h : Stops registry c r' is result) : Stops registry c r (i :: is) result := by
  cases h with
  | finished completed => exact .finished (.cons running executed completed)
  | failed done rest split completed running' executed' =>
    exact .failed (i :: done) rest (by rw [split, List.cons_append])
      (.cons running executed completed) running' executed'
  | cancelled done rest split completed noticed =>
    exact .cancelled (i :: done) rest (by rw [split, List.cons_append])
      (.cons running executed completed) noticed

end Run

/-- A signal that is not cancelled stays as it was when asked. -/
theorem Signal.isCancelled_snd {s : Signal} (h : s.isCancelled.1 = false) :
    s.isCancelled.2 = s := by
  unfold isCancelled at h ⊢
  split
  · rename_i hc
    simp [hc] at h
  · split
    · rename_i hc hd
      simp [hc, hd] at h
    · rfl

namespace Scheduler

open Run

variable {s : Scheduler}

theorem executeAll_cons (s : Scheduler) (i : Nat) (is : List Nat) :
    s.executeAll (i :: is) =
      if s.run.signal.isCancelled.1 then
        (.error (.cancelled (s.registry.nameOf i) s.run.signal.isCancelled.2.reason),
          { s with run := { s.run with signal := s.run.signal.isCancelled.2 } })
      else
        match s.run.execute s.config (s.registry.descriptor i) with
        | (.error e, run) => (.error e, { s with run })
        | (.ok (), run) => ({ s with run } : Scheduler).executeAll is := by
  obtain ⟨registry, config, run⟩ := s
  rw [executeAll]
  simp only [update, checkCancelled]
  rcases hc : run.signal.isCancelled with ⟨_ | _, signal⟩
  · have hs : signal = run.signal := by
      have := Signal.isCancelled_snd (congrArg Prod.fst hc)
      rwa [hc] at this
    subst hs
    simp only [Bool.false_eq_true, if_false]
    rcases run.execute config (registry.descriptor i) with ⟨e | ⟨⟩, r⟩ <;> rfl
  · rfl

/-- The loop stops in one of the three ways and changes nothing but the run. -/
theorem stops_executeAll (s : Scheduler) (sequence : List Nat) :
    ∃ r, (s.executeAll sequence).2 = { s with run := r } ∧
      Stops s.registry s.config s.run sequence ((s.executeAll sequence).1, r) := by
  induction sequence generalizing s with
  | nil => exact ⟨s.run, rfl, .finished .nil⟩
  | cons i is ih =>
    rw [executeAll_cons]
    by_cases hc : s.run.signal.isCancelled.1 = true
    · rw [if_pos hc]
      exact ⟨_, rfl, .cancelled [] is rfl .nil hc⟩
    · rw [Bool.not_eq_true] at hc
      rw [if_neg (by rw [hc]; exact Bool.false_ne_true)]
      rcases he : s.run.execute s.config (s.registry.descriptor i) with ⟨e | ⟨⟩, r⟩
      · exact ⟨r, rfl, .failed [] is rfl .nil hc he⟩
      · obtain ⟨r', hr', hstops⟩ := ih { s with run := r }
        exact ⟨r', hr', hstops.cons hc he⟩

/-! ## Plans -/

theorem outputsDone_iff {i : Nat} : s.registry.outputsDone s.run.isDone i = true ↔
    ∀ n ∈ (s.registry.descriptor i).outputs, s.run.status n = .done := by
  simp only [Registry.outputsDone, List.all_eq_true, isDone_iff]

/-- In a coherent run, a descriptor that is not done has no output that is done. -/
theorem status_ne_done (hs : s.run.Coherent s.registry) {i : Nat}
    (hi : s.registry.outputsDone s.run.isDone i = false) {n : String}
    (hn : n ∈ (s.registry.descriptor i).outputs) : s.run.status n ≠ .done := by
  intro hd
  have hall := outputsDone_iff.2 fun m hm => (hs.uniform i m hm n hn).trans hd
  rw [hi] at hall
  cases hall

theorem firstFailed?_eq_none {order : List Nat} (h : s.firstFailed? order = none) :
    ∀ i ∈ order, ∀ n ∈ (s.registry.descriptor i).outputs, s.run.status n ≠ .failed := by
  intro i hi n hn
  simpa using List.find?_eq_none.1 h n (List.mem_flatMap.2 ⟨i, hi, hn⟩)

theorem scheduled_of_ordered (hr : s.registry.WellFormed) (hs : s.run.Coherent s.registry)
    {sequence : List Nat} (ho : s.registry.Ordered s.run.isDone sequence)
    (hf : ∀ i ∈ sequence, ∀ n ∈ (s.registry.descriptor i).outputs, s.run.status n ≠ .failed) :
    s.run.Scheduled s.registry sequence := by
  refine ⟨ho.nodup, fun i hi => ?_, fun i hi n hn => ?_, ?_⟩
  · obtain ⟨n, hn, -⟩ := List.all_eq_false.1 (ho.pending i hi)
    exact Registry.lt_size_of_mem_outputs hn
  · cases hst : s.run.status n with
    | notStarted => rfl
    | inProgress => exact (hs.settled n hst).elim
    | done => exact (status_ne_done hs (ho.pending i hi) hn hst).elim
    | failed => exact (hf i hi n hn hst).elim
  · rintro pre i post heq n hn
    obtain ⟨j, hj⟩ := Registry.missing?_eq_none_iff.1 (ho.complete i (by simp [heq])) n hn
    have hnj := hr.producerIndex?_eq_some_iff.1 hj
    rcases ho.earlier heq (hr.mem_dependencies.2 ⟨n, hn, hj⟩) with hd | hm
    · exact Or.inl (outputsDone_iff.1 hd n hnj)
    · exact Or.inr ⟨j, hm, hnj⟩

/-- What a plan is : a scheduled sequence of all that the target needs, itself included. -/
structure Planned (s : Scheduler) (target : String) (sequence : List Nat) : Prop where
  order : ∃ order, s.registry.orderFor target s.run.isDone = .ok order ∧
    s.registry.schedule s.config.strategy order = .ok sequence
  scheduled : s.run.Scheduled s.registry sequence
  producer : ∃ i, s.registry.producerIndex? target = some i ∧
    (s.run.status target = .done ∨ i ∈ sequence) ∧
      ∀ k ∈ sequence, s.registry.Reaches s.run.isDone i k

/-- The plan of a coherent run can be executed. -/
theorem plan_ok (hr : s.registry.WellFormed) (hs : s.run.Coherent s.registry) {target : String}
    {sequence : List Nat} (h : s.plan target = .ok sequence) : s.Planned target sequence := by
  unfold plan at h
  split at h
  · cases h
  · rename_i order horder
    split at h
    · cases h
    · rename_i hf
      obtain ⟨i, hi, hordered, hcase⟩ := Registry.orderFor_ok horder
      obtain ⟨sequence', hseq, hperm, hseqord⟩ := Registry.schedule_ok s.config.strategy hordered
      obtain rfl : sequence' = sequence := Except.ok.inj (hseq.symm.trans h)
      have htarget := hr.producerIndex?_eq_some_iff.1 hi
      refine ⟨⟨order, horder, hseq⟩, scheduled_of_ordered hr hs hseqord fun k hk =>
        firstFailed?_eq_none hf k (hperm.subset hk), i, hi, ?_⟩
      rcases hcase with ⟨hd, rfl⟩ | ⟨-, hreach, -⟩
      · rw [List.Perm.eq_nil hperm]
        exact ⟨Or.inl (outputsDone_iff.1 hd target htarget), by simp⟩
      · refine ⟨Or.inr (hperm.mem_iff.2 ((hreach i).2 .refl)), fun k hk => ?_⟩
        exact (hreach k).1 (hperm.subset hk)

/-- A target with an order has a plan if nothing in the order failed. -/
theorem plan_of_order {target : String} {order : List Nat}
    (h : s.registry.orderFor target s.run.isDone = .ok order)
    (hf : ∀ i ∈ order, ∀ n ∈ (s.registry.descriptor i).outputs, s.run.status n ≠ .failed) :
    ∃ sequence, s.plan target = .ok sequence ∧ sequence.Perm order := by
  obtain ⟨-, -, hordered, -⟩ := Registry.orderFor_ok h
  obtain ⟨sequence, hseq, hperm, -⟩ := Registry.schedule_ok s.config.strategy hordered
  have hnone : s.firstFailed? order = none := by
    rw [firstFailed?, List.find?_eq_none]
    intro n hn
    obtain ⟨i, hi, hni⟩ := List.mem_flatMap.1 hn
    simpa using hf i hi n hni
  exact ⟨sequence, by rw [plan, h]; simp only [hnone, hseq], hperm⟩

/-! ## Requests for a target -/

/-- A request for a target is answered at once, or the target was not started and is computed. -/
theorem materialize_cases (hs : s.run.Coherent s.registry) (target : String) :
    (s.registry.producerIndex? target = none ∧
      s.materialize target = (.error (.unknownTarget target none), s)) ∨
    ∃ i, s.registry.producerIndex? target = some i ∧
      ((s.run.status target = .done ∧ ∃ a, s.run.artifact? target = some a ∧
          s.materialize target = (.ok a, s)) ∨
        (s.run.status target = .failed ∧
          s.materialize target = (.error (.previouslyFailed target), s)) ∨
        (s.run.status target = .notStarted ∧ s.materialize target = s.compute target)) := by
  unfold materialize Registry.lookup
  cases hi : s.registry.producerIndex? target with
  | none => exact Or.inl ⟨rfl, rfl⟩
  | some i =>
    refine Or.inr ⟨i, rfl, ?_⟩
    cases hst : s.run.status target with
    | notStarted => exact Or.inr (Or.inr ⟨rfl, rfl⟩)
    | inProgress => exact (hs.settled target hst).elim
    | failed => exact Or.inr (Or.inl ⟨rfl, rfl⟩)
    | done =>
      obtain ⟨a, ha⟩ := (hs.done_iff target).1 hst
      exact Or.inl ⟨rfl, a, ha, by rw [ha]⟩

theorem compute_of_ok {s s' : Scheduler} {target : String} {sequence : List Nat}
    (hp : s.plan target = .ok sequence) (he : s.executeAll sequence = (.ok (), s')) :
    s.compute target = (s'.artifact target, s') := by
  rw [compute, hp]
  simp only [he]

theorem compute_of_error {s s' : Scheduler} {target : String} {sequence : List Nat} {e : Error}
    (hp : s.plan target = .ok sequence) (he : s.executeAll sequence = (.error e, s')) :
    s.compute target = (.error e, s') := by
  rw [compute, hp]
  simp only [he]

theorem compute_snd (s : Scheduler) (target : String) {sequence : List Nat}
    (hp : s.plan target = .ok sequence) :
    (s.compute target).2 = (s.executeAll sequence).2 := by
  rcases he : s.executeAll sequence with ⟨e | ⟨⟩, s'⟩
  · rw [compute_of_error hp he]
  · rw [compute_of_ok hp he]

/-- What every execution of a ready descriptor keeps, and asking the signal, is kept by a request
for a target. -/
theorem materialize_preserves {I : Run → Prop} (hr : s.registry.Proper)
    (hcoherent : ∀ {r}, I r → r.Coherent s.registry)
    (hexecute : ∀ {r : Run} {i : Nat}, I r → r.Ready s.registry i →
      I (r.execute s.config (s.registry.descriptor i)).2)
    (hnotice : ∀ {r : Run}, I r → I { r with signal := r.signal.isCancelled.2 })
    (target : String) (hI : I s.run) :
    ∃ r, (s.materialize target).2 = { s with run := r } ∧ I r := by
  have hs := hcoherent hI
  have hstay : ∃ r, s = { s with run := r } ∧ I r := ⟨s.run, rfl, hI⟩
  rcases materialize_cases hs target with ⟨-, h⟩ | ⟨i, -, ⟨-, a, -, h⟩ | ⟨-, h⟩ | ⟨-, h⟩⟩
  · rwa [h]
  · rwa [h]
  · rwa [h]
  · rw [h]
    cases hp : s.plan target with
    | error e =>
      unfold compute
      rwa [hp]
    | ok sequence =>
      rw [compute_snd s target hp]
      have hsched := (plan_ok hr.toWellFormed hs hp).scheduled
      obtain ⟨r, hrun, hstops⟩ := s.stops_executeAll sequence
      refine ⟨r, hrun, ?_⟩
      -- The completed part is executed from ready descriptors only, and so is what failed.
      have hstep : ∀ {r r' : Run} {i : Nat}, I r → r.Ready s.registry i →
          r.execute s.config (s.registry.descriptor i) = (.ok (), r') → I r' := by
        intro r r' i hr hready he
        have := hexecute hr hready
        rwa [he] at this
      generalize (s.executeAll sequence).1 = answer at hstops
      cases hstops with
      | finished completed =>
        rw [← List.append_nil sequence] at hsched
        exact completed.preserves hr hstep hsched hI
      | failed _ _ split completed _ executed =>
        rw [split] at hsched
        have hI' := completed.preserves hr hstep hsched hI
        have := hexecute hI' (completed.scheduled hr hsched).ready
        rwa [executed] at this
      | cancelled _ _ split completed _ =>
        rw [split] at hsched
        exact hnotice (completed.preserves hr hstep hsched hI)

end Scheduler

end FactEngine
