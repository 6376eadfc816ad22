import FactEngine.Proofs.History

/-!
# The effect of one request for a target

A request can be refused (`Scheduler.Refused`) for what is known before anything is executed :
the target is unknown or failed, it cannot be resolved, or it needs something that failed.
Then nothing changes (`materialize_refused`), and nothing changes if the target is done.

Every other request executes the beginning of a sequence, the resolved order or its batches
one after another, and `Scheduler.Effect` says what that does. The executed descriptors were not
started before, all of them succeed but possibly the last, and nothing else changes. The
request ends in one of three ways (`Scheduler.Ending`) : the whole sequence was executed and
the target is answered, the last executed descriptor failed, or the run was cancelled before
the next one.
-/

namespace FactEngine

namespace Scheduler

open Run Registry

variable {s : Scheduler} {target : String}

/-! ## Refused requests -/

/-- What the target needs cannot be put in order : the producer of the target or something that
it needs consumes a name without a producer, or needs itself. -/
def Unresolvable (s : Scheduler) (target : String) : Prop :=
  ∃ i, s.registry.producerIndex? target = some i ∧
    s.registry.outputsDone s.run.isDone i = false ∧
    ∃ k, s.registry.Reaches s.run.isDone i k ∧
      ((∃ n ∈ (s.registry.descriptor k).consumes, s.registry.producerIndex? n = none) ∨
        Relation.TransGen (s.registry.Needs s.run.isDone) k k)

/-- The producer of the target, or something not done that it needs, has an output that failed. -/
def Blocked (s : Scheduler) (target : String) : Prop :=
  ∃ i, s.registry.producerIndex? target = some i ∧
    s.registry.outputsDone s.run.isDone i = false ∧
    ∃ k, s.registry.Reaches s.run.isDone i k ∧
      ∃ n ∈ (s.registry.descriptor k).outputs, s.run.status n = .failed

/-- The request for the target is refused before anything is executed. -/
def Refused (s : Scheduler) (target : String) : Prop :=
  s.registry.producerIndex? target = none ∨ s.run.status target = .failed ∨
    s.Unresolvable target ∨ s.Blocked target

theorem unresolvable_of_orderFor (hr : s.registry.WellFormed) {e : Error}
    (h : s.registry.orderFor target s.run.isDone = .error e) :
    s.registry.producerIndex? target = none ∨ s.Unresolvable target := by
  rcases orderFor_error hr h with ⟨hnone, -⟩ | ⟨i, hi, hd, hrefused⟩
  · exact Or.inl hnone
  · exact Or.inr ⟨i, hi, hd, hrefused.exists_barred⟩

/-- A target that has a resolved order is not unresolvable. -/
theorem not_unresolvable {order : List Nat}
    (h : s.registry.orderFor target s.run.isDone = .ok order) : ¬s.Unresolvable target := by
  rintro ⟨i, hi, hd, k, hk, hbarred⟩
  obtain ⟨-, -, hordered, -⟩ := orderFor_ok h
  exact hordered.not_barred ((mem_orderFor_iff h).2 ⟨i, hi, hd, hk⟩) hbarred

/-- A target with a plan can be resolved, and nothing that it needs failed. -/
theorem not_blocked_of_plan {sequence : List Nat} (h : s.plan target = .ok sequence) :
    ¬s.Unresolvable target ∧ ¬s.Blocked target := by
  unfold plan at h
  split at h
  · cases h
  · rename_i order horder
    split at h
    · cases h
    · rename_i hf
      refine ⟨not_unresolvable horder, ?_⟩
      rintro ⟨i, hi, hd, k, hk, n, hn, hfailed⟩
      exact firstFailed?_eq_none hf k ((mem_orderFor_iff horder).2 ⟨i, hi, hd, hk⟩) n hn hfailed

/-- A request for a target that was not started is not refused if there is a plan. -/
theorem not_refused_of_plan {sequence : List Nat} (hp : s.plan target = .ok sequence)
    (hidle : s.run.status target = .notStarted)
    (hproduced : s.registry.producerIndex? target ≠ none) : ¬s.Refused target := by
  obtain ⟨hun, hblocked⟩ := not_blocked_of_plan hp
  rintro (hnone | hfailed | h | h)
  · exact hproduced hnone
  · rw [hidle] at hfailed
    cases hfailed
  · exact hun h
  · exact hblocked h

/-- A target without a plan is refused. -/
theorem refused_of_plan (hr : s.registry.WellFormed) {e : Error}
    (h : s.plan target = .error e) : s.Refused target := by
  unfold plan at h
  split at h
  · rename_i e' horder
    rcases unresolvable_of_orderFor hr horder with hnone | hun
    · exact Or.inl hnone
    · exact Or.inr (Or.inr (Or.inl hun))
  · rename_i order horder
    obtain ⟨-, -, hordered, -⟩ := orderFor_ok horder
    split at h
    · rename_i n hn
      have hfailed : s.run.status n = .failed := by simpa using List.find?_some hn
      obtain ⟨k, hk, hnk⟩ := List.mem_flatMap.1 (List.mem_of_find?_eq_some hn)
      obtain ⟨i, hi, hd, hreach⟩ := (mem_orderFor_iff horder).1 hk
      exact Or.inr (Or.inr (Or.inr ⟨i, hi, hd, k, hreach, n, hnk, hfailed⟩))
    · obtain ⟨sequence, hseq, -⟩ := schedule_ok s.config.strategy hordered
      rw [hseq] at h
      cases h

/-- A request that is refused is answered with an error and changes nothing. -/
theorem materialize_refused (hr : s.registry.WellFormed) (hs : s.run.Coherent s.registry)
    (h : s.Refused target) : ∃ e, s.materialize target = (.error e, s) := by
  rcases materialize_cases hs target with
    ⟨-, hm⟩ | ⟨i, hi, ⟨hdone, -⟩ | ⟨-, hm⟩ | ⟨hidle, hm⟩⟩
  · exact ⟨_, hm⟩
  · have hproduced := hr.producerIndex?_eq_some_iff.1 hi
    have hpending : ∀ {j}, s.registry.producerIndex? target = some j →
        s.registry.outputsDone s.run.isDone j = false → False := by
      intro j hj hd
      obtain rfl : i = j := Option.some.inj (hi.symm.trans hj)
      exact status_ne_done hs hd hproduced hdone
    rcases h with hnone | hfailed | ⟨j, hj, hd, -⟩ | ⟨j, hj, hd, -⟩
    · rw [hi] at hnone
      cases hnone
    · rw [hdone] at hfailed
      cases hfailed
    · exact (hpending hj hd).elim
    · exact (hpending hj hd).elim
  · exact ⟨_, hm⟩
  · rw [hm]
    cases hp : s.plan target with
    | error e => exact ⟨e, by rw [compute, hp]⟩
    | ok sequence =>
      have hproduced : s.registry.producerIndex? target ≠ none := by simp [hi]
      exact (not_refused_of_plan hp hidle hproduced h).elim

/-- A target that is done is answered with its artifact, and nothing changes. -/
theorem materialize_done (hr : s.registry.WellFormed) (hs : s.run.Coherent s.registry)
    (hdone : s.run.status target = .done) :
    ∃ a, s.run.artifact? target = some a ∧ s.materialize target = (.ok a, s) := by
  rcases materialize_cases hs target with
    ⟨hnone, -⟩ | ⟨i, -, ⟨-, h⟩ | ⟨hfailed, -⟩ | ⟨hidle, -⟩⟩
  · obtain ⟨i, hi⟩ := hs.produced target (by rw [hdone]; exact TargetStatus.noConfusion)
    rw [hr.producerIndex?_eq_some_iff.2 hi] at hnone
    cases hnone
  · exact h
  · cases hdone.symm.trans hfailed
  · cases hdone.symm.trans hidle

/-! ## Requests that are not refused -/

/-- How a request ends after the descriptors `executed` of a sequence, with `rest` left over. -/
inductive Ending (s : Scheduler) (target : String) (executed rest : List Nat) :
    Except Error Artifact → Run → Prop
  /-- Nothing is left over, and the target is answered. -/
  | answered {a : Artifact} {r : Run} (completed : Completes s.registry s.config s.run executed r)
      (all : rest = []) (done : r.status target = .done) (answer : r.artifact? target = some a) :
      Ending s target executed rest (.ok a) r
  /-- The last executed descriptor failed, for a cause of its own. -/
  | failed (before : List Nat) {i : Nat} {e : Error} {r₁ r : Run} (last : executed = before ++ [i])
      (completed : Completes s.registry s.config s.run before r₁)
      (execution : r₁.execute s.config (s.registry.descriptor i) = (.error e, r))
      (cause : Cause r₁ s.config (s.registry.descriptor i) e)
      (failed : ∀ n ∈ (s.registry.descriptor i).outputs,
        r.status n = .failed ∧ r.artifact? n = none) :
      Ending s target executed rest (.error e) r
  /-- The run was cancelled before the next descriptor. -/
  | cancelled {i : Nat} {r : Run} (next : rest.head? = some i)
      (completed : Completes s.registry s.config s.run executed r)
      (noticed : r.signal.isCancelled.1 = true) :
      Ending s target executed rest
        (.error (.cancelled (s.registry.nameOf i) r.signal.isCancelled.2.reason))
        { r with signal := r.signal.isCancelled.2 }

/-- What a request does that executes the descriptors `executed` and leaves `rest` over. -/
structure Effect (s : Scheduler) (target : String) (executed rest : List Nat)
    (answer : Except Error Artifact) (r : Run) : Prop where
  sequence : ∃ order, s.registry.orderFor target s.run.isDone = .ok order ∧
    s.registry.schedule s.config.strategy order = .ok (executed ++ rest)
  idle : ∀ i ∈ executed, ∀ n ∈ (s.registry.descriptor i).outputs, s.run.status n = .notStarted
  started : ∀ j < executed.length, ∃ r₁,
    Completes s.registry s.config s.run (executed.take j) r₁ ∧ r₁.signal.isCancelled.1 = false
  published : ∀ i ∈ executed.dropLast, ∀ n ∈ (s.registry.descriptor i).outputs,
    r.status n = .done ∧ ∃ a, r.artifact? n = some a
  other : ∀ n, (∀ i ∈ executed, n ∉ (s.registry.descriptor i).outputs) →
    r.status n = s.run.status n ∧ r.artifact? n = s.run.artifact? n
  metrics : ∃ records, r.metrics.executions = s.run.metrics.executions ++ records ∧
    records.map Execution.descriptor = executed.map s.registry.nameOf
  ending : s.Ending target executed rest answer r

/-- The part of an effect that all endings share, when every execution succeeded. -/
theorem effect_of_completes (hr : s.registry.Proper) (hs : s.run.Coherent s.registry)
    {executed rest : List Nat} (hp : s.plan target = .ok (executed ++ rest)) {r r' : Run}
    (hc : Completes s.registry s.config s.run executed r) {signal : Signal}
    (hsignal : r' = { r with signal }) {answer : Except Error Artifact}
    (he : s.Ending target executed rest answer r') : s.Effect target executed rest answer r' := by
  obtain ⟨horder, hsched, -⟩ := plan_ok hr.toWellFormed hs hp
  have hbound : ∀ i ∈ executed, i < s.registry.size :=
    fun i hi => hsched.bound i (List.mem_append_left _ hi)
  have hdone := hc.completed hr hbound
  have hcoherent := hc.coherent hr hbound hs
  subst hsignal
  refine ⟨horder, fun i hi => hsched.idle i (List.mem_append_left _ hi),
    fun j hj => hc.running hj, fun i hi n hn => ?_, fun n hn => ?_, ?_, he⟩
  · have hst := hdone.status i (List.dropLast_subset _ hi) n hn
    exact ⟨hst, (hcoherent.done_iff n).1 hst⟩
  · exact ⟨hdone.status_other n hn, hdone.artifact?_other n hn⟩
  · exact hdone.records

/-- The effect of a request whose last execution failed. -/
theorem effect_of_error (hr : s.registry.Proper) (hs : s.run.Coherent s.registry)
    {before rest : List Nat} {i : Nat} (hp : s.plan target = .ok (before ++ i :: rest))
    {r₁ r : Run} {e : Error} (hc : Completes s.registry s.config s.run before r₁)
    (hrunning : r₁.signal.isCancelled.1 = false)
    (he : r₁.execute s.config (s.registry.descriptor i) = (.error e, r)) :
    s.Effect target (before ++ [i]) rest (.error e) r := by
  obtain ⟨horder, hsched, -⟩ := plan_ok hr.toWellFormed hs hp
  have hmem : before ++ [i] ⊆ before ++ i :: rest :=
    ((List.singleton_sublist.2 List.mem_cons_self).append_left before).subset
  have hbound : ∀ k ∈ before, k < s.registry.size :=
    fun k hk => hsched.bound k (List.mem_append_left _ hk)
  have hi : i < s.registry.size := hsched.bound i (by simp)
  have hdone := hc.completed hr hbound
  have hfailed := hr.failed hi he
  have hstatus : ∀ k ∈ before, ∀ n ∈ (s.registry.descriptor k).outputs, r.status n = .done := by
    intro k hk n hn
    have hni : n ∉ (s.registry.descriptor i).outputs := by
      intro hni
      obtain rfl := hr.place_unique hn hni
      exact (List.nodup_append.1 hsched.nodup).2.2 k hk k List.mem_cons_self rfl
    rw [hfailed.status_other n hni, hdone.status k hk n hn]
  have hcoherent : r.Coherent s.registry := by
    have := (hc.coherent hr hbound hs).execute hr hi s.config
    rwa [he] at this
  refine ⟨?_, fun k hk => hsched.idle k (hmem hk), fun j hj => ?_, fun k hk n hn => ?_,
    fun n hn => ?_, ?_, .failed before rfl hc he hfailed.cause fun n hn =>
      ⟨hfailed.status n hn, hfailed.artifact?_none n hn⟩⟩
  · simpa using horder
  · rw [List.length_append, List.length_singleton] at hj
    rcases Nat.lt_succ_iff_lt_or_eq.1 hj with hj | rfl
    · obtain ⟨r₀, hr₀, hrunning₀⟩ := hc.running hj
      exact ⟨r₀, by rwa [List.take_append_of_le_length hj.le], hrunning₀⟩
    · exact ⟨r₁, by rwa [List.take_left], hrunning⟩
  · rw [List.dropLast_concat] at hk
    have hst := hstatus k hk n hn
    exact ⟨hst, (hcoherent.done_iff n).1 hst⟩
  · have hni := hn i (by simp)
    have hbefore : ∀ k ∈ before, n ∉ (s.registry.descriptor k).outputs :=
      fun k hk => hn k (List.mem_append_left _ hk)
    exact ⟨(hfailed.status_other n hni).trans (hdone.status_other n hbefore),
      (hfailed.artifact?_other n hni).trans (hdone.artifact?_other n hbefore)⟩
  · obtain ⟨records, hrecords, hnames⟩ := hdone.records
    obtain ⟨sizes, hsizes⟩ := hfailed.metrics
    refine ⟨records ++ [⟨s.registry.nameOf i, false, 0, sizes⟩], ?_, ?_⟩
    · rw [hsizes, hrecords, List.append_assoc, Registry.nameOf]
    · rw [List.map_append, List.map_append, hnames]
      rfl

/-- A request that has a plan executes the beginning of it. -/
theorem effect_of_plan (hr : s.registry.Proper) (hs : s.run.Coherent s.registry)
    {sequence : List Nat} (hp : s.plan target = .ok sequence) :
    ∃ executed rest r, (s.compute target).2 = { s with run := r } ∧
      s.Effect target executed rest (s.compute target).1 r := by
  obtain ⟨r, hrun, hstops⟩ := s.stops_executeAll sequence
  rcases he : s.executeAll sequence with ⟨answer, s'⟩
  rw [he] at hrun hstops
  obtain rfl : s' = { s with run := r } := hrun
  cases hstops with
  | finished completed =>
    obtain ⟨hcoherent, hdone⟩ := status_of_plan hr hs hp he
    obtain ⟨a, ha⟩ := (hcoherent.done_iff target).1 hdone
    have hanswer : ({ s with run := r } : Scheduler).artifact target = .ok a := by
      rw [artifact, ha]
    rw [compute_of_ok hp he, hanswer]
    exact ⟨sequence, [], r, rfl, effect_of_completes hr hs (by rwa [List.append_nil]) completed
      rfl (.answered completed rfl hdone ha)⟩
  | failed done rest split completed running executed =>
    rw [compute_of_error hp he]
    exact ⟨_, rest, r, rfl, effect_of_error hr hs (split ▸ hp) completed running executed⟩
  | @cancelled done rest i r₁ split completed noticed =>
    rw [compute_of_error hp he]
    exact ⟨done, i :: rest, _, rfl, effect_of_completes hr hs (split ▸ hp) completed
      rfl (.cancelled rfl completed noticed)⟩

/-- After every history, a request that is refused changes nothing, neither does one for a target
that is done, and every other request has an effect, whatever the steps do short of replacing a
relation by one of another name. -/
theorem effect_of_materialize {ds : List Draft} (hk : ∀ d ∈ ds, d.fill.KeepsNames) (c : Config)
    (history : List Request) (target : String) :
    let s := (Scheduler.new (.ofDrafts ds) c).after history
    (s.Refused target → ∃ e, s.materialize target = (.error e, s)) ∧
    (s.status target = .done →
      ∃ a, s.run.artifact? target = some a ∧ s.materialize target = (.ok a, s)) ∧
    (¬s.Refused target → s.status target ≠ .done →
      ∃ executed rest r, (s.materialize target).2 = { s with run := r } ∧
        s.Effect target executed rest (s.materialize target).1 r) := by
  intro s
  obtain ⟨r, hs, hc⟩ : ∃ r, s = ⟨.ofDrafts ds, c, r⟩ ∧ r.Coherent (.ofDrafts ds) :=
    coherent_after hk c history
  have hr : s.registry.Proper := by
    rw [hs]
    exact proper_ofDrafts hk
  have hcoherent : s.run.Coherent s.registry := by
    rw [hs]
    exact hc
  refine ⟨materialize_refused hr.toWellFormed hcoherent,
    materialize_done hr.toWellFormed hcoherent,
    fun hnot hpending => ?_⟩
  rcases materialize_cases hcoherent target with
    ⟨hnone, -⟩ | ⟨i, -, ⟨hst, -⟩ | ⟨hst, -⟩ | ⟨-, h⟩⟩
  · exact (hnot (Or.inl hnone)).elim
  · exact (hpending hst).elim
  · exact (hnot (Or.inr (Or.inl hst))).elim
  · rw [h]
    cases hp : s.plan target with
    | error e => exact (hnot (refused_of_plan hr.toWellFormed hp)).elim
    | ok sequence => exact effect_of_plan hr hcoherent hp

/-! ### Marks under another name -/

/-- The descriptors that are executed for the index, whatever the marks are called. -/
theorem nameOf_executed {fill : Fill} {executed rest : List Nat} {answer : Except Error Artifact}
    {r : Run} (h : (ofMarks fill).Effect "index" executed rest answer r)
    (hr : r.metrics.executions.map Execution.descriptor = ["letters", "marks", "index"]) :
    executed.map (ofMarks fill).registry.nameOf = ["letters", "marks", "index"] := by
  obtain ⟨records, hrecords, hnames⟩ := h.metrics
  rw [← hnames, ← hr, hrecords]
  rfl

/-- If the marks are replaced by a relation that is called so as well, the request for the index
executes all three descriptors. -/
theorem effect_of_index :
    let s := ofMarks (renameMarks "marks")
    (∀ d ∈ lettersAndMarks (renameMarks "marks"), d.fill.KeepsNames) ∧
      ¬s.Refused "index" ∧ ∃ executed rest r, (s.materialize "index").2 = { s with run := r } ∧
        s.Effect "index" executed rest (s.materialize "index").1 r ∧
        executed.map s.registry.nameOf = ["letters", "marks", "index"] := by
  intro s
  have hmetrics : (s.materialize "index").2.run.metrics.executions.map Execution.descriptor =
      ["letters", "marks", "index"] := by decide +kernel
  obtain ⟨hrefused, -, heffect⟩ :=
    effect_of_materialize keepsNames_renameMarks ⟨.sequential, 0, .empty⟩ [] "index"
  have hnot : ¬s.Refused "index" := by
    intro h
    obtain ⟨e, he⟩ := hrefused h
    have hsame : (s.materialize "index").2 = s := congrArg Prod.snd he
    rw [hsame] at hmetrics
    cases hmetrics
  obtain ⟨executed, rest, r, hrun, h⟩ := heffect hnot (by decide)
  rw [show (s.materialize "index").2 = _ from hrun] at hmetrics
  exact ⟨keepsNames_renameMarks, hnot, executed, rest, r, hrun, h, nameOf_executed h hmetrics⟩

/-- If the marks are replaced by a relation that is called otherwise, they stay in progress although
they are executed before the index, which succeeds. -/
theorem marks_left_in_progress :
    let s := ofMarks (renameMarks "notes")
    ¬s.Refused "index" ∧ s.status "index" ≠ .done ∧
      (s.materialize "index").2.run.metrics.executions.map
        (fun e => (e.descriptor, e.succeeded)) =
          [("letters", true), ("marks", true), ("index", true)] ∧
      (s.materialize "index").2.status "marks" = .inProgress ∧
      (s.materialize "index").2.status "index" = .done ∧
      ¬∃ executed rest r, (s.materialize "index").2 = { s with run := r } ∧
        s.Effect "index" executed rest (s.materialize "index").1 r := by
  intro s
  have hmetrics : (s.materialize "index").2.run.metrics.executions.map Execution.descriptor =
      ["letters", "marks", "index"] := by decide +kernel
  have hstatus : (s.materialize "index").2.status "marks" = .inProgress := by decide +kernel
  have hplan : (s.plan "index").isOk = true := by decide +kernel
  obtain ⟨sequence, hp⟩ := exists_ok_of_isOk hplan
  have hnot : ¬s.Refused "index" := not_refused_of_plan hp rfl (by decide)
  refine ⟨hnot, by decide, by decide +kernel, hstatus, by decide +kernel, ?_⟩
  rintro ⟨executed, rest, r, hrun, h⟩
  rw [hrun] at hmetrics hstatus
  obtain ⟨i, is, rfl, -, his⟩ := List.map_eq_cons_iff.1 (nameOf_executed h hmetrics)
  obtain ⟨j, js, rfl, hj, hjs⟩ := List.map_eq_cons_iff.1 his
  obtain ⟨k, ks, rfl, -, -⟩ := List.map_eq_cons_iff.1 hjs
  -- the second one that was executed makes the marks, and there is another one after it
  have hmarks : "marks" ∈ (s.registry.descriptor j).outputs := by
    clear h hjs his
    match j, hj with
    | 1, _ => decide
    | 2, hj => exact absurd hj (by decide)
    | j + 3, hj =>
      have hpast : s.registry.nameOf (j + 3) = "" := rfl
      rw [hpast] at hj
      exact absurd hj (by decide)
  have hdone := (h.published j (by simp) "marks" hmarks).1
  exact TargetStatus.noConfusion (hstatus.symm.trans hdone)

end Scheduler

end FactEngine
