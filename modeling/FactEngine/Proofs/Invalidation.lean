import FactEngine.Proofs.Executions
import FactEngine.Proofs.Freshness
import FactEngine.Proofs.Meaning
import FactEngine.Proofs.Resolvability

/-!
# Invalidation and what it costs

An invalidation forgets the outputs of a producer and of everything that consumes from it, and
nothing else (`Scheduler.invalidate_eq`, `mem_downstream_iff`). A target that was done before is
then done still, and answered as it was (`materialize_kept`), or it needs exactly what it was
computed from as far as that was forgotten (`neededFor_forgetting`).

The new request cannot be refused. All that the target was computed from has a producer and can
be prepared, since it was done (`Run.Fresh`), and none of it consumes from itself : a descriptor
is executed only when all that it consumes is done, so nothing on a circle is ever started
(`Run.Acyclic`), whatever circles the registry has. So if the run is not cancelled and no step
fails (`Scheduler.Smooth`), the request executes exactly what it needs, each descriptor once
(`invalidation_exact_and_reruns_minimal`).
-/

namespace FactEngine

/-! ## What was started -/

namespace Run

variable {registry : Registry} {c : Config} {r r' : Run} {i : Nat}

/-- No result is stale, nothing that was started consumes from itself, directly or through others,
and the outputs of what is done can be prepared. -/
structure Acyclic (registry : Registry) (r : Run) : Prop extends Fresh registry r where
  acyclic : ∀ i, r.Started registry i → ¬Relation.TransGen registry.ConsumesFrom i i
  preparable : ∀ i, ∀ n ∈ (registry.descriptor i).outputs, r.status n = .done →
    registry.preparable i = true

namespace Acyclic

/-- Statuses that are kept or dropped leave nothing else started or done. -/
theorem of_status (h : r.Acyclic registry) (hfresh : r'.Fresh registry)
    (hs : ∀ n, r'.status n = r.status n ∨ r'.status n = .notStarted) : r'.Acyclic registry := by
  refine ⟨hfresh, fun i ⟨n, hn, hst⟩ => h.acyclic i ⟨n, hn, ?_⟩, fun i n hn hst =>
    h.preparable i n hn ?_⟩
  · rcases hs n with hkept | hdropped
    · rwa [← hkept]
    · exact (hst hdropped).elim
  · rcases hs n with hkept | hdropped
    · rwa [← hkept]
    · cases hdropped.symm.trans hst

/-- What a ready descriptor consumes was started, so a circle through the descriptor would go
through something that was started. -/
theorem not_transGen_of_ready (h : r.Acyclic registry) (hi : r.Ready registry i) :
    ¬Relation.TransGen registry.ConsumesFrom i i := by
  intro hself
  obtain ⟨j, hij, hji⟩ := Relation.TransGen.head'_iff.1 hself
  obtain ⟨n, hn, hnj⟩ := id hij
  refine h.acyclic j ⟨n, hnj, ?_⟩ (.tail' hji hij)
  rw [hi.served n hn]
  exact TargetStatus.noConfusion

/-- The outputs of a descriptor that was executed with success can be prepared. -/
theorem preparable_of_execute (hi : r.Ready registry i) (hr : registry.WellFormed)
    (h : r.Coherent registry) (he : r.execute c (registry.descriptor i) = (.ok (), r')) :
    registry.preparable i = true := by
  have houtcome := r.outcome_execute c (registry.descriptor i)
  rw [he] at houtcome
  cases houtcome with
  | succeeded prepared _ => exact (hi.prepare_isOk_iff hr h).1 ⟨_, _, prepared⟩

theorem execute (h : r.Acyclic registry) (hr : registry.Proper) (hi : r.Ready registry i)
    (c : Config) : (r.execute c (registry.descriptor i)).2.Acyclic registry := by
  obtain ⟨succeeded, hx⟩ := hr.executed (r := r) c hi.bound
  refine ⟨h.toFresh.execute hr hi c, fun k ⟨n, hn, hst⟩ => ?_, fun k n hn hst => ?_⟩
  · by_cases hni : n ∈ (registry.descriptor i).outputs
    · rw [hr.place_unique hn hni]
      exact h.not_transGen_of_ready hi
    · rw [hx.status_other n hni] at hst
      exact h.acyclic k ⟨n, hn, hst⟩
  · by_cases hni : n ∈ (registry.descriptor i).outputs
    · rw [hr.place_unique hn hni]
      rcases he : r.execute c (registry.descriptor i) with ⟨e | ⟨⟩, r'⟩
      · rw [he, (hr.failed hi.bound he).status n hni] at hst
        cases hst
      · exact preparable_of_execute hi hr.toWellFormed h.toCoherent he
    · rw [hx.status_other n hni] at hst
      exact h.preparable k n hn hst

theorem forget (h : r.Acyclic registry) (hr : registry.WellFormed) {names : List String}
    (hc : registry.Closed names) : (r.forget names).Acyclic registry := by
  refine h.of_status (h.toFresh.forget hr hc) fun n => ?_
  rw [status_forget]
  split
  · exact Or.inr rfl
  · exact Or.inl rfl

end Acyclic

theorem stable_acyclic (hr : registry.Proper) (c : Config) :
    Stable registry c (Acyclic registry) where
  empty := ⟨(stable_fresh hr c).empty, fun _ ⟨_, _, hst⟩ => (hst rfl).elim, nofun⟩
  coherent h := h.toCoherent
  execute h hi := h.execute hr hi c
  notice h := h.of_status ((stable_fresh hr c).notice h.toFresh) fun _ => Or.inl rfl
  forget h hc := h.forget hr.toWellFormed hc
  clear h := h.of_status ((stable_fresh hr c).clear h.toFresh) fun _ => Or.inr rfl

theorem acyclic_after {ds : List Draft} (hk : ∀ d ∈ ds, d.fill.KeepsNames) (c : Config)
    (history : List Request) :
    ∃ r, (Scheduler.new (.ofDrafts ds) c).after history = ⟨.ofDrafts ds, c, r⟩ ∧
      r.Acyclic (.ofDrafts ds) :=
  (stable_acyclic (Registry.proper_ofDrafts hk) c).after (Registry.proper_ofDrafts hk)
    (fun _ h => h.of_status (h.toFresh.of_grows (fun _ => rfl) (fun _ => rfl) rfl (.refl _))
      fun _ => Or.inl rfl)
    (fun hg h => h.of_status (h.toFresh.of_grows (fun _ => rfl) (fun _ => rfl) rfl hg)
      fun _ => Or.inl rfl) history

/-! ## What a done target was computed from -/

/-- What something done consumes from is done. -/
theorem Fresh.exists_done (h : r.Fresh registry) {k : Nat}
    (hi : ∃ n ∈ (registry.descriptor i).outputs, r.status n = .done)
    (hk : Relation.ReflTransGen registry.ConsumesFrom i k) :
    ∃ n ∈ (registry.descriptor k).outputs, r.status n = .done := by
  induction hk with
  | refl => exact hi
  | tail _ hstep ih =>
    obtain ⟨m, hm, hdone⟩ := ih
    obtain ⟨n, hn, hnk⟩ := hstep
    exact ⟨n, hnk, (h.upToDate _ m hm (Or.inl hdone)).served n hn⟩

end Run

/-! ## Requests that go smoothly -/

/-- The step always succeeds and leaves the signal as it was. -/
def Fill.Steady (f : Fill) : Prop :=
  ∀ a, ∃ b, f.run a = (.ok (), b) ∧ b.run.signal = a.run.signal

/-- Steady steps leave the signal of the run as it was. -/
theorem Run.Completes.signal_eq {registry : Registry} {c : Config} {done : List Nat} {r r' : Run}
    (hc : Completes registry c r done r')
    (hsteady : ∀ i, (registry.descriptor i).fill.Steady) : r'.signal = r.signal := by
  induction hc with
  | nil => rfl
  | @cons r _ _ i _ _ executed _ ih =>
    refine ih.trans ?_
    have houtcome := outcome_execute r c (registry.descriptor i)
    rw [executed] at houtcome
    cases houtcome with
    | @succeeded o store b _ ran =>
      obtain ⟨b', hb, hsignal⟩ := hsteady i (r.session c (registry.descriptor i) o store)
      obtain rfl : b = b' := congrArg Prod.snd (ran.symm.trans hb)
      exact hsignal

namespace Scheduler

open Run Registry

variable {s : Scheduler} {target : String}

/-- While the plan of the target is executed, the run is not cancelled before a descriptor, and
every step that gets to run succeeds. -/
def Smooth (s : Scheduler) (target : String) : Prop :=
  ∀ done i rest r, s.plan target = .ok (done ++ i :: rest) →
    Completes s.registry s.config s.run done r →
      r.signal.isCancelled.1 = false ∧
      ∀ o store, Outputs.prepare (s.registry.descriptor i)
          (r.received (s.registry.descriptor i)) r.store = (.ok o, store) →
        ∃ session, (s.registry.descriptor i).fill.run
          (r.session s.config (s.registry.descriptor i) o store) = (.ok (), session)

/-- A plan that goes smoothly is executed to its end if all outputs can be prepared. -/
theorem Smooth.completes (hr : s.registry.Proper) (hs : s.run.Coherent s.registry)
    (h : s.Smooth target) {sequence : List Nat} (hp : s.plan target = .ok sequence)
    (hprep : ∀ i ∈ sequence, s.registry.preparable i = true) :
    ∃ r, s.executeAll sequence = (.ok (), { s with run := r }) ∧
      Completes s.registry s.config s.run sequence r := by
  have hsched := (plan_ok hr.toWellFormed hs hp).scheduled
  obtain ⟨r, hrun, hstops⟩ := s.stops_executeAll sequence
  rcases hx : s.executeAll sequence with ⟨answer, s'⟩
  rw [hx] at hrun hstops
  obtain rfl : s' = { s with run := r } := hrun
  cases hstops with
  | finished completed => exact ⟨r, rfl, completed⟩
  | @failed done rest i e r₁ _ split completed _ executed =>
    subst split
    obtain ⟨-, hfill⟩ := h done i rest r₁ hp completed
    have hready := (completed.scheduled hr hsched).ready
    have hcoherent : r₁.Coherent s.registry :=
      completed.coherent hr (fun k hk => hsched.bound k (List.mem_append_left _ hk)) hs
    obtain ⟨o, store, hprepared⟩ :=
      (hready.prepare_isOk_iff hr.toWellFormed hcoherent).2 (hprep i (by simp))
    obtain ⟨session, hran⟩ := hfill o store hprepared
    rw [execute_of_ok (fill_of_succeeded hprepared hran)] at executed
    cases executed
  | @cancelled done rest i r₁ split completed noticed =>
    subst split
    obtain ⟨hrunning, -⟩ := h done i rest r₁ hp completed
    rw [hrunning] at noticed
    cases noticed

/-- If no step can fail or touch the signal, every request goes smoothly unless the run is
cancelled before it. -/
theorem smooth_of_steady (hsteady : ∀ i, (s.registry.descriptor i).fill.Steady)
    (hrunning : s.run.signal.isCancelled.1 = false) (target : String) : s.Smooth target := by
  intro done i rest r _ hcompletes
  refine ⟨?_, fun o store _ => ?_⟩
  · rw [hcompletes.signal_eq hsteady]
    exact hrunning
  · obtain ⟨b, hb, -⟩ := hsteady i (r.session s.config (s.registry.descriptor i) o store)
    exact ⟨b, hb⟩

/-- A request that goes smoothly, for a target that was not started, executes the plan of the
target and answers, if all outputs can be prepared. -/
theorem Smooth.materialize (hr : s.registry.Proper) (hs : s.run.Coherent s.registry)
    (h : s.Smooth target) {sequence : List Nat} (hp : s.plan target = .ok sequence)
    (hprep : ∀ i ∈ sequence, s.registry.preparable i = true)
    (hidle : s.run.status target = .notStarted) :
    ∃ a r, s.materialize target = (.ok a, { s with run := r }) ∧
      Completed s.registry s.run sequence r := by
  obtain ⟨r, hexecuted, hcompletes⟩ := h.completes hr hs hp hprep
  obtain ⟨hcoherent, hdone⟩ := status_of_plan hr hs hp hexecuted
  obtain ⟨a, ha⟩ := (hcoherent.done_iff target).1 hdone
  obtain ⟨-, hsched, i, hi, -⟩ := plan_ok hr.toWellFormed hs hp
  refine ⟨a, r, ?_, hcompletes.completed hr hsched.bound⟩
  rcases materialize_cases hs target with ⟨hnone, -⟩ | ⟨-, -, ⟨hst, -⟩ | ⟨hst, -⟩ | ⟨-, h⟩⟩
  · cases hi.symm.trans hnone
  · cases hst.symm.trans hidle
  · cases hst.symm.trans hidle
  · rw [h, compute_of_ok hp hexecuted, artifact, ha]

/-! ## Invalidation -/

variable {p : Nat}

/-- The scheduler that has forgotten what lies downstream of the descriptor at `p`. -/
def forgetting (s : Scheduler) (p : Nat) : Scheduler :=
  { s with run := s.run.forget (s.downstream (s.registry.descriptor p)) }

theorem invalidate_eq (hr : s.registry.WellFormed) {n : String}
    (hn : n ∈ (s.registry.descriptor p).outputs) :
    s.invalidate n = (.ok (s.downstream (s.registry.descriptor p)), s.forgetting p) := by
  have hlookup := lookup_eq_ok_iff.2 ⟨p, hr.producerIndex?_eq_some_iff.2 hn, rfl⟩
  rw [invalidate, hlookup]
  rfl

theorem invalidate_unknown (hr : s.registry.WellFormed) {n : String}
    (hn : ∀ i, n ∉ (s.registry.descriptor i).outputs) :
    s.invalidate n = (.error (.unknownTarget n none), s) := by
  rw [invalidate, lookup, hr.producerIndex?_eq_none_iff.2 hn]

theorem mem_downstream_iff (hr : s.registry.WellFormed) (hp : p < s.registry.size) {m : String} :
    m ∈ s.downstream (s.registry.descriptor p) ↔
      ∃ k, Relation.ReflTransGen s.registry.ConsumesFrom k p ∧
        m ∈ (s.registry.descriptor k).outputs := by
  simp only [mem_downstream hr, downstream_iff hr hp]

/-- After an invalidation, what was done is pending exactly if it lies downstream. -/
theorem pending_forgetting (hr : s.registry.WellFormed) (hs : s.run.Coherent s.registry)
    (hp : p < s.registry.size) {k : Nat}
    (hk : ∃ m ∈ (s.registry.descriptor k).outputs, s.run.status m = .done) :
    s.registry.Pending (s.forgetting p).run.isDone k ↔
      Relation.ReflTransGen s.registry.ConsumesFrom k p := by
  obtain ⟨m, hm, hdone⟩ := hk
  constructor
  · rintro ⟨n, hn, hpending⟩
    by_contra hnot
    have hkept : n ∉ s.downstream (s.registry.descriptor p) := by
      intro hmem
      obtain ⟨j, hj, hnj⟩ := (mem_downstream_iff hr hp).1 hmem
      exact hnot (hr.place_unique hn hnj ▸ hj)
    rw [Run.isDone, forgetting, status_forget, if_neg hkept, hs.uniform k n hn m hm, hdone]
      at hpending
    cases hpending
  · intro hdown
    refine ⟨m, hm, ?_⟩
    rw [Run.isDone, forgetting, status_forget, if_pos ((mem_downstream_iff hr hp).2 ⟨k, hdown, hm⟩)]
    rfl

/-- After an invalidation, a target that was done needs exactly what it was computed from and
lies downstream. -/
theorem neededFor_forgetting (hr : s.registry.WellFormed) (hs : s.run.Fresh s.registry)
    (hp : p < s.registry.size) {q k : Nat} (hq : target ∈ (s.registry.descriptor q).outputs)
    (hdone : s.run.status target = .done) :
    s.registry.NeededFor (s.forgetting p).run.isDone target k ↔
      Relation.ReflTransGen s.registry.ConsumesFrom q k ∧
        Relation.ReflTransGen s.registry.ConsumesFrom k p := by
  have hpending := fun {j} (hj : Relation.ReflTransGen s.registry.ConsumesFrom q j) =>
    pending_forgetting hr hs.toCoherent hp (hs.exists_done ⟨target, hq, hdone⟩ hj)
  constructor
  · intro hneeded
    obtain ⟨i, hi, -, hreach⟩ := id hneeded
    obtain rfl := hr.place_unique hi hq
    have hik : Relation.ReflTransGen s.registry.ConsumesFrom i k :=
      hreach.lift id fun _ _ hstep => hstep.1
    exact ⟨hik, (hpending hik).1 hneeded.pending⟩
  · rintro ⟨hqk, hkp⟩
    refine ⟨q, hq, (hpending .refl).2 (hqk.trans hkp), ?_⟩
    induction hqk with
    | refl => exact .refl
    | tail hqj hstep ih =>
      exact .tail (ih (.head hstep hkp)) ⟨hstep, (hpending (hqj.tail hstep)).2 hkp⟩

/-- After an invalidation, a target that was done can be planned again, and the plan contains
each descriptor once that it was computed from and that lies downstream. -/
theorem exists_plan_forgetting (hr : s.registry.WellFormed) (hs : s.run.Acyclic s.registry)
    (hp : p < s.registry.size) {q : Nat} (hq : target ∈ (s.registry.descriptor q).outputs)
    (hdone : s.run.status target = .done) :
    ∃ sequence, (s.forgetting p).plan target = .ok sequence ∧ sequence.Nodup ∧
      ∀ k, k ∈ sequence ↔ Relation.ReflTransGen s.registry.ConsumesFrom q k ∧
        Relation.ReflTransGen s.registry.ConsumesFrom k p := by
  have hneeded := fun {k} => neededFor_forgetting (k := k) hr hs.toFresh hp hq hdone
  have hwas : ∀ {k}, s.registry.NeededFor (s.forgetting p).run.isDone target k →
      ∃ m ∈ (s.registry.descriptor k).outputs, s.run.status m = .done :=
    fun hk => hs.exists_done ⟨target, hq, hdone⟩ (hneeded.1 hk).1
  have hnot : ¬s.registry.Stuck (s.forgetting p).run.isDone target := by
    rintro (hnone | ⟨k, hk, ⟨n, hn, hnone⟩ | hself⟩)
    · exact hnone q hq
    · obtain ⟨m, hm, hm'⟩ := hwas hk
      have hserved := (hs.upToDate k m hm (Or.inl hm')).served n hn
      obtain ⟨j, hj⟩ := hs.produced n (by rw [hserved]; exact TargetStatus.noConfusion)
      exact hnone j hj
    · obtain ⟨m, hm, hm'⟩ := hwas hk
      refine hs.acyclic k ⟨m, hm, ?_⟩ (hself.lift id fun _ _ hstep => hstep.1)
      rw [hm']
      exact TargetStatus.noConfusion
  cases ho : s.registry.orderFor target (s.forgetting p).run.isDone with
  | error e => exact (hnot (hr.stuck_iff.2 ⟨e, ho⟩)).elim
  | ok order =>
    have hmem := fun {k} => (hr.mem_order_iff ho (k := k)).trans hneeded
    obtain ⟨-, -, hordered, -⟩ := orderFor_ok ho
    obtain ⟨sequence, hplan, hperm⟩ := plan_of_order (s := s.forgetting p) ho
      fun k hk n hn hfailed => by
        obtain ⟨m, hm, hm'⟩ := hwas ((hr.mem_order_iff ho).1 hk)
        rw [forgetting, status_forget] at hfailed
        split at hfailed
        · cases hfailed
        · rw [hs.uniform k n hn m hm, hm'] at hfailed
          cases hfailed
    exact ⟨sequence, hplan, hperm.nodup_iff.2 hordered.nodup,
      fun k => hperm.mem_iff.trans hmem⟩

theorem coherent_forgetting (hr : s.registry.WellFormed) (hs : s.run.Coherent s.registry)
    (hp : p < s.registry.size) : (s.forgetting p).run.Coherent s.registry :=
  hs.forget (closed_downstream hr hp).together

/-- A target that was done and is not forgotten is answered as before. -/
theorem materialize_kept (hr : s.registry.WellFormed) (hs : s.run.Coherent s.registry)
    (hp : p < s.registry.size) (hdone : s.run.status target = .done)
    (hkept : target ∉ s.downstream (s.registry.descriptor p)) :
    ∃ a, s.run.artifact? target = some a ∧
      (s.forgetting p).materialize target = (.ok a, s.forgetting p) := by
  have hdone' : (s.forgetting p).run.status target = .done := by
    rw [forgetting, status_forget, if_neg hkept, hdone]
  obtain ⟨a, ha, hm⟩ := materialize_done (s := s.forgetting p) hr
    (coherent_forgetting hr hs hp) hdone'
  rw [forgetting, artifact?_forget, if_neg hkept] at ha
  exact ⟨a, ha, hm⟩

/-- A request for a target that was done before an invalidation, if it goes smoothly, executes with
success what the target was computed from as far as it lies downstream, and answers. -/
theorem materialize_forgotten (hr : s.registry.Proper) (hs : s.run.Acyclic s.registry)
    (hp : p < s.registry.size) {q : Nat} (hq : target ∈ (s.registry.descriptor q).outputs)
    (hdone : s.run.status target = .done) (hsmooth : (s.forgetting p).Smooth target) :
    ∃ (executed : List Nat) (a : Artifact) (r : Run),
      (s.forgetting p).materialize target = (.ok a, { s with run := r }) ∧
      executed.Nodup ∧
      (∀ k, k ∈ executed ↔ Relation.ReflTransGen s.registry.ConsumesFrom q k ∧
        Relation.ReflTransGen s.registry.ConsumesFrom k p) ∧
      Completed s.registry (s.forgetting p).run executed r := by
  have hcoherent := coherent_forgetting hr.toWellFormed hs.toCoherent hp
  have hmem : target ∈ s.downstream (s.registry.descriptor p) ↔
      Relation.ReflTransGen s.registry.ConsumesFrom q p := by
    refine (mem_downstream_iff hr.toWellFormed hp).trans
      ⟨fun ⟨k, hk, hkt⟩ => ?_, fun h => ⟨q, h, hq⟩⟩
    exact hr.place_unique hq hkt ▸ hk
  have hprep : ∀ k, Relation.ReflTransGen s.registry.ConsumesFrom q k →
      s.registry.preparable k = true := by
    intro k hk
    obtain ⟨n, hn, hst⟩ := hs.exists_done ⟨target, hq, hdone⟩ hk
    exact hs.preparable k n hn hst
  by_cases hqp : Relation.ReflTransGen s.registry.ConsumesFrom q p
  · obtain ⟨sequence, hplan, hnodup, hsequence⟩ := 
      exists_plan_forgetting hr.toWellFormed hs hp hq hdone
    have hidle : (s.forgetting p).run.status target = .notStarted := by
      rw [forgetting, status_forget, if_pos (hmem.2 hqp)]
    obtain ⟨a, r, hm, hcompleted⟩ := Smooth.materialize (s := s.forgetting p) hr hcoherent hsmooth
      hplan (fun k hk => hprep k ((hsequence k).1 hk).1) hidle
    exact ⟨sequence, a, r, hm, hnodup, hsequence, hcompleted⟩
  · obtain ⟨a, -, hm⟩ := materialize_kept hr.toWellFormed hs.toCoherent hp hdone (mt hmem.1 hqp)
    refine ⟨[], a, _, hm, List.nodup_nil, fun k => ?_,
      Completes.completed (c := s.config) hr .nil (by simp)⟩
    simpa using fun hqk hkp => hqp (hqk.trans hkp)

/-- After every history, an invalidation of a registered name answers with the outputs of its
producer and of all that consumes from it, directly or through others, each once, and returns
these names, and no others, to where they were before they were started. An unregistered name is
refused, and nothing changes. Provided that steps replace relations by such of the same name only,
a target that was done and is not among the names is answered with the artifact that it had. A
target that was done is otherwise computed by executing what was invalidated of its producer and
of what that consumes from, each once, and nothing else, if the request goes smoothly. -/
theorem invalidation_exact_and_reruns_minimal (ds : List Draft) (c : Config)
    (history : List Request) (name : String) :
    let registry := Registry.ofDrafts ds
    let s := (Scheduler.new registry c).after history
    ((∀ i, name ∉ (registry.descriptor i).outputs) →
      s.invalidate name = (.error (.unknownTarget name none), s)) ∧
    (∀ p, name ∈ (registry.descriptor p).outputs → ∃ names s',
      s.invalidate name = (.ok names, s') ∧
      names.Nodup ∧
      (∀ n, n ∈ names ↔ ∃ k, Relation.ReflTransGen registry.ConsumesFrom k p ∧
        n ∈ (registry.descriptor k).outputs) ∧
      (∀ n ∈ names, s'.status n = .notStarted ∧ s'.run.artifact? n = none) ∧
      (∀ n ∉ names, s'.status n = s.status n ∧ s'.run.artifact? n = s.run.artifact? n) ∧
      ((∀ d ∈ ds, d.fill.KeepsNames) →
        (∀ target, s.status target = .done → target ∉ names →
          ∃ a, s.run.artifact? target = some a ∧ s'.materialize target = (.ok a, s')) ∧
        (∀ target q, s.status target = .done → target ∈ (registry.descriptor q).outputs →
          s'.Smooth target →
            ∃ (executed : List Nat) (a : Artifact) (r : Run) (records : List Execution),
            s'.materialize target = (.ok a, { s' with run := r }) ∧
            executed.Nodup ∧
            (∀ k, k ∈ executed ↔ Relation.ReflTransGen registry.ConsumesFrom k p ∧
              Relation.ReflTransGen registry.ConsumesFrom q k) ∧
            r.metrics.executions = s'.run.metrics.executions ++ records ∧
            records.map (fun e => (e.descriptor, e.succeeded)) =
              executed.map fun k => (registry.nameOf k, true)))) := by
  intro registry s
  have hr : registry.WellFormed := wellFormed_ofDrafts ds
  obtain ⟨r, hs⟩ : ∃ r, s = ⟨registry, c, r⟩ := exists_run_after (.new registry c) history
  have hacyclic : (∀ d ∈ ds, d.fill.KeepsNames) → r.Acyclic registry := by
    intro hk
    obtain ⟨r', hr', h⟩ := acyclic_after hk c history
    obtain rfl : r = r' := congrArg Scheduler.run (hs.symm.trans hr')
    exact h
  rw [hs]
  refine ⟨invalidate_unknown (s := ⟨registry, c, r⟩) hr, fun p hname => ?_⟩
  have hp : p < registry.size := lt_size_of_mem_outputs hname
  refine ⟨_, _, invalidate_eq (s := ⟨registry, c, r⟩) hr hname,
    Scheduler.nodup_downstream (s := ⟨registry, c, r⟩) hr _,
    fun n => mem_downstream_iff (s := ⟨registry, c, r⟩) hr hp, fun n hn => ?_, fun n hn => ?_,
    fun hk => ⟨fun target => ?_, fun target q hdone hq hsmooth => ?_⟩⟩
  · exact ⟨(status_forget _ _ n).trans (if_pos hn), (artifact?_forget _ _ n).trans (if_pos hn)⟩
  · exact ⟨(status_forget _ _ n).trans (if_neg hn), (artifact?_forget _ _ n).trans (if_neg hn)⟩
  · exact materialize_kept (s := ⟨registry, c, r⟩) hr (hacyclic hk).toCoherent hp
  · obtain ⟨executed, a, r', hm, hnodup, hmem, hcompleted⟩ :=
      materialize_forgotten (s := ⟨registry, c, r⟩) (proper_ofDrafts hk) (hacyclic hk) hp hq hdone
        hsmooth
    obtain ⟨records, hrecords, hnames⟩ := hcompleted.metrics
    exact ⟨executed, a, r', records, hm, hnodup, fun k => (hmem k).trans and_comm, hrecords, hnames⟩

/-- A print is made from a proof, which is made from the type, and from ink. The frame holds
itself. -/
def printing : List Draft :=
  [⟨"type", [⟨"type", .domain .text⟩], [], .finish⟩,
    ⟨"proof", [⟨"proof", .domain .text⟩], ["type"], .finish⟩,
    ⟨"ink", [⟨"ink", .domain .text⟩], [], .finish⟩,
    ⟨"print", [⟨"print", .domain .text⟩], ["proof", "ink"], .finish⟩,
    ⟨"frame", [⟨"frame", .domain .text⟩], ["frame"], .finish⟩]

theorem keepsNames_printing : ∀ d ∈ printing, d.fill.KeepsNames := by
  simp only [printing, List.forall_mem_cons, List.not_mem_nil, false_implies, implies_true,
    and_true]
  exact ⟨trivial, trivial, trivial, trivial, trivial⟩

theorem steady_printing (i : Nat) : ((ofDrafts printing).descriptor i).fill.Steady := by
  intro a
  match i with
  | 0 | 1 | 2 | 3 | 4 => exact ⟨a, rfl, rfl⟩
  | _ + 5 => exact ⟨a, rfl, rfl⟩

/-- When the proof is invalidated after a print, the next print is made from another proof, but
with the same type and ink. -/
theorem print_after_invalidation :
    let s := (Scheduler.new (.ofDrafts printing) ⟨.sequential, 0, .empty⟩).after
      [.materialize "print", .materialize "frame"]
    s.status "print" = .done ∧ (s.invalidate "proof").2.Smooth "print" ∧
      ∃ (executed : List Nat) (a : Artifact) (r : Run),
        (s.invalidate "proof").2.materialize "print" =
          (.ok a, { (s.invalidate "proof").2 with run := r }) ∧
        1 ∈ executed ∧ 3 ∈ executed ∧ 0 ∉ executed ∧ 2 ∉ executed := by
  intro s
  have hdone : s.status "print" = .done := by decide +kernel
  have hsmooth : (s.invalidate "proof").2.Smooth "print" := by
    obtain ⟨r, hs⟩ := exists_run_handle s (.invalidate "proof")
    obtain ⟨r', hs'⟩ := exists_run_after (.new (.ofDrafts printing) ⟨.sequential, 0, .empty⟩)
      [.materialize "print", .materialize "frame"]
    change (s.invalidate "proof").2 = _ at hs
    change s = _ at hs'
    refine smooth_of_steady ?_ (by decide +kernel) "print"
    rw [hs, hs']
    exact steady_printing
  have hproof : "proof" ∈ ((ofDrafts printing).descriptor 1).outputs := by decide
  have hprint : "print" ∈ ((ofDrafts printing).descriptor 3).outputs := by decide
  have hstep : (ofDrafts printing).ConsumesFrom 3 1 := ⟨"proof", by decide, hproof⟩
  have hnot : ∀ k, ((ofDrafts printing).descriptor k).consumes = [] → k ≠ 1 →
      ¬Relation.ReflTransGen (ofDrafts printing).ConsumesFrom k 1 := by
    intro k hnone hne hreach
    obtain rfl | ⟨j, ⟨n, hn, -⟩, -⟩ := hreach.cases_head
    · exact hne rfl
    · rw [hnone] at hn
      cases hn
  obtain ⟨names, s', hinvalidate, -, -, -, -, hrequests⟩ :=
    (invalidation_exact_and_reruns_minimal printing ⟨.sequential, 0, .empty⟩
      [.materialize "print", .materialize "frame"] "proof").2 1 hproof
  obtain rfl : (s.invalidate "proof").2 = s' := congrArg Prod.snd hinvalidate
  obtain ⟨executed, a, r, -, hm, -, hexecuted, -⟩ :=
    (hrequests keepsNames_printing).2 "print" 3 hdone hprint hsmooth
  exact ⟨hdone, hsmooth, executed, a, r, hm, (hexecuted 1).2 ⟨.refl, .single hstep⟩,
    (hexecuted 3).2 ⟨.single hstep, .refl⟩, fun h => hnot 0 rfl (by decide) ((hexecuted 0).1 h).1,
    fun h => hnot 2 rfl (by decide) ((hexecuted 2).1 h).1⟩

/-! ### Marks under another name -/

/-- Nothing consumes the index. -/
theorem downstream_index {s : Scheduler}
    (hs : s.registry = .ofDrafts (lettersAndMarks (renameMarks "notes"))) :
    s.downstream (s.registry.descriptor 2) = ["index"] := by
  have hr : s.registry.WellFormed := by
    rw [hs]
    exact wellFormed_ofDrafts _
  have hlast : ∀ j, ¬s.registry.ConsumesFrom j 2 := by
    rintro j ⟨n, hn, hnk⟩
    rw [hs] at hn hnk
    obtain rfl : n = "index" := List.mem_singleton.1 hnk
    match j with
    | 0 | 1 | 2 => exact absurd hn (by decide)
    | _ + 3 => cases hn
  have hmem : ∀ n, n ∈ s.downstream (s.registry.descriptor 2) ↔ n ∈ ["index"] := by
    intro n
    rw [mem_downstream_iff hr (by rw [hs]; decide)]
    constructor
    · rintro ⟨k, hk, hn⟩
      rcases hk.cases_tail with rfl | ⟨j, -, hj⟩
      · rwa [hs] at hn
      · exact (hlast j hj).elim
    · intro hn
      refine ⟨2, .refl, ?_⟩
      rwa [hs]
  have hnodup := nodup_downstream hr (s.registry.descriptor 2)
  exact List.perm_singleton.1 ((List.perm_ext_iff_of_nodup hnodup (by simp)).2 hmem)

/-- Marks that are replaced by a relation of another name are made again with the index although
only the index was invalidated. -/
theorem marks_made_again_with_index :
    let s := (ofMarks (renameMarks "notes")).after [.materialize "index"]
    s.status "index" = .done ∧ ∃ s', s.invalidate "index" = (.ok ["index"], s') ∧
      s'.run.metrics.executions.length = 3 ∧ (∃ a, (s'.materialize "index").1 = .ok a) ∧
      ((s'.materialize "index").2.run.metrics.executions.drop 3).map
        (fun e => (e.descriptor, e.succeeded)) = [("marks", true), ("index", true)] := by
  intro s
  obtain ⟨r, hs⟩ := exists_run_after (ofMarks (renameMarks "notes")) [.materialize "index"]
  have hregistry : s.registry = .ofDrafts (lettersAndMarks (renameMarks "notes")) :=
    congrArg Scheduler.registry hs
  have hr : s.registry.WellFormed := by
    rw [hregistry]
    exact wellFormed_ofDrafts _
  have hindex : "index" ∈ (s.registry.descriptor 2).outputs := by
    rw [hregistry]
    decide
  refine ⟨by decide +kernel, { s with run := s.run.forget ["index"] }, ?_, by decide +kernel,
    ?_, by decide +kernel⟩
  · rw [invalidate_eq hr hindex, forgetting, downstream_index hregistry]
  · have hok : (({ s with run := s.run.forget ["index"] } : Scheduler).materialize
        "index").1.isOk = true := by decide +kernel
    exact exists_ok_of_isOk hok

end Scheduler

end FactEngine
