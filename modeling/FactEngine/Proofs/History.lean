import FactEngine.Proofs.Graph
import FactEngine.Proofs.Schedule

/-!
# Histories of requests

A client asks for targets, invalidates them, resets the scheduler, works on its token, and
interns facts in domains that it holds. `Scheduler.after` is the scheduler after a list of such
requests. Only the run changes, and only by what `Run.Stable` lists : executions of ready
descriptors, forgetting what is `Registry.Closed`, dropping everything, other signals and
grown stores. What is stable therefore holds after every history (`Stable.after`), and what
survives only the first three of these holds after the histories without the rest
(`Stable.after_plain`).

The first such property is coherence (`coherent_after`).
-/

namespace FactEngine

/-! ## What is forgotten together -/

namespace Registry

/-- The names contain all outputs of a descriptor or none, and all if it consumes one of them. -/
structure Closed (registry : Registry) (names : List String) : Prop where
  together : ∀ i, ∀ n ∈ (registry.descriptor i).outputs,
    ∀ m ∈ (registry.descriptor i).outputs, n ∈ names → m ∈ names
  downstream : ∀ i < registry.size, ∀ n ∈ (registry.descriptor i).consumes, n ∈ names →
    (∃ j, registry.producerIndex? n = some j) → ∀ m ∈ (registry.descriptor i).outputs, m ∈ names

theorem named?_eq_some_iff {registry : Registry} (hr : registry.WellFormed) {name : String}
    {d : Descriptor} : registry.named? name = some d ↔
      ∃ k < registry.size, registry.nameOf k = name ∧ registry.descriptor k = d := by
  unfold named?
  rw [Option.map_eq_some_iff]
  exact exists_congr fun k => (and_congr_left' (hr.byName name k)).trans and_assoc

end Registry

namespace Scheduler

open Registry

variable {s : Scheduler}

/-- What an invalidation forgets are the outputs of the descriptors downstream. -/
theorem mem_downstream (hr : s.registry.WellFormed) {i : Nat} {n : String} :
    n ∈ s.downstream (s.registry.descriptor i) ↔
      ∃ k, s.registry.Downstream i k ∧ n ∈ (s.registry.descriptor k).outputs := by
  simp only [downstream, List.mem_flatMap, List.mem_filterMap]
  constructor
  · rintro ⟨d, ⟨name, hname, hd⟩, hn⟩
    obtain ⟨k, hk, rfl, rfl⟩ := (named?_eq_some_iff hr).1 hd
    exact ⟨k, ⟨hk, hname⟩, hn⟩
  · rintro ⟨k, ⟨hk, hname⟩, hn⟩
    exact ⟨_, ⟨_, hname, (named?_eq_some_iff hr).2 ⟨k, hk, rfl, rfl⟩⟩, hn⟩

theorem closed_downstream (hr : s.registry.WellFormed) {i : Nat} (hi : i < s.registry.size) :
    s.registry.Closed (s.downstream (s.registry.descriptor i)) := by
  refine ⟨fun k n hn m hm hin => ?_, fun k hk n hn hin hj m hm => ?_⟩
  · obtain ⟨k', hdown, hnk⟩ := (mem_downstream hr).1 hin
    obtain rfl := hr.place_unique hn hnk
    exact (mem_downstream hr).2 ⟨k, hdown, hm⟩
  · obtain ⟨j, hdown, hnj⟩ := (mem_downstream hr).1 hin
    have hdep : j ∈ s.registry.dependencies k :=
      hr.mem_dependencies.2 ⟨n, hn, hr.producerIndex?_eq_some_iff.2 hnj⟩
    exact (mem_downstream hr).2 ⟨k, hdown.step hr hi hk hdep, hm⟩

end Scheduler

/-! ## Requests -/

/-- A request of a client. -/
inductive Request where
  /-- Ask for a target. -/
  | materialize (target : String)
  /-- Forget a target and what is downstream. -/
  | invalidate (target : String)
  /-- Forget everything. -/
  | reset
  /-- Cancel the run. -/
  | cancel (reason : Option String)
  /-- Set a timeout. -/
  | setTimeout (ms : Nat)
  /-- Ask whether the run is cancelled. -/
  | askCancelled
  /-- Clear the signal. -/
  | clearSignal
  /-- Intern facts in a domain that the client holds. -/
  | extend (a : Artifact) (t : FactType) (fs : List t.Carrier)

namespace Request

/-- Whether a request neither works on the signal nor interns facts. -/
def IsPlain : Request → Prop
  | materialize _ | invalidate _ | reset => True
  | _ => False

end Request

namespace Scheduler

/-- The scheduler after a request. -/
def handle (s : Scheduler) : Request → Scheduler
  | .materialize target => (s.materialize target).2
  | .invalidate target => (s.invalidate target).2
  | .reset => s.reset
  | .cancel reason => (s.signal fun g => ((), g.cancel reason)).2
  | .setTimeout ms => (s.signal fun g => ((), g.setTimeout ms)).2
  | .askCancelled => (s.signal Signal.isCancelled).2
  | .clearSignal => (s.signal fun _ => ((), .clear)).2
  | .extend a t fs => (s.extend a t fs).2

/-- The scheduler after some requests. -/
def after (s : Scheduler) (history : List Request) : Scheduler :=
  history.foldl handle s

/-- Requests change nothing but the run. -/
theorem exists_run_handle (s : Scheduler) (q : Request) :
    ∃ r, s.handle q = { s with run := r } := by
  cases q with
  | materialize target =>
    change ∃ r, (s.materialize target).2 = _
    unfold materialize
    split
    · exact ⟨s.run, rfl⟩
    · split
      · exact ⟨s.run, rfl⟩
      · exact ⟨s.run, rfl⟩
      · cases hp : s.plan target with
        | error e => exact ⟨s.run, by rw [compute, hp]⟩
        | ok sequence =>
          obtain ⟨r, hr, -⟩ := s.stops_executeAll sequence
          exact ⟨r, (compute_snd s target hp).trans hr⟩
  | invalidate name =>
    change ∃ r, (s.invalidate name).2 = _
    unfold invalidate
    split
    · exact ⟨s.run, rfl⟩
    · exact ⟨_, rfl⟩
  | _ => exact ⟨_, rfl⟩

theorem exists_run_after (s : Scheduler) (history : List Request) :
    ∃ r, s.after history = { s with run := r } := by
  induction history generalizing s with
  | nil => exact ⟨s.run, rfl⟩
  | cons q history ih =>
    obtain ⟨r, hr⟩ := s.exists_run_handle q
    rw [after, List.foldl_cons, hr]
    exact ih { s with run := r }

/-- A scheduler for letters and marks on them, in which nothing happened yet. -/
def ofMarks (fill : Fill) : Scheduler :=
  .new (.ofDrafts (lettersAndMarks fill)) ⟨.sequential, 0, .empty⟩

end Scheduler

/-! ## What histories keep -/

namespace Run

/-- What holds of every run in which nothing happened, and is kept by executions, by forgetting,
by dropping everything and by asking the signal. -/
structure Stable (registry : Registry) (c : Config) (I : Run → Prop) : Prop where
  empty : I .empty
  coherent : ∀ {r}, I r → r.Coherent registry
  execute : ∀ {r : Run} {i : Nat}, I r → r.Ready registry i →
    I (r.execute c (registry.descriptor i)).2
  notice : ∀ {r : Run}, I r → I { r with signal := r.signal.isCancelled.2 }
  forget : ∀ {r : Run} {names : List String}, I r → registry.Closed names → I (r.forget names)
  clear : ∀ {r : Run}, I r → I r.clear

namespace Stable

open Scheduler

variable {registry : Registry} {c : Config} {I : Run → Prop}

theorem materialize (h : Stable registry c I) (hr : registry.Proper) {r : Run} (hI : I r)
    (target : String) :
    ∃ r', (Scheduler.materialize ⟨registry, c, r⟩ target).2 = ⟨registry, c, r'⟩ ∧ I r' :=
  materialize_preserves (s := ⟨registry, c, r⟩) hr h.coherent h.execute h.notice target hI

theorem invalidate (h : Stable registry c I) (hr : registry.Proper) {r : Run} (hI : I r)
    (target : String) :
    ∃ r', (Scheduler.invalidate ⟨registry, c, r⟩ target).2 = ⟨registry, c, r'⟩ ∧ I r' := by
  unfold Scheduler.invalidate
  split
  · exact ⟨r, rfl, hI⟩
  · rename_i d hd
    obtain ⟨i, hi, rfl⟩ := Registry.lookup_eq_ok_iff.1 hd
    have hlt := hr.lt_size_of_producerIndex? hi
    exact ⟨_, rfl, h.forget hI (closed_downstream (s := ⟨registry, c, r⟩) hr.toWellFormed hlt)⟩

/-- What is stable is kept by requests that neither work on the signal nor intern facts. -/
theorem handle_plain (h : Stable registry c I) (hr : registry.Proper) {r : Run} (hI : I r)
    {q : Request} (hq : q.IsPlain) :
    ∃ r', Scheduler.handle ⟨registry, c, r⟩ q = ⟨registry, c, r'⟩ ∧ I r' := by
  cases q with
  | materialize target => exact h.materialize hr hI target
  | invalidate target => exact h.invalidate hr hI target
  | reset => exact ⟨_, rfl, h.clear hI⟩
  | _ => exact hq.elim

/-- What is stable, whatever the signal and however the store grows, is kept by all requests. -/
theorem handle (h : Stable registry c I) (hr : registry.Proper)
    (hsignal : ∀ {r : Run} (signal : Signal), I r → I { r with signal })
    (hstore : ∀ {r : Run} {store : Store}, r.store.Grows store → I r → I { r with store })
    {r : Run} (hI : I r) (q : Request) :
    ∃ r', Scheduler.handle ⟨registry, c, r⟩ q = ⟨registry, c, r'⟩ ∧ I r' := by
  cases q with
  | materialize target => exact h.handle_plain hr hI (q := .materialize target) trivial
  | invalidate target => exact h.handle_plain hr hI (q := .invalidate target) trivial
  | reset => exact h.handle_plain hr hI (q := .reset) trivial
  | cancel reason => exact ⟨_, rfl, hsignal _ hI⟩
  | setTimeout ms => exact ⟨_, rfl, hsignal _ hI⟩
  | askCancelled => exact ⟨_, rfl, hsignal _ hI⟩
  | clearSignal => exact ⟨_, rfl, hsignal _ hI⟩
  | extend a t fs => exact ⟨_, rfl, hstore (Artifact.grows_extend _ _ _ _) hI⟩

theorem foldl_handle {p : Request → Prop}
    (hstep : ∀ {r : Run}, I r → ∀ q, p q →
      ∃ r', Scheduler.handle ⟨registry, c, r⟩ q = ⟨registry, c, r'⟩ ∧ I r')
    {history : List Request} (hp : ∀ q ∈ history, p q) {r : Run} (hI : I r) :
    ∃ r', Scheduler.after ⟨registry, c, r⟩ history = ⟨registry, c, r'⟩ ∧ I r' := by
  induction history generalizing r with
  | nil => exact ⟨r, rfl, hI⟩
  | cons q history ih =>
    obtain ⟨r', hr', hI'⟩ := hstep hI q (hp q List.mem_cons_self)
    rw [Scheduler.after, List.foldl_cons, hr']
    exact ih (fun q hq => hp q (List.mem_cons_of_mem _ hq)) hI'

theorem after (h : Stable registry c I) (hr : registry.Proper)
    (hsignal : ∀ {r : Run} (signal : Signal), I r → I { r with signal })
    (hstore : ∀ {r : Run} {store : Store}, r.store.Grows store → I r → I { r with store })
    (history : List Request) :
    ∃ r, (Scheduler.new registry c).after history = ⟨registry, c, r⟩ ∧ I r :=
  foldl_handle (p := fun _ => True) (fun hI q _ => h.handle hr hsignal hstore hI q)
    (fun _ _ => trivial) h.empty

end Stable

/-! ## Coherence -/

theorem stable_coherent {registry : Registry} (hr : registry.Proper) (c : Config) :
    Stable registry c (Coherent registry) where
  empty := .empty
  coherent h := h
  execute h hi := h.execute hr hi.bound c
  notice h := h.of_grows (fun _ => rfl) (fun _ => rfl) (.refl _)
  forget h hc := h.forget hc.together
  clear _ := .clear

theorem coherent_after {ds : List Draft} (hk : ∀ d ∈ ds, d.fill.KeepsNames) (c : Config)
    (history : List Request) :
    ∃ r, (Scheduler.new (.ofDrafts ds) c).after history = ⟨.ofDrafts ds, c, r⟩ ∧
      r.Coherent (.ofDrafts ds) :=
  (stable_coherent (Registry.proper_ofDrafts hk) c).after (Registry.proper_ofDrafts hk)
    (fun _ h => h.of_grows (fun _ => rfl) (fun _ => rfl) (.refl _))
    (fun hg h => h.of_grows (fun _ => rfl) (fun _ => rfl) hg) history

end Run

namespace Scheduler

open Run

/-- When the loop has reached the end of a plan, the target is done. -/
theorem status_of_plan {s s' : Scheduler} (hr : s.registry.Proper)
    (hs : s.run.Coherent s.registry) {target : String} {sequence : List Nat}
    (hp : s.plan target = .ok sequence) (he : s.executeAll sequence = (.ok (), s')) :
    s'.run.Coherent s.registry ∧ s'.run.status target = .done := by
  obtain ⟨-, hsched, i, hi, hcase, -⟩ := plan_ok hr.toWellFormed hs hp
  obtain ⟨r, hrun, hstops⟩ := s.stops_executeAll sequence
  rw [he] at hrun hstops
  obtain rfl : s' = { s with run := r } := hrun
  cases hstops with
  | finished completed =>
    have hdone := completed.completed hr hsched.bound
    refine ⟨completed.coherent hr hsched.bound hs, ?_⟩
    by_cases hmem : ∃ k ∈ sequence, target ∈ (s.registry.descriptor k).outputs
    · obtain ⟨k, hk, hn⟩ := hmem
      exact hdone.status k hk target hn
    · simp only [not_exists, not_and] at hmem
      rcases hcase with hd | hm
      · exact (hdone.status_other target hmem).trans hd
      · exact (hmem i hm (hr.producerIndex?_eq_some_iff.1 hi)).elim

/-- A target that was answered with an artifact is done, and the artifact is the one published. -/
theorem status_of_materialize {s s' : Scheduler} (hr : s.registry.Proper)
    (hs : s.run.Coherent s.registry) {target : String} {a : Artifact}
    (h : s.materialize target = (.ok a, s')) :
    s'.run.status target = .done ∧ s'.run.artifact? target = some a := by
  rcases materialize_cases hs target with ⟨-, h'⟩ | ⟨i, -, ⟨hd, b, hb, h'⟩ | ⟨-, h'⟩ | ⟨-, h'⟩⟩
  · rw [h'] at h
    cases h
  · rw [h'] at h
    obtain ⟨rfl, rfl⟩ : b = a ∧ s = s' := by simpa using h
    exact ⟨hd, hb⟩
  · rw [h'] at h
    cases h
  · rw [h', compute] at h
    split at h
    · cases h
    · rename_i sequence hp
      split at h
      · cases h
      · rename_i t he
        obtain ⟨ha, rfl⟩ := Prod.mk.inj h
        obtain ⟨-, hdone⟩ := status_of_plan hr hs hp he
        refine ⟨hdone, ?_⟩
        unfold artifact at ha
        split at ha
        · rename_i b hb
          rwa [Except.ok.inj ha] at hb
        · cases ha

end Scheduler

end FactEngine
