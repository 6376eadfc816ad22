import FactEngine.Proofs.Execution
import FactEngine.Proofs.Registration

/-!
# Coherent runs

Statuses and artifacts are two maps, and a run is `Run.Coherent` if they tell one story :
nothing is in progress, the done names are those with an artifact, only outputs of registered
descriptors were started, the outputs of one descriptor share their status, and an artifact
carries the name of its target and is of its kind.

The changes of a run keep this : executing a registered descriptor does (`Coherent.execute`),
and so does forgetting, provided that the outputs of a descriptor are forgotten together
(`Coherent.forget`). An execution that succeeds has to publish every target for it, so all steps
of the registry must keep names (`Registry.Proper`).
-/

namespace FactEngine

/-! ## Registries whose steps keep names -/

/-- A registry in which no step replaces an output relation by one of another name. -/
structure Registry.Proper (r : Registry) : Prop extends r.WellFormed where
  keepsNames : ∀ i, (r.descriptor i).fill.KeepsNames

/-- What all actions of the drafts are, all actions of the registered descriptors are. -/
theorem Registry.always_ofDrafts {ds : List Draft} {p : Action → Prop}
    (h : ∀ d ∈ ds, d.fill.Always p) (i : Nat) : ((ofDrafts ds).descriptor i).fill.Always p := by
  by_cases hi : i < (ofDrafts ds).size
  · obtain ⟨draft, hdraft, hbuild⟩ := exists_draft (descriptor_mem hi)
    rw [Draft.build_eq hbuild]
    exact h draft hdraft
  · rw [descriptor_eq_default (Nat.le_of_not_lt hi)]
    trivial

theorem Registry.proper_ofDrafts {ds : List Draft} (hk : ∀ d ∈ ds, d.fill.KeepsNames) :
    (ofDrafts ds).Proper :=
  ⟨wellFormed_ofDrafts ds, always_ofDrafts hk⟩

section

variable {registry : Registry} {r r' : Run} {c : Config} {i : Nat}

/-- An execution of a registered descriptor that succeeds publishes all its targets. -/
theorem Registry.Proper.succeeded (hr : registry.Proper) (hi : i < registry.size)
    (h : r.execute c (registry.descriptor i) = (.ok (), r')) :
    r.Succeeded (registry.descriptor i) r' :=
  Run.execute_ok (hr.built _ (descriptor_mem hi)) (hr.keepsNames i) h

/-- An execution of a registered descriptor that fails leaves its outputs failed. -/
theorem Registry.WellFormed.failed (hr : registry.WellFormed) (hi : i < registry.size) {e : Error}
    (h : r.execute c (registry.descriptor i) = (.error e, r')) :
    r.FailedWith c (registry.descriptor i) e r' :=
  Run.execute_error (hr.built _ (descriptor_mem hi)) h

theorem Registry.Proper.executed (hr : registry.Proper) (c : Config) (hi : i < registry.size) :
    ∃ succeeded, r.Executed (registry.descriptor i) succeeded
      (r.execute c (registry.descriptor i)).2 :=
  r.executed_execute c (hr.built _ (descriptor_mem hi)) (hr.keepsNames i)

end

namespace Run

/-- Statuses and artifacts agree with each other and with what was registered. -/
structure Coherent (registry : Registry) (r : Run) : Prop where
  settled : ∀ n, r.status n ≠ .inProgress
  done_iff : ∀ n, r.status n = .done ↔ ∃ a, r.artifact? n = some a
  produced : ∀ n, r.status n ≠ .notStarted → ∃ i, n ∈ (registry.descriptor i).outputs
  uniform : ∀ i, ∀ n ∈ (registry.descriptor i).outputs,
    ∀ m ∈ (registry.descriptor i).outputs, r.status n = r.status m
  served : ∀ i, ∀ t ∈ (registry.descriptor i).produces, ∀ a, r.artifact? t.name = some a →
    a.Serves r.store t

variable {registry : Registry} {r r' : Run} {i : Nat}

namespace Coherent

/-- A run that has nothing to tell is coherent. -/
theorem of_notStarted (hs : ∀ n, r.status n = .notStarted) (ha : ∀ n, r.artifact? n = none) :
    r.Coherent registry := by
  refine ⟨fun n => ?_, fun n => ?_, fun n hn => (hn (hs n)).elim, fun i n _ m _ => ?_,
    fun i t _ a hta => ?_⟩
  · simp [hs]
  · simp [hs, ha]
  · rw [hs, hs]
  · rw [ha] at hta
    cases hta

theorem empty : Coherent registry .empty :=
  of_notStarted (fun _ => rfl) fun _ => rfl

theorem clear : r.clear.Coherent registry :=
  of_notStarted (fun _ => rfl) fun _ => rfl

/-- Statuses and artifacts are all that matters, and the store may grow. -/
theorem of_grows (h : r.Coherent registry) (hs : ∀ n, r'.status n = r.status n)
    (ha : ∀ n, r'.artifact? n = r.artifact? n) (hg : r.store.Grows r'.store) :
    r'.Coherent registry := by
  refine ⟨fun n => ?_, fun n => ?_, fun n hn => ?_, fun i n hn m hm => ?_,
    fun i t ht a hta => ?_⟩
  · rw [hs]
    exact h.settled n
  · rw [hs, ha]
    exact h.done_iff n
  · rw [hs] at hn
    exact h.produced n hn
  · rw [hs, hs]
    exact h.uniform i n hn m hm
  · rw [ha] at hta
    exact (h.served i t ht a hta).grows hg

theorem status_ne_notStarted (h : r.Coherent registry) {n : String} {a : Artifact}
    (ha : r.artifact? n = some a) : r.status n ≠ .notStarted := by
  rw [(h.done_iff n).2 ⟨a, ha⟩]
  exact TargetStatus.noConfusion

/-- A domain is published for a target that is a domain, and it is in the store. -/
theorem exists_target (h : r.Coherent registry) {n : String} {id : DomainId}
    (ha : r.artifact? n = some (.domain id)) :
    ∃ i u, ⟨n, .domain u⟩ ∈ (registry.descriptor i).produces ∧
      id.place < r.store.domains.length := by
  obtain ⟨i, hi⟩ := h.produced n (h.status_ne_notStarted ha)
  obtain ⟨⟨n, kind⟩, ht, rfl⟩ := Descriptor.mem_outputs.1 hi
  have hserves := h.served i _ ht _ ha
  cases kind with
  | domain u => exact ⟨i, u, ht, hserves.1⟩
  | relation sig => exact hserves.elim

/-- A relation is published for a target that is a relation. -/
theorem exists_relation_target (h : r.Coherent registry) {n : String} {rel : Relation}
    (ha : r.artifact? n = some (.relation rel)) :
    ∃ k sig, ⟨n, .relation sig⟩ ∈ (registry.descriptor k).produces := by
  obtain ⟨k, hk⟩ := h.produced n (h.status_ne_notStarted ha)
  obtain ⟨⟨n, kind⟩, ht, rfl⟩ := Descriptor.mem_outputs.1 hk
  have hserves := h.served k _ ht _ ha
  cases kind with
  | domain u => exact hserves.elim
  | relation sig => exact ⟨k, sig, ht⟩

/-- The artifact of a domain is a domain of the name. -/
theorem exists_domain (h : r.Coherent registry) {n : String} {u : FactType}
    (ht : ⟨n, .domain u⟩ ∈ (registry.descriptor i).produces) (hn : r.status n = .done) :
    ∃ id, r.artifact? n = some (.domain id) ∧ id.place < r.store.domains.length ∧
      (r.store.get id).name = n := by
  obtain ⟨a, ha⟩ := (h.done_iff n).1 hn
  have hserves := h.served i _ ht a ha
  cases a with
  | domain id => exact ⟨id, ha, hserves.1, hserves.2.1⟩
  | relation rel => exact hserves.elim

/-- The domains that a descriptor receives have the names that it consumes them under. -/
theorem named_received (h : r.Coherent registry) (d : Descriptor) :
    Outputs.Named (r.received d) r.store := by
  intro n id hn
  obtain ⟨-, -, -, ha⟩ := artifact?_of_received hn
  obtain ⟨k, u, ht, hlt⟩ := h.exists_target ha
  exact ⟨hlt, (h.served k _ ht _ ha).2.1⟩

/-- The domains that an execution receives are in the store. -/
theorem place_lt_of_received (h : r.Coherent registry) {d : Descriptor} {n : String}
    {id : DomainId} (hn : (r.received d).get? n = some (.domain id)) :
    id.place < r.store.domains.length :=
  (h.named_received d n id hn).1

/-- What an execution leaves is coherent if its own outputs are. -/
theorem of_executed (h : r.Coherent registry) (hr : registry.WellFormed) {succeeded : Bool}
    (he : Executed r (registry.descriptor i) succeeded r')
    (hdone : ∀ n ∈ (registry.descriptor i).outputs,
      succeeded = true ↔ ∃ a, r'.artifact? n = some a)
    (hserved : ∀ t ∈ (registry.descriptor i).produces, ∀ a, r'.artifact? t.name = some a →
      a.Serves r'.store t) : r'.Coherent registry := by
  refine ⟨fun n => ?_, fun n => ?_, fun n hn => ?_, fun j n hn m hm => ?_,
    fun j t ht a hta => ?_⟩
  · by_cases hn : n ∈ (registry.descriptor i).outputs
    · rw [he.status n hn]
      split <;> exact TargetStatus.noConfusion
    · rw [he.status_other n hn]
      exact h.settled n
  · by_cases hn : n ∈ (registry.descriptor i).outputs
    · rw [he.status n hn, ← hdone n hn]
      cases succeeded <;> simp
    · rw [he.status_other n hn, he.artifact?_other n hn]
      exact h.done_iff n
  · by_cases hi : n ∈ (registry.descriptor i).outputs
    · exact ⟨i, hi⟩
    · rw [he.status_other n hi] at hn
      exact h.produced n hn
  · by_cases hji : j = i
    · subst hji
      rw [he.status n hn, he.status m hm]
    · have hne : ∀ k ∈ (registry.descriptor j).outputs, k ∉ (registry.descriptor i).outputs :=
        fun k hk hki => hji (hr.place_unique hk hki)
      rw [he.status_other n (hne n hn), he.status_other m (hne m hm)]
      exact h.uniform j n hn m hm
  · by_cases hji : j = i
    · subst hji
      exact hserved t ht a hta
    · have htj : t.name ∈ (registry.descriptor j).outputs := Descriptor.mem_outputs.2 ⟨t, ht, rfl⟩
      have hti : t.name ∉ (registry.descriptor i).outputs :=
        fun hki => hji (hr.place_unique htj hki)
      rw [he.artifact?_other _ hti] at hta
      exact (h.served j t ht a hta).grows he.store

theorem of_succeeded (h : r.Coherent registry) (hr : registry.WellFormed)
    (he : Succeeded r (registry.descriptor i) r') : r'.Coherent registry := by
  refine h.of_executed hr he.toExecuted (fun n hn => ?_) fun t ht a hta => ?_
  · obtain ⟨t, ht, rfl⟩ := Descriptor.mem_outputs.1 hn
    obtain ⟨a, ha, -⟩ := he.served t ht
    exact ⟨fun _ => ⟨a, ha⟩, fun _ => rfl⟩
  · obtain ⟨b, hb, hserves⟩ := he.served t ht
    obtain rfl : b = a := Option.some.inj (hb.symm.trans hta)
    exact hserves

theorem of_failed (h : r.Coherent registry) (hr : registry.WellFormed) {c : Config} {e : Error}
    (he : FailedWith r c (registry.descriptor i) e r') : r'.Coherent registry := by
  refine h.of_executed hr he.toExecuted (fun n hn => ?_) fun t ht a hta => ?_
  · rw [he.artifact?_none n hn]
    simp
  · rw [he.artifact?_none _ (Descriptor.mem_outputs.2 ⟨t, ht, rfl⟩)] at hta
    cases hta

/-- Executing a registered descriptor keeps a run coherent. -/
theorem execute (h : r.Coherent registry) (hr : registry.Proper) (hi : i < registry.size)
    (c : Config) : (r.execute c (registry.descriptor i)).2.Coherent registry := by
  rcases he : r.execute c (registry.descriptor i) with ⟨e | ⟨⟩, r'⟩
  · exact h.of_failed hr.toWellFormed (hr.failed hi he)
  · exact h.of_succeeded hr.toWellFormed (hr.succeeded hi he)

/-- Forgetting all outputs of some descriptors keeps a run coherent. -/
theorem forget (h : r.Coherent registry) {names : List String}
    (hnames : ∀ i, ∀ n ∈ (registry.descriptor i).outputs,
      ∀ m ∈ (registry.descriptor i).outputs, n ∈ names → m ∈ names) :
    (r.forget names).Coherent registry := by
  refine ⟨fun n => ?_, fun n => ?_, fun n hn => ?_, fun i n hn m hm => ?_,
    fun i t ht a hta => ?_⟩
  · rw [status_forget]
    split
    · exact TargetStatus.noConfusion
    · exact h.settled n
  · rw [status_forget, artifact?_forget]
    split
    · simp
    · exact h.done_iff n
  · rw [status_forget] at hn
    split at hn
    · exact (hn rfl).elim
    · exact h.produced n hn
  · have hiff : n ∈ names ↔ m ∈ names := ⟨hnames i n hn m hm, hnames i m hm n hn⟩
    rw [status_forget, status_forget, h.uniform i n hn m hm]
    simp only [hiff]
  · rw [artifact?_forget] at hta
    split at hta
    · cases hta
    · exact h.served i t ht a hta

end Coherent

end Run

end FactEngine
