import FactEngine.Proofs.History

/-!
# Nothing stale

A result is stale if something it was computed from is no longer there. `Run.Fresh` says that no
result is : if a descriptor was executed and not forgotten since, then all it consumes is done
now, its latest execution came after those of the descriptors it depends on, and it received
the artifacts that are published now (`Run.UpToDate`). In particular a failure stands only as
long as what it failed on.

An execution of a ready descriptor cannot make anything stale, since what depends on it was
not started (`Fresh.execute`). Forgetting could, and does not because all that depends on a
forgotten name is forgotten with it (`Fresh.forget`).
-/

namespace FactEngine

/-- An entry of the journal says that a descriptor was executed. -/
def Event.IsExecutionOf (name : String) : Event → Prop
  | executed descriptor _ => descriptor = name
  | noted .. => False

theorem Event.IsNote.not_isExecutionOf {e : Event} (h : e.IsNote) (name : String) :
    ¬e.IsExecutionOf name := by
  cases e with
  | executed d inputs => exact h.elim
  | noted d note => exact id

namespace Run

variable {registry : Registry} {c : Config} {r r' : Run} {i : Nat}

/-- What the latest execution of a descriptor received is what is published now. -/
structure UpToDate (registry : Registry) (r : Run) (i : Nat) : Prop where
  served : ∀ n ∈ (registry.descriptor i).consumes, r.status n = .done
  latest : ∃ before inputs after,
    r.journal = before ++ .executed (registry.nameOf i) inputs :: after ∧
      (∀ e ∈ after, ∀ k, k = i ∨ k ∈ registry.dependencies i →
        ¬e.IsExecutionOf (registry.nameOf k)) ∧
      ∀ n ∈ (registry.descriptor i).consumes, inputs.get? n = r.artifact? n

/-- No result is stale. -/
structure Fresh (registry : Registry) (r : Run) : Prop extends Coherent registry r where
  upToDate : ∀ i, ∀ n ∈ (registry.descriptor i).outputs,
    r.status n = .done ∨ r.status n = .failed → r.UpToDate registry i

/-- What is up to date stays so while the artifacts that it received do, and nothing that it
depends on is executed. -/
theorem UpToDate.of_journal (h : r.UpToDate registry i)
    (hs : ∀ n ∈ (registry.descriptor i).consumes, r'.status n = r.status n)
    (ha : ∀ n ∈ (registry.descriptor i).consumes, r'.artifact? n = r.artifact? n)
    {entries : List Event} (hj : r'.journal = r.journal ++ entries)
    (he : ∀ e ∈ entries, ∀ k, k = i ∨ k ∈ registry.dependencies i →
      ¬e.IsExecutionOf (registry.nameOf k)) : r'.UpToDate registry i := by
  obtain ⟨before, inputs, after, hjournal, hafter, hinputs⟩ := h.latest
  refine ⟨fun n hn => (hs n hn).trans (h.served n hn), before, inputs, after ++ entries, ?_, ?_, ?_⟩
  · rw [hj, hjournal, List.append_assoc, List.cons_append]
  · exact fun e hmem => (List.mem_append.1 hmem).elim (hafter e) (he e)
  · exact fun n hn => (hinputs n hn).trans (ha n hn).symm

/-- What a kept descriptor consumes is kept, if it was done. -/
theorem Coherent.not_mem_of_closed (h : r.Coherent registry) (hr : registry.WellFormed)
    {names : List String} (hc : registry.Closed names) {n m : String}
    (hn : n ∈ (registry.descriptor i).outputs) (hnot : n ∉ names)
    (hm : m ∈ (registry.descriptor i).consumes) (hdone : r.status m = .done) : m ∉ names := by
  intro hmem
  obtain ⟨j, hj⟩ := h.produced m (by rw [hdone]; exact TargetStatus.noConfusion)
  exact hnot (hc.downstream i (Registry.lt_size_of_mem_outputs hn) m hm hmem
    ⟨j, hr.producerIndex?_eq_some_iff.2 hj⟩ n hn)

namespace Fresh

/-- Statuses, artifacts and the journal are all that matters, and the store may grow. -/
theorem of_grows (h : r.Fresh registry) (hs : ∀ n, r'.status n = r.status n)
    (ha : ∀ n, r'.artifact? n = r.artifact? n) (hj : r'.journal = r.journal)
    (hg : r.store.Grows r'.store) : r'.Fresh registry := by
  refine ⟨h.toCoherent.of_grows hs ha hg, fun i n hn hst => ?_⟩
  rw [hs] at hst
  refine (h.upToDate i n hn hst).of_journal (fun m _ => hs m) (fun m _ => ha m)
    (hj.trans (List.append_nil _).symm) ?_
  simp

theorem of_notStarted (hs : ∀ n, r.status n = .notStarted) (ha : ∀ n, r.artifact? n = none) :
    r.Fresh registry := by
  refine ⟨.of_notStarted hs ha, fun i n _ hst => ?_⟩
  simp [hs] at hst

theorem upToDate_of_executed (h : r.Fresh registry) (hr : registry.WellFormed)
    (hi : r.Ready registry i) {succeeded : Bool}
    (he : Executed r (registry.descriptor i) succeeded r') (k : Nat) {n : String}
    (hn : n ∈ (registry.descriptor k).outputs) (hst : r'.status n = .done ∨ r'.status n = .failed) :
    r'.UpToDate registry k := by
  obtain ⟨notes, hnotes, hj⟩ := he.journal
  by_cases hki : k = i
  · subst hki
    have hother : ∀ m ∈ (registry.descriptor k).consumes, m ∉ (registry.descriptor k).outputs :=
      fun m hm => hi.not_mem_outputs hm
    refine ⟨fun m hm => ?_, r.journal, _, notes, hj, ?_, fun m hm => ?_⟩
    · rw [he.status_other m (hother m hm), hi.served m hm]
    · exact fun e hmem j _ => (hnotes e hmem).not_isExecutionOf _
    · rw [hi.get?_received hm, he.artifact?_other m (hother m hm)]
  · have hni : n ∉ (registry.descriptor i).outputs := fun hm => hki (hr.place_unique hn hm)
    rw [he.status_other n hni] at hst
    have hk := h.upToDate k n hn hst
    -- What `k` consumes is done, so `i`, which was not started, does not produce it.
    have hother : ∀ m ∈ (registry.descriptor k).consumes, m ∉ (registry.descriptor i).outputs := by
      intro m hm hmi
      have hdone := hk.served m hm
      rw [hi.idle m hmi] at hdone
      cases hdone
    refine hk.of_journal (fun m hm => he.status_other m (hother m hm))
      (fun m hm => he.artifact?_other m (hother m hm)) hj ?_
    intro e hmem j hj hex
    rcases List.mem_cons.1 hmem with rfl | hmem
    · have hlt : j < registry.size := by
        rcases hj with rfl | hj
        · exact Registry.lt_size_of_mem_outputs hn
        · exact (Registry.mem_dependencies.1 hj).1
      obtain rfl := hr.nameOf_injective hi.bound hlt hex
      rcases hj with rfl | hj
      · exact hki rfl
      · obtain ⟨m, hm, hmi⟩ := hr.mem_dependencies.1 hj
        exact hother m hm (hr.producerIndex?_eq_some_iff.1 hmi)
    · exact (hnotes e hmem).not_isExecutionOf _ hex

/-- Executing a descriptor that is ready makes nothing stale. -/
theorem execute (h : r.Fresh registry) (hr : registry.Proper) (hi : r.Ready registry i)
    (c : Config) : (r.execute c (registry.descriptor i)).2.Fresh registry := by
  obtain ⟨succeeded, he⟩ := hr.executed c hi.bound
  exact ⟨h.toCoherent.execute hr hi.bound c,
    fun k n hn hst => h.upToDate_of_executed hr.toWellFormed hi he k hn hst⟩

/-- Forgetting all that depends on a forgotten name makes nothing stale. -/
theorem forget (h : r.Fresh registry) (hr : registry.WellFormed) {names : List String}
    (hc : registry.Closed names) : (r.forget names).Fresh registry := by
  refine ⟨h.toCoherent.forget hc.together, fun k n hn hst => ?_⟩
  rw [status_forget] at hst
  split at hst
  · rcases hst with hst | hst <;> cases hst
  · rename_i hnot
    have hk := h.upToDate k n hn hst
    have hm := fun m hm => h.not_mem_of_closed hr hc hn hnot hm (hk.served m hm)
    refine hk.of_journal (fun m hmc => ?_) (fun m hmc => ?_) (List.append_nil _).symm (by simp)
    · rw [status_forget, if_neg (hm m hmc)]
    · rw [artifact?_forget, if_neg (hm m hmc)]

end Fresh

theorem stable_fresh (hr : registry.Proper) (c : Config) :
    Stable registry c (Fresh registry) where
  empty := .of_notStarted (fun _ => rfl) fun _ => rfl
  coherent h := h.toCoherent
  execute h hi := h.execute hr hi c
  notice h := h.of_grows (fun _ => rfl) (fun _ => rfl) rfl (.refl _)
  forget h hc := h.forget hr.toWellFormed hc
  clear _ := .of_notStarted (fun _ => rfl) fun _ => rfl

end Run

/-! ## Results and what they were computed from -/

/-- The producer of `n` consumes `m`. -/
def Registry.Uses (registry : Registry) (n m : String) : Prop :=
  ∃ i, n ∈ (registry.descriptor i).outputs ∧ m ∈ (registry.descriptor i).consumes

namespace Run

/-- When a name is done, so is all that it uses, directly or through other names. -/
theorem Fresh.status_of_uses {registry : Registry} {r : Run} (h : r.Fresh registry)
    {n m : String} (hn : r.status n = .done)
    (hm : Relation.ReflTransGen registry.Uses n m) : r.status m = .done := by
  induction hm with
  | refl => exact hn
  | tail _ hstep ih =>
    obtain ⟨i, hi, hconsumes⟩ := hstep
    exact (h.upToDate i _ hi (Or.inl ih)).served _ hconsumes

end Run

end FactEngine
