import FactEngine.Proofs.Freshness

/-!
# Relations as they were declared

If no step puts a relation in the place of an output, published relations are what was declared.
They have their signatures, and their columns are bound to the domains that are published now
(`Run.Declared`). An execution makes no others, since it changes nothing of its output relations
but the tuples (`Declared.execute`), and a domain is never forgotten without the relations over
it (`Declared.forget`).

With this, statuses and artifacts agree with each other and with what was registered
(`statuses_agree_with_artifacts`), and no result is stale, the columns of relations included
(`results_not_stale`).
-/

namespace FactEngine

namespace Run

/-- No result is stale, and published relations have their signatures and are over the domains that
are published now. -/
structure Declared (registry : Registry) (r : Run) : Prop extends Fresh registry r where
  declared : ∀ i n sig, ⟨n, .relation sig⟩ ∈ (registry.descriptor i).produces →
    ∀ rel, r.artifact? n = some (.relation rel) → r.Over sig rel

namespace Declared

variable {registry : Registry} {r r' : Run} {i : Nat}

/-- An artifact is what its target was declared to be. -/
theorem realizes (h : r.Declared registry) {t : Target}
    (ht : t ∈ (registry.descriptor i).produces) {a : Artifact}
    (ha : r.artifact? t.name = some a) : a.Realizes r.store t := by
  refine (h.served i t ht a ha).realizes fun sig rel hkind hrel => ?_
  obtain ⟨n, kind⟩ := t
  obtain rfl : kind = .relation sig := hkind
  subst hrel
  exact (h.declared i n sig ht rel ha).signature

/-- Published relations are over published domains. -/
theorem columns (h : r.Declared registry) {n : String} {rel : Relation}
    (hrel : r.artifact? n = some (.relation rel)) :
    List.Forall₂ (fun c id => r.artifact? c.domain = some (.domain id)) rel.signature.columns
      rel.columns := by
  obtain ⟨i, sig, ht⟩ := h.exists_relation_target hrel
  obtain ⟨rfl, hcolumns⟩ := h.declared i n sig ht rel hrel
  exact hcolumns

theorem of_notStarted (hs : ∀ n, r.status n = .notStarted) (ha : ∀ n, r.artifact? n = none) :
    r.Declared registry := by
  refine ⟨.of_notStarted hs ha, fun i n sig _ rel hrel => ?_⟩
  simp [ha] at hrel

/-- Statuses, artifacts and the journal are all that matters, and the store may grow. -/
theorem of_grows (h : r.Declared registry) (hs : ∀ n, r'.status n = r.status n)
    (ha : ∀ n, r'.artifact? n = r.artifact? n) (hj : r'.journal = r.journal)
    (hg : r.store.Grows r'.store) : r'.Declared registry := by
  refine ⟨h.toFresh.of_grows hs ha hj hg, fun i n sig ht rel hrel => ?_⟩
  rw [ha] at hrel
  refine (h.declared i n sig ht rel hrel).congr fun c _ id hid => ?_
  rw [ha, hid]

/-- A name with an artifact is not an output of a descriptor that is ready. -/
theorem not_mem_outputs_of_ready (h : r.Coherent registry) (hi : r.Ready registry i) {n : String}
    {a : Artifact} (ha : r.artifact? n = some a) : n ∉ (registry.descriptor i).outputs := by
  intro hn
  have hdone := (h.done_iff n).2 ⟨a, ha⟩
  rw [hi.idle n hn] at hdone
  cases hdone

/-- Executing a ready descriptor whose step replaces nothing keeps relations as declared. -/
theorem execute (h : r.Declared registry) (hr : registry.Proper) (hi : r.Ready registry i)
    (hw : (registry.descriptor i).fill.InPlace) (c : Config) :
    (r.execute c (registry.descriptor i)).2.Declared registry := by
  refine ⟨h.toFresh.execute hr hi c, fun k n sig ht rel hrel => ?_⟩
  have hn : n ∈ (registry.descriptor k).outputs := Descriptor.mem_outputs.2 ⟨_, ht, rfl⟩
  by_cases hki : k = i
  · subst hki
    have hd := hr.built _ (Registry.descriptor_mem hi.bound)
    rcases he : r.execute c (registry.descriptor k) with ⟨e | ⟨⟩, r'⟩
    · -- no relation is published by an execution that failed
      rw [he, (execute_error hd he).artifact?_none n hn] at hrel
      cases hrel
    · rw [he] at hrel
      exact declared_of_execute hd hw he ht hrel
  · obtain ⟨succeeded, he⟩ := hr.executed c hi.bound
    rw [he.artifact?_other n fun hm => hki (hr.place_unique hn hm)] at hrel
    refine (h.declared k n sig ht rel hrel).congr fun col _ id hid => ?_
    rw [he.artifact?_other _ (not_mem_outputs_of_ready h.toCoherent hi hid), hid]

/-- A domain is forgotten only together with the relations over it. -/
theorem forget (h : r.Declared registry) (hr : registry.WellFormed) {names : List String}
    (hc : registry.Closed names) : (r.forget names).Declared registry := by
  refine ⟨h.toFresh.forget hr hc, fun k n sig ht rel hrel => ?_⟩
  have hn : n ∈ (registry.descriptor k).outputs := Descriptor.mem_outputs.2 ⟨_, ht, rfl⟩
  rw [artifact?_forget] at hrel
  split at hrel
  · cases hrel
  · rename_i hnot
    refine (h.declared k n sig ht rel hrel).congr fun col hcol id hid => ?_
    rw [artifact?_forget, if_neg, hid]
    have hd := hr.built _ (Registry.descriptor_mem (Registry.lt_size_of_mem_outputs hn))
    rcases hd.columns_known _ ht sig rfl col hcol with hown | hconsumed
    · exact fun hmem => hnot (hc.together k _ hown n hn hmem)
    · exact h.not_mem_of_closed hr hc hn hnot hconsumed ((h.done_iff _).2 ⟨_, hid⟩)

end Declared

variable {registry : Registry}

theorem stable_declared (hr : registry.Proper) (hw : ∀ i, (registry.descriptor i).fill.InPlace)
    (c : Config) : Stable registry c (Declared registry) where
  empty := .of_notStarted (fun _ => rfl) fun _ => rfl
  coherent h := h.toCoherent
  execute h hi := h.execute hr hi (hw _) c
  notice h := h.of_grows (fun _ => rfl) (fun _ => rfl) rfl (.refl _)
  forget h hc := h.forget hr.toWellFormed hc
  clear _ := .of_notStarted (fun _ => rfl) fun _ => rfl

theorem declared_after {ds : List Draft} (hw : ∀ d ∈ ds, d.fill.InPlace) (c : Config)
    (history : List Request) :
    ∃ r, (Scheduler.new (.ofDrafts ds) c).after history = ⟨.ofDrafts ds, c, r⟩ ∧
      r.Declared (.ofDrafts ds) :=
  have hr := Registry.proper_ofDrafts fun d hd => (hw d hd).keepsNames
  (stable_declared hr (Registry.always_ofDrafts hw) c).after hr
    (fun _ h => h.of_grows (fun _ => rfl) (fun _ => rfl) rfl (.refl _))
    (fun hg h => h.of_grows (fun _ => rfl) (fun _ => rfl) rfl hg) history

end Run

namespace Scheduler

open Run

/-- If no step replaces a relation, then after every history nothing is in progress, the done names
are those with an artifact, only outputs of registered descriptors were started, the outputs of
a descriptor share their status, artifacts carry the name and are of the kind that were
registered, and a plan that was executed to its end has an artifact for its target. -/
theorem statuses_agree_with_artifacts {ds : List Draft} (hw : ∀ d ∈ ds, d.fill.InPlace)
    (c : Config) (history : List Request) :
    let registry := Registry.ofDrafts ds
    let s := (Scheduler.new registry c).after history
    (∀ n, s.status n ≠ .inProgress) ∧
    (∀ n, s.status n = .done ↔ ∃ a, s.run.artifact? n = some a) ∧
    (∀ n, s.status n ≠ .notStarted → ∃ d ∈ registry.descriptors, n ∈ d.outputs) ∧
    (∀ d ∈ registry.descriptors, ∀ n ∈ d.outputs, ∀ m ∈ d.outputs, s.status n = s.status m) ∧
    (∀ n a, s.run.artifact? n = some a → a.name s.run.store = n ∧
      ∃ t, registry.target n = .ok t ∧ a.Realizes s.run.store t) ∧
    (∀ target sequence s', s.plan target = .ok sequence →
      s.executeAll sequence = (.ok (), s') → ∃ a, s'.artifact target = .ok a) := by
  intro registry s
  have hr : registry.Proper := Registry.proper_ofDrafts fun d hd => (hw d hd).keepsNames
  obtain ⟨r, hs, hc⟩ : ∃ r, s = ⟨registry, c, r⟩ ∧ r.Declared registry :=
    declared_after hw c history
  rw [hs]
  refine ⟨hc.settled, hc.done_iff, fun n hn => ?_, fun d hd n hn m hm => ?_, fun n a ha => ?_, ?_⟩
  · obtain ⟨i, hi⟩ := hc.produced n hn
    exact ⟨_, Registry.descriptor_mem (Registry.lt_size_of_mem_outputs hi), hi⟩
  · obtain ⟨i, -, rfl⟩ := Registry.exists_place hd
    exact hc.uniform i n hn m hm
  · have hdone := (hc.done_iff n).2 ⟨a, ha⟩
    obtain ⟨i, hi⟩ := hc.produced n (by rw [hdone]; exact TargetStatus.noConfusion)
    obtain ⟨t, ht, rfl⟩ := Descriptor.mem_outputs.1 hi
    have hreal := hc.realizes ht ha
    exact ⟨(hc.served i t ht a ha).name_eq, t, hr.target_eq_ok_iff.2 ⟨i, ht, rfl⟩, hreal⟩
  · intro target sequence s' hp he
    obtain ⟨hc', hdone⟩ := status_of_plan hr hc.toCoherent hp he
    obtain ⟨a, ha⟩ := (hc'.done_iff target).1 hdone
    exact ⟨a, by rw [artifact, ha]⟩

/-- Once the marks are done they have an artifact, and the index has none yet. -/
theorem marks_before_index :
    (∀ d ∈ lettersAndMarks markLetter, d.fill.InPlace) ∧
      let s := (ofMarks markLetter).after [.materialize "marks"]
      (∃ a, s.run.artifact? "marks" = some a) ∧ ∀ a, s.run.artifact? "index" ≠ some a := by
  obtain ⟨-, hdone, -⟩ := statuses_agree_with_artifacts inPlace_markLetter
    ⟨.sequential, 0, .empty⟩ [.materialize "marks"]
  have hindex := mt (hdone "index").2 (by decide +kernel)
  exact ⟨inPlace_markLetter, (hdone "marks").1 (by decide +kernel), not_exists.1 hindex⟩

/-- If no step replaces a relation, then after every history, a descriptor that succeeded or failed
consumed names that are still done, and the artifacts that its latest execution received are the
ones published now : no later execution replaced them. Published relations are over the
published domains. When a target is answered, all it uses is done. -/
theorem results_not_stale {ds : List Draft} (hw : ∀ d ∈ ds, d.fill.InPlace) (c : Config)
    (history : List Request) :
    let registry := Registry.ofDrafts ds
    let s := (Scheduler.new registry c).after history
    (∀ i < registry.size, ∀ n ∈ (registry.descriptor i).outputs,
      s.status n = .done ∨ s.status n = .failed →
        (∀ m ∈ (registry.descriptor i).consumes, s.status m = .done) ∧
        ∃ before inputs after,
          s.run.journal = before ++ .executed (registry.nameOf i) inputs :: after ∧
          (∀ e ∈ after, ¬e.IsExecutionOf (registry.nameOf i)) ∧
          ∀ m ∈ (registry.descriptor i).consumes,
            (∃ a, inputs.get? m = some a ∧ s.run.artifact? m = some a) ∧
            ∀ d, registry.lookup m = .ok d → ∀ e ∈ after, ¬e.IsExecutionOf d.name) ∧
    (∀ n rel, s.run.artifact? n = some (.relation rel) →
      List.Forall₂ (fun c id => s.run.artifact? c.domain = some (.domain id))
        rel.signature.columns rel.columns) ∧
    (∀ target a s', s.materialize target = (.ok a, s') →
      ∀ m, Relation.ReflTransGen registry.Uses target m → s'.status m = .done) := by
  intro registry s
  have hr : registry.Proper := Registry.proper_ofDrafts fun d hd => (hw d hd).keepsNames
  obtain ⟨r, hs, hf⟩ : ∃ r, s = ⟨registry, c, r⟩ ∧ r.Declared registry :=
    declared_after hw c history
  rw [hs]
  refine ⟨fun i _ n hn hst => ?_, fun n rel => hf.columns, fun target a s' hm m hu => ?_⟩
  · have hi := hf.upToDate i n hn hst
    obtain ⟨before, inputs, after, hj, hafter, hinputs⟩ := hi.latest
    refine ⟨hi.served, before, inputs, after, hj, fun e he => hafter e he i (Or.inl rfl),
      fun m hm => ⟨?_, fun d hd e he => ?_⟩⟩
    · obtain ⟨a, ha⟩ := (hf.done_iff m).1 (hi.served m hm)
      exact ⟨a, (hinputs m hm).trans ha, ha⟩
    · obtain ⟨k, hk, rfl⟩ := Registry.lookup_eq_ok_iff.1 hd
      exact hafter e he k (Or.inr (hr.mem_dependencies.2 ⟨m, hm, hk⟩))
  · obtain ⟨r', hr', hf'⟩ := (stable_fresh hr c).materialize hr hf.toFresh target
    rw [hm] at hr'
    obtain rfl : s' = ⟨registry, c, r'⟩ := hr'
    obtain ⟨hdone, -⟩ := status_of_materialize hr hf.toCoherent hm
    exact hf'.status_of_uses hdone hu

/-- The index was made from the marks that are published now. -/
theorem index_made_from_marks :
    (∀ d ∈ lettersAndMarks markLetter, d.fill.InPlace) ∧
      let s := (ofMarks markLetter).after [.materialize "index"]
      ∃ before inputs after a, s.run.journal = before ++ .executed "index" inputs :: after ∧
        inputs.get? "marks" = some a ∧ s.run.artifact? "marks" = some a := by
  obtain ⟨hfresh, -⟩ := results_not_stale inPlace_markLetter ⟨.sequential, 0, .empty⟩
    [.materialize "index"]
  obtain ⟨-, before, inputs, after, hj, -, hinputs⟩ :=
    hfresh 2 (by decide) "index" (by decide) (Or.inl (by decide +kernel))
  obtain ⟨⟨a, hin, ha⟩, -⟩ := hinputs "marks" (by decide)
  exact ⟨inPlace_markLetter, before, inputs, after, a, hj, hin, ha⟩

end Scheduler

end FactEngine
