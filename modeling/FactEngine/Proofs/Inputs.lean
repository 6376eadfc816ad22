import FactEngine.Proofs.Interning
import FactEngine.Proofs.Steps

/-!
# What a population step can read

A step is given the artifacts of the names that its descriptor consumes, and a name is asked for
by some of its actions (`Action.consumed?`). A name that is not declared is refused, and then
nothing has changed (`Session.perform_undeclared`).

If steps keep names, what is declared is there, because the descriptors that are left to execute
are scheduled : whatever happened before, and whatever clients do meanwhile, every consumed name
is done and has the artifact that the step was given (`Underway.served`). So the refusal of a
consumed name that is not done never occurs. It does occur when a relation was replaced by one of
another name (`marks_missing_from_index`).
-/

namespace FactEngine

/-! ## Reading actions -/

namespace Action

/-- The error that an answer is. -/
def errorOf {α : Type} : Except Error α → Option Error
  | .ok _ => none
  | .error e => some e

theorem errorOf_eq_some_iff {α : Type} {r : Except Error α} {e : Error} :
    errorOf r = some e ↔ r = .error e := by
  cases r <;> simp [errorOf]

/-- The name that an action reads among the consumed ones. -/
def consumed? : Action → Option String
  | input n | readDomain n | readFacts n _ | readRelation n | growInput n _ _ => some n
  | _ => none

/-- The error that a reading action is refused with. -/
def refusal? : (a : Action) → a.Reply → Option Error
  | input _, r => errorOf r
  | readDomain _, r => errorOf r
  | readFacts _ _, r => errorOf r
  | readRelation _, r => errorOf r
  | growInput _ _ _, r => errorOf r
  | _, _ => none

end Action

namespace Session

variable {x : Session} {a : Action} {n : String} {e : Error}

/-- A refusal of the name refuses the action, and nothing has changed. -/
theorem perform_of_input_error (ha : a.consumed? = some n) (h : x.input n = .error e) :
    a.refusal? (x.perform a).1 = some e ∧ (x.perform a).2 = x := by
  cases a with
  | input m =>
    obtain rfl := Option.some.inj ha
    simp [perform, h, Action.refusal?, Action.errorOf]
  | readDomain m =>
    obtain rfl := Option.some.inj ha
    simp [perform, readDomain, inputDomain, h, Action.refusal?, Action.errorOf]
  | readFacts m t =>
    obtain rfl := Option.some.inj ha
    simp [perform, readDomain, inputDomain, h, Action.refusal?, Action.errorOf]
  | readRelation m =>
    obtain rfl := Option.some.inj ha
    simp [perform, inputRelation, h, Action.refusal?, Action.errorOf]
  | growInput m t fs =>
    obtain rfl := Option.some.inj ha
    simp [perform, h, Action.refusal?, Action.errorOf]
  | _ => cases ha

/-- A name that is not declared is refused as such, and nothing has changed. -/
theorem perform_undeclared (ha : a.consumed? = some n) (hn : n ∉ x.descriptor.consumes) :
    a.refusal? (x.perform a).1 =
        some (.undeclaredDependency x.descriptor.name n .undeclared) ∧
      (x.perform a).2 = x := by
  refine perform_of_input_error ha ?_
  simp [input, Descriptor.consumesName, hn]

theorem error_of_downcast {d : AnyDomain} {t : FactType} (h : d.downcast t = .error e) :
    e = .typeMismatch d.name (.domainOf t) := by
  unfold AnyDomain.downcast at h
  split at h
  · cases h
  · exact (Except.error.inj h).symm

theorem error_of_extend {artifact : Artifact} {s : Store} {t : FactType} {fs : List t.Carrier}
    (h : (artifact.extend s t fs).1 = .error e) :
    (∃ expected, e = .typeMismatch (artifact.name s) expected) ∨
      ∃ fact, e = .domainFrozen (artifact.name s) fact := by
  cases artifact with
  | relation r => exact Or.inl ⟨.domain, (Except.error.inj h).symm⟩
  | domain id =>
    simp only [Artifact.extend, Store.extend] at h
    split at h
    · rename_i e' hd
      obtain rfl := Except.error.inj h
      exact Or.inl ⟨.domainOf t, error_of_downcast hd⟩
    · rename_i d hd
      obtain ⟨_, fact, _, -, -, -, hrefused⟩ :=
        Domain.extend_of_not_admits (Domain.not_admits_of_extend (Prod.ext h rfl))
      rw [hrefused] at h
      obtain rfl := Except.error.inj h
      refine Or.inr ⟨label fact, ?_⟩
      rw [Artifact.name, AnyDomain.eq_of_downcast hd]
      rfl

/-- A consumed artifact is refused as a domain if it is none. -/
theorem error_of_readDomain {artifact : Artifact} (h : x.input n = .ok artifact)
    (he : (x.readDomain n).1 = .error e) : e = .typeMismatch n .domain := by
  cases artifact with
  | domain id =>
    simp only [readDomain, inputDomain, h] at he
    cases he
  | relation r =>
    simp only [readDomain, inputDomain, h] at he
    exact (Except.error.inj he).symm

/-- A consumed name that there is an artifact for is not refused. -/
theorem input_ok (hn : n ∈ x.descriptor.consumes) {artifact : Artifact}
    (ha : x.inputs.get? n = some artifact) : x.input n = .ok artifact := by
  have hconsumes : x.descriptor.consumesName n = true := by simpa [Descriptor.consumesName] using hn
  rw [input, if_pos hconsumes, ha]

/-- A consumed artifact can only be refused for what it is, or because it is frozen. -/
theorem refusal_of_input_ok (ha : a.consumed? = some n) {artifact : Artifact}
    (h : x.input n = .ok artifact) (he : a.refusal? (x.perform a).1 = some e) :
    (∃ name expected, e = .typeMismatch name expected) ∨
      ∃ name fact, e = .domainFrozen name fact := by
  cases a with
  | input m =>
    obtain rfl := Option.some.inj ha
    simp [perform, h, Action.refusal?, Action.errorOf] at he
  | readDomain m =>
    obtain rfl := Option.some.inj ha
    exact Or.inl ⟨_, _, error_of_readDomain h (Action.errorOf_eq_some_iff.1 he)⟩
  | readFacts m t =>
    obtain rfl := Option.some.inj ha
    have he := Action.errorOf_eq_some_iff.1 he
    simp only [perform] at he
    split at he
    · rename_i e' y hread
      obtain rfl := Except.error.inj he
      exact Or.inl ⟨_, _, error_of_readDomain h (congrArg Prod.fst hread)⟩
    · exact Or.inl ⟨_, _, error_of_downcast he⟩
  | readRelation m =>
    obtain rfl := Option.some.inj ha
    have he := Action.errorOf_eq_some_iff.1 he
    simp only [perform, inputRelation, h] at he
    cases artifact with
    | domain id => exact Or.inl ⟨_, _, (Except.error.inj he).symm⟩
    | relation r => cases he
  | growInput m t fs =>
    obtain rfl := Option.some.inj ha
    have he := Action.errorOf_eq_some_iff.1 he
    simp only [perform, h] at he
    rcases error_of_extend he with ⟨expected, heq⟩ | ⟨fact, heq⟩
    · exact Or.inl ⟨_, _, heq⟩
    · exact Or.inr ⟨_, _, heq⟩
  | _ => cases ha

end Session

namespace Moment

/-! ## Complete inputs -/

namespace Underway

variable {s : Scheduler} {i : Nat} {inputs : NameMap Artifact} {outputs : Outputs}
  {rest : List Nat} {r₀ : Run} {o : Outputs} {store : Store} {n : String}

/-- While a step is under way, every consumed name is done, and the step was given its artifact. -/
theorem served (h : Underway s i inputs outputs rest r₀ o store) (hr : s.registry.WellFormed)
    (hn : n ∈ (s.registry.descriptor i).consumes) :
    ∃ a, inputs.get? n = some a ∧ s.run.status n = .done ∧ s.run.artifact? n = some a := by
  have hdone := h.ready.served n hn
  obtain ⟨a, ha⟩ := (h.coherent.done_iff n).1 hdone
  refine ⟨a, ?_, ?_, ?_⟩
  · rw [h.inputs_eq, h.ready.get?_received hn, ha]
  · rw [(h.ran hr).status, Run.status_mark, if_neg (h.ready.not_mem_outputs hn), hdone]
  · rw [(h.ran hr).artifact?, ha]

/-- A step may read what it was given. -/
theorem input_ok (h : Underway s i inputs outputs rest r₀ o store) {a : Artifact}
    (hn : inputs.get? n = some a) : (s.session i inputs outputs).input n = .ok a := by
  have hreceived := hn
  rw [h.inputs_eq] at hreceived
  exact Session.input_ok (Run.artifact?_of_received hreceived).1 hn

end Underway

/-- In every run and at every moment of a population step, a name that is not declared is refused as
such by every reading action, and nothing has changed. If steps replace relations by such of the
same name only, the step has the artifact of every name that its descriptor consumes, all of them
done, so a declared name is never refused as not done. -/
theorem inputs_complete (ds : List Draft) (c : Config) :
    (∀ history q, (∀ k, Reachable (.ofDrafts ds) c
        (next^[k] (((Scheduler.new (.ofDrafts ds) c).after history).accept q))) ∧
      Leads (((Scheduler.new (.ofDrafts ds) c).after history).accept q)
        ⟨(Scheduler.new (.ofDrafts ds) c).after (history ++ [q]), .idle⟩) ∧
    ∀ s i inputs outputs fill rest,
      Reachable (.ofDrafts ds) c ⟨s, .filling i inputs outputs fill rest⟩ →
      let x := s.session i inputs outputs
      ((∀ d ∈ ds, d.fill.KeepsNames) →
        (∀ n ∈ x.descriptor.consumes, ∃ a, x.inputs.get? n = some a ∧ s.run.status n = .done ∧
          s.run.artifact? n = some a) ∧
        ∀ (a : Action) (n : String), a.consumed? = some n → n ∈ x.descriptor.consumes →
          ∀ descriptor name, a.refusal? (x.perform a).1 ≠
            some (.undeclaredDependency descriptor name .notDone)) ∧
      ∀ (a : Action) (n : String), a.consumed? = some n → n ∉ x.descriptor.consumes →
        a.refusal? (x.perform a).1 =
            some (.undeclaredDependency x.descriptor.name n .undeclared) ∧
          (x.perform a).2 = x := by
  refine ⟨fun history q => ⟨reachable_accept _ c history q, ?_⟩,
    fun s i inputs outputs fill rest h => ?_⟩
  · rw [Scheduler.after_concat]
    exact leads_accept _ q
  · intro x
    refine ⟨fun hk => ?_, fun a n ha hn => Session.perform_undeclared ha hn⟩
    obtain ⟨hr, -, r₀, o, store, hu⟩ := sound_of_reachable hk h
    refine ⟨fun n hn => hu.served hr.toWellFormed hn, fun a n ha hn descriptor name hrefused => ?_⟩
    obtain ⟨artifact, hin, -⟩ := hu.served hr.toWellFormed hn
    rcases Session.refusal_of_input_ok ha (hu.input_ok hin) hrefused with ⟨_, _, h⟩ | ⟨_, _, h⟩
    · cases h
    · cases h

/-! ### Marks under another name -/

/-- The session of the population step that is under way. -/
def session? : Moment → Option Session
  | ⟨s, .filling i inputs outputs _ _⟩ => some (s.session i inputs outputs)
  | _ => none

theorem exists_filling_of_session? {m : Moment} {x : Session} (h : m.session? = some x) :
    ∃ s i inputs outputs fill rest, m = ⟨s, .filling i inputs outputs fill rest⟩ ∧
      x = s.session i inputs outputs := by
  unfold session? at h
  split at h
  · rename_i s i inputs outputs fill rest
    exact ⟨s, i, inputs, outputs, fill, rest, rfl, (Option.some.inj h).symm⟩
  · cases h

/-- The moment in which the step of the index begins. -/
def fillingIndex (fill : Fill) : Moment :=
  next^[10] ((Scheduler.ofMarks fill).accept (.materialize "index"))

theorem reachable_fillingIndex (fill : Fill) :
    Reachable (.ofDrafts (lettersAndMarks fill)) ⟨.sequential, 0, .empty⟩ (fillingIndex fill) :=
  reachable_accept _ _ [] (.materialize "index") 10

/-- When marks are replaced by a relation that is called so as well, the index is given them. -/
theorem marks_given_to_index :
    (∀ d ∈ lettersAndMarks (renameMarks "marks"), d.fill.KeepsNames) ∧
      ∃ s i inputs outputs fill rest,
        Reachable (.ofDrafts (lettersAndMarks (renameMarks "marks"))) ⟨.sequential, 0, .empty⟩
          ⟨s, .filling i inputs outputs fill rest⟩ ∧
        "marks" ∈ (s.session i inputs outputs).descriptor.consumes ∧
        ∃ a, inputs.get? "marks" = some a ∧ s.run.artifact? "marks" = some a := by
  have hm := reachable_fillingIndex (renameMarks "marks")
  have hconsumes : (fillingIndex (renameMarks "marks")).session?.map
      (·.descriptor.consumes) = some ["marks", "letters"] := by decide +kernel
  obtain ⟨x, hx, hconsumes⟩ := Option.map_eq_some_iff.1 hconsumes
  obtain ⟨s, i, inputs, outputs, fill, rest, hfilling, rfl⟩ := exists_filling_of_session? hx
  rw [hfilling] at hm
  have hmarks : "marks" ∈ (s.session i inputs outputs).descriptor.consumes := by simp [hconsumes]
  obtain ⟨hgiven, -⟩ := ((inputs_complete _ _).2 s i inputs outputs fill rest hm).1
    keepsNames_renameMarks
  obtain ⟨a, hin, -, ha⟩ := hgiven "marks" hmarks
  exact ⟨keepsNames_renameMarks, s, i, inputs, outputs, fill, rest, hm, hmarks, a, hin, ha⟩

/-- When marks are replaced by a relation that is called otherwise, the index is not given them,
although it consumes them. -/
theorem marks_missing_from_index :
    ∃ s i inputs outputs fill rest,
      Reachable (.ofDrafts (lettersAndMarks (renameMarks "notes"))) ⟨.sequential, 0, .empty⟩
        ⟨s, .filling i inputs outputs fill rest⟩ ∧
      "marks" ∈ (s.session i inputs outputs).descriptor.consumes ∧
      ((s.session i inputs outputs).perform (.readRelation "marks")).1 =
        .error (.undeclaredDependency "index" "marks" .notDone) := by
  have hm := reachable_fillingIndex (renameMarks "notes")
  have hread : (fillingIndex (renameMarks "notes")).session?.map (fun x =>
      (x.descriptor.consumes, (x.perform (.readRelation "marks")).1)) =
        some (["marks", "letters"], .error (.undeclaredDependency "index" "marks" .notDone)) := by
    decide +kernel
  obtain ⟨x, hx, hpair⟩ := Option.map_eq_some_iff.1 hread
  obtain ⟨hconsumes, hrefused⟩ := Prod.mk.inj hpair
  obtain ⟨s, i, inputs, outputs, fill, rest, hfilling, rfl⟩ := exists_filling_of_session? hx
  rw [hfilling] at hm
  exact ⟨s, i, inputs, outputs, fill, rest, hm, by simp [hconsumes], hrefused⟩

end Moment

end FactEngine
