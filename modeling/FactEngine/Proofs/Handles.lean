import FactEngine.Proofs.Inputs
import FactEngine.Proofs.Ownership

/-!
# Handles

A handle is a name together with a promise : the target of the name is a domain of certain facts, or
a relation. The registry hands it out when the target is registered, or to whoever asks
(`Handle.Minted`). Since no registration is taken back, the promise holds after all that are to
come (`Handle.Minted.exists_target`).

If steps keep names, whatever is published under a name carries the name and is of the kind of the
target. So the type that is looked at last, after the artifact was found, is always the right one,
for clients and inside of population steps, whatever was executed, failed or forgotten before
(`Moment.handles_never_mismatch`). A relation that a step gave the name of a domain is published in
the place of this domain, and then the type is refused (`Moment.letters_mismatch`).
-/

namespace FactEngine

/-! ## Handles that were handed out -/

/-- A handle of either kind. -/
inductive Handle where
  | domain {t : FactType} (h : DomainHandle t)
  | relation (h : RelationHandle)

namespace Handle

/-- The name of the target. -/
def name : Handle → String
  | domain h => h.name
  | relation h => h.name

/-- What the handle promises of the target of its name. -/
def Promises : Handle → Target → Prop
  | .domain (t := t) h, target => target = ⟨h.name, .domain t⟩
  | .relation h, target => ∃ sig, target = ⟨h.name, .relation sig⟩

open Registry in
/-- In a history of registrations the handle is the answer to one of them, or to a client that asks
before them, between them or after them. -/
inductive Minted (regs : List Registration) : Handle → Prop
  | domain {history later : List Registration} {name : String} {t : FactType}
      {consumes : List String} {fill : Fill} {h : DomainHandle t}
      (split : regs = history ++ .domain name t consumes fill :: later)
      (answer : ((registered history).registerDomain name t consumes fill).1 = .ok h) :
      Minted regs (.domain h)
  | relation {history later : List Registration} {name : String} {sig : Signature}
      {consumes : List String} {fill : Fill} {h : RelationHandle}
      (split : regs = history ++ .relation name sig consumes fill :: later)
      (answer : ((registered history).registerRelation name sig consumes fill).1 = .ok h) :
      Minted regs (.relation h)
  | domainHandle {history later : List Registration} {name : String} {t : FactType}
      {h : DomainHandle t} (split : regs = history ++ later)
      (answer : (registered history).domainHandle name t = .ok h) : Minted regs (.domain h)
  | relationHandle {history later : List Registration} {name : String} {h : RelationHandle}
      (split : regs = history ++ later)
      (answer : (registered history).relationHandle name = .ok h) : Minted regs (.relation h)

end Handle

namespace Registry

variable {r : Registry} {name : String} {consumes : List String} {fill : Fill}

/-! ## Answers of the registry -/

theorem descriptors_register {d : Descriptor} (h : (r.register d).1 = .ok ()) :
    (r.register d).2.descriptors = r.descriptors ++ [d] := by
  unfold register at h ⊢
  cases hname : r.descriptorIndex? d.name with
  | some i =>
    rw [hname] at h
    cases h
  | none =>
    cases htaken : r.taken? d.outputs with
    | some p =>
      rw [hname, htaken] at h
      cases h
    | none => rfl

theorem descriptors_registerDraft {d : Draft} (h : (r.registerDraft d).1 = .ok ()) :
    (r.registerDraft d).2.descriptors =
      r.descriptors ++ [⟨d.name, d.produces, d.allConsumed, d.fill⟩] := by
  unfold registerDraft at h ⊢
  cases hb : d.build with
  | error e =>
    rw [hb] at h
    cases h
  | ok b =>
    rw [hb] at h
    rw [← Draft.build_eq hb]
    exact descriptors_register h

theorem registerDomain_eq_ok {t : FactType} {h : DomainHandle t}
    (hok : (r.registerDomain name t consumes fill).1 = .ok h) :
    h.name = name ∧ (r.perform (.domain name t consumes fill)).1 = .ok () := by
  have hanswer : (r.perform (.domain name t consumes fill)).1 = .ok () := by
    simp only [perform, hok, Except.map]
  unfold registerDomain at hok
  split at hok
  · cases hok
  · exact ⟨(congrArg DomainHandle.name (Except.ok.inj hok)).symm, hanswer⟩

theorem registerRelation_eq_ok {sig : Signature} {h : RelationHandle}
    (hok : (r.registerRelation name sig consumes fill).1 = .ok h) :
    h.name = name ∧ (r.perform (.relation name sig consumes fill)).1 = .ok () := by
  have hanswer : (r.perform (.relation name sig consumes fill)).1 = .ok () := by
    simp only [perform, hok, Except.map]
  unfold registerRelation at hok
  split at hok
  · cases hok
  · exact ⟨(congrArg RelationHandle.name (Except.ok.inj hok)).symm, hanswer⟩

theorem domainHandle_eq_ok {t : FactType} {h : DomainHandle t}
    (hok : r.domainHandle name t = .ok h) :
    h.name = name ∧ ∃ target, r.target name = .ok target ∧ target.kind = .domain t := by
  unfold domainHandle at hok
  split at hok
  · cases hok
  · rename_i target htarget
    split at hok
    · rename_i hdomain
      obtain rfl := Except.ok.inj hok
      exact ⟨rfl, target, htarget, by simpa [Target.isDomainOf] using hdomain⟩
    · cases hok

theorem relationHandle_eq_ok {h : RelationHandle} (hok : r.relationHandle name = .ok h) :
    h.name = name ∧ ∃ target sig, r.target name = .ok target ∧ target.kind = .relation sig := by
  unfold relationHandle at hok
  split at hok
  · cases hok
  · rename_i target htarget
    split at hok
    · cases hok
    · rename_i hrelation
      obtain rfl := Except.ok.inj hok
      obtain ⟨n, kind⟩ := target
      cases kind with
      | domain t => exact (hrelation rfl).elim
      | relation sig => exact ⟨rfl, _, sig, htarget, rfl⟩

/-! ## Targets that stay -/

variable {history : List Registration} {n : String} {target : Target}

/-- What a target is does not change with later registrations. -/
theorem target_registered_append (h : (registered history).target n = .ok target)
    (later : List Registration) : (registered (history ++ later)).target n = .ok target := by
  obtain ⟨i, ht, hn⟩ := (wellFormed_registered history).target_eq_ok_iff.1 h
  have hi : i < (registered history).size :=
    lt_size_of_mem_outputs (Descriptor.mem_outputs.2 ⟨target, ht, hn⟩)
  obtain ⟨j, -, hj⟩ := exists_place ((prefix_registered history later).subset (descriptor_mem hi))
  exact (wellFormed_registered _).target_eq_ok_iff.2 ⟨j, hj ▸ ht, hn⟩

/-- What an accepted registration produces is a target, from then on. -/
theorem target_of_performed {q : Registration}
    (h : ((registered history).perform q).1 = .ok ()) (ht : target ∈ q.toDraft.produces)
    (later : List Registration) :
    (registered (history ++ q :: later)).target target.name = .ok target := by
  have hnow : (registered (history ++ [q])).target target.name = .ok target := by
    have hlast : registered (history ++ [q]) = ((registered history).perform q).2 :=
      List.foldl_concat _ _ _ _
    rw [perform_eq] at h hlast
    have hmem : (⟨q.toDraft.name, q.toDraft.produces, q.toDraft.allConsumed, q.toDraft.fill⟩ :
        Descriptor) ∈ (registered (history ++ [q])).descriptors := by
      rw [hlast, descriptors_registerDraft h]
      exact List.mem_append_right _ List.mem_cons_self
    obtain ⟨i, -, hi⟩ := exists_place hmem
    exact (wellFormed_registered _).target_eq_ok_iff.2 ⟨i, hi ▸ ht, rfl⟩
  rw [List.append_cons]
  exact target_registered_append hnow later

theorem name_of_target (h : (registered history).target n = .ok target) : target.name = n := by
  obtain ⟨i, -, hn⟩ := (wellFormed_registered history).target_eq_ok_iff.1 h
  exact hn

end Registry

open Registry in
/-- A handle that was handed out keeps its promise. -/
theorem Handle.Minted.exists_target {regs : List Registration} {k : Handle} (hk : k.Minted regs) :
    ∃ target, (registered regs).target k.name = .ok target ∧ k.Promises target := by
  cases hk with
  | @domain history later name t consumes fill h split answer =>
    obtain ⟨rfl, hok⟩ := registerDomain_eq_ok answer
    rw [split]
    exact ⟨_, target_of_performed hok (List.mem_singleton_self _) later, rfl⟩
  | @relation history later name sig consumes fill h split answer =>
    obtain ⟨rfl, hok⟩ := registerRelation_eq_ok answer
    rw [split]
    exact ⟨_, target_of_performed hok (List.mem_singleton_self _) later, sig, rfl⟩
  | @domainHandle history later name t h split answer =>
    obtain ⟨rfl, ⟨n, kind⟩, htarget, rfl⟩ := domainHandle_eq_ok answer
    obtain rfl : n = h.name := name_of_target htarget
    rw [split]
    exact ⟨_, target_registered_append htarget later, rfl⟩
  | @relationHandle history later name h split answer =>
    obtain ⟨rfl, ⟨n, kind⟩, sig, htarget, rfl⟩ := relationHandle_eq_ok answer
    obtain rfl : n = h.name := name_of_target htarget
    rw [split]
    exact ⟨_, target_registered_append htarget later, sig, rfl⟩

/-! ## Artifacts of the right type -/

namespace Artifact.Serves

variable {s : Store} {n : String} {a : Artifact}

/-- What is published for a domain is a domain of its facts. -/
theorem exists_domain {t : FactType} (h : a.Serves s ⟨n, .domain t⟩) :
    ∃ id d, a = .domain id ∧ id.place < s.domains.length ∧ s.get id = ⟨t, d⟩ ∧ d.name = n := by
  cases a with
  | relation r => exact h.elim
  | domain id =>
    obtain ⟨hlt, hname, htype⟩ := h
    cases hget : s.get id with
    | mk u d =>
      rw [hget] at hname htype
      obtain rfl : u = t := htype
      exact ⟨id, d, rfl, hlt, hget, hname⟩

/-- What is published for a relation is a relation. -/
theorem exists_relation {sig : Signature} (h : a.Serves s ⟨n, .relation sig⟩) :
    ∃ r : Relation, a = .relation r ∧ r.name = n := by
  cases a with
  | domain id => exact h.elim
  | relation r => exact ⟨r, rfl, h⟩

end Artifact.Serves

namespace Session

variable {x : Session} {n : String}

theorem perform_readFacts {id : DomainId} {t : FactType} {d : Domain t.Carrier}
    (hn : x.input n = .ok (.domain id)) (hlt : id.place < x.run.store.domains.length)
    (hd : x.run.store.get id = ⟨t, d⟩) : (x.perform (.readFacts n t)).1 = .ok d.freeze := by
  have hget : (x.run.store.freeze id).get id = ⟨t, d.freeze⟩ := by
    rw [Store.freeze, Store.get_set, if_pos ⟨rfl, hlt⟩, hd]
    rfl
  have hread : (x.readDomain n).1 = .ok ⟨t, d.freeze⟩ := by
    rw [readDomain, inputDomain, hn]
    exact congrArg Except.ok hget
  rw [perform]
  split <;> rename_i heq <;> rw [heq] at hread
  · cases hread
  · rw [Except.ok.inj hread, AnyDomain.downcast_self]

theorem perform_readRelation {r : Relation} (hn : x.input n = .ok (.relation r)) :
    (x.perform (.readRelation n)).1 = .ok r := by
  rw [perform, inputRelation, hn]
  rfl

end Session

/-- In a coherent run, an artifact serves the target of its name. -/
theorem Run.Coherent.serves {registry : Registry} {r : Run} (h : r.Coherent registry)
    (hr : registry.WellFormed) {n : String} {target : Target} {a : Artifact}
    (ht : registry.target n = .ok target) (ha : r.artifact? n = some a) :
    a.Serves r.store target := by
  obtain ⟨i, hi, rfl⟩ := hr.target_eq_ok_iff.1 ht
  exact h.served i target hi a ha

/-- The checks that registrations add to the steps that they are given keep names. -/
theorem Registration.keepsNames_toDraft {q : Registration} (h : q.step.KeepsNames) :
    q.toDraft.fill.KeepsNames := by
  cases q with
  | draft d => exact h
  | domain name t consumes fill => exact Fill.Always.ofDomain trivial h
  | relation name sig consumes fill => exact Fill.Always.ofRelation trivial trivial h

namespace Moment

variable {regs : List Registration} {c : Config} {m : Moment} {s s' : Scheduler} {n : String}
  {target : Target} {a : Artifact}

theorem sound_of_registered (hk : ∀ q ∈ regs, q.step.KeepsNames)
    (h : Reachable (.registered regs) c m) : m.Sound := by
  rw [Registry.registered_eq_ofDrafts] at h
  refine sound_of_reachable (List.forall_mem_map.2 fun q hq => ?_) h
  exact Registration.keepsNames_toDraft (hk q hq)

/-- The artifact that a request is answered with serves its target. -/
theorem serves_of_materialize (hk : ∀ q ∈ regs, q.step.KeepsNames)
    (hm : Reachable (.registered regs) c ⟨s, .idle⟩)
    (ht : (Registry.registered regs).target n = .ok target)
    (h : s.materialize n = (.ok a, s')) : a.Serves s'.run.store target := by
  have hlater : Reachable (.registered regs) c ⟨s', .idle⟩ := by
    have hs' : s.handle (.materialize n) = s' := congrArg Prod.snd h
    exact hs' ▸ hm.trans (reaches_handle s (.materialize n))
  obtain ⟨hr, hcoherent⟩ := sound_of_registered hk hm
  obtain ⟨hr', hcoherent'⟩ := sound_of_registered hk hlater
  obtain ⟨-, ha⟩ := Scheduler.status_of_materialize hr hcoherent h
  rw [← registry_of_reachable hlater] at ht
  exact hcoherent'.serves hr'.toWellFormed ht ha

/-- So is the artifact of a consumed name that a step reads. -/
theorem exists_input {i : Nat} {inputs : NameMap Artifact} {outputs : Outputs} {fill : Fill}
    {rest : List Nat} (hk : ∀ q ∈ regs, q.step.KeepsNames)
    (hm : Reachable (.registered regs) c ⟨s, .filling i inputs outputs fill rest⟩)
    (ht : (Registry.registered regs).target n = .ok target)
    (hn : n ∈ (s.registry.descriptor i).consumes) :
    ∃ a, (s.session i inputs outputs).input n = .ok a ∧ a.Serves s.run.store target := by
  obtain ⟨hr, -, r₀, o, store, hu⟩ := sound_of_registered hk hm
  have hr := hr.toWellFormed
  have hregistry : s.registry = .registered regs := registry_of_reachable hm
  rw [← hregistry] at ht
  obtain ⟨a, hin, -, ha⟩ := hu.served hr hn
  rw [(hu.ran hr).artifact?] at ha
  exact ⟨a, hu.input_ok hin, (hu.coherent.serves hr ht ha).grows (hu.ran hr).store⟩

/-- If steps replace relations by such of the same name only, whoever holds a handle, from whichever
time of the registrations, gets what it promises. Where the artifact of the name is materialized,
it is a domain of the facts of the handle, or a relation, and the type is never refused. In a
population step whose descriptor consumes the name, it is read, and a domain is frozen then. -/
theorem handles_never_mismatch {regs : List Registration} (hk : ∀ q ∈ regs, q.step.KeepsNames)
    (c : Config) :
    let registry := Registry.registered regs
    (∀ (t : FactType) (h : DomainHandle t), Handle.Minted regs (.domain h) →
      (∀ s, Reachable registry c ⟨s, .idle⟩ → ∀ a s', s.materialize h.name = (.ok a, s') →
        ∃ d, s.domain h = (.ok d, s') ∧ d.name = h.name) ∧
      ∀ s i inputs outputs fill rest,
        Reachable registry c ⟨s, .filling i inputs outputs fill rest⟩ →
        h.name ∈ (s.registry.descriptor i).consumes →
        ∃ d, ((s.session i inputs outputs).perform (.readFacts h.name t)).1 = .ok d ∧
          d.name = h.name ∧ d.frozen = true) ∧
    ∀ h : RelationHandle, Handle.Minted regs (.relation h) →
      (∀ s, Reachable registry c ⟨s, .idle⟩ → ∀ a s', s.materialize h.name = (.ok a, s') →
        ∃ r, s.relation h = (.ok r, s') ∧ r.name = h.name) ∧
      ∀ s i inputs outputs fill rest,
        Reachable registry c ⟨s, .filling i inputs outputs fill rest⟩ →
        h.name ∈ (s.registry.descriptor i).consumes →
        ∃ r, ((s.session i inputs outputs).perform (.readRelation h.name)).1 = .ok r ∧
          r.name = h.name := by
  intro registry
  refine ⟨fun t h hminted => ?_, fun h hminted => ?_⟩
  · obtain ⟨_, ht, rfl⟩ := hminted.exists_target
    refine ⟨fun s hm a s' hok => ?_, fun s i inputs outputs fill rest hm hn => ?_⟩
    · obtain ⟨id, d, rfl, -, hd, hname⟩ := (serves_of_materialize hk hm ht hok).exists_domain
      refine ⟨d, ?_, hname⟩
      simp only [Scheduler.domain, hok, Artifact.intoDomain, hd, AnyDomain.downcast_self]
    · obtain ⟨a, hin, hserves⟩ := exists_input hk hm ht hn
      obtain ⟨id, d, rfl, hlt, hd, hname⟩ := hserves.exists_domain
      exact ⟨d.freeze, Session.perform_readFacts hin hlt hd, hname, rfl⟩
  · obtain ⟨_, ht, sig, rfl⟩ := hminted.exists_target
    refine ⟨fun s hm a s' hok => ?_, fun s i inputs outputs fill rest hm hn => ?_⟩
    · obtain ⟨r, rfl, hname⟩ := (serves_of_materialize hk hm ht hok).exists_relation
      refine ⟨r, ?_, hname⟩
      simp only [Scheduler.relation, hok, Artifact.intoRelation]
    · obtain ⟨a, hin, hserves⟩ := exists_input hk hm ht hn
      obtain ⟨r, rfl, hname⟩ := hserves.exists_relation
      exact ⟨r, Session.perform_readRelation hin, hname⟩

/-- Letters, and marks on them that are made in a relation of the given name. -/
def lettersThenMarks (label : String) : List Registration :=
  [.domain "letters" .text [] .finish,
    .relation "marks" (.unary "letters") [] (relabelMarks label)]

/-- The marks are answered through their handle when they were replaced by a relation that is called
so as well. -/
theorem relation_of_marks :
    (∀ q ∈ lettersThenMarks "marks", q.step.KeepsNames) ∧
      ∃ r s', (Scheduler.new (.registered (lettersThenMarks "marks"))
        ⟨.sequential, 0, .empty⟩).relation ⟨"marks"⟩ = (.ok r, s') ∧ r.name = "marks" := by
  have hk : ∀ q ∈ lettersThenMarks "marks", q.step.KeepsNames := by
    simp only [lettersThenMarks, List.forall_mem_cons, List.not_mem_nil, false_implies,
      implies_true, and_true]
    exact ⟨trivial, keepsNames_relabelMarks⟩
  have hanswer : (Registry.registered (lettersThenMarks "marks")).relationHandle "marks" =
      .ok ⟨"marks"⟩ := by decide
  have hminted : Handle.Minted (lettersThenMarks "marks") (.relation ⟨"marks"⟩) :=
    .relationHandle (List.append_nil _).symm hanswer
  have hisOk : ((Scheduler.new (.registered (lettersThenMarks "marks"))
      ⟨.sequential, 0, .empty⟩).materialize "marks").1.isOk = true := by decide +kernel
  obtain ⟨a, ha⟩ := exists_ok_of_isOk hisOk
  obtain ⟨r, hr, hname⟩ := ((handles_never_mismatch hk ⟨.sequential, 0, .empty⟩).2 ⟨"marks"⟩
    hminted).1 _ .refl a _ (Prod.ext ha rfl)
  exact ⟨hk, r, _, hr, hname⟩

/-- When marks are replaced by a relation that is called like the letters, it is the letters that a
request finds replaced, and their handle is refused. -/
theorem letters_mismatch :
    let regs := (lettersAndMarks (relabelMarks "letters")).map Registration.draft
    let s := (Scheduler.new (.registered regs) ⟨.sequential, 0, .empty⟩).after
      [.materialize "marks"]
    Handle.Minted regs (.domain (⟨"letters"⟩ : DomainHandle .text)) ∧
      Reachable (.registered regs) ⟨.sequential, 0, .empty⟩ ⟨s, .idle⟩ ∧
      (s.materialize "letters").1.isOk = true ∧
      (s.domain (⟨"letters"⟩ : DomainHandle .text)).1 =
        .error (.typeMismatch "letters" .domain) := by
  intro regs s
  have hanswer : (Registry.registered regs).domainHandle "letters" .text =
      .ok ⟨"letters"⟩ := by decide
  refine ⟨.domainHandle (List.append_nil _).symm hanswer, reachable_after _ _ _,
    by decide +kernel, ?_⟩
  · have hsize : (s.domain (⟨"letters"⟩ : DomainHandle .text)).1.map Domain.size =
        .error (.typeMismatch "letters" .domain) := by decide +kernel
    cases hd : (s.domain (⟨"letters"⟩ : DomainHandle .text)).1 with
    | ok d =>
      rw [hd] at hsize
      cases hsize
    | error e =>
      rw [hd] at hsize
      exact congrArg Except.error (Except.error.inj hsize)

/-- It is the registry that refuses a wrong promise. -/
example :
    let regs : List Registration := [.domain "pages" .text [] .finish,
      .relation "lost" (.unary "pages") [] .finish]
    let registry := Registry.registered regs
    let s := Scheduler.new registry ⟨.sequential, 0, .empty⟩
    registry.domainHandle "lost" .text = .error (.typeMismatch "lost" (.domainOf .text)) ∧
    registry.domainHandle "pages" .u32 = .error (.typeMismatch "pages" (.domainOf .u32)) ∧
    registry.domainHandle "pages" .text = .ok ⟨"pages"⟩ ∧
    (s.domain (⟨"pages"⟩ : DomainHandle .text)).1.map Domain.size = .ok 0 := by
  decide +kernel

end Moment

end FactEngine
