import FactEngine.Proofs.Extension
import FactEngine.Proofs.Inputs

/-!
# Domains that are read

A frozen domain has the same facts forever, because nothing that can happen to a scheduler thaws
a domain or takes a fact from one (`Moment.Reaches.extends`).

A population step that reads a consumed domain freezes it (`Session.get_of_shown`). The
consumed domains that its output relations are bound to are frozen when it begins, and its relations
are bound to no others for as long as it replaces none of them (`Outputs.Settled`). So whoever reads
a domain after another reader is shown what that one was shown (`Moment.frozen_once_read`). All that
has to be known of a moment is that the artifacts are in the store, and so is what the step that is
under way has (`Moment.Stored`). This holds of all registries, whatever relations their steps
replace.

A step can also look at a consumed artifact. If the artifact is a domain, this shows its facts
like the other ways do, but it does not freeze the domain, and what was shown can become
outdated (`Moment.input_leaves_growing`).
-/

namespace FactEngine

/-! ## Columns -/

namespace Outputs

variable {descriptor : String} {inputs : NameMap Artifact} {own : NameMap DomainId} {s s' : Store}
  {o o' : Outputs} {d : Descriptor}

/-- The domains among the inputs are in the store. -/
def Stored (inputs : NameMap Artifact) (s : Store) : Prop :=
  ∀ n id, inputs.get? n = some (.domain id) → id.place < s.domains.length

theorem Stored.extends (h : Stored inputs s) (hs : s.Extends s') : Stored inputs s' :=
  fun n id hn => (h n id hn).trans_le hs.length_le

/-- Every column of an output relation is bound to an output domain, or to a frozen one. -/
def Settled (o : Outputs) (s : Store) : Prop :=
  ∀ n r, o.relations.get? n = some r → ∀ id ∈ r.columns,
    (∃ m, o.domains.get? m = some id) ∨ (s.get id).frozen = true

theorem Settled.extends (h : o.Settled s) (hs : s.Extends s') : o.Settled s' :=
  fun n r hr id hid => (h n r hr id hid).imp_right hs.frozen

/-- Writing tuples leaves the columns of output relations bound like this. -/
theorem Settled.same (h : o.Settled s) (hs : o.Same Relation.emptied o')
    (hdomains : o'.domains = o.domains) : o'.Settled s := by
  intro n r hr id hid
  obtain ⟨r', hr', hsame⟩ := hs.symm.exists_eq hr
  have hid' : id ∈ r'.emptied.columns := by rwa [hsame]
  rw [hdomains]
  exact h n r' hr' id hid'

theorem frozen_bindColumn (hin : Stored inputs s) {n : String} {id : DomainId}
    (h : bindColumn descriptor inputs own s n = (.ok id, s')) :
    (∃ m, own.get? m = some id) ∨ (s'.get id).frozen = true := by
  unfold bindColumn at h
  split at h
  · rename_i hown
    cases h
    exact Or.inl ⟨n, hown⟩
  · rename_i hconsumed
    cases h
    exact Or.inr (Store.frozen_get_freeze (hin n _ hconsumed))
  · cases h
  · cases h

theorem frozen_bindColumns (hin : Stored inputs s) {cs : List Column} {ids : List DomainId}
    (h : bindColumns descriptor inputs own s cs = (.ok ids, s')) :
    ∀ id ∈ ids, (∃ m, own.get? m = some id) ∨ (s'.get id).frozen = true := by
  induction cs generalizing s ids with
  | nil =>
    cases h
    exact nofun
  | cons c cs ih =>
    unfold bindColumns at h
    split at h
    · cases h
    · rename_i id s₁ hc
      split at h
      · cases h
      · rename_i ids' s₂ hcs
        cases h
        have hid := frozen_bindColumn hin hc
        have hids := ih (hin.extends (extends_bindColumn hc)) hcs
        exact List.forall_mem_cons.2 ⟨hid.imp_right (extends_bindColumns hcs).frozen, hids⟩

theorem settled_makeRelations (hin : Stored inputs s) (ho : o.Settled s) {targets : List Target}
    (h : makeRelations descriptor inputs o s targets = (.ok o', s')) : o'.Settled s' := by
  induction targets generalizing o s with
  | nil =>
    cases h
    exact ho
  | cons target targets ih =>
    obtain ⟨name, kind⟩ := target
    cases kind with
    | domain t => exact ih hin ho h
    | relation sig =>
      simp only [makeRelations] at h
      split at h
      · cases h
      · rename_i ids s₁ hb
        split at h
        · cases h
        · rename_i r hr
          obtain ⟨-, rfl⟩ := Relation.eq_of_create hr
          have hextends := extends_bindColumns hb
          refine ih (hin.extends hextends) (fun n r hn => ?_) h
          rw [NameMap.get?_insert] at hn
          split at hn
          · obtain rfl := Option.some.inj hn
            exact frozen_bindColumns hin hb
          · exact ho.extends hextends n r hn

/-- The columns of output relations are bound like this when a step begins. -/
theorem settled_prepare (hin : Stored inputs s) (h : prepare d inputs s = (.ok o, s')) :
    o.Settled s' :=
  settled_makeRelations (hin.extends (extends_makeDomains s d.produces))
    (fun n r hr => by simp at hr) h

end Outputs

/-! ## Actions -/

namespace Action

/-- The domain that the answer to an action shows. -/
def shown? : (a : Action) → a.Reply → Option AnyDomain
  | input _, .ok (.domain d) => some d
  | readDomain _, .ok d => some d
  | readFacts _ t, .ok d => some ⟨t, d⟩
  | _, _ => none

end Action

namespace Session

variable {x x' : Session} {a : Action} {n : String} {id : DomainId}

/-- What is shown of a consumed domain is the domain after the action, which is frozen unless the
action only looks at the artifact. -/
theorem get_of_shown (ha : a.consumed? = some n) (hin : x.input n = .ok (.domain id))
    (hid : id.place < x.run.store.domains.length) {d : AnyDomain}
    (hd : a.shown? (x.perform a).1 = some d) :
    (x.perform a).2.run.store.get id = d ∧ (a ≠ .input n → d.frozen = true) := by
  cases a with
  | input m =>
    obtain rfl := Option.some.inj ha
    simp only [perform, hin, Artifact.view, Action.shown?] at hd ⊢
    exact ⟨Option.some.inj hd, fun h => (h rfl).elim⟩
  | readDomain m =>
    obtain rfl := Option.some.inj ha
    simp only [perform, readDomain, inputDomain, hin, Action.shown?] at hd ⊢
    obtain rfl := Option.some.inj hd
    exact ⟨rfl, fun _ => Store.frozen_get_freeze hid⟩
  | readFacts m t =>
    obtain rfl := Option.some.inj ha
    simp only [perform, readDomain, inputDomain, hin] at hd ⊢
    cases hdown : ((x.freeze id).run.store.get id).downcast t with
    | error e =>
      rw [hdown] at hd
      cases hd
    | ok e =>
      rw [hdown] at hd
      obtain rfl := Option.some.inj hd
      have heq := AnyDomain.eq_of_downcast hdown
      exact ⟨heq, fun _ => heq ▸ Store.frozen_get_freeze hid⟩
  | readRelation m => cases hd
  | growInput m t fs => cases hd
  | _ => cases ha

/-- A consumed domain is shown to whoever asks for it, and for facts of the type that it has. -/
theorem exists_shown (hin : x.input n = .ok (.domain id))
    (ha : a = .input n ∨ a = .readDomain n ∨ a = .readFacts n (x.run.store.get id).factType) :
    ∃ d, a.shown? (x.perform a).1 = some d := by
  rcases ha with rfl | rfl | rfl
  · simp [perform, hin, Artifact.view, Action.shown?]
  · simp [perform, readDomain, inputDomain, hin, Action.shown?]
  · have hfreeze := (x.run.store.thawed_freeze id).freeze_eq id
    have htype : (x.run.store.get id).factType = ((x.freeze id).run.store.get id).factType :=
      (congrArg (fun d => d.factType) hfreeze).symm
    have hdown := AnyDomain.downcast_self ((x.freeze id).run.store.get id).domain
    rw [htype]
    simp [perform, readDomain, inputDomain, hin, hdown, Action.shown?]

/-- Looking at a consumed artifact changes nothing. -/
theorem perform_input (x : Session) (n : String) : (x.perform (.input n)).2 = x := by
  simp only [perform]
  split <;> rfl

end Session

/-! ## Artifacts in the store -/

/-- A domain among the artifacts of targets is an output domain. -/
theorem Outputs.exists_get?_of_mem_artifacts {o : Outputs} {targets : List Target} {id : DomainId}
    (h : .domain id ∈ o.artifacts targets) : ∃ n, o.domains.get? n = some id := by
  obtain ⟨⟨n, kind⟩, -, ht⟩ := List.mem_filterMap.1 h
  cases kind with
  | domain t =>
    obtain ⟨id', hn, heq⟩ := Option.map_eq_some_iff.1 ht
    exact ⟨n, by rw [hn, Artifact.domain.inj heq]⟩
  | relation sig =>
    obtain ⟨r, -, heq⟩ := Option.map_eq_some_iff.1 ht
    cases heq

namespace Run

variable {r r' : Run}

/-- The domains among the artifacts of a run are in its store. -/
def Stored (r : Run) : Prop :=
  ∀ n id, r.artifact? n = some (.domain id) → id.place < r.store.domains.length

theorem Stored.extends (h : r.Stored) (hs : r.store.Extends r'.store)
    (ha : ∀ n a, r'.artifact? n = some a → r.artifact? n = some a) : r'.Stored :=
  fun n id hn => (h n id (ha n _ hn)).trans_le hs.length_le

theorem Stored.dropped (h : r.Stored) {names : List String} (hs : r'.store = r.store)
    (ha : ∀ n, r'.artifact? n = if n ∈ names then none else r.artifact? n) : r'.Stored := by
  refine h.extends (hs ▸ .refl _) fun n a hn => ?_
  rw [ha] at hn
  split at hn
  · cases hn
  · exact hn

theorem Stored.failing (h : r.Stored) (d : Descriptor) : (r.failing d).Stored :=
  h.dropped rfl (r.artifact?_fail d.outputs)

/-- Whatever names the outputs carry, their domains are in the store. -/
theorem Stored.publishing (h : r.Stored) (d : Descriptor) {o : Outputs}
    (ho : ∀ n id, o.domains.get? n = some id → id.place < r.store.domains.length) :
    (r.publishing d o).Stored := by
  intro n id hn
  have hn : (r.publish (o.artifacts d.produces)).artifact? n = some (.domain id) := hn
  rcases artifact?_publish hn with hmem | hn
  · obtain ⟨m, hm⟩ := Outputs.exists_get?_of_mem_artifacts hmem
    exact ho m id hm
  · exact h n id hn

/-- The domains that a descriptor receives are in the store. -/
theorem Stored.received (h : r.Stored) (d : Descriptor) :
    Outputs.Stored (r.received d) r.store :=
  fun n id hn => h n id (artifact?_of_received hn).2.2.2

end Run

namespace Moment

variable {m m' : Moment} {s : Scheduler}

/-- What the step that is under way has : consumed artifacts, with domains that are in the store,
and output domains, which are others. If the whole step replaces no relation, then neither does
what is left of it, and the columns of its relations are bound as they were when it began. -/
structure Given (s : Scheduler) (i : Nat) (inputs : NameMap Artifact) (outputs : Outputs)
    (fill : Fill) : Prop where
  consumed : ∀ n a, inputs.get? n = some a → n ∈ (s.registry.descriptor i).consumes
  stored : Outputs.Stored inputs s.run.store
  made : ∀ n id, outputs.domains.get? n = some id → id.place < s.run.store.domains.length
  apart : ∀ n id, outputs.domains.get? n = some id → ∀ k, inputs.get? k ≠ some (.domain id)
  settled : (s.registry.descriptor i).fill.InPlace →
    fill.InPlace ∧ outputs.OwnNames ∧ outputs.Settled s.run.store

/-- The artifacts are in the store, and so is what the step that is under way has. -/
def Stored : Moment → Prop
  | ⟨s, .filling i inputs outputs fill _⟩ => s.run.Stored ∧ Given s i inputs outputs fill
  | ⟨s, _⟩ => s.run.Stored

theorem stored_accept (h : s.run.Stored) (q : Request) : (s.accept q).Stored := by
  cases q with
  | materialize target =>
    rw [Scheduler.accept]
    rcases s.turnTo_cases target with hs | ⟨sequence, -, hs⟩ <;> rw [hs] <;> exact h
  | invalidate target =>
    simp only [Scheduler.accept, Scheduler.handle, Scheduler.invalidate, Stored]
    split
    · exact h
    · exact h.dropped rfl (s.run.artifact?_forget _)
  | reset =>
    intro n id hn
    cases hn
  | extend a t fs => exact h.extends (a.extends_extend s.run.store t fs) fun _ _ hn => hn
  | _ => exact h

theorem stored_start (h : s.run.Stored) (i : Nat) (rest : List Nat) :
    (s.start i rest).Stored := by
  have hextends := Outputs.extends_prepare (s.registry.descriptor i)
    (s.run.received (s.registry.descriptor i)) s.run.store
  rcases hp : Outputs.prepare (s.registry.descriptor i)
    (s.run.received (s.registry.descriptor i)) s.run.store with ⟨e | o, store⟩
  all_goals
    rw [hp] at hextends
    have hbegun : (s.run.begun (s.registry.descriptor i) store).Stored :=
      h.extends hextends fun _ _ hn => hn
  · rw [start_of_error hp]
    exact hbegun.failing _
  · rw [start_of_ok hp]
    have hreceived := h.received (s.registry.descriptor i)
    refine ⟨hbegun, fun n a hn => (Run.artifact?_of_received hn).1, hreceived.extends hextends,
      fun n id hn => (Outputs.place_of_prepare hp hn).2, fun n id hn k hk => ?_,
      fun hin => ⟨hin, Outputs.ownNames_of_prepare hp, Outputs.settled_prepare hreceived hp⟩⟩
    exact (hreceived k id hk).not_ge (Outputs.place_of_prepare hp hn).1

theorem Given.extends {i : Nat} {inputs : NameMap Artifact} {outputs : Outputs} {fill : Fill}
    {s' : Scheduler} (h : Given s i inputs outputs fill) (hr : s'.registry = s.registry)
    (hs : s.run.store.Extends s'.run.store) : Given s' i inputs outputs fill := by
  refine ⟨fun n a hn => ?_, h.stored.extends hs,
    fun n id hn => (h.made n id hn).trans_le hs.length_le, h.apart, fun hin => ?_⟩
  · rw [hr]
    exact h.consumed n a hn
  · rw [hr] at hin
    obtain ⟨hfill, hown, hsettled⟩ := h.settled hin
    exact ⟨hfill, hown, hsettled.extends hs⟩

/-- What a step does leaves it with what it was given. -/
theorem Given.perform {i : Nat} {inputs : NameMap Artifact} {outputs : Outputs} {a : Action}
    {go : a.Reply → Fill} (h : Given s i inputs outputs (.step a go)) :
    let result := (s.session i inputs outputs).perform a
    Given { s with run := result.2.run } i inputs result.2.outputs (go result.1) := by
  intro result
  have hcontinues : (s.session i inputs outputs).Continues result.2 :=
    (s.session i inputs outputs).continues_perform a
  have hextends : s.run.store.Extends result.2.run.store :=
    (s.session i inputs outputs).extends_perform a
  have hdomains : result.2.outputs.domains = outputs.domains := hcontinues.domains
  refine ⟨h.consumed, h.stored.extends hextends, fun n id hn => ?_, fun n id hn => ?_,
    fun hin => ?_⟩
  · exact (h.made n id (hdomains ▸ hn)).trans_le hextends.length_le
  · exact h.apart n id (hdomains ▸ hn)
  · obtain ⟨hfill, hown, hsettled⟩ := h.settled hin
    have hsame : outputs.Same Relation.emptied result.2.outputs :=
      Session.same_emptied_perform (s := s.session i inputs outputs) hown hfill.1
    exact ⟨hfill.2 _, hsame.name.ownNames hown, (hsettled.same hsame hdomains).extends hextends⟩

theorem Stored.next (h : m.Stored) : m.next.Stored := by
  obtain ⟨s, phase⟩ := m
  cases phase with
  | idle => exact h
  | executing rest =>
    cases rest with
    | nil => exact h
    | cons i rest =>
      rw [next_executing]
      split
      · exact h
      · exact stored_start h i rest
  | filling i inputs outputs fill rest =>
    obtain ⟨hs, hgiven⟩ := h
    cases fill with
    | finish => exact hs.publishing _ hgiven.made
    | fail f => exact hs.failing _
    | step a go =>
      have hcontinues := (s.session i inputs outputs).continues_perform a
      refine ⟨hs.extends ((s.session i inputs outputs).extends_perform a) fun n b hn => ?_,
        hgiven.perform⟩
      exact (congrArg (·.get? n) hcontinues.artifacts).symm.trans hn

theorem Stored.client (h : m.Stored) {q : Request} (hq : ¬q.IsPlain) :
    Stored { m with scheduler := m.scheduler.handle q } := by
  have hextends := m.extends_client hq
  obtain ⟨s, phase⟩ := m
  have hsame : (s.handle q).registry = s.registry ∧
      (s.handle q).run.artifacts = s.run.artifacts := by
    rcases client_cases s hq with ⟨signal, hs⟩ | ⟨a, t, fs, hs⟩ <;> rw [hs] <;> exact ⟨rfl, rfl⟩
  have hrun : s.run.Stored → (s.handle q).run.Stored := fun hs =>
    hs.extends hextends fun n a hn => (congrArg (·.get? n) hsame.2).symm.trans hn
  cases phase with
  | idle => exact hrun h
  | executing rest => exact hrun h
  | filling i inputs outputs fill rest => exact ⟨hrun h.1, h.2.extends hsame.1 hextends⟩

theorem stored_of_reachable {registry : Registry} {c : Config} (h : Reachable registry c m) :
    m.Stored := by
  induction h with
  | refl =>
    intro n id hn
    cases hn
  | tail _ hs ih =>
    cases hs with
    | request s q => exact stored_accept ih q
    | next => exact ih.next
    | client _ q hq => exact ih.client hq

/-! ## Reading -/

/-- The next action of the population step that is under way. -/
def action? : Moment → Option Action
  | ⟨_, .filling _ _ _ (.step a _) _⟩ => some a
  | _ => none

/-- What the population step that is under way was given for a name. -/
def input? : Moment → String → Option Artifact
  | ⟨_, .filling _ inputs _ _ _⟩, n => inputs.get? n
  | _, _ => none

/-- The consumed domain that the next action is about, and what its answer shows of it. -/
def shown? : Moment → Option (DomainId × AnyDomain)
  | ⟨s, .filling i inputs outputs (.step a _) _⟩ =>
    match a.consumed?.bind inputs.get? with
    | some (.domain id) => (a.shown? ((s.session i inputs outputs).perform a).1).map (id, ·)
    | _ => none
  | _ => none

/-- An output relation of the step that is under way has a column over the consumed domain. -/
def Binds : Moment → DomainId → Prop
  | ⟨_, .filling _ inputs outputs _ _⟩, id =>
    (∃ n, inputs.get? n = some (.domain id)) ∧
      ∃ n r, outputs.relations.get? n = some r ∧ id ∈ r.columns
  | _, _ => False

/-- The step that is under way replaces no relation, whatever it is answered. -/
def WritesInPlace : Moment → Prop
  | ⟨s, .filling i _ _ _ _⟩ => (s.registry.descriptor i).fill.InPlace
  | _ => True

variable {registry : Registry} {c : Config}

/-- If a step is given an output relation with a column over a consumed domain, this is frozen. -/
theorem Given.frozen_of_settled {i : Nat} {inputs : NameMap Artifact} {outputs : Outputs}
    {fill : Fill} (h : Given s i inputs outputs fill) (ho : outputs.Settled s.run.store)
    {rest : List Nat} {id : DomainId} (hb : Binds ⟨s, .filling i inputs outputs fill rest⟩ id) :
    (s.run.store.get id).frozen = true := by
  obtain ⟨⟨k, hk⟩, n, r, hr, hid⟩ := hb
  exact (ho n r hr id hid).resolve_left fun ⟨n', hown⟩ => h.apart n' id hown k hk

/-- When a step begins, the consumed domains that its relations are bound to are frozen. -/
theorem frozen_of_start {i : Nat} {rest : List Nat} (h : s.run.Stored) {id : DomainId}
    (hb : (s.start i rest).Binds id) : ((s.start i rest).store.get id).frozen = true := by
  have hstored := stored_start h i rest
  rcases hp : Outputs.prepare (s.registry.descriptor i)
    (s.run.received (s.registry.descriptor i)) s.run.store with ⟨e | o, store⟩
  · rw [start_of_error hp] at hb
    exact hb.elim
  · rw [start_of_ok hp] at hb hstored ⊢
    exact hstored.2.frozen_of_settled (Outputs.settled_prepare (h.received _) hp) hb

/-- The relations that a step is given are bound to frozen consumed domains. -/
theorem frozen_of_next (hm : Reachable registry c m) {rest : List Nat}
    (hphase : m.phase = .executing rest) {id : DomainId} (hb : m.next.Binds id) :
    (m.next.store.get id).frozen = true := by
  have hstored := stored_of_reachable hm
  obtain ⟨s, phase⟩ := m
  obtain rfl : phase = .executing rest := hphase
  cases rest with
  | nil => exact hb.elim
  | cons i rest =>
    rw [next_executing] at hb ⊢
    split at hb
    · exact hb.elim
    · rename_i hrunning
      rw [if_neg hrunning]
      exact frozen_of_start hstored hb

/-- While a step that replaces no relation is under way, its relations stay bound to frozen
domains. -/
theorem frozen_of_binds (hm : Reachable registry c m) (hin : m.WritesInPlace) {id : DomainId}
    (hb : m.Binds id) : (m.store.get id).frozen = true := by
  have hstored := stored_of_reachable hm
  obtain ⟨s, phase⟩ := m
  cases phase with
  | idle => exact hb.elim
  | executing rest => exact hb.elim
  | filling i inputs outputs fill rest =>
    obtain ⟨-, hgiven⟩ := hstored
    exact hgiven.frozen_of_settled (hgiven.settled hin).2.2 hb

theorem exists_filling {a : Action} (h : m.action? = some a) :
    ∃ s i inputs outputs go rest, m = ⟨s, .filling i inputs outputs (.step a go) rest⟩ := by
  unfold action? at h
  split at h
  · rename_i s i inputs outputs a' go rest
    obtain rfl := Option.some.inj h
    exact ⟨s, i, inputs, outputs, go, rest, rfl⟩
  · cases h

/-- Whoever asks for a consumed domain is shown it. -/
theorem exists_shown (hm : Reachable registry c m) {a : Action} {n : String} {id : DomainId}
    (ha : m.action? = some a) (hn : m.input? n = some (.domain id))
    (hask : a = .input n ∨ a = .readDomain n ∨ a = .readFacts n (m.store.get id).factType) :
    ∃ d, m.shown? = some (id, d) := by
  have hstored := stored_of_reachable hm
  obtain ⟨s, i, inputs, outputs, go, rest, rfl⟩ := exists_filling ha
  have hget : inputs.get? n = some (.domain id) := hn
  have hinput : (s.session i inputs outputs).input n = .ok (.domain id) :=
    Session.input_ok (hstored.2.consumed n _ hget) hget
  obtain ⟨d, hd⟩ := Session.exists_shown hinput hask
  have hconsumed : a.consumed? = some n := by
    rcases hask with ha | ha | ha <;> rw [ha] <;> rfl
  exact ⟨d, by simp [shown?, hconsumed, hget, hd]⟩

/-- What is shown of a consumed domain is the domain after the next step, which is frozen unless
the step only looks at the artifact. -/
theorem get_of_shown (hm : Reachable registry c m) {id : DomainId} {d : AnyDomain}
    (h : m.shown? = some (id, d)) :
    m.next.store.get id = d ∧ ((∀ n, m.action? ≠ some (.input n)) → d.frozen = true) := by
  have hstored := stored_of_reachable hm
  obtain ⟨s, phase⟩ := m
  unfold shown? at h
  split at h
  · rename_i s i inputs outputs a go rest heq
    obtain ⟨rfl, rfl⟩ := Moment.mk.inj heq
    obtain ⟨-, hgiven⟩ := hstored
    split at h
    · rename_i id' hconsumed
      obtain ⟨n, ha, hn⟩ := Option.bind_eq_some_iff.1 hconsumed
      obtain ⟨d', hd', hpair⟩ := Option.map_eq_some_iff.1 h
      obtain ⟨rfl, rfl⟩ := Prod.mk.inj hpair
      have hinput : (s.session i inputs outputs).input n = .ok (.domain id') :=
        Session.input_ok (hgiven.consumed n _ hn) hn
      have hshown := Session.get_of_shown ha hinput (hgiven.stored n _ hn) hd'
      exact ⟨hshown.1, fun hlook => hshown.2 fun heq => hlook n (congrArg some heq)⟩
    · cases h
  · cases h

/-- In every run, a frozen domain has the same facts forever. A consumed domain is frozen if an
output relation that a step is given is bound to it, and this is so for as long as the step
replaces no relation. It is frozen as soon as it was read, so that everyone who is shown it
later is shown the same. A step that looks at the artifact is shown the domain as well, but
freezes nothing. Asking for a consumed domain, or for facts of its type, is never refused. -/
theorem frozen_once_read (ds : List Draft) (c : Config) :
    (∀ (m m' : Moment) (id : DomainId), m.Reaches m' → (m.store.get id).frozen = true →
      m'.store.get id = m.store.get id) ∧
    ∀ m, Reachable (.ofDrafts ds) c m →
      (∀ rest, m.phase = .executing rest → ∀ id, m.next.Binds id →
        (m.next.store.get id).frozen = true) ∧
      (m.WritesInPlace → ∀ id, m.Binds id → (m.store.get id).frozen = true) ∧
      (∀ id d, m.shown? = some (id, d) → m.next.store.get id = d) ∧
      (∀ id d, m.shown? = some (id, d) → (∀ n, m.action? ≠ some (.input n)) →
        d.frozen = true ∧ ∀ m', m.next.Reaches m' →
          m'.store.get id = d ∧ ∀ d', m'.shown? = some (id, d') → d' = d) ∧
      (∀ n, m.action? = some (.input n) → m.next.store = m.store) ∧
      ∀ a n id, m.action? = some a → m.input? n = some (.domain id) →
        (a = .input n ∨ a = .readDomain n ∨ a = .readFacts n (m.store.get id).factType) →
          ∃ d, m.shown? = some (id, d) := by
  have hforever : ∀ (m m' : Moment) (id : DomainId), m.Reaches m' →
      (m.store.get id).frozen = true → m'.store.get id = m.store.get id :=
    fun m m' id hreach hfrozen => hreach.extends.get_eq hfrozen
  refine ⟨hforever, fun m hm => ⟨fun rest hphase id hb => frozen_of_next hm hphase hb,
    fun hin id hb => frozen_of_binds hm hin hb, fun id d h => (get_of_shown hm h).1,
    fun id d h hread => ?_, fun n ha => ?_, fun a n id ha hn hask => exists_shown hm ha hn hask⟩⟩
  · obtain ⟨hget, hfrozen⟩ := get_of_shown hm h
    have hfrozen := hfrozen hread
    have hlater : ∀ m', m.next.Reaches m' → m'.store.get id = d := by
      intro m' hreach
      rw [hforever _ _ id hreach (hget ▸ hfrozen), hget]
    refine ⟨hfrozen, fun m' hreach => ⟨hlater m' hreach, fun d' h' => ?_⟩⟩
    -- the reader of the later moment is shown the domain as it is right after that moment
    have hm' : Reachable (.ofDrafts ds) c m' := (hm.tail (.next m)).trans hreach
    rw [← (get_of_shown hm' h').1, hlater _ (hreach.tail (.next m'))]
  · obtain ⟨s, i, inputs, outputs, go, rest, rfl⟩ := exists_filling ha
    exact congrArg (fun x : Session => x.run.store) (Session.perform_input _ n)

/-- An analysis finds names, and another one looks at them. -/
def looking : List Draft :=
  [⟨"names", [⟨"names", .domain .text⟩], [], .step (.intern "names" .text ["A"]) fun _ => .finish⟩,
    ⟨"count", [⟨"count", .domain .u32⟩], ["names"], .step (.input "names") fun _ => .finish⟩]

/-- The names that the second analysis was shown do not stay all the names. -/
theorem input_leaves_growing :
    let s := (Scheduler.new (.ofDrafts looking) ⟨.sequential, 0, .empty⟩).after
      [.materialize "names"]
    let s' := s.after [.materialize "count", .extend (.domain ⟨0⟩) .text ["B"]]
    let m := next (s.accept (.materialize "count"))
    Reachable (.ofDrafts looking) ⟨.sequential, 0, .empty⟩ m ∧ m.next.Reaches ⟨s', .idle⟩ ∧
      ∃ d, m.shown? = some (⟨0⟩, d) ∧ d.labels = ["A"] ∧
        (m.next.store.get ⟨0⟩).frozen = false ∧ (s'.run.store.get ⟨0⟩).labels = ["A", "B"] := by
  intro s s' m
  have hshown : m.shown?.map (fun p => (p.1, p.2.labels)) = some (⟨0⟩, ["A"]) := by
    decide +kernel
  obtain ⟨⟨id, d⟩, hd, hlabels⟩ := Option.map_eq_some_iff.1 hshown
  obtain ⟨rfl, hlabels⟩ := Prod.mk.inj hlabels
  have hbusy : ∀ s'', m ≠ ⟨s'', .idle⟩ := by
    intro s'' h
    rw [h] at hd
    cases hd
  have haccept : ∀ s'', s.accept (.materialize "count") ≠ ⟨s'', .idle⟩ :=
    fun s'' h => hbusy s'' (congrArg next h)
  have hleads : m.next.Leads ⟨s.handle (.materialize "count"), .idle⟩ :=
    ((leads_accept s _).next (haccept _)).next (hbusy _)
  exact ⟨reachable_accept _ _ [.materialize "names"] (.materialize "count") 1,
    hleads.reaches.trans (reaches_handle _ (.extend (.domain ⟨0⟩) .text ["B"])),
    d, hd, hlabels, by decide +kernel, by decide +kernel⟩

end Moment

end FactEngine
