import FactEngine.Proofs.Registration
import Mathlib.Data.List.Duplicate
import Mathlib.Data.List.Induction

/-!
# Owners of names

A client adds descriptors that it drafts, and domains and relations that come with a descriptor of
their own (`Registration`). All three go through a draft (`Registry.perform_eq`), and a registration
that is accepted puts one descriptor behind the others, so that the registries of a history are
prefixes of each other (`Registry.prefix_registered`).

A registration is refused exactly if there is a clash (`Registry.Clash`) : a name stands twice
among its own outputs, or it belongs to a descriptor already. The refusal names the owner and
changes nothing. So every name keeps the owner that it has (`Registry.names_keep_their_owner`).
-/

namespace FactEngine

/-! ## Registrations -/

/-- A request to add a descriptor. -/
inductive Registration where
  /-- Add the descriptor of a draft. -/
  | draft (d : Draft)
  /-- Add a domain, with a descriptor of its name. -/
  | domain (name : String) (t : FactType) (consumes : List String) (fill : Fill)
  /-- Add a relation, with a descriptor of its name. -/
  | relation (name : String) (sig : Signature) (consumes : List String) (fill : Fill)

namespace Registration

/-- The name of the descriptor. -/
def name : Registration → String
  | draft d => d.name
  | domain name .. | relation name .. => name

/-- The names that are to be produced, as often as they are declared. -/
def outputs : Registration → List String
  | draft d => d.produces.map Target.name
  | domain name .. | relation name .. => [name]

/-- The draft that is built. -/
def toDraft : Registration → Draft
  | draft d => d
  | domain name t consumes fill => ⟨name, [⟨name, .domain t⟩], consumes, .ofDomain name t fill⟩
  | relation name sig consumes fill =>
    ⟨name, [⟨name, .relation sig⟩], consumes, .ofRelation name fill⟩

/-- The step that is given with a registration. -/
def step : Registration → Fill
  | draft d => d.fill
  | domain _ _ _ fill | relation _ _ _ fill => fill

/-- What is left to do when the step begins that is given with a registration. A relation is put
back after it. -/
def remaining : Registration → Fill
  | draft d => d.fill
  | domain _ _ _ fill => fill
  | relation name _ _ fill => fill.followedBy (.restore name)

@[simp] theorem name_toDraft (q : Registration) : q.toDraft.name = q.name := by
  cases q <;> rfl

@[simp] theorem outputs_toDraft (q : Registration) :
    q.toDraft.produces.map Target.name = q.outputs := by
  cases q <;> rfl

end Registration

namespace Registry

/-- Do what is requested. The handles of domains and relations are left out. -/
def perform (r : Registry) : Registration → Except Error Unit × Registry
  | .draft d => r.registerDraft d
  | .domain name t consumes fill =>
    match r.registerDomain name t consumes fill with
    | (answer, r) => (answer.map fun _ => (), r)
  | .relation name sig consumes fill =>
    match r.registerRelation name sig consumes fill with
    | (answer, r) => (answer.map fun _ => (), r)

/-- The registry after some registrations, refused ones among them. -/
def registered (history : List Registration) : Registry :=
  history.foldl (fun r q => (r.perform q).2) .empty

variable {r : Registry} {q : Registration} {n owner : String} {d : Descriptor}

theorem perform_eq (r : Registry) (q : Registration) : r.perform q = r.registerDraft q.toDraft := by
  cases q with
  | draft d => rfl
  | domain name t consumes fill =>
    simp only [perform, registerDomain, Registration.toDraft]
    split <;> rename_i heq <;> rw [heq] <;> rfl
  | relation name sig consumes fill =>
    simp only [perform, registerRelation, Registration.toDraft]
    split <;> rename_i heq <;> rw [heq] <;> rfl

/-! ## Clashes -/

/-- The registration cannot have the name, which belongs to the owner : the descriptor that is to
be added, if it declares the name twice, or one that is there. -/
inductive Clash (r : Registry) (q : Registration) : String → String → Prop
  | repeated {n : String} (h : List.Duplicate n q.outputs) : Clash r q n q.name
  | descriptor {d : Descriptor} (hd : d ∈ r.descriptors) (h : d.name = q.name) :
      Clash r q q.name d.name
  | output {n : String} {d : Descriptor} (hd : d ∈ r.descriptors) (hn : n ∈ q.outputs)
      (h : n ∈ d.outputs) : Clash r q n d.name

theorem taken?_eq_some {ns : List String} (h : r.taken? ns = some (n, owner)) :
    n ∈ ns ∧ ∃ i, r.producerIndex? n = some i ∧ owner = r.nameOf i := by
  induction ns with
  | nil => cases h
  | cons k ns ih =>
    unfold taken? at h
    split at h
    · rename_i i hi
      obtain ⟨rfl, rfl⟩ := Prod.mk.inj (Option.some.inj h)
      exact ⟨List.mem_cons_self, i, hi, rfl⟩
    · exact (ih h).imp_left (List.mem_cons_of_mem k)

/-- A registration is refused for a clash and changes nothing, or there is no clash, and what was
built for it is added. -/
theorem WellFormed.perform_cases (hr : r.WellFormed) (q : Registration) :
    (∃ n owner, r.Clash q n owner ∧ r.perform q = (.error (.duplicateName n owner), r)) ∨
      (∀ n owner, ¬r.Clash q n owner) ∧ ∃ d : Descriptor, d.name = q.name ∧
        d.outputs = q.outputs ∧ r.perform q = (.ok (), r.push d) := by
  rw [perform_eq, Registry.registerDraft, Draft.build]
  cases hrepeated : Draft.repeated? [] (q.toDraft.produces.map Target.name) with
  | some n =>
    obtain ⟨before, after, happend, hn, -⟩ := Draft.repeated?_eq_some hrepeated
    have hbefore : [n].Sublist before := List.singleton_sublist.2 (by simpa using hn)
    have hduplicate : List.Duplicate n q.outputs := by
      rw [← q.outputs_toDraft, happend, List.duplicate_iff_sublist]
      exact hbefore.append (List.singleton_sublist.2 List.mem_cons_self)
    exact Or.inl ⟨n, q.name, .repeated hduplicate, by rw [Registration.name_toDraft]⟩
  | none =>
    have hnodup := (Draft.repeated?_eq_none hrepeated).1
    rw [Registration.outputs_toDraft] at hnodup
    simp only [Registry.register, Registration.name_toDraft]
    cases hname : r.descriptorIndex? q.name with
    | some i =>
      obtain ⟨hi, hname⟩ := (hr.byName _ i).1 hname
      have hclash := Clash.descriptor (q := q) (descriptor_mem hi) hname
      exact Or.inl ⟨_, _, hclash, rfl⟩
    | none =>
      have houtputs : Descriptor.outputs ⟨q.name, q.toDraft.produces, q.toDraft.allConsumed,
          q.toDraft.fill⟩ = q.outputs := q.outputs_toDraft
      simp only [houtputs]
      cases htaken : r.taken? q.outputs with
      | some p =>
        obtain ⟨n, owner⟩ := p
        obtain ⟨hn, i, hi, rfl⟩ := taken?_eq_some htaken
        have hni := hr.producerIndex?_eq_some_iff.1 hi
        have hclash := Clash.output (q := q) (descriptor_mem (lt_size_of_mem_outputs hni)) hn hni
        exact Or.inl ⟨_, _, hclash, rfl⟩
      | none =>
        refine Or.inr ⟨fun n owner hclash => ?_, _, rfl, houtputs, rfl⟩
        cases hclash with
        | repeated h => exact h.not_nodup hnodup
        | @descriptor d hd h =>
          obtain ⟨i, hi, rfl⟩ := exists_place hd
          rw [← h, ← nameOf, hr.descriptorIndex?_nameOf hi] at hname
          cases hname
        | output hd hn h =>
          obtain ⟨i, hi, rfl⟩ := exists_place hd
          exact hr.producerIndex?_eq_none_iff.1 (taken?_eq_none htaken _ hn) i h

/-- There is a clash exactly if a name is declared twice or is not free. -/
theorem exists_clash_iff : (∃ n owner, r.Clash q n owner) ↔
    ¬q.outputs.Nodup ∨ (∃ d ∈ r.descriptors, d.name = q.name) ∨
      ∃ d ∈ r.descriptors, ∃ n ∈ q.outputs, n ∈ d.outputs := by
  constructor
  · rintro ⟨n, owner, hclash⟩
    cases hclash with
    | repeated h => exact Or.inl h.not_nodup
    | descriptor hd h => exact Or.inr (Or.inl ⟨_, hd, h⟩)
    | output hd hn h => exact Or.inr (Or.inr ⟨_, hd, _, hn, h⟩)
  · rintro (hnodup | ⟨d, hd, h⟩ | ⟨d, hd, n, hn, h⟩)
    · obtain ⟨n, h⟩ := List.exists_duplicate_iff_not_nodup.2 hnodup
      exact ⟨_, _, .repeated h⟩
    · exact ⟨_, _, .descriptor hd h⟩
    · exact ⟨_, _, .output hd hn h⟩

/-! ## Histories -/

/-- A history registers the drafts of its registrations. -/
theorem registered_eq_ofDrafts (history : List Registration) :
    registered history = ofDrafts (history.map Registration.toDraft) := by
  simp only [registered, ofDrafts, List.foldl_map, perform_eq]

theorem wellFormed_registered (history : List Registration) : (registered history).WellFormed := by
  rw [registered_eq_ofDrafts]
  exact wellFormed_ofDrafts _

/-- A registration only adds. -/
theorem WellFormed.prefix_perform (hr : r.WellFormed) (q : Registration) :
    r.descriptors <+: (r.perform q).2.descriptors := by
  rcases hr.perform_cases q with ⟨n, owner, -, h⟩ | ⟨-, d, -, -, h⟩
  · simp only [h, List.prefix_refl]
  · rw [h]
    exact List.prefix_append _ _

/-- What was registered stays registered, in its place. -/
theorem prefix_registered (history later : List Registration) :
    (registered history).descriptors <+: (registered (history ++ later)).descriptors := by
  induction later using List.reverseRecOn with
  | nil => simp
  | append_singleton later q ih =>
    have hlast : registered (history ++ (later ++ [q])) =
        ((registered (history ++ later)).perform q).2 := by
      rw [← List.append_assoc, registered, List.foldl_concat]
      rfl
    exact hlast ▸ ih.trans ((wellFormed_registered _).prefix_perform q)

/-! ## Indices -/

theorem descriptor_eq_iff {i : Nat} (hi : i < r.size) :
    r.descriptor i = d ↔ r.descriptors[i]? = some d := by
  rw [descriptor_eq_getElem hi, List.getElem?_eq_getElem hi, Option.some.injEq]

theorem WellFormed.descriptorIndex?_eq_some_iff (hr : r.WellFormed) {i : Nat} :
    r.descriptorIndex? n = some i ↔ ∃ d, r.descriptors[i]? = some d ∧ d.name = n := by
  refine (hr.byName n i).trans ⟨fun ⟨hi, hname⟩ => ⟨_, (descriptor_eq_iff hi).1 rfl, hname⟩, ?_⟩
  rintro ⟨d, hd, rfl⟩
  obtain ⟨hi, -⟩ := List.getElem?_eq_some_iff.1 hd
  exact ⟨hi, congrArg Descriptor.name ((descriptor_eq_iff hi).2 hd)⟩

theorem WellFormed.producerIndex?_eq_some_iff_getElem? (hr : r.WellFormed) {i : Nat} :
    r.producerIndex? n = some i ↔ ∃ d, r.descriptors[i]? = some d ∧ n ∈ d.outputs := by
  rw [hr.producerIndex?_eq_some_iff]
  constructor
  · intro h
    have hi := lt_size_of_mem_outputs h
    exact ⟨_, (descriptor_eq_iff hi).1 rfl, h⟩
  · rintro ⟨d, hd, hn⟩
    obtain ⟨hi, -⟩ := List.getElem?_eq_some_iff.1 hd
    rwa [(descriptor_eq_iff hi).2 hd]

/-- The producer of a name is the descriptor that has it among its outputs. -/
theorem WellFormed.lookup_eq_ok_iff_mem (hr : r.WellFormed) :
    r.lookup n = .ok d ↔ d ∈ r.descriptors ∧ n ∈ d.outputs := by
  rw [lookup_eq_ok_iff]
  constructor
  · rintro ⟨i, hi, rfl⟩
    have hn := hr.producerIndex?_eq_some_iff.1 hi
    exact ⟨descriptor_mem (lt_size_of_mem_outputs hn), hn⟩
  · rintro ⟨hd, hn⟩
    obtain ⟨i, -, rfl⟩ := exists_place hd
    exact ⟨i, hr.producerIndex?_eq_some_iff.2 hn, rfl⟩

theorem WellFormed.exists_target_iff (hr : r.WellFormed) :
    (∃ t, r.target n = .ok t) ↔ ∃ d, r.lookup n = .ok d := by
  simp only [hr.target_eq_ok_iff, hr.lookup_eq_ok_iff_mem]
  constructor
  · rintro ⟨t, i, ht, rfl⟩
    have hn := Descriptor.mem_outputs.2 ⟨t, ht, rfl⟩
    exact ⟨_, descriptor_mem (lt_size_of_mem_outputs hn), hn⟩
  · rintro ⟨d, hd, hn⟩
    obtain ⟨i, -, rfl⟩ := exists_place hd
    obtain ⟨t, ht, rfl⟩ := Descriptor.mem_outputs.1 hn
    exact ⟨t, i, ht, rfl⟩

/-- After all registrations, refused ones among them, every descriptor has a name of its own, every
name has one producer at most, and look-up by either kind of name finds the place of the owner. A
registration is refused exactly if it declares a name twice or if a name is not free; it is told
a name that clashes and the owner of that name, and nothing has changed. No registration takes
a name from its producer. -/
theorem names_keep_their_owner (history : List Registration) :
    let r := registered history
    (r.descriptors.map Descriptor.name).Nodup ∧
    (∀ (i j : Nat) (d e : Descriptor) (n : String), r.descriptors[i]? = some d →
      r.descriptors[j]? = some e → n ∈ d.outputs → n ∈ e.outputs → i = j) ∧
    (∀ n i, r.descriptorIndex? n = some i ↔ ∃ d, r.descriptors[i]? = some d ∧ d.name = n) ∧
    (∀ n i, r.producerIndex? n = some i ↔ ∃ d, r.descriptors[i]? = some d ∧ n ∈ d.outputs) ∧
    (∀ n, (∃ t, r.target n = .ok t) ↔ ∃ d, r.lookup n = .ok d) ∧
    (∀ q, (∃ e, (r.perform q).1 = .error e) ↔
      ¬q.outputs.Nodup ∨ (∃ d ∈ r.descriptors, d.name = q.name) ∨
        ∃ d ∈ r.descriptors, ∃ n ∈ q.outputs, n ∈ d.outputs) ∧
    (∀ q e, (r.perform q).1 = .error e → (r.perform q).2 = r ∧
      ∃ n owner, e = .duplicateName n owner ∧ r.Clash q n owner) ∧
    (∀ q, (r.perform q).1 = .ok () → ∃ d : Descriptor, d.name = q.name ∧ d.outputs = q.outputs ∧
      (r.perform q).2.descriptors = r.descriptors ++ [d]) ∧
    ∀ n d later, r.lookup n = .ok d → (registered (history ++ later)).lookup n = .ok d := by
  intro r
  have hr : r.WellFormed := wellFormed_registered history
  refine ⟨hr.names_nodup, fun i j d e n hd he hnd hne => ?_,
    fun n i => hr.descriptorIndex?_eq_some_iff,
    fun n i => hr.producerIndex?_eq_some_iff_getElem?, fun n => hr.exists_target_iff,
    fun q => ?_, fun q e he => ?_, fun q hq => ?_, fun n d later h => ?_⟩
  · have hi := hr.producerIndex?_eq_some_iff_getElem?.2 ⟨d, hd, hnd⟩
    have hj := hr.producerIndex?_eq_some_iff_getElem?.2 ⟨e, he, hne⟩
    exact Option.some.inj (hi.symm.trans hj)
  · rw [← exists_clash_iff]
    rcases hr.perform_cases q with ⟨n, owner, hclash, h⟩ | ⟨hfree, d, -, -, h⟩
    · exact ⟨fun _ => ⟨n, owner, hclash⟩, fun _ => ⟨_, congrArg Prod.fst h⟩⟩
    · refine ⟨fun ⟨e, he⟩ => ?_, fun ⟨n, owner, hclash⟩ => (hfree n owner hclash).elim⟩
      rw [h] at he
      cases he
  · rcases hr.perform_cases q with ⟨n, owner, hclash, h⟩ | ⟨-, d, -, -, h⟩
    · rw [h] at he ⊢
      exact ⟨rfl, n, owner, (Except.error.inj he).symm, hclash⟩
    · rw [h] at he
      cases he
  · rcases hr.perform_cases q with ⟨n, owner, -, h⟩ | ⟨-, d, hname, houtputs, h⟩
    · rw [h] at hq
      cases hq
    · exact ⟨d, hname, houtputs, by rw [h, push]⟩
  · have hlater := wellFormed_registered (history ++ later)
    obtain ⟨hd, hn⟩ := hr.lookup_eq_ok_iff_mem.1 h
    exact hlater.lookup_eq_ok_iff_mem.2 ⟨(prefix_registered history later).subset hd, hn⟩

end Registry

end FactEngine
