import FactEngine.Proofs.Store
import Mathlib.Data.List.Forall2

/-!
# Indices of facts

Calls on a domain intern facts and freeze it (`DomainCall`). Every call lets the domain grow
(`Domain.Grows`) : facts are only added at the end, and none at all once the domain is frozen.
No call makes a fact occur twice (`Domain.nodup_after`). So an index means the same fact
forever, and no other index means it (`Domain.indices_stable`).
-/

namespace FactEngine

/-- A call that can change a domain. -/
inductive DomainCall (F : Type) where
  /-- Intern one fact. -/
  | intern (f : F)
  /-- Intern facts from left to right. -/
  | extend (fs : List F)
  /-- Refuse new facts from now on. -/
  | freeze

namespace Domain

section

variable {F : Type} {d d' d'' : Domain F} {f : F} {i : Nat}

/-! ## Facts by index -/

theorem get_eq_ok_iff : d.get i = .ok f ↔ d.facts[i]? = some f := by
  unfold get
  cases d.facts[i]? <;> simp

theorem exists_get_iff : (∃ f, d.get i = .ok f) ↔ i < d.size := by
  simp only [get_eq_ok_iff, List.getElem?_eq_some_iff]
  exact ⟨fun ⟨_, hi, _⟩ => hi, fun hi => ⟨_, hi, rfl⟩⟩

theorem indexOf?_eq_some_iff [DecidableEq F] (hd : d.facts.Nodup) :
    d.indexOf? f = some i ↔ d.get i = .ok f :=
  (idxOf?_eq_some_iff_of_nodup hd).trans get_eq_ok_iff.symm

/-- Entries are the facts with their indices. -/
theorem mem_entries : (i, f) ∈ d.entries ↔ d.get i = .ok f := by
  rw [get_eq_ok_iff, List.getElem?_eq_some_iff, entries, List.mem_mapIdx]
  simp only [Prod.mk.injEq]
  constructor
  · rintro ⟨j, hj, rfl, rfl⟩
    exact ⟨hj, rfl⟩
  · rintro ⟨hi, rfl⟩
    exact ⟨i, hi, rfl, rfl⟩

theorem map_fst_entries (d : Domain F) : d.entries.map Prod.fst = List.range d.size := by
  refine List.ext_getElem (by simp [entries, size]) fun i _ _ => ?_
  simp [entries]

/-! ## Growth -/

/-- The second domain is the first with facts added at the end, unless the first was frozen. -/
structure Grows (d d' : Domain F) : Prop where
  name_eq : d'.name = d.name
  facts_prefix : d.facts <+: d'.facts
  frozen : d.frozen = true → d'.frozen = true ∧ d'.facts = d.facts

theorem Grows.refl (d : Domain F) : d.Grows d :=
  ⟨rfl, List.prefix_refl _, fun h => ⟨h, rfl⟩⟩

theorem Grows.trans (h : d.Grows d') (h' : d'.Grows d'') : d.Grows d'' := by
  refine ⟨h'.name_eq.trans h.name_eq, h.facts_prefix.trans h'.facts_prefix, fun hd => ?_⟩
  obtain ⟨hd', hfacts⟩ := h.frozen hd
  obtain ⟨hd'', hfacts'⟩ := h'.frozen hd'
  exact ⟨hd'', hfacts'.trans hfacts⟩

theorem Grows.get (h : d.Grows d') (hi : d.get i = .ok f) : d'.get i = .ok f := by
  rw [get_eq_ok_iff] at hi ⊢
  obtain ⟨added, hadded⟩ := h.facts_prefix
  rw [← hadded, List.getElem?_append_left (List.getElem?_eq_some_iff.1 hi).1, hi]

theorem Grows.size_le (h : d.Grows d') : d.size ≤ d'.size :=
  h.facts_prefix.length_le

/-- The entries of a domain stay the first ones. -/
theorem Grows.take_entries (h : d.Grows d') : d'.entries.take d.size = d.entries := by
  obtain ⟨added, hadded⟩ := h.facts_prefix
  rw [entries, ← hadded, List.mapIdx_append]
  exact List.take_left' List.length_mapIdx

theorem grows_freeze (d : Domain F) : d.Grows d.freeze :=
  ⟨rfl, List.prefix_refl _, fun _ => ⟨rfl, rfl⟩⟩

end

/-! ## Interning -/

variable {F : Type} [DecidableEq F] [Labelled F] {d d' : Domain F} {f : F} {i : Nat}

/-- The index of a fact that is interned means the fact. -/
theorem get_of_intern (h : d.intern f = (.ok i, d')) : d'.get i = .ok f := by
  rw [get_eq_ok_iff]
  unfold intern at h
  split at h
  · rename_i j hj
    obtain ⟨rfl, rfl⟩ : j = i ∧ d = d' := by simpa using h
    obtain ⟨hlt, hf, -⟩ := List.idxOf?_eq_some_iff.1 hj
    exact List.getElem?_eq_some_iff.2 ⟨hlt, hf⟩
  · split at h
    · cases (Prod.mk.inj h).1
    · obtain ⟨rfl, rfl⟩ : d.size = i ∧ { d with facts := d.facts ++ [f] } = d' := by simpa using h
      exact List.getElem?_concat_length

/-- A fact that has an index keeps it. -/
theorem intern_of_get (hd : d.facts.Nodup) (h : d.get i = .ok f) : d.intern f = (.ok i, d) := by
  rw [intern, (indexOf?_eq_some_iff hd).2 h]

/-- A frozen domain refuses a fact that it has no index for. -/
theorem intern_of_frozen (hd : d.frozen = true) (h : ∀ i, d.get i ≠ .ok f) :
    d.intern f = (.error (.domainFrozen d.name (label f)), d) := by
  have hnone : d.indexOf? f = none := by
    rw [indexOf?, List.idxOf?_eq_none_iff]
    intro hmem
    obtain ⟨i, hi⟩ := List.mem_iff_getElem?.1 hmem
    exact h i (get_eq_ok_iff.2 hi)
  rw [intern, hnone]
  simp only [hd, if_true]

theorem grows_intern (d : Domain F) (f : F) : d.Grows (d.intern f).2 := by
  unfold intern
  split
  · exact .refl d
  · split
    · exact .refl d
    · rename_i hd
      exact ⟨rfl, List.prefix_append _ _, fun h => (hd h).elim⟩

theorem frozen_intern (d : Domain F) (f : F) : (d.intern f).2.frozen = d.frozen := by
  unfold intern
  split
  · rfl
  · split <;> rfl

/-- A domain that is not frozen has an index for every fact. -/
theorem intern_isOk (hd : d.frozen = false) (f : F) : ∃ i d', d.intern f = (.ok i, d') := by
  unfold intern
  split
  · exact ⟨_, _, rfl⟩
  · exact ⟨_, _, by rw [hd]; rfl⟩

theorem nodup_intern (hd : d.facts.Nodup) (f : F) : (d.intern f).2.facts.Nodup := by
  unfold intern
  split
  · exact hd
  · rename_i hf
    split
    · exact hd
    · have hnot : f ∉ d.facts := List.idxOf?_eq_none_iff.1 hf
      simpa [appendNew, hnot] using nodup_appendNew hd f

/-- Interning facts one after another keeps what interning one fact keeps. -/
theorem extend_preserves {I : Domain F → Prop} (hstep : ∀ d f, I d → I (d.intern f).2)
    (h : I d) (fs : List F) : I (d.extend fs).2 := by
  induction fs generalizing d with
  | nil => exact h
  | cons f fs ih =>
    have hi := hstep d f h
    unfold extend
    split
    · rename_i heq
      rwa [heq] at hi
    · rename_i heq
      rw [heq] at hi
      have hx := ih hi
      split <;> rename_i heq' <;> rwa [heq'] at hx

theorem grows_extend (d : Domain F) (fs : List F) : d.Grows (d.extend fs).2 :=
  extend_preserves (I := d.Grows) (fun d' f h => h.trans (d'.grows_intern f)) (.refl d) fs

theorem frozen_extend (d : Domain F) (fs : List F) : (d.extend fs).2.frozen = d.frozen :=
  extend_preserves (I := fun d' => d'.frozen = d.frozen)
    (fun d' f h => (d'.frozen_intern f).trans h) rfl fs

theorem nodup_extend (hd : d.facts.Nodup) (fs : List F) : (d.extend fs).2.facts.Nodup :=
  extend_preserves (I := fun d => d.facts.Nodup) (fun _ f h => nodup_intern h f) hd fs

/-- The indices of facts that are interned mean the facts. -/
theorem get_of_extend {fs : List F} {is : List Nat} (h : d.extend fs = (.ok is, d')) :
    List.Forall₂ (fun f i => d'.get i = .ok f) fs is := by
  induction fs generalizing d is with
  | nil =>
    obtain rfl := Except.ok.inj (Prod.mk.inj h).1
    exact .nil
  | cons f fs ih =>
    unfold extend at h
    split at h
    · cases (Prod.mk.inj h).1
    · rename_i i d₁ hi
      split at h
      · cases (Prod.mk.inj h).1
      · rename_i is' d₂ his
        obtain ⟨rfl, rfl⟩ : i :: is' = is ∧ d₂ = d' := by simpa using h
        have hgrows := d₁.grows_extend fs
        rw [his] at hgrows
        exact .cons (hgrows.get (get_of_intern hi)) (ih his)

/-! ## Histories -/

/-- The domain after a call. -/
def handle (d : Domain F) : DomainCall F → Domain F
  | .intern f => (d.intern f).2
  | .extend fs => (d.extend fs).2
  | .freeze => d.freeze

/-- The domain after some calls. -/
def after (d : Domain F) (calls : List (DomainCall F)) : Domain F :=
  calls.foldl handle d

theorem grows_handle (d : Domain F) (call : DomainCall F) : d.Grows (d.handle call) := by
  cases call with
  | intern f => exact d.grows_intern f
  | extend fs => exact d.grows_extend fs
  | freeze => exact d.grows_freeze

theorem grows_after (d : Domain F) (calls : List (DomainCall F)) : d.Grows (d.after calls) := by
  induction calls generalizing d with
  | nil => exact .refl d
  | cons call calls ih => exact (d.grows_handle call).trans (ih _)

theorem nodup_handle (hd : d.facts.Nodup) (call : DomainCall F) : (d.handle call).facts.Nodup := by
  cases call with
  | intern f => exact nodup_intern hd f
  | extend fs => exact nodup_extend hd fs
  | freeze => exact hd

theorem nodup_after (hd : d.facts.Nodup) (calls : List (DomainCall F)) :
    (d.after calls).facts.Nodup := by
  induction calls generalizing d with
  | nil => exact hd
  | cons call calls ih => exact ih (nodup_handle hd call)

theorem frozen_handle (d : Domain F) (call : DomainCall F) :
    (d.handle call).frozen = true ↔ d.frozen = true ∨ call = .freeze := by
  cases call with
  | intern f => simp [handle, frozen_intern]
  | extend fs => simp [handle, frozen_extend]
  | freeze => simp [handle, freeze]

/-- Nothing but freezing freezes a domain, and nothing thaws it. -/
theorem frozen_after (d : Domain F) (calls : List (DomainCall F)) :
    (d.after calls).frozen = true ↔ d.frozen = true ∨ .freeze ∈ calls := by
  induction calls generalizing d with
  | nil => simp [after]
  | cons call calls ih =>
    rw [List.mem_cons, ← or_assoc, eq_comm (a := DomainCall.freeze), ← frozen_handle]
    exact ih _

/-- Indices are contiguous from zero, each means one fact, and no fact has two. They mean the same
facts forever, and once a domain was frozen it has no others. -/
theorem indices_stable (name : String) (calls later : List (DomainCall F)) :
    let d := (empty name : Domain F).after calls
    let d' := d.after later
    (∀ i j f, d.get i = .ok f → d.get j = .ok f → i = j) ∧
    d.facts <+: d'.facts ∧
    (∀ i, (∃ f, d.get i = .ok f) ↔ i < d.size) ∧
    (∀ f i, d.indexOf? f = some i ↔ d.get i = .ok f) ∧
    (∀ f i d₁, d.intern f = (.ok i, d₁) →
      d₁.get i = .ok f ∧ (d₁.after later).get i = .ok f) ∧
    (∀ fs is d₁, d.extend fs = (.ok is, d₁) →
      List.Forall₂ (fun f i => (d₁.after later).get i = .ok f) fs is) ∧
    (.freeze ∉ calls → ∀ f, ∃ i d₁, d.intern f = (.ok i, d₁)) ∧
    (.freeze ∈ calls → d'.facts = d.facts ∧
      (∀ f i, d.get i = .ok f → d.intern f = (.ok i, d)) ∧
      ∀ f, (∀ i, d.get i ≠ .ok f) →
        d.intern f = (.error (.domainFrozen name (label f)), d)) ∧
    (d.entries.map Prod.fst = List.range d.size ∧
      (∀ i f, (i, f) ∈ d.entries ↔ d.get i = .ok f) ∧ d'.entries.take d.size = d.entries) ∧
    (∀ f g i j d₁ d₂, f ≠ g → label f = label g → d.intern f = (.ok i, d₁) →
      (d₁.after later).intern g = (.ok j, d₂) → i ≠ j) := by
  intro d d'
  have hd : d.facts.Nodup := nodup_after List.nodup_nil calls
  have hgrows : d.Grows d' := d.grows_after later
  refine ⟨fun i j f hi hj => ?_, hgrows.facts_prefix, fun _ => exists_get_iff,
    fun _ _ => indexOf?_eq_some_iff hd, fun f i d₁ h => ?_, fun fs is d₁ h => ?_, fun hf => ?_,
    fun hf => ?_, ⟨d.map_fst_entries, fun _ _ => mem_entries, hgrows.take_entries⟩, ?_⟩
  · have hj' := (indexOf?_eq_some_iff hd).2 hj
    exact Option.some.inj (((indexOf?_eq_some_iff hd).2 hi).symm.trans hj')
  · exact ⟨get_of_intern h, (d₁.grows_after later).get (get_of_intern h)⟩
  · exact (get_of_extend h).imp fun _ _ => (d₁.grows_after later).get
  · have hfrozen : d.frozen = false := by
      rw [← Bool.not_eq_true, frozen_after]
      exact fun h => h.elim Bool.noConfusion hf
    exact intern_isOk hfrozen
  · have hfrozen : d.frozen = true := (frozen_after _ calls).2 (Or.inr hf)
    have hname : d.name = name := (grows_after (empty name) calls).name_eq
    refine ⟨(hgrows.frozen hfrozen).2, fun f i => intern_of_get hd, fun f hnone => ?_⟩
    rw [intern_of_frozen hfrozen hnone, hname]
  · rintro f g i j d₁ d₂ hne - hi hj rfl
    have hlater := (d₁.grows_after later).get (get_of_intern hi)
    have hboth := (grows_intern (d₁.after later) g).get hlater
    rw [hj] at hboth
    exact hne (Except.ok.inj (hboth.symm.trans (get_of_intern hj)))

end Domain

end FactEngine
