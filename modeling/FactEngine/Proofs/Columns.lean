import FactEngine.Proofs.Schedule

/-!
# Columns and their domains

When a descriptor is executed, its outputs are made before its step begins. That works exactly if
there is a domain for every column of the relations among them (`Registry.HasDomain`) : one that
the descriptor produces, or one that it consumes. Since everything that a ready descriptor
consumes is done, this is a matter of the registry alone (`Ready.exists_prepare_iff`), and so is
the error for the first column without a domain (`Registry.Offends`).
-/

namespace FactEngine

/-! ## Columns of a descriptor -/

namespace Registry

variable {registry : Registry} {i : Nat} {col : Column} {e : Error}

/-- There is a domain for a column of the descriptor at `i` : the descriptor produces it, or
consumes it, and it is registered as a domain. -/
def HasDomain (registry : Registry) (i : Nat) (col : Column) : Prop :=
  (∃ t, ⟨col.domain, .domain t⟩ ∈ (registry.descriptor i).produces) ∨
    col.domain ∈ (registry.descriptor i).consumes ∧
      ∃ t, registry.target col.domain = .ok ⟨col.domain, .domain t⟩

/-- The error for a column of the descriptor at `i` that is called like a relation. -/
inductive Offends (registry : Registry) (i : Nat) (col : Column) : Error → Prop
  | consumed {sig : Signature} (hconsumes : col.domain ∈ (registry.descriptor i).consumes)
      (htarget : registry.target col.domain = .ok ⟨col.domain, .relation sig⟩) :
      Offends registry i col (.typeMismatch col.domain .domain)
  | produced {sig : Signature}
      (h : ⟨col.domain, .relation sig⟩ ∈ (registry.descriptor i).produces) :
      Offends registry i col
        (.undeclaredDependency (registry.descriptor i).name col.domain .notDone)

theorem HasDomain.exists_target (h : registry.HasDomain i col) (hr : registry.WellFormed) :
    ∃ t, registry.target col.domain = .ok ⟨col.domain, .domain t⟩ := by
  rcases h with ⟨t, ht⟩ | ⟨-, ht⟩
  · exact ⟨t, hr.target_eq_ok_iff.2 ⟨i, ht, rfl⟩⟩
  · exact ht

/-- If a name is an output or consumed, there is a domain for it exactly if some descriptor produces
one. -/
theorem hasDomain_iff (hr : registry.WellFormed)
    (hknown : col.domain ∈ (registry.descriptor i).outputs ∨
      col.domain ∈ (registry.descriptor i).consumes) :
    registry.HasDomain i col ↔
      ∃ k t, ⟨col.domain, .domain t⟩ ∈ (registry.descriptor k).produces := by
  constructor
  · intro h
    obtain ⟨t, ht⟩ := h.exists_target hr
    obtain ⟨k, hk, -⟩ := hr.target_eq_ok_iff.1 ht
    exact ⟨k, t, hk⟩
  · rintro ⟨k, t, ht⟩
    rcases hknown with houtput | hconsumes
    · obtain rfl := hr.place_unique (Descriptor.mem_outputs.2 ⟨_, ht, rfl⟩) houtput
      exact Or.inl ⟨t, ht⟩
    · exact Or.inr ⟨hconsumes, t, hr.target_eq_ok_iff.2 ⟨k, ht, rfl⟩⟩

theorem Offends.exists_target (h : registry.Offends i col e) (hr : registry.WellFormed) :
    ∃ sig, registry.target col.domain = .ok ⟨col.domain, .relation sig⟩ := by
  cases h with
  | consumed _ htarget => exact ⟨_, htarget⟩
  | produced h => exact ⟨_, hr.target_eq_ok_iff.2 ⟨i, h, rfl⟩⟩

/-- What is called like a relation is not called like a domain. -/
theorem Offends.not_hasDomain (h : registry.Offends i col e) (hr : registry.WellFormed) :
    ¬registry.HasDomain i col := by
  intro hdomain
  obtain ⟨t, ht⟩ := hdomain.exists_target hr
  obtain ⟨sig, hsig⟩ := h.exists_target hr
  rw [ht] at hsig
  cases hsig

end Registry

/-! ## Columns of a ready descriptor -/

namespace Run

open Registry

variable {registry : Registry} {r : Run} {i : Nat} {col : Column} {e : Error} {store : Store}

namespace Ready

variable (hi : r.Ready registry i) (hr : registry.WellFormed) (h : r.Coherent registry)

include hi hr h

/-- A column of a ready descriptor can be bound exactly if there is a domain for it. -/
theorem exists_bound_iff :
    (∃ id, Outputs.Bound (Outputs.makeDomains r.store (registry.descriptor i).produces).1
      (r.received (registry.descriptor i)) col.domain id) ↔ registry.HasDomain i col := by
  have hd := hr.built _ (descriptor_mem hi.bound)
  have hm := Outputs.madeDomains r.store (registry.descriptor i).produces hd.outputs_nodup
  constructor
  · rintro ⟨id, hown | ⟨-, hin⟩⟩
    · exact Or.inl (hm.only _ id hown)
    · obtain ⟨hconsumes, -, -, ha⟩ := artifact?_of_received hin
      obtain ⟨k, t, ht, -⟩ := h.exists_target ha
      exact Or.inr ⟨hconsumes, t, hr.target_eq_ok_iff.2 ⟨k, ht, rfl⟩⟩
  · rintro (⟨t, ht⟩ | ⟨hconsumes, t, htarget⟩)
    · obtain ⟨id, hid, -⟩ := hm.made _ t ht
      exact ⟨id, Or.inl hid⟩
    · obtain ⟨k, ht, -⟩ := hr.target_eq_ok_iff.1 htarget
      obtain ⟨id, ha, -⟩ := h.exists_domain ht (hi.served _ hconsumes)
      refine ⟨id, Or.inr ⟨?_, by rw [hi.get?_received hconsumes, ha]⟩⟩
      refine Option.eq_none_iff_forall_ne_some.2 fun id' hown => ?_
      obtain ⟨u, hu⟩ := hm.only _ id' hown
      exact hi.not_mem_outputs hconsumes (Descriptor.mem_outputs.2 ⟨_, hu, rfl⟩)

/-- A column of a ready descriptor that cannot be bound is called like a relation. -/
theorem offends_of_unbound (hcol : col ∈ Outputs.columns (registry.descriptor i).produces)
    (hunbound : Outputs.Unbound (registry.descriptor i).name (r.received (registry.descriptor i))
      (Outputs.makeDomains r.store (registry.descriptor i).produces).1 col.domain e) :
    registry.Offends i col e := by
  have hd := hr.built _ (descriptor_mem hi.bound)
  have hm := Outputs.madeDomains r.store (registry.descriptor i).produces hd.outputs_nodup
  cases hunbound with
  | relation hown hin =>
    obtain ⟨hconsumes, -, -, ha⟩ := artifact?_of_received hin
    obtain ⟨k, sig, ht⟩ := h.exists_relation_target ha
    exact .consumed hconsumes (hr.target_eq_ok_iff.2 ⟨k, ht, rfl⟩)
  | missing hown hin =>
    obtain ⟨n, sig, ht, hc⟩ := Outputs.mem_columns.1 hcol
    rcases hd.columns_known _ ht sig rfl col hc with houtput | hconsumes
    · obtain ⟨⟨m, kind⟩, hmem, hname⟩ := Descriptor.mem_outputs.1 houtput
      obtain rfl : m = col.domain := hname
      cases kind with
      | domain t =>
        obtain ⟨id, hid, -⟩ := hm.made _ t hmem
        rw [hown] at hid
        cases hid
      | relation sig => exact .produced hmem
    · -- everything consumed is done, and was received
      obtain ⟨a, ha⟩ := (h.done_iff _).1 (hi.served _ hconsumes)
      rw [hi.get?_received hconsumes, ha] at hin
      cases hin

/-- The outputs of a ready descriptor are refused for the first column without a domain. -/
theorem offends_of_prepare
    (hp : Outputs.prepare (registry.descriptor i) (r.received (registry.descriptor i)) r.store =
      (.error e, store)) :
    ∃ before col after,
      Outputs.columns (registry.descriptor i).produces = before ++ col :: after ∧
        (∀ b ∈ before, registry.HasDomain i b) ∧ registry.Offends i col e := by
  have hd := hr.built _ (descriptor_mem hi.bound)
  obtain ⟨before, col, after, hsplit, hbefore, hcol⟩ :=
    Outputs.firstUnbound_prepare (h.named_received _) hd.outputs_nodup hp
  have hmem : col ∈ Outputs.columns (registry.descriptor i).produces := by simp [hsplit]
  exact ⟨before, col, after, hsplit, fun b hb => (hi.exists_bound_iff hr h).1 (hbefore b hb),
    hi.offends_of_unbound hr h hmem hcol⟩

/-- The outputs of a ready descriptor can be prepared exactly if there is a domain for every
column. -/
theorem exists_prepare_iff :
    (∃ o store, Outputs.prepare (registry.descriptor i) (r.received (registry.descriptor i))
      r.store = (.ok o, store)) ↔
        ∀ col ∈ Outputs.columns (registry.descriptor i).produces, registry.HasDomain i col := by
  have hd := hr.built _ (descriptor_mem hi.bound)
  constructor
  · rintro ⟨o, store, hp⟩ col hcol
    obtain ⟨n, sig, ht, hc⟩ := Outputs.mem_columns.1 hcol
    obtain ⟨ids, -, hbound⟩ := (Outputs.prepare_ok hd.outputs_nodup hp).relation n sig ht
    rw [Outputs.domains_of_prepare hp] at hbound
    exact (hi.exists_bound_iff hr h).1 (exists_of_forall₂ hbound hc)
  · intro hall
    rcases hp : Outputs.prepare (registry.descriptor i) (r.received (registry.descriptor i))
      r.store with ⟨e | o, store⟩
    · obtain ⟨before, col, after, hsplit, -, hoffends⟩ := hi.offends_of_prepare hr h hp
      have hmem : col ∈ Outputs.columns (registry.descriptor i).produces := by simp [hsplit]
      exact (hoffends.not_hasDomain hr (hall col hmem)).elim
    · exact ⟨o, store, rfl⟩

end Ready

end Run

end FactEngine
