import FactEngine.Proofs.Steps

/-!
# Stores that extend others

Whatever happens to a scheduler, domains are only made, extended and frozen : the domains at a
later moment extend those at an earlier one (`Moment.Reaches.extends`). A frozen domain stays
the same in that (`Store.Extends.get_eq`). This holds of all steps and of everything that
clients do, so nothing has to be known of the registry or of the moment that a scheduler is in.
-/

namespace FactEngine

/-! ## Stores with more domains -/

/-- A frozen domain does not grow. -/
theorem AnyDomain.Grows.eq_of_frozen {d d' : AnyDomain} (h : d.Grows d') (hd : d.frozen = true) :
    d' = d := by
  obtain ⟨⟨hname, -, hfrozen⟩⟩ := h
  rename_i t d d'
  obtain ⟨hfrozen', hfacts⟩ := hfrozen hd
  obtain rfl : d' = d := by
    cases d
    cases d'
    simp_all [AnyDomain.frozen]
  rfl

namespace Store

/-- The second store has the domains of the first, grown, and maybe others. -/
structure Extends (s s' : Store) : Prop where
  length_le : s.domains.length ≤ s'.domains.length
  grows : ∀ id, id.place < s.domains.length → (s.get id).Grows (s'.get id)

variable {s s' s'' : Store} {id : DomainId}

theorem Extends.refl (s : Store) : s.Extends s :=
  ⟨le_refl _, fun _ _ => .refl _⟩

theorem Extends.trans (h : s.Extends s') (h' : s'.Extends s'') : s.Extends s'' :=
  ⟨h.length_le.trans h'.length_le,
    fun id hid => (h.grows id hid).trans (h'.grows id (hid.trans_le h.length_le))⟩

theorem Advances.extends (h : s.Advances s') (hl : s'.domains.length = s.domains.length) :
    s.Extends s' :=
  ⟨hl.ge, fun id _ => h id⟩

theorem extends_add (s : Store) (d : AnyDomain) : s.Extends (s.add d).2 := by
  refine ⟨by simp [add], fun id hid => ?_⟩
  rw [s.get_add_of_lt d hid]
  exact .refl _

theorem extends_freeze (s : Store) (id : DomainId) : s.Extends (s.freeze id) :=
  (s.advances_freeze id).extends (s.thawed_freeze id).length_eq

theorem extends_extend (s : Store) (id : DomainId) (t : FactType) (fs : List t.Carrier) :
    s.Extends (s.extend id t fs).2 :=
  (s.advances_extend id t fs).extends (s.length_extend id t fs)

/-- Only a domain that was made can be frozen. -/
theorem place_lt_of_frozen (h : (s.get id).frozen = true) : id.place < s.domains.length := by
  by_contra hid
  rw [get, List.getD_eq_getElem?_getD, List.getElem?_eq_none (not_lt.1 hid)] at h
  cases h

theorem frozen_get_freeze (hid : id.place < s.domains.length) :
    ((s.freeze id).get id).frozen = true := by
  rw [freeze, get_set, if_pos ⟨rfl, hid⟩]
  rfl

/-- A frozen domain is the same in all later stores. -/
theorem Extends.get_eq (h : s.Extends s') (hf : (s.get id).frozen = true) :
    s'.get id = s.get id :=
  (h.grows id (place_lt_of_frozen hf)).eq_of_frozen hf

theorem Extends.frozen (h : s.Extends s') (hf : (s.get id).frozen = true) :
    (s'.get id).frozen = true := by
  rwa [h.get_eq hf]

end Store

theorem Artifact.extends_extend (s : Store) (a : Artifact) (t : FactType) (fs : List t.Carrier) :
    s.Extends (a.extend s t fs).2 := by
  cases a with
  | domain id => exact s.extends_extend id t fs
  | relation r => exact .refl s

/-! ## Outputs and actions -/

namespace Outputs

variable {descriptor : String} {inputs : NameMap Artifact} {own : NameMap DomainId} {s s' : Store}

theorem extends_makeDomains (s : Store) (targets : List Target) :
    s.Extends (makeDomains s targets).2 := by
  induction targets generalizing s with
  | nil => exact .refl s
  | cons target targets ih =>
    obtain ⟨name, kind⟩ := target
    cases kind with
    | relation sig => exact ih s
    | domain t => exact (s.extends_add (.empty name t)).trans (ih _)

theorem extends_bindColumn {n : String} {result : Except Error DomainId}
    (h : bindColumn descriptor inputs own s n = (result, s')) : s.Extends s' := by
  have hb : s.Extends (bindColumn descriptor inputs own s n).2 :=
    bindColumn_preserves (fun _ _ _ h => h.trans (Store.extends_freeze _ _)) (.refl s) n
  rwa [h] at hb

theorem extends_bindColumns {cs : List Column} {result : Except Error (List DomainId)}
    (h : bindColumns descriptor inputs own s cs = (result, s')) : s.Extends s' := by
  have hb : s.Extends (bindColumns descriptor inputs own s cs).2 :=
    bindColumns_preserves (fun _ _ _ h => h.trans (Store.extends_freeze _ _)) (.refl s) cs
  rwa [h] at hb

theorem extends_prepare (d : Descriptor) (inputs : NameMap Artifact) (s : Store) :
    s.Extends (prepare d inputs s).2 :=
  makeRelations_preserves (fun _ _ _ h => h.trans (Store.extends_freeze _ _))
    (extends_makeDomains s d.produces) _ _

end Outputs

namespace Session

variable {x x' : Session} {a : Action}

theorem Change.extends (h : x.Change a x') : x.run.store.Extends x'.run.store := by
  have hmade : ∀ cs, x.run.store.Extends (x.columnDomains x.run.store cs).2 := fun cs =>
    x.columnDomains_preserves (fun store d h => h.trans (store.extends_add d)) (.refl _) cs
  cases h with
  | frozen id => exact Store.extends_freeze _ _
  | interned artifact t fs => exact artifact.extends_extend _ _ _
  | made cs => exact hmade cs
  | replaced _ _ => exact hmade _
  | restored name =>
    unfold restoreRelation
    split <;> exact .refl _
  | _ => exact .refl _

/-- No action thaws a domain, or takes facts from one. -/
theorem extends_perform (x : Session) (a : Action) :
    x.run.store.Extends (x.perform a).2.run.store :=
  (x.change_perform a).extends

end Session

/-! ## Moments -/

namespace Moment

variable {m m' : Moment}

theorem extends_accept (s : Scheduler) (q : Request) :
    s.run.store.Extends (s.accept q).store := by
  cases q with
  | materialize target =>
    rw [Scheduler.accept]
    rcases s.turnTo_cases target with hs | ⟨sequence, -, hs⟩ <;> rw [hs] <;> exact .refl _
  | invalidate target =>
    simp only [Scheduler.accept, store, Scheduler.handle, Scheduler.invalidate]
    split <;> exact .refl _
  | extend a t fs => exact a.extends_extend s.run.store t fs
  | _ => exact .refl _

theorem extends_start (s : Scheduler) (i : Nat) (rest : List Nat) :
    s.run.store.Extends (s.start i rest).store := by
  have h := Outputs.extends_prepare (s.registry.descriptor i)
    (s.run.received (s.registry.descriptor i)) s.run.store
  rcases hp : Outputs.prepare (s.registry.descriptor i)
    (s.run.received (s.registry.descriptor i)) s.run.store with ⟨e | o, store⟩
  · rw [start_of_error hp]
    rwa [hp] at h
  · rw [start_of_ok hp]
    rwa [hp] at h

theorem extends_next (m : Moment) : m.store.Extends m.next.store := by
  obtain ⟨s, phase⟩ := m
  cases phase with
  | idle => exact .refl _
  | executing rest =>
    cases rest with
    | nil => exact .refl _
    | cons i rest =>
      rw [next_executing]
      split
      · exact .refl _
      · exact extends_start s i rest
  | filling i inputs outputs fill rest =>
    cases fill with
    | finish => exact .refl _
    | fail f => exact .refl _
    | step a go => exact (s.session i inputs outputs).extends_perform a

theorem extends_client (m : Moment) {q : Request} (hq : ¬q.IsPlain) :
    m.store.Extends (m.scheduler.handle q).run.store := by
  rcases client_cases m.scheduler hq with ⟨signal, hs⟩ | ⟨a, t, fs, hs⟩
  · rw [hs]
    exact .refl _
  · rw [hs]
    exact a.extends_extend _ t fs

/-- Whatever happens, domains are only made, extended and frozen. -/
theorem Step.extends (h : m.Step m') : m.store.Extends m'.store := by
  cases h with
  | request s q => exact extends_accept s q
  | next => exact extends_next m
  | client _ q hq => exact extends_client m hq

theorem Reaches.extends (h : m.Reaches m') : m.store.Extends m'.store := by
  induction h with
  | refl => exact .refl _
  | tail _ hs ih => exact ih.trans hs.extends

end Moment

end FactEngine
