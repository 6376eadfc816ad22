import FactEngine.Proofs.Relation
import FactEngine.Proofs.Run
import FactEngine.Run.Session

/-!
# What a population step leaves alone

`Session.Change` lists what an action can do to a session, and every action does one of these
things (`Session.change_perform`). What is kept by each of them is kept by all actions.

`Session.Continues` says what the session after some actions has in common with the session
before them. The step of a descriptor cannot change what it was given, which domains its outputs
are, the statuses and artifacts of the run, or its records, and the store only grows. This holds of
every action (`Session.continues_perform`), and so of a whole step (`Fill.continues_run`).
What becomes of the relations among its outputs is another matter, since a step may replace them.
Writing to a relation changes nothing but its tuples (`Relation.emptied`).
-/

namespace FactEngine

/-! ## Relations that are filled -/

namespace Relation

/-- The relation without its tuples. -/
def emptied (r : Relation) : Relation :=
  { r with tuples := [] }

theorem emptied_add (s : Store) (r : Relation) (t : Tuple) :
    (r.add s t).2.emptied = r.emptied := by
  unfold add
  split
  · rfl
  · split <;> rfl

theorem emptied_extend (s : Store) (r : Relation) (ts : List Tuple) :
    (r.extend s ts).2.emptied = r.emptied := by
  induction ts generalizing r with
  | nil => rfl
  | cons t ts ih =>
    have ha := r.emptied_add s t
    unfold extend
    split
    · rename_i h
      rwa [h] at ha
    · rename_i r' h
      rw [h] at ha
      have hx := ih r'
      split <;> rename_i h' <;> rw [h'] at hx <;> exact hx.trans ha

theorem emptied_selectPieces (s : Store) (d : AnyDomain) (r : Relation) (names : List String) :
    (r.selectPieces s d names).2.emptied = r.emptied := by
  induction names generalizing r with
  | nil => rfl
  | cons name names ih =>
    unfold selectPieces
    split
    · have hx := ih r
      split <;> rename_i h' <;> rw [h'] at hx <;> exact hx
    · rename_i i _
      have ha := r.emptied_add s [i]
      split
      · rename_i h
        rwa [h] at ha
      · rename_i r' h
        rw [h] at ha
        have hx := ih r'
        split <;> rename_i h' <;> rw [h'] at hx <;> exact hx.trans ha

theorem emptied_selectNames (s : Store) (r : Relation) (list : String) (delimiter : Char) :
    (r.selectNames s list delimiter).2.emptied = r.emptied := by
  unfold selectNames
  split
  · split
    · rfl
    · exact emptied_selectPieces _ _ _ _
  · rfl

end Relation

/-! ## What an action can do -/

namespace Session

/-- What an action can do to a session. -/
inductive Change (s : Session) : Action → Session → Prop
  | nothing {a : Action} : s.Change a s
  /-- A domain is frozen. -/
  | frozen {a : Action} (id : DomainId) : s.Change a (s.freeze id)
  /-- Facts are interned in the domain that an artifact is. -/
  | interned {a : Action} (artifact : Artifact) (t : FactType) (fs : List t.Carrier) :
      s.Change a (s.withStore (artifact.extend s.run.store t fs).2)
  /-- Tuples are written to an output relation. -/
  | written {a : Action} {name : String} {r r' : Relation}
      (h : s.outputs.relations.get? name = some r) (he : r'.emptied = r.emptied) :
      s.Change a (s.withRelation name r')
  /-- Domains are made for a new relation, which is refused. -/
  | made {a : Action} (cs : List ColumnDomain) :
      s.Change a (s.withStore (s.columnDomains s.run.store cs).2)
  /-- A new relation is put in the place of an output relation. -/
  | replaced {name relation : String} {sig : Signature} {cs : List ColumnDomain} {old : Relation}
      (h : s.outputs.relations.get? name = some old) (ids : List DomainId) :
      s.Change (.replace name relation sig cs)
        ((s.withStore (s.columnDomains s.run.store cs).2).withRelation name
          ⟨relation, sig, ids, []⟩)
  /-- The relation in the place of an output is put back under the name that it carries. -/
  | restored (name : String) : s.Change (.restore name) (s.restoreRelation name)
  | cancelled {a : Action} (signal : Signal) :
      s.Change a { s with run := { s.run with signal } }
  | noted {a : Action} (n : Note) :
      s.Change a { s with run := s.run.enter (.noted s.descriptor.name n) }

variable {s s' : Session} {a : Action}

theorem change_readDomain (s : Session) (name : String) : s.Change a (s.readDomain name).2 := by
  unfold readDomain
  split
  · exact .nothing
  · exact .frozen _

theorem change_updateRelation {α : Type} (s : Session) (name : String)
    {f : Store → Relation → Except Error α × Relation}
    (hf : ∀ store r, (f store r).2.emptied = r.emptied) :
    s.Change a (s.updateRelation name f).2 := by
  unfold updateRelation outputRelation
  cases h : s.outputs.relations.get? name with
  | none => exact .nothing
  | some r => exact .written h (hf _ _)

theorem change_replaceRelation (s : Session) (name relation : String) (sig : Signature)
    (cs : List ColumnDomain) :
    s.Change (.replace name relation sig cs) (s.replaceRelation name relation sig cs).2 := by
  unfold replaceRelation
  rcases hcs : s.columnDomains s.run.store cs with ⟨e | ids, store⟩
  all_goals
    have hmade : s.Change (.replace name relation sig cs)
        (s.withStore (s.columnDomains s.run.store cs).2) := .made cs
    rw [hcs] at hmade
  · exact hmade
  · cases hr : Relation.create store relation sig ids with
    | error e => simpa only [hr] using hmade
    | ok r =>
      obtain ⟨-, rfl⟩ := Relation.eq_of_create hr
      cases hold : s.outputs.relations.get? name with
      | none => simpa only [hr, outputRelation, hold] using hmade
      | some old =>
        have hreplaced : s.Change (.replace name relation sig cs)
            ((s.withStore (s.columnDomains s.run.store cs).2).withRelation name
              ⟨relation, sig, ids, []⟩) := .replaced hold ids
        rw [hcs] at hreplaced
        simpa only [hr, outputRelation, hold] using hreplaced

/-- Every action does one of these things. -/
theorem change_perform (s : Session) (a : Action) : s.Change a (s.perform a).2 := by
  cases a with
  | input name =>
    simp only [perform]
    split <;> exact .nothing
  | readDomain name => exact s.change_readDomain name
  | readFacts name t =>
    have h : s.Change (.readFacts name t) (s.readDomain name).2 := s.change_readDomain name
    simp only [perform]
    split <;> rename_i heq <;> rwa [heq] at h
  | growInput name t fs =>
    simp only [perform]
    split
    · exact .nothing
    · exact .interned _ t fs
  | outputDomain name t =>
    simp only [perform]
    split <;> exact .nothing
  | intern name t fs =>
    simp only [perform]
    split
    · exact .nothing
    · exact .interned (.domain _) t fs
  | freeze name t =>
    simp only [perform]
    split
    · exact .nothing
    · exact .frozen _
  | add name ts => exact s.change_updateRelation name fun _ _ => Relation.emptied_extend _ _ _
  | select name list delimiter =>
    exact s.change_updateRelation name fun _ _ => Relation.emptied_selectNames _ _ _ _
  | replace name relation sig cs => exact s.change_replaceRelation name relation sig cs
  | restore name => exact .restored name
  | cancel reason => exact .cancelled _
  | note n => exact .noted n
  | _ => exact .nothing

end Session

/-! ## What actions leave alone -/

namespace Event

/-- Whether an entry of the journal is the note of a step. -/
def IsNote : Event → Prop
  | noted .. => True
  | executed .. => False

end Event

namespace Session

/-- What the second session has in common with the first. -/
structure Continues (s s' : Session) : Prop where
  descriptor : s'.descriptor = s.descriptor
  config : s'.config = s.config
  inputs : s'.inputs = s.inputs
  domains : s'.outputs.domains = s.outputs.domains
  statuses : s'.run.statuses = s.run.statuses
  artifacts : s'.run.artifacts = s.run.artifacts
  metrics : s'.run.metrics = s.run.metrics
  store : s.run.store.Grows s'.run.store
  journal : ∃ notes, (∀ e ∈ notes, e.IsNote) ∧ s'.run.journal = s.run.journal ++ notes

namespace Continues

theorem refl (s : Session) : s.Continues s :=
  ⟨rfl, rfl, rfl, rfl, rfl, rfl, rfl, .refl _, [], by simp, by simp⟩

theorem trans {s t u : Session} (h : s.Continues t) (h' : t.Continues u) : s.Continues u := by
  obtain ⟨notes, hn, hj⟩ := h.journal
  obtain ⟨notes', hn', hj'⟩ := h'.journal
  refine ⟨h'.descriptor.trans h.descriptor, h'.config.trans h.config, h'.inputs.trans h.inputs,
    h'.domains.trans h.domains, h'.statuses.trans h.statuses, h'.artifacts.trans h.artifacts,
    h'.metrics.trans h.metrics, h.store.trans h'.store, notes ++ notes', ?_, ?_⟩
  · exact fun e he => (List.mem_append.1 he).elim (hn e) (hn' e)
  · rw [hj', hj, List.append_assoc]

/-- Putting a grown store in place changes nothing else. -/
theorem of_store (s : Session) {store : Store} (hg : s.run.store.Grows store) :
    s.Continues (s.withStore store) :=
  ⟨rfl, rfl, rfl, rfl, rfl, rfl, rfl, hg, [], by simp, by simp [withStore]⟩

theorem of_freeze (s : Session) (id : DomainId) : s.Continues (s.freeze id) :=
  of_store s (s.run.store.thawed_freeze id).grows

/-- Putting a relation in the place of an output changes nothing else. -/
theorem of_relation (s : Session) (name : String) (r : Relation) :
    s.Continues (s.withRelation name r) :=
  ⟨rfl, rfl, rfl, rfl, rfl, rfl, rfl, .refl _, [], by simp, by simp [withRelation]⟩

end Continues

/-- What holds of a store and is kept by adding domains holds when the columns of a new relation
have their domains. -/
theorem columnDomains_preserves {I : Store → Prop} (hadd : ∀ store d, I store → I (store.add d).2)
    (s : Session) {store : Store} (h : I store) (cs : List ColumnDomain) :
    I (s.columnDomains store cs).2 := by
  have hone : ∀ {store}, I store → ∀ c, I (s.columnDomain store c).2 := by
    intro store h c
    cases c with
    | new name t fs => exact hadd store _ h
    | _ => exact h
  induction cs generalizing store with
  | nil => exact h
  | cons c cs ih =>
    have hc := hone h c
    unfold columnDomains
    split
    · rename_i heq
      rwa [heq] at hc
    · rename_i id store' heq
      rw [heq] at hc
      have hcs := ih hc
      split <;> rename_i heq' <;> rwa [heq'] at hcs

variable {s s' : Session} {a : Action}

/-- The domains that are made for the columns of a new relation let the store grow. -/
theorem grows_columnDomains (s : Session) (cs : List ColumnDomain) :
    s.run.store.Grows (s.columnDomains s.run.store cs).2 :=
  s.columnDomains_preserves (fun _ d hg => hg.trans (Store.grows_add _ d)) (.refl _) cs

theorem Change.continues (h : s.Change a s') : s.Continues s' := by
  cases h with
  | nothing => exact .refl s
  | frozen id => exact .of_freeze s id
  | interned artifact t fs => exact .of_store s (Artifact.grows_extend _ _ _ _)
  | written _ _ => exact .of_relation s _ _
  | made cs => exact .of_store s (s.grows_columnDomains cs)
  | replaced _ ids =>
    exact (Continues.of_store s (s.grows_columnDomains _)).trans (.of_relation _ _ _)
  | restored name =>
    unfold restoreRelation
    split
    · exact .refl s
    · exact ⟨rfl, rfl, rfl, rfl, rfl, rfl, rfl, .refl _, [], by simp, by simp⟩
  | cancelled signal =>
    exact ⟨rfl, rfl, rfl, rfl, rfl, rfl, rfl, .refl _, [], by simp, (List.append_nil _).symm⟩
  | noted n =>
    exact ⟨rfl, rfl, rfl, rfl, rfl, rfl, rfl, .refl _, [.noted s.descriptor.name n],
      by simp [Event.IsNote], rfl⟩

/-- No action changes what it must not. -/
theorem continues_perform (s : Session) (a : Action) : s.Continues (s.perform a).2 :=
  (s.change_perform a).continues

end Session

/-- No step changes what it must not. -/
theorem Fill.continues_run (fill : Fill) (s : Session) : s.Continues (fill.run s).2 := by
  induction fill generalizing s with
  | finish => exact .refl s
  | fail f => exact .refl s
  | step a next ih => exact (s.continues_perform a).trans (ih _ _)

end FactEngine
