import FactEngine.Run.Basic

/-!
# Statuses and artifacts of a run

The changes of a run, read off through `Run.status` and `Run.artifact?`. Marking names
changes their statuses, dropping them their artifacts, and publishing, failing and forgetting
are made of these. What an execution receives (`Run.inputs`) are the artifacts of the done
ones among the names that it consumes.
-/

namespace FactEngine

namespace Run

@[simp] theorem status_mark (r : Run) (st : TargetStatus) (names : List String) (n : String) :
    (r.mark st names).status n = if n ∈ names then st else r.status n := by
  simp only [status, mark, NameMap.get?_foldl_insert_const]
  split <;> rfl

@[simp] theorem artifact?_mark (r : Run) (st : TargetStatus) (names : List String) (n : String) :
    (r.mark st names).artifact? n = r.artifact? n :=
  rfl

@[simp] theorem status_drop (r : Run) (names : List String) (n : String) :
    (r.drop names).status n = r.status n :=
  rfl

@[simp] theorem artifact?_drop (r : Run) (names : List String) (n : String) :
    (r.drop names).artifact? n = if n ∈ names then none else r.artifact? n :=
  NameMap.get?_foldl_erase _ _ _

@[simp] theorem status_fail (r : Run) (names : List String) (n : String) :
    (r.fail names).status n = if n ∈ names then .failed else r.status n := by
  rw [fail, status_mark, status_drop]

@[simp] theorem artifact?_fail (r : Run) (names : List String) (n : String) :
    (r.fail names).artifact? n = if n ∈ names then none else r.artifact? n := by
  rw [fail, artifact?_mark, artifact?_drop]

@[simp] theorem status_forget (r : Run) (names : List String) (n : String) :
    (r.forget names).status n = if n ∈ names then .notStarted else r.status n := by
  simp only [status, forget, NameMap.get?_foldl_erase]
  split <;> rfl

@[simp] theorem artifact?_forget (r : Run) (names : List String) (n : String) :
    (r.forget names).artifact? n = if n ∈ names then none else r.artifact? n :=
  artifact?_drop r names n

@[simp] theorem status_clear (r : Run) (n : String) : r.clear.status n = .notStarted :=
  rfl

@[simp] theorem artifact?_clear (r : Run) (n : String) : r.clear.artifact? n = none :=
  rfl

theorem status_publish (r : Run) (outputs : List Artifact) (n : String) :
    (r.publish outputs).status n =
      if n ∈ outputs.map (·.name r.store) then .done else r.status n :=
  status_mark r .done _ n

/-- To publish artifacts is to put them under their names. -/
theorem artifacts_publish (r : Run) (outputs : List Artifact) :
    (r.publish outputs).artifacts = (outputs.map fun a => (a.name r.store, a)).foldl
      (fun m e => m.insert e.1 e.2) r.artifacts := by
  rw [List.foldl_map]
  rfl

theorem artifact?_publish_of_not_mem (r : Run) {outputs : List Artifact} {n : String}
    (h : n ∉ outputs.map (·.name r.store)) :
    (r.publish outputs).artifact? n = r.artifact? n := by
  rw [artifact?, artifacts_publish]
  exact NameMap.get?_foldl_insert_of_not_mem _ _ (by simpa using h)

theorem artifact?_publish_of_mem (r : Run) {outputs : List Artifact}
    (hn : (outputs.map (·.name r.store)).Nodup) {a : Artifact} (h : a ∈ outputs) :
    (r.publish outputs).artifact? (a.name r.store) = some a := by
  rw [artifact?, artifacts_publish]
  refine NameMap.get?_foldl_insert_of_mem _ ?_ (List.mem_map_of_mem h)
  rwa [List.map_map]

/-- What is under a name now was published, or was there before. -/
theorem artifact?_publish {r : Run} {outputs : List Artifact} {n : String} {a : Artifact}
    (h : (r.publish outputs).artifact? n = some a) : a ∈ outputs ∨ r.artifact? n = some a := by
  rw [artifact?, artifacts_publish] at h
  refine (NameMap.mem_or_get?_of_get?_foldl_insert _ h).imp_left fun hmem => ?_
  obtain ⟨b, hb, heq⟩ := List.mem_map.1 hmem
  rwa [← (Prod.mk.inj heq).2]

theorem isDone_iff (r : Run) (n : String) : r.isDone n = true ↔ r.status n = .done := by
  simp [isDone]

/-! ## What an execution receives -/

/-- Add the artifact of a name to what an execution receives, if the name is done. -/
def receive (r : Run) (m : NameMap Artifact) (name : String) : NameMap Artifact :=
  match r.isDone name, r.artifact? name with
  | true, some a => m.insert name a
  | _, _ => m

theorem get?_receive (r : Run) (m : NameMap Artifact) (name n : String) :
    (r.receive m name).get? n =
      if n = name ∧ r.status n = .done ∧ (r.artifact? n).isSome then r.artifact? n
      else m.get? n := by
  unfold receive
  by_cases hn : n = name
  · subst hn
    by_cases hd : r.status n = .done
    · rw [(r.isDone_iff n).2 hd]
      cases r.artifact? n <;> simp [hd]
    · have : r.isDone n = false := Bool.eq_false_iff.2 fun h => hd ((r.isDone_iff n).1 h)
      simp [this, hd]
  · split <;> simp [hn]

/-- An execution receives the artifacts of the done ones among the names. -/
theorem get?_inputs (r : Run) (names : List String) (n : String) :
    (r.inputs names).get? n =
      if n ∈ names ∧ r.status n = .done then r.artifact? n else none := by
  have hfold : ∀ m : NameMap Artifact, (names.foldl r.receive m).get? n =
      if n ∈ names ∧ r.status n = .done ∧ (r.artifact? n).isSome then r.artifact? n
      else m.get? n := by
    induction names with
    | nil => simp
    | cons k names ih =>
      intro m
      rw [List.foldl_cons, ih, get?_receive]
      grind
  refine (hfold .empty).trans ?_
  cases r.artifact? n <;> simp

end Run

end FactEngine
