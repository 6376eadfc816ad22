import FactEngine.Exclusion
import FactEngine.Proofs.Faithful
import FactEngine.Proofs.Selection
import FactEngine.Proofs.Validation

/-!
# What the exclusion excludes

The two analyses of the exclusion are pure : the domain of types gets the names of the types, each
once, and the relation the types that the property lists (`pure_types`, `pure_excluded`). The
registry of the two passes validation. So a request for the relation is answered with what its
evaluation says (`evaluate_excluded`), and the gate that reads the relation excludes a type exactly
if its name is listed (`TypeGate.excludes_listed_types`).
-/

namespace FactEngine

open Text Registry

theorem Config.flag_eq_true_iff {c : Config} {key : String} :
    c.flag key = true ↔ ∃ v, c.property key = some v ∧ lower (trim v) = "true" := by
  unfold flag
  cases c.property key <;> simp

/-! ## Selected contents -/

/-- The labels of the facts in index order. -/
def Contents.labels : Contents → List String
  | facts _ fs => fs.map label
  | tuples _ => []

/-- The indices of the facts that some names label, each once. -/
def Contents.selected (contents : Contents) (names : List String) : List Nat :=
  distinct (names.filterMap fun name => lastIndexOf? name contents.labels)

/-- What a domain reports to be matched is what its contents select. -/
theorem AnyDomain.distinct_tuples_report (d : AnyDomain) (names : List String) :
    distinct (d.report names).tuples = (d.contents.selected names).map fun i => [i] := by
  have hinj : ∀ i j : Nat, [i] = [j] → i = j := by simp
  rw [Contents.selected, map_distinct hinj, FilterReport.tuples, AnyDomain.report,
    List.map_filterMap, List.map_filterMap]
  refine congrArg distinct (congrArg (List.filterMap · names) (funext fun name => ?_))
  rw [Option.map_map]
  rfl

/-! ## The steps of the two analyses -/

namespace ExclusionSettings

variable (settings : ExclusionSettings) {s : Session} {m : String} {id : DomainId}

/-- The indices of the facts that the property lists. -/
def selects (c : Config) (contents : Contents) : List Nat :=
  contents.selected (Relation.namePieces (settings.list c) ',')

/-- The step of the relation adds the types that the property lists. -/
theorem run_fill
    (hrel : s.outputs.relations.get? excludedName = some ⟨excludedName, .unary m, [id], []⟩) :
    ∃ o, settings.fill.run s = (.ok (), { s with outputs := o }) ∧
      o.relations.get? excludedName = some ⟨excludedName, .unary m, [id],
        (settings.selects s.config (s.run.store.get id).contents).map fun i => [i]⟩ := by
  have hconfig : s.perform .config = (s.config, s) := rfl
  rw [fill, Fill.run_step hconfig]
  split
  · rename_i hlist
    have hpieces : Relation.namePieces "" ',' = [] := by simp [Relation.namePieces, trimChars]
    refine ⟨s.outputs, rfl, ?_⟩
    rw [hrel, selects, hlist, hpieces]
    rfl
  · have hselect : s.perform (.select excludedName (settings.list s.config) ',') =
        (.ok ((s.run.store.get id).report (Relation.namePieces (settings.list s.config) ',')),
          s.withRelation excludedName ⟨excludedName, .unary m, [id],
            distinct ((s.run.store.get id).report
              (Relation.namePieces (settings.list s.config) ',')).tuples⟩) := by
      simp only [Session.perform, Session.updateRelation, Session.outputRelation, hrel]
      rw [Relation.selectNames_eq rfl rfl]
      rfl
    refine ⟨_, Fill.run_step hselect _, ?_⟩
    rw [NameMap.get?_insert, if_pos rfl, AnyDomain.distinct_tuples_report, selects]

end ExclusionSettings

/-! ## The registry of the two analyses -/

section

variable (names : List String) (settings : ExclusionSettings) (c : Config)

/-- The registry of the two analyses, for a program whose types are known. -/
def exclusionRegistry : Registry :=
  ofDrafts
    [⟨typesName, [⟨typesName, .domain .typeName⟩], [],
        .ofDomain typesName .typeName (TypeSource.fill (.ok names))⟩,
      ⟨excludedName, [⟨excludedName, .relation (.unary typesName)⟩], [typesName],
        .ofRelation excludedName settings.fill⟩]

/-- The signature that the registration parses is the one that a filter of the types has. -/
theorem parse_excludedSignature : Signature.parse excludedSignature = .ok (.unary typesName) := by
  decide +kernel

theorem registerExclusion_empty : Registry.empty.registerExclusion (.ok names) settings =
    (.ok (⟨typesName⟩, ⟨excludedName⟩), exclusionRegistry names settings) := by
  unfold registerExclusion registerExcluded
  rw [parse_excludedSignature]
  rfl

theorem keepsNames_fill : settings.fill.KeepsNames := by
  refine ⟨trivial, fun c => ?_⟩
  beta_reduce
  split
  · trivial
  · exact ⟨trivial, Fill.always_orFail fun _ => trivial⟩

theorem wellFormed_exclusion : (exclusionRegistry names settings).WellFormed :=
  wellFormed_ofDrafts _

theorem validate_exclusion : (exclusionRegistry names settings).validate = .ok () := by
  refine (wellFormed_exclusion names settings).validate_of_earlier fun i n hn => ?_
  match i, lt_size_of_mem_consumes hn with
  | 0, _ => cases hn
  | 1, _ => exact ⟨0, Nat.one_pos, hn⟩

/-! ## What it evaluates to -/

/-- The contents of the domain of types. -/
def typeContents : Contents :=
  .facts .typeName (distinct (names.map TypeName.mk))

/-- What the steps of the two analyses do. -/
def exclusionMeaning : Nat → Meaning
  | 0 => fun _ => some fun _ => some (typeContents names)
  | _ => fun inputs => (inputs typesName).bind fun contents => some fun _ =>
      some (.tuples ((settings.selects c contents).map fun i => [i]))

theorem pure_types :
    (exclusionRegistry names settings).Pure c 0 (exclusionMeaning names settings c 0) := by
  refine .of_domain (wellFormed_exclusion names settings) Nat.two_pos (n := typesName) rfl
    (Fill.Always.ofDomain trivial ⟨trivial, Fill.always_orFail fun _ => trivial⟩)
    fun s id hid hempty => ?_
  obtain ⟨is, hperform⟩ := s.perform_intern hid hempty (names.map TypeName.mk)
  change (Fill.ofDomain typesName .typeName (TypeSource.fill (.ok names))).run s = _
  rw [Fill.run_ofDomain hid hempty, TypeSource.fill, Fill.run_step hperform]
  rfl

theorem pure_excluded :
    (exclusionRegistry names settings).Pure c 1 (exclusionMeaning names settings c 1) := by
  refine .of_unary (wellFormed_exclusion names settings) Nat.one_lt_two (n := excludedName) rfl
    List.mem_cons_self (.ofRelation trivial trivial (keepsNames_fill settings))
    (fun contents => some ((settings.selects c contents).map fun i => [i]))
    fun s id hs hrel => ?_
  obtain ⟨o, hrun, hget⟩ := settings.run_fill hrel
  obtain ⟨o', hrun', hget'⟩ := Fill.run_ofRelation hrel hrun hget rfl
  refine ⟨.ok (), o', hrun', nofun, fun ts hts => ⟨rfl, ?_⟩⟩
  obtain rfl := Option.some.inj hts
  rw [hget', hs]

theorem pure_exclusion : ∀ i < (exclusionRegistry names settings).size,
    (exclusionRegistry names settings).Pure c i (exclusionMeaning names settings c i) := by
  intro i hi
  match i, hi with
  | 0, _ => exact pure_types names settings c
  | 1, _ => exact pure_excluded names settings c

/-- The indices of the listed types. -/
def listedTypes : List Nat :=
  settings.selects c (typeContents names)

/-- The relation contains the listed types. -/
theorem evaluate_excluded {wf : WellFounded (exclusionRegistry names settings).DependsOn} :
    (exclusionRegistry names settings).evaluate wf (exclusionMeaning names settings c) 1 =
      some fun _ => some (.tuples ((listedTypes names settings c).map fun i => [i])) := by
  have htypes : (exclusionRegistry names settings).evaluate wf
      (exclusionMeaning names settings c) 0 = some fun _ => some (typeContents names) := by
    have hdeps : (exclusionRegistry names settings).dependencies 0 = [] := rfl
    rw [evaluate_eq (wellFormed_exclusion names settings), if_pos ⟨rfl, by simp [hdeps]⟩]
    rfl
  have hdeps : (exclusionRegistry names settings).dependencies 1 = [0] := rfl
  have hsupplied : (exclusionRegistry names settings).supplied wf
      (exclusionMeaning names settings c) 1 typesName = some (typeContents names) := by
    have hconsumes : typesName ∈ ((exclusionRegistry names settings).descriptor 1).consumes :=
      List.mem_cons_self
    have hproducer : (exclusionRegistry names settings).producerIndex? typesName = some 0 := rfl
    rw [supplied, if_pos hconsumes, hproducer, Option.bind_some, htypes]
    rfl
  rw [evaluate_eq (wellFormed_exclusion names settings), if_pos ⟨rfl, by simp [hdeps, htypes]⟩]
  simp only [exclusionMeaning, hsupplied]
  rfl

/-- The relation is answered with the listed types. -/
theorem relation_excluded : ∃ r s,
    (Scheduler.new (exclusionRegistry names settings) c).relation ⟨excludedName⟩ = (.ok r, s) ∧
      r.tuples = (listedTypes names settings c).map fun i => [i] := by
  have hr := wellFormed_exclusion names settings
  have hv := validate_exclusion names settings
  have hanswers : (Scheduler.new (exclusionRegistry names settings) c).Answers
      ((exclusionRegistry names settings).evaluate (wellFounded_dependsOn hr hv)
        (exclusionMeaning names settings c)) :=
    Scheduler.answers_of_faithful (Run.proper_of_pure hr (pure_exclusion names settings c)) hv
      (.of_notStarted (fun _ => rfl) (fun _ => rfl) rfl)
      (pure_exclusion names settings c)
  obtain ⟨a, s, hm, hcontents⟩ := hanswers.answered 1 excludedName List.mem_cons_self _
    (evaluate_excluded names settings c)
  rw [Scheduler.relation, hm]
  cases a with
  | domain id => cases hcontents
  | relation r => exact ⟨r, s, rfl, (Contents.tuples.inj (Option.some.inj hcontents)).symm⟩

/-! ## Names -/

/-- The names of the types are the labels, each once. -/
theorem labels_typeContents : (typeContents names).labels = distinct names := by
  have hinj : ∀ t u : TypeName, t.name = u.name → t = u := by
    rintro ⟨t⟩ ⟨u⟩ rfl
    rfl
  have hnames : (names.map TypeName.mk).map TypeName.name = names := by
    rw [List.map_map]
    exact List.map_id names
  exact (map_distinct hinj _).trans (congrArg distinct hnames)

/-- A type is listed if its name is a piece of the property. -/
theorem mem_listedTypes {i : Nat} : i ∈ listedTypes names settings c ↔
    ∃ name, (distinct names)[i]? = some name ∧ name ≠ "" ∧
      ∃ piece ∈ (settings.list c).toList.splitOn ',', name = String.ofList (trimChars piece) := by
  rw [listedTypes, ExclusionSettings.selects, Contents.selected, mem_distinct, List.mem_filterMap]
  simp only [labels_typeContents, lastIndexOf?_eq_some_iff_of_nodup (nodup_distinct names),
    Relation.mem_namePieces]
  constructor
  · rintro ⟨name, hlisted, hi⟩
    exact ⟨name, hi, hlisted⟩
  · rintro ⟨name, hi, hlisted⟩
    exact ⟨name, hlisted, hi⟩

end

/-! ## The gate -/

namespace TypeGate

/-- A gate whose relation has these indices excludes them and no others. -/
theorem types_of_tuples {r : Relation} {is : List Nat} (h : r.tuples = is.map fun i => [i]) :
    (enabled r).types = is ∧ ∀ i, (enabled r).excludes i = true ↔ i ∈ is := by
  refine ⟨?_, fun i => ?_⟩
  · change r.tuples.filterMap List.head? = is
    rw [h, List.filterMap_map]
    exact List.filterMap_some
  · change decide ([i] ∈ r.tuples) = true ↔ i ∈ is
    simp [h]

/-- The gate of a new scheduler excludes nothing unless the flag is set. It then excludes the types
whose names are pieces of the list, and lists each of them once. -/
theorem excludes_listed_types (names : List String) (settings : ExclusionSettings) (c : Config) :
    let flagged := ∃ v, c.property (settings.ns ++ ".exclude.typeflag") = some v ∧
      lower (trim v) = "true"
    let list := (c.property (settings.ns ++ ".exclude.type")).getD ""
    ∃ types excluded registry gate s,
      Registry.empty.registerExclusion (.ok names) settings = (.ok (types, excluded), registry) ∧
      ofScheduler (.new registry c) excluded settings = (.ok gate, s) ∧
      (¬flagged → (∀ i, gate.excludes i = false) ∧ gate.types = [] ∧
        ∀ n, s.status n = .notStarted) ∧
      (flagged → ∀ i, gate.excludes i = true ↔ i < (distinct names).length ∧
        ∃ name, (distinct names)[i]? = some name ∧ name ≠ "" ∧
          ∃ piece ∈ list.toList.splitOn ',', name = String.ofList (trimChars piece)) ∧
      gate.types.Nodup ∧ ∀ i, i ∈ gate.types ↔ gate.excludes i = true := by
  intro flagged list
  have hflag : settings.enabled (Scheduler.new (exclusionRegistry names settings) c).config = true ↔
      flagged := Config.flag_eq_true_iff
  have hlist : settings.list c = list := rfl
  by_cases hf : flagged
  · obtain ⟨r, s, hrel, htuples⟩ := relation_excluded names settings c
    obtain ⟨htypes, hexcludes⟩ := types_of_tuples htuples
    refine ⟨_, _, _, enabled r, s, registerExclusion_empty names settings, ?_,
      fun h => (h hf).elim, fun _ i => ?_, ?_, fun i => ?_⟩
    · rw [ofScheduler, if_pos (hflag.2 hf), hrel]
    · rw [hexcludes, mem_listedTypes, hlist, iff_and_self]
      rintro ⟨name, hname, -⟩
      exact (List.getElem?_eq_some_iff.1 hname).1
    · rw [htypes]
      exact nodup_distinct _
    · rw [htypes, hexcludes]
  · refine ⟨_, _, _, disabled, .new (exclusionRegistry names settings) c,
      registerExclusion_empty names settings, ?_, fun _ => ⟨fun _ => rfl, rfl, fun _ => rfl⟩,
      fun h => (hf h).elim, List.nodup_nil, ?_⟩
    · rw [ofScheduler, if_neg fun h => hf (hflag.1 h)]
    · simp [types, excludes, disabled]

end TypeGate

end FactEngine
