import FactEngine.Proofs.Resolution

/-!
# The listing of consumed names

Drafts that declare the same consumed names, in another order or repeatedly, are alike
(`Draft.Alike`), and registered one after another they make registries that are alike place by
place (`Registry.Alike`, `Registry.alike_ofDrafts`). The places of the producers are the same then,
and so are the dependencies, which are listed by place and not as declared
(`Registry.Alike.dependencies_eq`).

A search runs in step in both registries (`Registry.Alike.visit`). The one thing that can differ is
which of the missing names of a descriptor is reported, and no order, no cycle and no requesting
descriptor does (`Registry.resolution_ignores_listing`).
-/

namespace FactEngine

/-! ## What is alike -/

/-- The drafts produce the same and declare the same consumed names, listed in any way. What they
do when they run does not matter. -/
structure Draft.Alike (d d' : Draft) : Prop where
  name_eq : d.name = d'.name
  produces_eq : d.produces = d'.produces
  mem_consumes : ∀ n, n ∈ d.consumes ↔ n ∈ d'.consumes

/-- The same of descriptors that were built. -/
structure Descriptor.Alike (d d' : Descriptor) : Prop where
  name_eq : d.name = d'.name
  produces_eq : d.produces = d'.produces
  mem_consumes : ∀ n, n ∈ d.consumes ↔ n ∈ d'.consumes

theorem Descriptor.Alike.refl (d : Descriptor) : d.Alike d :=
  ⟨rfl, rfl, fun _ => .rfl⟩

theorem Descriptor.Alike.outputs_eq {d d' : Descriptor} (h : d.Alike d') :
    d.outputs = d'.outputs :=
  congrArg (List.map Target.name) h.produces_eq

/-- The errors are equal, or they report names that one descriptor misses. -/
inductive Error.Alike : Error → Error → Prop
  | same (e : Error) : Error.Alike e e
  | missing (n n' consumer : String) :
      Error.Alike (.unknownTarget n (some consumer)) (.unknownTarget n' (some consumer))

/-- The same order, or errors that are alike. -/
def AnswersAlike (a a' : Except Error (List Nat)) : Prop :=
  (∃ order, a = .ok order ∧ a' = .ok order) ∨
    ∃ e e', a = .error e ∧ a' = .error e' ∧ e.Alike e'

theorem AnswersAlike.ok (order : List Nat) : AnswersAlike (.ok order) (.ok order) :=
  Or.inl ⟨order, rfl, rfl⟩

theorem AnswersAlike.error {e e' : Error} (h : e.Alike e') : AnswersAlike (.error e) (.error e') :=
  Or.inr ⟨e, e', rfl, rfl, h⟩

/-- Building refuses both drafts with one error, or the descriptors are alike. -/
theorem Draft.Alike.build {d d' : Draft} (h : d.Alike d') :
    (∃ e, d.build = .error e ∧ d'.build = .error e) ∨
      ∃ b b', d.build = .ok b ∧ d'.build = .ok b' ∧ b.Alike b' := by
  have hcolumns : d.columnDomains = d'.columnDomains := by
    rw [columnDomains, columnDomains, h.produces_eq]
  unfold Draft.build
  rw [h.name_eq, h.produces_eq]
  cases repeated? [] (d'.produces.map Target.name) with
  | some n => exact Or.inl ⟨_, rfl, rfl⟩
  | none =>
    refine Or.inr ⟨_, _, rfl, rfl, rfl, rfl, fun n => ?_⟩
    simp only [allConsumed, mem_distinct, List.mem_append, hcolumns, h.produces_eq, h.mem_consumes]

namespace Registry

/-- The descriptors are alike, place by place, and are found under the same names. -/
structure Alike (r r' : Registry) : Prop where
  descriptors : List.Forall₂ Descriptor.Alike r.descriptors r'.descriptors
  byOutput_eq : r.byOutput = r'.byOutput
  byName_eq : r.byName = r'.byName

theorem descriptor_alike {l l' : List Descriptor} (h : List.Forall₂ Descriptor.Alike l l')
    (i : Nat) : (l.getD i default).Alike (l'.getD i default) := by
  induction h generalizing i with
  | nil => exact .refl default
  | cons hd _ ih =>
    cases i with
    | zero => exact hd
    | succ i => exact ih i

namespace Alike

variable {r r' : Registry}

/-! ## What is found -/

theorem size_eq (h : r.Alike r') : r.size = r'.size :=
  h.descriptors.length_eq

theorem descriptor (h : r.Alike r') (i : Nat) : (r.descriptor i).Alike (r'.descriptor i) :=
  descriptor_alike h.descriptors i

theorem nameOf_eq (h : r.Alike r') (i : Nat) : r.nameOf i = r'.nameOf i :=
  (h.descriptor i).name_eq

theorem producerIndex?_eq (h : r.Alike r') (n : String) :
    r.producerIndex? n = r'.producerIndex? n :=
  congrArg (NameMap.get? · n) h.byOutput_eq

theorem descriptorIndex?_eq (h : r.Alike r') (n : String) :
    r.descriptorIndex? n = r'.descriptorIndex? n :=
  congrArg (NameMap.get? · n) h.byName_eq

theorem taken?_eq (h : r.Alike r') (ns : List String) : r.taken? ns = r'.taken? ns := by
  induction ns with
  | nil => rfl
  | cons n ns ih => simp only [taken?, h.producerIndex?_eq, h.nameOf_eq, ih]

/-! ## Registration -/

/-- Alike descriptors are written into the maps under the same names. -/
theorem push (h : r.Alike r') {d d' : Descriptor} (hd : d.Alike d') :
    (r.push d).Alike (r'.push d') where
  descriptors := List.rel_append h.descriptors (.cons hd .nil)
  byOutput_eq := by simp only [Registry.push, hd.outputs_eq, h.byOutput_eq, h.size_eq]
  byName_eq := by simp only [Registry.push, hd.name_eq, h.byName_eq, h.size_eq]

theorem register (h : r.Alike r') {d d' : Descriptor} (hd : d.Alike d') :
    (r.register d).1 = (r'.register d').1 ∧ (r.register d).2.Alike (r'.register d').2 := by
  unfold Registry.register
  rw [hd.name_eq, hd.outputs_eq, h.descriptorIndex?_eq, h.taken?_eq]
  cases r'.descriptorIndex? d'.name with
  | some i =>
    simp only [h.nameOf_eq]
    exact ⟨trivial, h⟩
  | none =>
    cases r'.taken? d'.outputs with
    | some p => exact ⟨rfl, h⟩
    | none => exact ⟨rfl, h.push hd⟩

/-- Alike drafts get one answer, and the registries stay alike. -/
theorem registerDraft (h : r.Alike r') {d d' : Draft} (hd : d.Alike d') :
    (r.registerDraft d).1 = (r'.registerDraft d').1 ∧
      (r.registerDraft d).2.Alike (r'.registerDraft d').2 := by
  unfold Registry.registerDraft
  obtain ⟨e, he, he'⟩ | ⟨b, b', hb, hb', halike⟩ := hd.build
  · rw [he, he']
    exact ⟨rfl, h⟩
  · rw [hb, hb']
    exact h.register halike

end Alike

theorem alike_ofDrafts {ds ds' : List Draft} (h : List.Forall₂ Draft.Alike ds ds') :
    (ofDrafts ds).Alike (ofDrafts ds') := by
  have hfoldl : ∀ {r r' : Registry}, r.Alike r' →
      (ds.foldl (fun r d => (r.registerDraft d).2) r).Alike
        (ds'.foldl (fun r d => (r.registerDraft d).2) r') := by
    induction h with
    | nil => exact id
    | cons hd _ ih => exact fun hr => ih (hr.registerDraft hd).2
  exact hfoldl ⟨.nil, rfl, rfl⟩

namespace Alike

variable {r r' : Registry} (isDone : String → Bool)

/-! ## Resolution -/

theorem outputsDone_eq (h : r.Alike r') (i : Nat) :
    r.outputsDone isDone i = r'.outputsDone isDone i := by
  rw [outputsDone, outputsDone, (h.descriptor i).outputs_eq]

/-- What a descriptor depends on is listed by place. -/
theorem dependencies_eq (h : r.Alike r') (i : Nat) : r.dependencies i = r'.dependencies i := by
  have hmem : ∀ j, j ∈ r.producers i ↔ j ∈ r'.producers i := by
    intro j
    simp only [producers, List.mem_filterMap, (h.descriptor i).mem_consumes, h.producerIndex?_eq]
  simp only [dependencies, h.size_eq, hmem]

theorem missing?_eq_none_iff (h : r.Alike r') (i : Nat) :
    r.missing? i = none ↔ r'.missing? i = none := by
  simp only [Registry.missing?_eq_none_iff, (h.descriptor i).mem_consumes, h.producerIndex?_eq]

theorem cycleThrough_eq (h : r.Alike r') (path : List Nat) (i : Nat) :
    r.cycleThrough path i = r'.cycleThrough path i :=
  List.map_congr_left fun k _ => h.nameOf_eq k

theorem visitAll (h : r.Alike r') {free path : List Nat}
    (hvisit : ∀ j order,
      AnswersAlike (r.visit isDone free path j order) (r'.visit isDone free path j order))
    (js order : List Nat) :
    AnswersAlike (r.visitAll isDone free path js order)
      (r'.visitAll isDone free path js order) := by
  induction js generalizing order with
  | nil => exact .ok order
  | cons j js ih =>
    rw [visitAll_cons, visitAll_cons, h.outputsDone_eq]
    cases r'.outputsDone isDone j with
    | true => exact ih order
    | false =>
      rw [if_neg Bool.false_ne_true, if_neg Bool.false_ne_true]
      obtain ⟨middle, hok, hok'⟩ | ⟨e, e', he, he', halike⟩ := hvisit j order
      · rw [hok, hok']
        exact ih middle
      · rw [he, he']
        exact .error halike

/-- Searches run in step. -/
theorem visit (h : r.Alike r') (free path : List Nat) (i : Nat) (order : List Nat) :
    AnswersAlike (r.visit isDone free path i order) (r'.visit isDone free path i order) := by
  induction hl : free.length using Nat.strong_induction_on generalizing free path i order with
  | _ n ih =>
    subst hl
    rw [visit_eq, visit_eq]
    by_cases hi : i ∈ order
    · rw [if_pos hi, if_pos hi]
      exact .ok order
    · rw [if_neg hi, if_neg hi]
      by_cases hf : i ∈ free
      · rw [if_pos hf, if_pos hf]
        cases hm : r.missing? i with
        | some name =>
          have hne : r'.missing? i ≠ none := by
            rw [Ne, ← h.missing?_eq_none_iff, hm]
            exact Option.some_ne_none name
          obtain ⟨name', hm'⟩ := Option.ne_none_iff_exists'.1 hne
          rw [hm', h.nameOf_eq]
          exact .error (.missing ..)
        | none =>
          have hlt : (free.erase i).length < free.length := by
            have := List.length_erase_of_mem hf
            have := List.length_pos_of_mem hf
            omega
          have hall := h.visitAll isDone
            (fun j order => ih _ hlt (free.erase i) (path ++ [i]) j order rfl)
            (r.dependencies i) order
          rw [(h.missing?_eq_none_iff i).1 hm, ← h.dependencies_eq]
          obtain ⟨middle, hok, hok'⟩ | ⟨e, e', he, he', halike⟩ := hall
          · rw [hok, hok']
            exact .ok _
          · rw [he, he']
            exact .error halike
      · rw [if_neg hf, if_neg hf, h.cycleThrough_eq]
        exact .error (.same _)

theorem orderFor (h : r.Alike r') (target : String) :
    AnswersAlike (r.orderFor target isDone) (r'.orderFor target isDone) := by
  unfold Registry.orderFor
  rw [h.producerIndex?_eq, h.size_eq]
  cases r'.producerIndex? target with
  | none => exact .error (.same _)
  | some i =>
    simp only [h.outputsDone_eq]
    split
    · exact .ok []
    · exact h.visit isDone _ _ _ _

end Alike

/-- Registries that differ in how the drafts list their consumed names resolve a target to one
order, of descriptors of the same names, or refuse it for one reason : the same unknown target, the
same cycle, or names that the same descriptor misses. -/
theorem resolution_ignores_listing (ds ds' : List Draft) (isDone : String → Bool)
    (target : String) (h : List.Forall₂ Draft.Alike ds ds') :
    let r := ofDrafts ds
    let r' := ofDrafts ds'
    (∀ order, r.orderFor target isDone = .ok order →
      r'.orderFor target isDone = .ok order ∧ order.map r.nameOf = order.map r'.nameOf) ∧
    (∀ e, r.orderFor target isDone = .error e →
      ∃ e', r'.orderFor target isDone = .error e' ∧ e.Alike e') := by
  intro r r'
  have halike : r.Alike r' := alike_ofDrafts h
  obtain ⟨order, hok, hok'⟩ | ⟨e, e', he, he', hee⟩ := halike.orderFor isDone target
  · rw [hok, hok']
    refine ⟨fun _ ho => ?_, nofun⟩
    obtain rfl := Except.ok.inj ho
    exact ⟨rfl, List.map_congr_left fun k _ => halike.nameOf_eq k⟩
  · rw [he, he']
    refine ⟨nofun, fun _ h => ?_⟩
    obtain rfl := Except.error.inj h
    exact ⟨e', rfl, hee⟩

/-- The dependencies of `d` are found in one order whatever is listed first. Of the two names that
`a` misses, the one that is listed first is reported. -/
theorem resolution_of_two_listings :
    let listed (one other : List String) : List Draft :=
      [⟨"a", [⟨"a", .domain .text⟩], one, .finish⟩, ⟨"b", [⟨"b", .domain .text⟩], [], .finish⟩,
        ⟨"c", [⟨"c", .domain .text⟩], [], .finish⟩, ⟨"d", [⟨"d", .domain .text⟩], other, .finish⟩]
    let ds := listed ["x", "y"] ["c", "b"]
    let ds' := listed ["y", "x", "y"] ["b", "c", "b"]
    let isDone : String → Bool := fun _ => false
    List.Forall₂ Draft.Alike ds ds' ∧
    (ofDrafts ds).orderFor "d" isDone = .ok [1, 2, 3] ∧
    (ofDrafts ds').orderFor "d" isDone = .ok [1, 2, 3] ∧
    (ofDrafts ds).orderFor "a" isDone = .error (.unknownTarget "x" (some "a")) ∧
    ∃ e, (ofDrafts ds').orderFor "a" isDone = .error e ∧
      Error.Alike (.unknownTarget "x" (some "a")) e := by
  intro listed ds ds' isDone
  have hsame : ∀ d : Draft, d.Alike d := fun d => ⟨rfl, rfl, fun _ => .rfl⟩
  have halike : List.Forall₂ Draft.Alike ds ds' :=
    .cons ⟨rfl, rfl, fun n => by simp [or_comm, or_left_comm]⟩
      (.cons (hsame _) (.cons (hsame _) (.cons ⟨rfl, rfl, fun n => by simp [or_comm]⟩ .nil)))
  have horder : (ofDrafts ds).orderFor "d" isDone = .ok [1, 2, 3] := by decide +kernel
  have hrefused : (ofDrafts ds).orderFor "a" isDone = .error (.unknownTarget "x" (some "a")) := by
    decide +kernel
  exact ⟨halike, horder, ((resolution_ignores_listing ds ds' isDone "d" halike).1 _ horder).1,
    hrefused, (resolution_ignores_listing ds ds' isDone "a" halike).2 _ hrefused⟩

end Registry

end FactEngine
