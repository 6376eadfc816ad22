import FactEngine.Analysis.Registry
import Mathlib.Data.List.Induction
import Mathlib.Data.List.Nodup

/-!
# Registries made by registration

Only registration makes registries : `Registry.ofDrafts` registers drafts one after another,
and those that are refused leave no trace. In such a registry (`wellFormed_ofDrafts`) the two
maps are inverse to the list of descriptors, and a descriptor produces or consumes the domain of
every column of its relations. A registration that is accepted keeps them so, because it found
the name and the outputs of its descriptor in neither map (`WellFormed.push`).

Places identify descriptors, so most facts are about places : a name has the producer `i` if
it is among the outputs at `i` (`producerIndex?_eq_some_iff`), and `nameOf` is injective on
the places of the registry. Hence descriptor names are distinct (`WellFormed.names_nodup`) and
every name has one producer at most.
-/

namespace FactEngine

/-! ## Drafts -/

namespace Draft

theorem repeated?_eq_none {seen ns : List String} (h : repeated? seen ns = none) :
    ns.Nodup ∧ ∀ n ∈ ns, n ∉ seen := by
  induction ns generalizing seen with
  | nil => simp
  | cons n ns ih =>
    unfold repeated? at h
    split at h
    · cases h
    · rename_i hn
      obtain ⟨hnodup, hseen⟩ := ih h
      refine ⟨List.nodup_cons.2 ⟨fun hm => hseen n hm List.mem_cons_self, hnodup⟩, ?_⟩
      intro m hm
      rcases List.mem_cons.1 hm with rfl | hm
      · exact hn
      · exact fun hs => hseen m hm (List.mem_cons_of_mem _ hs)

/-- The name that is found is the first that occurs again. -/
theorem repeated?_eq_some {seen ns : List String} {n : String} (h : repeated? seen ns = some n) :
    ∃ before after, ns = before ++ n :: after ∧ (n ∈ before ∨ n ∈ seen) ∧ before.Nodup ∧
      ∀ m ∈ before, m ∉ seen := by
  induction ns generalizing seen with
  | nil => cases h
  | cons k ns ih =>
    unfold repeated? at h
    split at h
    · rename_i hk
      obtain rfl := Option.some.inj h
      exact ⟨[], ns, rfl, Or.inr hk, .nil, by simp⟩
    · rename_i hk
      obtain ⟨before, after, rfl, hn, hnodup, hseen⟩ := ih h
      refine ⟨k :: before, after, rfl, ?_, List.nodup_cons.2 ⟨fun hm => ?_, hnodup⟩,
        fun m hm => ?_⟩
      · rcases hn with hn | hn
        · exact Or.inl (List.mem_cons_of_mem _ hn)
        · rcases List.mem_cons.1 hn with rfl | hn
          · exact Or.inl List.mem_cons_self
          · exact Or.inr hn
      · exact hseen k hm List.mem_cons_self
      · rcases List.mem_cons.1 hm with rfl | hm
        · exact hk
        · exact fun hs => hseen m hm (List.mem_cons_of_mem _ hs)

theorem mem_columnDomains {d : Draft} {t : Target} {sig : Signature} {c : Column}
    (ht : t ∈ d.produces) (hk : t.kind = .relation sig) (hc : c ∈ sig.columns) :
    c.domain ∈ d.columnDomains := by
  refine List.mem_flatMap.2 ⟨sig, List.mem_filterMap.2 ⟨t, ht, ?_⟩, List.mem_map_of_mem hc⟩
  simp [Target.signature?, hk]

theorem build_eq {draft : Draft} {d : Descriptor} (h : draft.build = .ok d) :
    d = ⟨draft.name, draft.produces, draft.allConsumed, draft.fill⟩ := by
  unfold Draft.build at h
  split at h
  · cases h
  · exact (Except.ok.inj h).symm

end Draft

/-! ## Descriptors that were built -/

namespace Descriptor

/-- What building a draft checks and completes. -/
structure WellFormed (d : Descriptor) : Prop where
  outputs_nodup : d.outputs.Nodup
  columns_known : ∀ t ∈ d.produces, ∀ sig, t.kind = .relation sig → ∀ c ∈ sig.columns,
    c.domain ∈ d.outputs ∨ c.domain ∈ d.consumes

theorem wellFormed_of_build {draft : Draft} {d : Descriptor} (h : draft.build = .ok d) :
    d.WellFormed := by
  unfold Draft.build at h
  split at h
  · cases h
  · rename_i hr
    obtain rfl := Except.ok.inj h
    refine ⟨(Draft.repeated?_eq_none hr).1, ?_⟩
    intro t ht sig hk c hc
    by_cases hp : c.domain ∈ draft.produces.map Target.name
    · exact Or.inl hp
    · have hcol := Draft.mem_columnDomains ht hk hc
      refine Or.inr (mem_distinct.2 (List.mem_append_right _ (List.mem_filter.2 ⟨hcol, ?_⟩)))
      simpa using hp

theorem mem_outputs {d : Descriptor} {n : String} : n ∈ d.outputs ↔ ∃ t ∈ d.produces, t.name = n :=
  List.mem_map

/-- A target is found under its name. -/
theorem target?_eq_some_iff {d : Descriptor} (hd : d.outputs.Nodup) {n : String} {t : Target} :
    d.target? n = some t ↔ t ∈ d.produces ∧ t.name = n := by
  constructor
  · intro h
    exact ⟨List.mem_of_find?_eq_some h, by simpa using List.find?_some h⟩
  · rintro ⟨ht, rfl⟩
    cases h : d.target? t.name with
    | none => simpa using List.find?_eq_none.1 h t ht
    | some u =>
      have hu : u.name = t.name := by simpa using List.find?_some h
      rw [List.inj_on_of_nodup_map hd (List.mem_of_find?_eq_some h) ht hu]

end Descriptor

/-! ## Registries -/

namespace Registry

/-- Descriptors that were built, and maps that are inverse to the list of them : the place under
a name is that of the one descriptor that produces it, or that is called so. -/
structure WellFormed (r : Registry) : Prop where
  built : ∀ d ∈ r.descriptors, d.WellFormed
  byOutput : ∀ n i, r.byOutput.get? n = some i ↔ n ∈ (r.descriptor i).outputs
  byName : ∀ n i, r.byName.get? n = some i ↔ i < r.size ∧ r.nameOf i = n

/-! ## Places -/

theorem descriptor_eq_getElem {r : Registry} {i : Nat} (hi : i < r.descriptors.length) :
    r.descriptor i = r.descriptors[i] := by
  simp [descriptor, List.getD_eq_getElem?_getD, List.getElem?_eq_getElem hi]

theorem descriptor_eq_default {r : Registry} {i : Nat} (hi : r.size ≤ i) :
    r.descriptor i = default := by
  simp [descriptor, List.getD_eq_getElem?_getD, List.getElem?_eq_none hi]

theorem descriptor_mem {r : Registry} {i : Nat} (hi : i < r.size) :
    r.descriptor i ∈ r.descriptors := by
  rw [descriptor_eq_getElem hi]
  exact List.getElem_mem hi

theorem exists_place {r : Registry} {d : Descriptor} (hd : d ∈ r.descriptors) :
    ∃ i < r.size, r.descriptor i = d := by
  obtain ⟨i, hi, rfl⟩ := List.mem_iff_getElem.1 hd
  exact ⟨i, hi, descriptor_eq_getElem hi⟩

/-- There are no outputs past the end. -/
theorem lt_size_of_mem_outputs {r : Registry} {i : Nat} {n : String}
    (h : n ∈ (r.descriptor i).outputs) : i < r.size := by
  by_contra hi
  rw [descriptor_eq_default (Nat.le_of_not_lt hi)] at h
  simp [Descriptor.outputs, default] at h

/-- Nothing is consumed past the end. -/
theorem lt_size_of_mem_consumes {r : Registry} {i : Nat} {n : String}
    (h : n ∈ (r.descriptor i).consumes) : i < r.size := by
  by_contra hi
  rw [descriptor_eq_default (Nat.le_of_not_lt hi)] at h
  simp [default] at h

/-! ## Registration keeps the maps inverse to the list -/

section Push

variable (r : Registry) (d : Descriptor)

theorem size_push : (r.push d).size = r.size + 1 :=
  List.length_append

theorem descriptor_push (i : Nat) :
    (r.push d).descriptor i = if i = r.size then d else r.descriptor i := by
  simp only [descriptor, push, size, List.getD_eq_getElem?_getD, List.getElem?_append,
    List.getElem?_singleton]
  grind

theorem producerIndex?_push (n : String) :
    (r.push d).producerIndex? n = if n ∈ d.outputs then some r.size else r.producerIndex? n :=
  NameMap.get?_foldl_insert_const r.byOutput d.outputs r.size n

theorem descriptorIndex?_push (n : String) :
    (r.push d).descriptorIndex? n = if n = d.name then some r.size else r.descriptorIndex? n :=
  NameMap.get?_insert r.byName n d.name r.size

end Push

theorem taken?_eq_none {r : Registry} {ns : List String} (h : r.taken? ns = none) :
    ∀ n ∈ ns, r.producerIndex? n = none := by
  induction ns with
  | nil => simp
  | cons n ns ih =>
    unfold taken? at h
    split at h
    · cases h
    · rename_i hn
      intro m hm
      rcases List.mem_cons.1 hm with rfl | hm
      · exact hn
      · exact ih h m hm

/-- A descriptor whose name and outputs are free leaves the maps inverse to the list. -/
theorem WellFormed.push {r : Registry} (hr : r.WellFormed) {d : Descriptor} (hd : d.WellFormed)
    (hname : r.descriptorIndex? d.name = none)
    (hfree : ∀ n ∈ d.outputs, r.producerIndex? n = none) : (r.push d).WellFormed where
  built e he := by
    rcases List.mem_append.1 he with he | he
    · exact hr.built e he
    · exact List.mem_singleton.1 he ▸ hd
  byOutput n i := by
    change (r.push d).producerIndex? n = some i ↔ _
    rw [producerIndex?_push, descriptor_push]
    have hkept : r.producerIndex? n = some i ↔ n ∈ (r.descriptor i).outputs := hr.byOutput n i
    by_cases hn : n ∈ d.outputs
    · -- nobody else produces an output of the new descriptor
      rw [hfree n hn] at hkept
      grind
    · have hlast : i = r.size → n ∉ (r.descriptor i).outputs :=
        fun hi hm => Nat.ne_of_lt (lt_size_of_mem_outputs hm) hi
      grind
  byName n i := by
    change (r.push d).descriptorIndex? n = some i ↔ _
    rw [descriptorIndex?_push, size_push, nameOf, descriptor_push]
    have hkept : r.descriptorIndex? n = some i ↔ i < r.size ∧ (r.descriptor i).name = n :=
      hr.byName n i
    by_cases hn : n = d.name
    · -- nobody else has the name of the new descriptor
      rw [hn, hname] at hkept
      grind
    · grind

theorem WellFormed.register {r : Registry} (hr : r.WellFormed) {d : Descriptor}
    (hd : d.WellFormed) : (r.register d).2.WellFormed := by
  unfold Registry.register
  split
  · exact hr
  · rename_i hname
    split
    · exact hr
    · rename_i htaken
      exact hr.push hd hname (taken?_eq_none htaken)

/-- The registry that registering drafts one after another makes. -/
def ofDrafts (ds : List Draft) : Registry :=
  ds.foldl (fun r d => (r.registerDraft d).2) .empty

theorem WellFormed.registerDraft {r : Registry} (hr : r.WellFormed) (d : Draft) :
    (r.registerDraft d).2.WellFormed := by
  unfold Registry.registerDraft
  split
  · exact hr
  · rename_i h
    exact hr.register (Descriptor.wellFormed_of_build h)

theorem WellFormed.empty : empty.WellFormed where
  built := by simp [Registry.empty]
  byOutput n i := by simp [Registry.empty, descriptor, Descriptor.outputs, default]
  byName n i := by simp [Registry.empty, size]

theorem wellFormed_ofDrafts (ds : List Draft) : (ofDrafts ds).WellFormed := by
  have hempty := WellFormed.empty
  unfold ofDrafts
  generalize empty = r at hempty
  induction ds generalizing r with
  | nil => exact hempty
  | cons d ds ih => exact ih _ (hempty.registerDraft d)

/-- Registering a draft adds at most the descriptor that it declares. -/
theorem mem_registerDraft {r : Registry} {draft : Draft} {d : Descriptor}
    (hd : d ∈ (r.registerDraft draft).2.descriptors) :
    d ∈ r.descriptors ∨ draft.build = .ok d := by
  unfold registerDraft at hd
  split at hd
  · exact Or.inl hd
  · rename_i e hbuild
    unfold register at hd
    split at hd
    · exact Or.inl hd
    · split at hd
      · exact Or.inl hd
      · rcases List.mem_append.1 hd with hd | hd
        · exact Or.inl hd
        · exact Or.inr (List.mem_singleton.1 hd ▸ hbuild)

/-- Every descriptor of a registry of drafts is declared by one of them. -/
theorem exists_draft {ds : List Draft} {d : Descriptor} (hd : d ∈ (ofDrafts ds).descriptors) :
    ∃ draft ∈ ds, draft.build = .ok d := by
  induction ds using List.reverseRecOn with
  | nil => cases hd
  | append_singleton ds draft ih =>
    have hlast : ofDrafts (ds ++ [draft]) = ((ofDrafts ds).registerDraft draft).2 :=
      List.foldl_concat ..
    rw [hlast] at hd
    rcases mem_registerDraft hd with hd | hd
    · obtain ⟨e, he, hbuild⟩ := ih hd
      exact ⟨e, List.mem_append_left _ he, hbuild⟩
    · exact ⟨draft, by simp, hd⟩

/-! ## Owners -/

/-- The producer of a name is the descriptor that has it among its outputs. -/
theorem WellFormed.producerIndex?_eq_some_iff {r : Registry} (hr : r.WellFormed) {n : String}
    {i : Nat} : r.producerIndex? n = some i ↔ n ∈ (r.descriptor i).outputs :=
  hr.byOutput n i

theorem WellFormed.lt_size_of_producerIndex? {r : Registry} (hr : r.WellFormed) {n : String}
    {i : Nat} (h : r.producerIndex? n = some i) : i < r.size :=
  lt_size_of_mem_outputs (hr.producerIndex?_eq_some_iff.1 h)

theorem WellFormed.producerIndex?_eq_none_iff {r : Registry} (hr : r.WellFormed) {n : String} :
    r.producerIndex? n = none ↔ ∀ j, n ∉ (r.descriptor j).outputs := by
  simp only [Option.eq_none_iff_forall_ne_some, ne_eq, hr.producerIndex?_eq_some_iff]

/-- No name is an output at two places. -/
theorem WellFormed.place_unique {r : Registry} (hr : r.WellFormed) {i j : Nat} {n : String}
    (hi : n ∈ (r.descriptor i).outputs) (hj : n ∈ (r.descriptor j).outputs) : i = j :=
  Option.some.inj
    ((hr.producerIndex?_eq_some_iff.2 hi).symm.trans (hr.producerIndex?_eq_some_iff.2 hj))

theorem lookup_eq_ok_iff {r : Registry} {n : String} {d : Descriptor} :
    r.lookup n = .ok d ↔ ∃ i, r.producerIndex? n = some i ∧ r.descriptor i = d := by
  unfold lookup
  split
  · rename_i i hi
    simp [hi]
  · rename_i hi
    simp [hi]

/-- The target of a name is the one that some descriptor produces under it. -/
theorem WellFormed.target_eq_ok_iff {r : Registry} (hr : r.WellFormed) {n : String} {t : Target} :
    r.target n = .ok t ↔ ∃ i, t ∈ (r.descriptor i).produces ∧ t.name = n := by
  have hnodup : ∀ {i}, i < r.size → (r.descriptor i).outputs.Nodup :=
    fun hi => (hr.built _ (descriptor_mem hi)).outputs_nodup
  unfold target lookup
  cases hn : r.producerIndex? n with
  | none =>
    constructor
    · intro h
      cases h
    · rintro ⟨i, ht, rfl⟩
      have hi := hr.producerIndex?_eq_some_iff.2 (Descriptor.mem_outputs.2 ⟨t, ht, rfl⟩)
      rw [hn] at hi
      cases hi
  | some i =>
    have hni := hr.producerIndex?_eq_some_iff.1 hn
    have htarget := fun {u : Target} =>
      Descriptor.target?_eq_some_iff (n := n) (t := u) (hnodup (lt_size_of_mem_outputs hni))
    simp only
    constructor
    · intro h
      split at h
      · rename_i u hu
        obtain rfl := Except.ok.inj h
        exact ⟨i, htarget.1 hu⟩
      · cases h
    · rintro ⟨j, ht, rfl⟩
      obtain rfl := hr.place_unique hni (Descriptor.mem_outputs.2 ⟨t, ht, rfl⟩)
      rw [htarget.2 ⟨ht, rfl⟩]

/-- The descriptor of a name is the one that is called so. -/
theorem WellFormed.descriptorIndex?_nameOf {r : Registry} (hr : r.WellFormed) {i : Nat}
    (hi : i < r.size) : r.descriptorIndex? (r.nameOf i) = some i :=
  (hr.byName _ i).2 ⟨hi, rfl⟩

theorem WellFormed.nameOf_injective {r : Registry} (hr : r.WellFormed) {i j : Nat}
    (hi : i < r.size) (hj : j < r.size) (h : r.nameOf i = r.nameOf j) : i = j := by
  have hplace := hr.descriptorIndex?_nameOf hi
  rw [h, hr.descriptorIndex?_nameOf hj] at hplace
  exact (Option.some.inj hplace).symm

theorem WellFormed.names_nodup {r : Registry} (hr : r.WellFormed) :
    (r.descriptors.map Descriptor.name).Nodup := by
  refine List.pairwise_map.2 (List.pairwise_iff_getElem.2 fun i j hi hj hlt heq =>
    Nat.ne_of_lt hlt ?_)
  refine hr.nameOf_injective hi hj ?_
  rwa [nameOf, nameOf, descriptor_eq_getElem hi, descriptor_eq_getElem hj]

/-- Different descriptors have different names. -/
theorem WellFormed.nodup_map_nameOf {r : Registry} (hr : r.WellFormed) {l : List Nat}
    (hl : l.Nodup) (hbound : ∀ i ∈ l, i < r.size) : (l.map r.nameOf).Nodup :=
  hl.map_on fun i hi j hj he => hr.nameOf_injective (hbound i hi) (hbound j hj) he

end Registry

end FactEngine
