import FactEngine.Proofs.Lists
import FactEngine.Proofs.Registration
import FactEngine.Proofs.Session

/-!
# The outputs that are prepared

Preparation makes the domains of a descriptor in new places, and then the relations over
them and over consumed domains. A column is `Bound` to the descriptor's own domain of its
name, or else to the consumed one (`prepare_ok`). Preparation is refused for the first column
that has nothing to be bound to (`firstUnbound_prepare`), and never because a relation does not
fit its domains. Apart from the new places, the store differs only in consumed domains that are
frozen now (`freeze_get_prepare`).
-/

namespace FactEngine

namespace Outputs

/-! ## Domains -/

/-- The domains that are made get the next places. -/
theorem place_makeDomains (s : Store) (targets : List Target) :
    s.domains.length ≤ (makeDomains s targets).2.domains.length ∧
      ∀ n id, (makeDomains s targets).1.get? n = some id → s.domains.length ≤ id.place ∧
        id.place < (makeDomains s targets).2.domains.length := by
  induction targets generalizing s with
  | nil => exact ⟨le_refl _, by simp [makeDomains]⟩
  | cons target targets ih =>
    obtain ⟨name, kind⟩ := target
    cases kind with
    | relation sig => exact ih s
    | domain t =>
      obtain ⟨hlen, hplaces⟩ := ih (s.add (.empty name t)).2
      have hlt : s.domains.length < (s.add (.empty name t)).2.domains.length := by
        simp [Store.add]
      simp only [makeDomains]
      refine ⟨hlt.le.trans hlen, fun n id h => ?_⟩
      rw [NameMap.get?_insert] at h
      split at h
      · obtain rfl := Option.some.inj h
        exact ⟨le_refl _, hlt.trans_le hlen⟩
      · exact ⟨hlt.le.trans (hplaces n id h).1, (hplaces n id h).2⟩

/-- What making the domains among some targets does to the store. -/
structure MadeDomains (s : Store) (targets : List Target) (m : NameMap DomainId)
    (s' : Store) : Prop where
  old : ∀ id, id.place < s.domains.length → s'.get id = s.get id
  made : ∀ n t, ⟨n, .domain t⟩ ∈ targets → ∃ id, m.get? n = some id ∧ s'.get id = .empty n t
  only : ∀ n id, m.get? n = some id → ∃ t, ⟨n, .domain t⟩ ∈ targets

theorem madeDomains (s : Store) (targets : List Target) (hn : (targets.map Target.name).Nodup) :
    MadeDomains s targets (makeDomains s targets).1 (makeDomains s targets).2 := by
  induction targets generalizing s with
  | nil => exact ⟨fun _ _ => rfl, by simp, by simp [makeDomains]⟩
  | cons target targets ih =>
    rw [List.map_cons, List.nodup_cons] at hn
    obtain ⟨name, kind⟩ := target
    cases kind with
    | relation sig =>
      obtain ⟨ho, hm, honly⟩ := ih s hn.2
      refine ⟨ho, fun n t h => hm n t (by simpa using h), fun n id h => ?_⟩
      obtain ⟨t, ht⟩ := honly n id h
      exact ⟨t, List.mem_cons_of_mem _ ht⟩
    | domain u =>
      have hlen : s.domains.length < (s.add (.empty name u)).2.domains.length := by
        simp [Store.add]
      obtain ⟨ho, hm, honly⟩ := ih (s.add (.empty name u)).2 hn.2
      simp only [makeDomains]
      refine ⟨fun id hid => ?_, fun n t h => ?_, fun n id h => ?_⟩
      · rw [ho id (hid.trans hlen), Store.get_add_of_lt _ _ hid]
      · rcases List.mem_cons.1 h with hh | ht
        · obtain ⟨rfl, rfl⟩ : n = name ∧ t = u := by simpa using hh
          refine ⟨(s.add (.empty n t)).1, by rw [NameMap.get?_insert, if_pos rfl], ?_⟩
          rw [ho (s.add (.empty n t)).1 hlen, Store.get_add_self]
        · obtain ⟨id, hid, hget⟩ := hm n t ht
          have hne : n ≠ name := fun he => hn.1 (List.mem_map.2 ⟨_, ht, he⟩)
          exact ⟨id, by rw [NameMap.get?_insert, if_neg hne, hid], hget⟩
      · rw [NameMap.get?_insert] at h
        split at h
        · rename_i hnn
          exact ⟨u, by rw [hnn]; exact List.mem_cons_self⟩
        · obtain ⟨t, ht⟩ := honly n id h
          exact ⟨t, List.mem_cons_of_mem _ ht⟩

/-! ## Columns -/

/-- The domain that a column of the name is bound to. -/
def Bound (own : NameMap DomainId) (inputs : NameMap Artifact) (n : String) (id : DomainId) :
    Prop :=
  own.get? n = some id ∨ own.get? n = none ∧ inputs.get? n = some (.domain id)

/-- The second store differs from the first only in consumed domains, and in those only in
whether they are frozen. -/
structure Read (inputs : NameMap Artifact) (s s' : Store) : Prop extends s.Thawed s' where
  untouched : ∀ id, (∀ n, inputs.get? n ≠ some (.domain id)) → s'.get id = s.get id

variable {descriptor : String} {inputs : NameMap Artifact} {own : NameMap DomainId}

theorem Read.refl (inputs : NameMap Artifact) (s : Store) : Read inputs s s :=
  ⟨.refl s, fun _ _ => rfl⟩

theorem Read.trans {s t u : Store} (h : Read inputs s t) (h' : Read inputs t u) :
    Read inputs s u :=
  ⟨h.toThawed.trans h'.toThawed,
    fun id hid => (h'.untouched id hid).trans (h.untouched id hid)⟩

theorem read_freeze {s : Store} {id : DomainId} (h : ∃ n, inputs.get? n = some (.domain id)) :
    Read inputs s (s.freeze id) := by
  obtain ⟨n, hn⟩ := h
  refine ⟨s.thawed_freeze id, fun j hj => s.get_freeze_of_ne ?_⟩
  rintro rfl
  exact hj n hn

/-- Binding a column keeps what freezing consumed domains keeps. -/
theorem bindColumn_preserves {I : Store → Prop}
    (hfreeze : ∀ s id, (∃ n, inputs.get? n = some (.domain id)) → I s → I (s.freeze id))
    {s : Store} (h : I s) (n : String) : I (bindColumn descriptor inputs own s n).2 := by
  unfold bindColumn
  split
  · exact h
  · rename_i id _ hin
    exact hfreeze s id ⟨n, hin⟩ h
  · exact h
  · exact h

theorem bound_bindColumn {s : Store} {n : String} {id : DomainId}
    (h : (bindColumn descriptor inputs own s n).1 = .ok id) : Bound own inputs n id := by
  unfold bindColumn at h
  split at h
  · rename_i hown
    exact Or.inl (hown.trans (congrArg some (Except.ok.inj h)))
  · rename_i hown hin
    exact Or.inr ⟨hown, hin.trans (by rw [Except.ok.inj h])⟩
  · cases h
  · cases h

theorem bindColumns_preserves {I : Store → Prop}
    (hfreeze : ∀ s id, (∃ n, inputs.get? n = some (.domain id)) → I s → I (s.freeze id))
    {s : Store} (h : I s) (cs : List Column) :
    I (bindColumns descriptor inputs own s cs).2 := by
  induction cs generalizing s with
  | nil => exact h
  | cons c cs ih =>
    have hc : I (bindColumn descriptor inputs own s c.domain).2 :=
      bindColumn_preserves hfreeze h c.domain
    unfold bindColumns
    split
    · rename_i heq
      rwa [heq] at hc
    · rename_i id s' heq
      rw [heq] at hc
      have hcs := ih hc
      split <;> rename_i heq' <;> rwa [heq'] at hcs

theorem read_bindColumns (descriptor : String) (inputs : NameMap Artifact)
    (own : NameMap DomainId) (s : Store) (cs : List Column) :
    Read inputs s (bindColumns descriptor inputs own s cs).2 :=
  bindColumns_preserves (fun _ _ hid h => h.trans (read_freeze hid)) (.refl inputs s) cs

theorem bound_bindColumns {s : Store} {cs : List Column} {ids : List DomainId}
    (h : (bindColumns descriptor inputs own s cs).1 = .ok ids) :
    List.Forall₂ (fun c id => Bound own inputs c.domain id) cs ids := by
  induction cs generalizing s ids with
  | nil =>
    obtain rfl := Except.ok.inj h
    exact .nil
  | cons c cs ih =>
    unfold bindColumns at h
    split at h
    · cases h
    · rename_i id s' hc
      split at h
      · cases h
      · rename_i ids' s'' hcs
        obtain rfl := Except.ok.inj h
        exact .cons (bound_bindColumn (congrArg Prod.fst hc)) (ih (congrArg Prod.fst hcs))

/-! ## Relations -/

theorem makeRelations_preserves {I : Store → Prop}
    (hfreeze : ∀ s id, (∃ n, inputs.get? n = some (.domain id)) → I s → I (s.freeze id))
    {s : Store} (h : I s) (o : Outputs) (targets : List Target) :
    I (makeRelations descriptor inputs o s targets).2 := by
  induction targets generalizing o s with
  | nil => exact h
  | cons target targets ih =>
    obtain ⟨name, kind⟩ := target
    cases kind with
    | domain t => exact ih h o
    | relation sig =>
      have hc : I (bindColumns descriptor inputs o.domains s sig.columns).2 :=
        bindColumns_preserves hfreeze h sig.columns
      simp only [makeRelations]
      split
      · rename_i heq
        rwa [heq] at hc
      · rename_i ids s' heq
        rw [heq] at hc
        split
        · exact hc
        · exact ih hc _

theorem read_makeRelations (descriptor : String) (inputs : NameMap Artifact) (o : Outputs)
    (s : Store) (targets : List Target) :
    Read inputs s (makeRelations descriptor inputs o s targets).2 :=
  makeRelations_preserves (fun _ _ hid h => h.trans (read_freeze hid)) (.refl inputs s) o targets

/-- Making relations leaves the domains among the outputs. -/
theorem domains_makeRelations {o o' : Outputs} {s : Store} {targets : List Target}
    (h : (makeRelations descriptor inputs o s targets).1 = .ok o') : o'.domains = o.domains := by
  induction targets generalizing o s with
  | nil =>
    obtain rfl := Except.ok.inj h
    rfl
  | cons target targets ih =>
    obtain ⟨name, kind⟩ := target
    cases kind with
    | domain t => exact ih h
    | relation sig =>
      simp only [makeRelations] at h
      split at h
      · cases h
      · split at h
        · cases h
        · have hrest := ih h
          exact hrest

/-- What making the relations among some targets does to the outputs. -/
structure MadeRelations (inputs : NameMap Artifact) (targets : List Target)
    (o o' : Outputs) : Prop where
  other : ∀ n, n ∉ targets.map Target.name → o'.relations.get? n = o.relations.get? n
  made : ∀ n sig, ⟨n, .relation sig⟩ ∈ targets → ∃ ids,
    o'.relations.get? n = some ⟨n, sig, ids, []⟩ ∧
      List.Forall₂ (fun c id => Bound o.domains inputs c.domain id) sig.columns ids

theorem madeRelations {o o' : Outputs} {s : Store} {targets : List Target}
    (hn : (targets.map Target.name).Nodup)
    (h : (makeRelations descriptor inputs o s targets).1 = .ok o') :
    MadeRelations inputs targets o o' := by
  induction targets generalizing o s with
  | nil =>
    obtain rfl := Except.ok.inj h
    exact ⟨fun _ _ => rfl, by simp⟩
  | cons target targets ih =>
    rw [List.map_cons, List.nodup_cons] at hn
    obtain ⟨name, kind⟩ := target
    cases kind with
    | domain t =>
      obtain ⟨ho, hm⟩ := ih hn.2 h
      refine ⟨fun n hnn => ho n fun hin => hnn (List.mem_cons_of_mem _ hin), ?_⟩
      exact fun n sig hin => hm n sig (by simpa using hin)
    | relation sig =>
      simp only [makeRelations] at h
      split at h
      · cases h
      · rename_i ids s' hb
        split at h
        · cases h
        · rename_i r hr
          obtain ⟨-, rfl⟩ := Relation.eq_of_create hr
          obtain ⟨ho, hm⟩ := ih hn.2 h
          refine ⟨fun n hnn => ?_, fun n u hin => ?_⟩
          · rw [List.map_cons, List.mem_cons, not_or] at hnn
            rw [ho n hnn.2, NameMap.get?_insert, if_neg hnn.1]
          · rcases List.mem_cons.1 hin with hin | hin
            · obtain ⟨rfl, rfl⟩ : n = name ∧ u = sig := by simpa using hin
              refine ⟨ids, ?_, bound_bindColumns (congrArg Prod.fst hb)⟩
              rw [ho n hn.1, NameMap.get?_insert, if_pos rfl]
            · exact hm n u hin

/-! ## All outputs -/

/-- The outputs of a descriptor as they are when its step begins. -/
structure Prepared (d : Descriptor) (inputs : NameMap Artifact) (s : Store) (o : Outputs)
    (s' : Store) : Prop where
  domain : ∀ n t, ⟨n, .domain t⟩ ∈ d.produces → ∃ id, o.domains.get? n = some id ∧
    s.domains.length ≤ id.place ∧ id.place < s'.domains.length ∧
      (s'.get id).freeze = (AnyDomain.empty n t).freeze
  domain_only : ∀ n id, o.domains.get? n = some id → ∃ t, ⟨n, .domain t⟩ ∈ d.produces
  domain_empty : ∀ n t id, ⟨n, .domain t⟩ ∈ d.produces → o.domains.get? n = some id →
    (∀ m, inputs.get? m ≠ some (.domain id)) → s'.get id = .empty n t
  relation : ∀ n sig, ⟨n, .relation sig⟩ ∈ d.produces → ∃ ids,
    o.relations.get? n = some ⟨n, sig, ids, []⟩ ∧
      List.Forall₂ (fun c id => Bound o.domains inputs c.domain id) sig.columns ids

variable {d : Descriptor} {s : Store}

/-- Once the domains are made, preparation only reads. -/
theorem read_prepare (d : Descriptor) (inputs : NameMap Artifact) (s : Store) :
    Read inputs (makeDomains s d.produces).2 (prepare d inputs s).2 :=
  read_makeRelations _ _ _ _ _

/-- Preparation keeps the domains that there are, but for freezing consumed ones. -/
theorem freeze_get_prepare (hd : d.outputs.Nodup) {id : DomainId}
    (hid : id.place < s.domains.length) :
    ((prepare d inputs s).2.get id).freeze = (s.get id).freeze := by
  have hm := madeDomains s d.produces hd
  rw [(read_prepare d inputs s).freeze_eq, hm.old id hid]

theorem length_le_prepare (d : Descriptor) (inputs : NameMap Artifact) (s : Store) :
    s.domains.length ≤ (prepare d inputs s).2.domains.length := by
  rw [(read_prepare d inputs s).length_eq]
  exact (place_makeDomains s d.produces).1

theorem grows_prepare (inputs : NameMap Artifact) (s : Store) (hd : d.outputs.Nodup) :
    s.Grows (prepare d inputs s).2 :=
  ⟨length_le_prepare d inputs s,
    fun _ hid => congrArg (fun d => d.name) (freeze_get_prepare hd hid),
    fun _ hid => congrArg (fun d => d.factType) (freeze_get_prepare hd hid)⟩

theorem prepare_ok (hd : d.outputs.Nodup) {o : Outputs} {s' : Store}
    (h : prepare d inputs s = (.ok o, s')) : Prepared d inputs s o s' := by
  have hm := madeDomains s d.produces hd
  have hread := read_prepare d inputs s
  rw [h] at hread
  have hdom := domains_makeRelations (congrArg Prod.fst h)
  obtain ⟨-, hrel⟩ := madeRelations hd (congrArg Prod.fst h)
  refine ⟨fun n t ht => ?_, fun n id hid => ?_, fun n t id ht hid hnot => ?_, fun n sig hs => ?_⟩
  · obtain ⟨id, hid, hget⟩ := hm.made n t ht
    obtain ⟨hle, hlt⟩ := (place_makeDomains s d.produces).2 n id hid
    refine ⟨id, by rw [hdom]; exact hid, hle, hlt.trans_eq hread.length_eq.symm, ?_⟩
    exact (hread.freeze_eq id).trans (congrArg AnyDomain.freeze hget)
  · rw [hdom] at hid
    exact hm.only n id hid
  · obtain ⟨id', hid', hget⟩ := hm.made n t ht
    rw [hdom] at hid
    obtain rfl : id' = id := Option.some.inj (hid'.symm.trans hid)
    exact (hread.untouched id' hnot).trans hget
  · rw [hdom]
    exact hrel n sig hs

/-! ## Refusal -/

/-- The columns of the relations among some targets, in the order in which they are bound. -/
def columns (targets : List Target) : List Column :=
  (targets.filterMap Target.signature?).flatMap Signature.columns

theorem mem_columns {targets : List Target} {c : Column} :
    c ∈ columns targets ↔ ∃ n sig, ⟨n, .relation sig⟩ ∈ targets ∧ c ∈ sig.columns := by
  simp only [columns, List.mem_flatMap, List.mem_filterMap]
  constructor
  · rintro ⟨sig, ⟨⟨n, t | sig'⟩, ht, hsig⟩, hc⟩
    · cases hsig
    · obtain rfl := Option.some.inj hsig
      exact ⟨n, sig', ht, hc⟩
  · rintro ⟨n, sig, ht, hc⟩
    exact ⟨sig, ⟨_, ht, rfl⟩, hc⟩

/-- Why a column of the name cannot be bound : a consumed relation is called so, or nothing is. -/
inductive Unbound (descriptor : String) (inputs : NameMap Artifact) (own : NameMap DomainId)
    (n : String) : Error → Prop
  | relation {r : Relation} (hown : own.get? n = none)
      (hin : inputs.get? n = some (.relation r)) :
      Unbound descriptor inputs own n (.typeMismatch n .domain)
  | missing (hown : own.get? n = none) (hin : inputs.get? n = none) :
      Unbound descriptor inputs own n (.undeclaredDependency descriptor n .notDone)

/-- The error is that of the first column that cannot be bound. -/
def FirstUnbound (descriptor : String) (inputs : NameMap Artifact) (own : NameMap DomainId)
    (cs : List Column) (e : Error) : Prop :=
  ∃ before c after, cs = before ++ c :: after ∧
    (∀ b ∈ before, ∃ id, Bound own inputs b.domain id) ∧
    Unbound descriptor inputs own c.domain e

variable {e : Error}

theorem FirstUnbound.append_left {cs cs' : List Column}
    (h : FirstUnbound descriptor inputs own cs e)
    (hbound : ∀ b ∈ cs', ∃ id, Bound own inputs b.domain id) :
    FirstUnbound descriptor inputs own (cs' ++ cs) e := by
  obtain ⟨before, c, after, rfl, hb, hc⟩ := h
  refine ⟨cs' ++ before, c, after, (List.append_assoc _ _ _).symm, fun b hmem => ?_, hc⟩
  exact (List.mem_append.1 hmem).elim (hbound b) (hb b)

theorem FirstUnbound.append_right {cs : List Column} (h : FirstUnbound descriptor inputs own cs e)
    (cs' : List Column) : FirstUnbound descriptor inputs own (cs ++ cs') e := by
  obtain ⟨before, c, after, rfl, hb, hc⟩ := h
  exact ⟨before, c, after ++ cs', by simp, hb, hc⟩

theorem unbound_bindColumn {n : String}
    (h : (bindColumn descriptor inputs own s n).1 = .error e) :
    Unbound descriptor inputs own n e := by
  unfold bindColumn at h
  split at h
  · cases h
  · cases h
  · rename_i hown hin
    obtain rfl := Except.error.inj h
    exact .relation hown hin
  · rename_i hown hin
    obtain rfl := Except.error.inj h
    exact .missing hown hin

theorem firstUnbound_bindColumns {cs : List Column}
    (h : (bindColumns descriptor inputs own s cs).1 = .error e) :
    FirstUnbound descriptor inputs own cs e := by
  induction cs generalizing s with
  | nil => cases h
  | cons c cs ih =>
    unfold bindColumns at h
    split at h
    · rename_i e' s' hc
      obtain rfl := Except.error.inj h
      exact ⟨[], c, cs, rfl, by simp, unbound_bindColumn (congrArg Prod.fst hc)⟩
    · rename_i id s' hc
      split at h
      · rename_i e' s'' hcs
        obtain rfl := Except.error.inj h
        obtain ⟨before, c', after, rfl, hbefore, hc'⟩ := ih (congrArg Prod.fst hcs)
        have hbound := bound_bindColumn (congrArg Prod.fst hc)
        exact ⟨c :: before, c', after, rfl, List.forall_mem_cons.2 ⟨⟨id, hbound⟩, hbefore⟩, hc'⟩
      · cases h

/-- A relation is made over domains that are called as its columns say. -/
theorem create_ok {s : Store} {name : String} {sig : Signature} {ids : List DomainId}
    (h : List.Forall₂ (fun c id => (s.get id).name = c.domain) sig.columns ids) :
    Relation.create s name sig ids = .ok ⟨name, sig, ids, []⟩ := by
  have hnames : (sig.columns.zip ids).find? (fun p => p.1.domain ≠ (s.get p.2).name) = none := by
    refine List.find?_eq_none.2 fun p hp => ?_
    have := (List.forall₂_iff_zip.1 h).2 hp
    simp [this]
  have harity : ¬ids.length ≠ sig.arity := not_not.2 h.length_eq.symm
  rw [Relation.create, if_neg harity, hnames]

/-- If domains are called as what they are bound to, then only a column that cannot be bound is
refused, and no relation is refused for its domains. -/
theorem firstUnbound_makeRelations {o : Outputs} {targets : List Target}
    (hnames : ∀ n id, Bound o.domains inputs n id → (s.get id).name = n)
    (h : (makeRelations descriptor inputs o s targets).1 = .error e) :
    FirstUnbound descriptor inputs o.domains (columns targets) e := by
  induction targets generalizing o s with
  | nil => cases h
  | cons target targets ih =>
    obtain ⟨name, kind⟩ := target
    cases kind with
    | domain t => exact ih hnames h
    | relation sig =>
      simp only [makeRelations] at h
      rcases hb : bindColumns descriptor inputs o.domains s sig.columns with ⟨e' | ids, s'⟩
      · rw [hb] at h
        obtain rfl := Except.error.inj h
        exact (firstUnbound_bindColumns (congrArg Prod.fst hb)).append_right _
      · have hbound := bound_bindColumns (congrArg Prod.fst hb)
        have hread := read_bindColumns descriptor inputs o.domains s sig.columns
        rw [hb] at hread
        have hnames' : ∀ n id, Bound o.domains inputs n id → (s'.get id).name = n :=
          fun n id hid =>
            (congrArg (fun d => d.name) (hread.freeze_eq id)).trans (hnames n id hid)
        have hcreate : Relation.create s' name sig ids = .ok ⟨name, sig, ids, []⟩ :=
          create_ok (hbound.imp fun (c : Column) id => hnames' c.domain id)
        simp only [hb, hcreate] at h
        let o' : Outputs := { o with relations := o.relations.insert name ⟨name, sig, ids, []⟩ }
        have hrest := ih (o := o') hnames' h
        exact hrest.append_left fun c hc => exists_of_forall₂ hbound hc

theorem relations_only {o o' : Outputs} {targets : List Target}
    (h : (makeRelations descriptor inputs o s targets).1 = .ok o') {n : String} {r : Relation}
    (hr : o'.relations.get? n = some r) :
    o.relations.get? n = some r ∨ ∃ sig, ⟨n, .relation sig⟩ ∈ targets := by
  induction targets generalizing o s with
  | nil =>
    obtain rfl := Except.ok.inj h
    exact Or.inl hr
  | cons target targets ih =>
    obtain ⟨name, kind⟩ := target
    have hrest : ∀ {sig : Signature}, ⟨n, .relation sig⟩ ∈ targets →
        ∃ sig, ⟨n, .relation sig⟩ ∈ (⟨name, kind⟩ :: targets : List Target) :=
      fun h => ⟨_, List.mem_cons_of_mem _ h⟩
    cases kind with
    | domain t => exact (ih h).imp_right fun ⟨_, hs⟩ => hrest hs
    | relation sig =>
      simp only [makeRelations] at h
      split at h
      · cases h
      · split at h
        · cases h
        · rcases ih h with hget | ⟨_, hs⟩
          · rw [NameMap.get?_insert] at hget
            split at hget
            · rename_i hn
              exact Or.inr ⟨sig, by rw [hn]; exact List.mem_cons_self⟩
            · exact Or.inl hget
          · exact Or.inr (hrest hs)

/-- The consumed domains are in the store, each called as the name that it is consumed under. -/
def Named (inputs : NameMap Artifact) (s : Store) : Prop :=
  ∀ n id, inputs.get? n = some (.domain id) →
    id.place < s.domains.length ∧ (s.get id).name = n

/-- What a column is bound to is called as the column says. -/
theorem Named.name_of_bound (h : Named inputs s) (hd : d.outputs.Nodup) {n : String} {id : DomainId}
    (hb : Bound (makeDomains s d.produces).1 inputs n id) :
    ((makeDomains s d.produces).2.get id).name = n := by
  have hm := madeDomains s d.produces hd
  rcases hb with hown | ⟨-, hin⟩
  · obtain ⟨t, ht⟩ := hm.only n id hown
    obtain ⟨id', hid', hget⟩ := hm.made n t ht
    obtain rfl : id' = id := Option.some.inj (hid'.symm.trans hown)
    rw [hget]
    rfl
  · obtain ⟨hlt, hname⟩ := h n id hin
    rw [hm.old id hlt, hname]

/-- If preparation is refused, then for a column. -/
theorem firstUnbound_prepare (h : Named inputs s) (hd : d.outputs.Nodup) {s' : Store}
    (hp : prepare d inputs s = (.error e, s')) :
    FirstUnbound d.name inputs (makeDomains s d.produces).1 (columns d.produces) e :=
  firstUnbound_makeRelations (fun _ _ hb => h.name_of_bound hd hb) (congrArg Prod.fst hp)

theorem domains_of_prepare {o : Outputs} {s' : Store}
    (h : prepare d inputs s = (.ok o, s')) : o.domains = (makeDomains s d.produces).1 :=
  domains_makeRelations (congrArg Prod.fst h)

/-- Output domains are at new places. -/
theorem place_of_prepare {o : Outputs} {s' : Store} (h : prepare d inputs s = (.ok o, s'))
    {n : String} {id : DomainId} (hn : o.domains.get? n = some id) :
    s.domains.length ≤ id.place ∧ id.place < s'.domains.length := by
  have hread := read_prepare d inputs s
  rw [h] at hread
  rw [domains_of_prepare h] at hn
  exact ((place_makeDomains s d.produces).2 n id hn).imp_right
    fun hlt => hlt.trans_eq hread.length_eq.symm

/-- Domains that columns are bound to fit the relation. -/
theorem Named.create_of_bound (h : Named inputs s) (hd : d.outputs.Nodup) {o : Outputs}
    {s' : Store} (hp : prepare d inputs s = (.ok o, s')) {n : String} {sig : Signature}
    {ids : List DomainId}
    (hb : List.Forall₂ (fun c id => Bound o.domains inputs c.domain id) sig.columns ids) :
    Relation.create s' n sig ids = .ok ⟨n, sig, ids, []⟩ := by
  have hdomains := domains_of_prepare hp
  have hread := read_prepare d inputs s
  rw [hp] at hread
  refine create_ok (hb.imp fun (c : Column) id hid => ?_)
  rw [hdomains] at hid
  exact (congrArg (fun d => d.name) (hread.freeze_eq id)).trans (h.name_of_bound hd hid)

/-- There are no other output relations than the declared ones. -/
theorem relation_only_of_prepare {o : Outputs} {s' : Store}
    (h : prepare d inputs s = (.ok o, s')) {n : String} {r : Relation}
    (hr : o.relations.get? n = some r) : ∃ sig, ⟨n, .relation sig⟩ ∈ d.produces := by
  refine (relations_only (congrArg Prod.fst h) hr).resolve_left fun hempty => ?_
  cases hempty

end Outputs

end FactEngine
