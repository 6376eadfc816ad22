import FactEngine.Proofs.Preparation

/-!
# Relations that are replaced

A step can put a relation of its own in the place of an output relation, and this can carry any
name. What is published is found by the name of the target and filed under the name that it
carries, so a relation of another name is lost to its target.

Most of what the engine promises holds of steps that replace relations by such of the same name
only (`Fill.KeepsNames`). Along these, every output relation carries the name of its place
(`Fill.same_name_run`). Steps that replace no relation at all (`Fill.InPlace`) keep everything of
their output relations but the tuples (`Fill.same_emptied_run`). Both are conditions on all actions
that a step can come to take (`Fill.Always`), and what one action keeps, a whole step does.
-/

namespace FactEngine

/-! ## Steps that do not replace -/

namespace Action

/-- The action puts no other relation in the place of an output. -/
def InPlace : Action → Prop
  | replace .. => False
  | _ => True

/-- A relation that the action puts in the place of an output carries the name of the output. -/
def KeepsName : Action → Prop
  | replace name relation .. => relation = name
  | _ => True

theorem InPlace.keepsName {a : Action} (h : a.InPlace) : a.KeepsName := by
  cases a with
  | replace name relation sig cs => exact h.elim
  | _ => trivial

end Action

namespace Fill

variable {p q : Action → Prop}

/-- The property holds of every action that the step can take, whatever the replies. -/
def Always (p : Action → Prop) : Fill → Prop
  | finish => True
  | fail _ => True
  | step a next => p a ∧ ∀ reply, (next reply).Always p

/-- The step puts in the places of output relations only such as carry the same name. -/
def KeepsNames (fill : Fill) : Prop :=
  fill.Always Action.KeepsName

/-- The step writes its output relations without replacing them. -/
def InPlace (fill : Fill) : Prop :=
  fill.Always Action.InPlace

theorem Always.mono (hpq : ∀ a, p a → q a) {fill : Fill} (h : fill.Always p) : fill.Always q := by
  induction fill with
  | finish => trivial
  | fail f => trivial
  | step a next ih => exact ⟨hpq a h.1, fun reply => ih reply (h.2 reply)⟩

theorem InPlace.keepsNames {fill : Fill} (h : fill.InPlace) : fill.KeepsNames :=
  h.mono fun _ => Action.InPlace.keepsName

theorem always_orFail {α : Type} {next : α → Fill} (h : ∀ a, (next a).Always p)
    (reply : Except Error α) : (orFail next reply).Always p := by
  cases reply with
  | ok a => exact h a
  | error e => trivial

theorem Always.followedBy {a : Action} (ha : p a) {fill : Fill} (h : fill.Always p) :
    (fill.followedBy a).Always p := by
  induction fill with
  | finish => exact ⟨ha, fun _ => trivial⟩
  | fail f => trivial
  | step b next ih => exact ⟨h.1, fun reply => ih reply (h.2 reply)⟩

theorem Always.ofDomain {name : String} {t : FactType} (ha : p (.outputDomain name t))
    {fill : Fill} (h : fill.Always p) : (ofDomain name t fill).Always p :=
  ⟨ha, always_orFail fun _ => h⟩

theorem Always.ofRelation {name : String} (ha : p (.outputRelation name)) (hr : p (.restore name))
    {fill : Fill} (h : fill.Always p) : (ofRelation name fill).Always p :=
  ⟨ha, always_orFail fun _ => h.followedBy hr⟩

end Fill

/-! ## Outputs in their places -/

namespace Outputs

variable {α : Type} {f : Relation → α} {o o' o'' : Outputs}

/-- Every output relation carries the name of its place. -/
def OwnNames (o : Outputs) : Prop :=
  ∀ n r, o.relations.get? n = some r → r.name = n

/-- The output relations are in the same places, and do not differ in what `f` tells of them. -/
def Same (f : Relation → α) (o o' : Outputs) : Prop :=
  ∀ n, (o'.relations.get? n).map f = (o.relations.get? n).map f

theorem Same.refl (f : Relation → α) (o : Outputs) : o.Same f o :=
  fun _ => rfl

theorem Same.trans (h : o.Same f o') (h' : o'.Same f o'') : o.Same f o'' :=
  fun n => (h' n).trans (h n)

theorem Same.exists_eq (h : o.Same f o') {n : String} {r : Relation}
    (hr : o.relations.get? n = some r) : ∃ r', o'.relations.get? n = some r' ∧ f r' = f r := by
  have hn := h n
  rw [hr] at hn
  exact Option.map_eq_some_iff.1 hn

theorem Same.symm (h : o.Same f o') : o'.Same f o :=
  fun n => (h n).symm

/-- Relations that differ in their tuples only carry the same name. -/
theorem Same.name (h : o.Same Relation.emptied o') : o.Same Relation.name o' := by
  intro n
  have hn := congrArg (Option.map Relation.name) (h n)
  rwa [Option.map_map, Option.map_map] at hn

theorem Same.ownNames (h : o.Same Relation.name o') (ho : o.OwnNames) : o'.OwnNames := by
  intro n r hr
  obtain ⟨r', hr', hname⟩ := h.symm.exists_eq hr
  exact hname.symm.trans (ho n r' hr')

/-- A relation was put in the place of one that does not differ from it. -/
theorem same_insert {name : String} {r r' : Relation} (h : o.relations.get? name = some r)
    (he : f r' = f r) : o.Same f { o with relations := o.relations.insert name r' } := by
  intro n
  rw [NameMap.get?_insert]
  split
  · rename_i hn
    rw [hn, h, Option.map_some, Option.map_some, he]
  · rfl

theorem OwnNames.makeRelations {descriptor : String} {inputs : NameMap Artifact} {s s' : Store}
    (ho : o.OwnNames) {targets : List Target}
    (h : makeRelations descriptor inputs o s targets = (.ok o', s')) : o'.OwnNames := by
  induction targets generalizing o s with
  | nil =>
    cases h
    exact ho
  | cons target targets ih =>
    obtain ⟨name, kind⟩ := target
    cases kind with
    | domain t => exact ih ho h
    | relation sig =>
      simp only [Outputs.makeRelations] at h
      split at h
      · cases h
      · split at h
        · cases h
        · rename_i r hr
          obtain ⟨-, rfl⟩ := Relation.eq_of_create hr
          refine ih (fun n r hn => ?_) h
          rw [NameMap.get?_insert] at hn
          split at hn
          · rename_i hname
            rw [← Option.some.inj hn, hname]
          · exact ho n r hn

/-- When a step begins, every output relation carries the name of its place. -/
theorem ownNames_of_prepare {d : Descriptor} {inputs : NameMap Artifact} {s s' : Store}
    (h : prepare d inputs s = (.ok o, s')) : o.OwnNames :=
  OwnNames.makeRelations (fun n r hr => by simp at hr) h

end Outputs

/-! ## Actions and steps -/

namespace Session

variable {s s' : Session} {a : Action}

/-- A relation that carries the name of its place is put back where it was. -/
theorem same_restoreRelation (ho : s.outputs.OwnNames) (name : String) :
    s.outputs.Same Relation.emptied (s.restoreRelation name).outputs := by
  unfold restoreRelation
  cases h : s.outputs.relations.get? name with
  | none => exact .refl _ _
  | some r =>
    intro n
    simp only [ho name r h, NameMap.get?_insert, NameMap.get?_erase]
    split
    · rename_i hn
      rw [hn, h]
    · rfl

theorem Change.same_emptied (h : s.Change a s') (ho : s.outputs.OwnNames) (ha : a.InPlace) :
    s.outputs.Same Relation.emptied s'.outputs := by
  cases h with
  | written h he => exact Outputs.same_insert h he
  | replaced h ids => exact ha.elim
  | restored name => exact same_restoreRelation ho name
  | _ => exact .refl _ _

theorem Change.same_name (h : s.Change a s') (ho : s.outputs.OwnNames) (ha : a.KeepsName) :
    s.outputs.Same Relation.name s'.outputs := by
  cases h with
  | written h he => exact (Outputs.same_insert h he).name
  | @replaced name relation sig cs old h ids =>
    obtain rfl : relation = name := ha
    exact Outputs.same_insert h (ho _ _ h).symm
  | restored name => exact (same_restoreRelation ho name).name
  | _ => exact .refl _ _

/-- An action that replaces nothing changes nothing of output relations but the tuples. -/
theorem same_emptied_perform (ho : s.outputs.OwnNames) (ha : a.InPlace) :
    s.outputs.Same Relation.emptied (s.perform a).2.outputs :=
  (s.change_perform a).same_emptied ho ha

/-- An action that replaces relations by such of the same name leaves one of its name in every
place. -/
theorem same_name_perform (ho : s.outputs.OwnNames) (ha : a.KeepsName) :
    s.outputs.Same Relation.name (s.perform a).2.outputs :=
  (s.change_perform a).same_name ho ha

end Session

namespace Fill

/-- Through a whole step that keeps names, so does every output relation. -/
theorem same_name_run {fill : Fill} (h : fill.KeepsNames) {s : Session}
    (ho : s.outputs.OwnNames) : s.outputs.Same Relation.name (fill.run s).2.outputs := by
  induction fill generalizing s with
  | finish => exact .refl _ _
  | fail f => exact .refl _ _
  | step a next ih =>
    have hstep := Session.same_name_perform ho h.1
    exact hstep.trans (ih _ (h.2 _) (hstep.ownNames ho))

/-- The last action is taken in the session in which the step ended, unless it failed. -/
theorem run_followedBy (a : Action) (fill : Fill) (s : Session) :
    (fill.followedBy a).run s =
      match fill.run s with
      | (.ok (), s) => (.ok (), (s.perform a).2)
      | (.error f, s) => (.error f, s) := by
  induction fill generalizing s with
  | finish => rfl
  | fail f => rfl
  | step b next ih => exact ih _ _

/-- A whole step that replaces nothing keeps its output relations but for the tuples. -/
theorem same_emptied_run {fill : Fill} (h : fill.InPlace) {s : Session}
    (ho : s.outputs.OwnNames) : s.outputs.Same Relation.emptied (fill.run s).2.outputs := by
  induction fill generalizing s with
  | finish => exact .refl _ _
  | fail f => exact .refl _ _
  | step a next ih =>
    have hstep := Session.same_emptied_perform ho h.1
    exact hstep.trans (ih _ (h.2 _) (hstep.name.ownNames ho))

end Fill

/-! ### Letters and marks

A letter is interned, marks are made on letters, and an index over the letters consumes the
marks, which it does not read. The step that makes the marks is left open. -/

/-- The drafts of the three descriptors. -/
def lettersAndMarks (fill : Fill) : List Draft :=
  [⟨"letters", [⟨"letters", .domain .text⟩], [],
      .ofDomain "letters" .text (.step (.intern "letters" .text ["a"])
        (Fill.orFail fun _ => .finish))⟩,
    ⟨"marks", [⟨"marks", .relation (.unary "letters")⟩], [], fill⟩,
    ⟨"index", [⟨"index", .relation (.unary "letters")⟩], ["marks"], .finish⟩]

/-- The step marks the letter. -/
def markLetter : Fill :=
  .ofRelation "marks" (.step (.add "marks" [[0]]) (Fill.orFail fun _ => .finish))

/-- The step puts a relation of the given name in the place of the marks. -/
def relabelMarks (label : String) : Fill :=
  .step (.replace "marks" label (.unary "letters") [.ofOutput "marks" 0])
    (Fill.orFail fun _ => .finish)

/-- The same as the step of a registered relation, which puts the relation back under its name. -/
def renameMarks (label : String) : Fill :=
  .ofRelation "marks" (relabelMarks label)

theorem always_lettersAndMarks {p : Action → Prop} {fill : Fill}
    (houtput : p (.outputDomain "letters" .text)) (hintern : p (.intern "letters" .text ["a"]))
    (h : fill.Always p) : ∀ d ∈ lettersAndMarks fill, d.fill.Always p := by
  have hletter : (Fill.step (.intern "letters" .text ["a"])
      (Fill.orFail fun _ => .finish)).Always p :=
    ⟨hintern, Fill.always_orFail fun _ => trivial⟩
  simp only [lettersAndMarks, List.forall_mem_cons]
  exact ⟨hletter.ofDomain houtput, h, trivial, by simp⟩

theorem inPlace_markLetter : ∀ d ∈ lettersAndMarks markLetter, d.fill.InPlace :=
  always_lettersAndMarks trivial trivial
    (Fill.Always.ofRelation trivial trivial ⟨trivial, Fill.always_orFail fun _ => trivial⟩)

/-- Marks can be replaced by a relation that is called so as well. -/
theorem keepsNames_relabelMarks : (relabelMarks "marks").KeepsNames :=
  ⟨rfl, Fill.always_orFail fun _ => trivial⟩

theorem keepsNames_renameMarks :
    ∀ d ∈ lettersAndMarks (renameMarks "marks"), d.fill.KeepsNames :=
  always_lettersAndMarks trivial trivial
    (Fill.Always.ofRelation trivial trivial keepsNames_relabelMarks)

end FactEngine
