import FactEngine.Artifact
import Mathlib.Order.Nat

/-!
# How the store changes

Two ways in which a store can change matter to whoever holds an identifier. A store `Grows`
if the domains it has keep their names and fact types. It is `Thawed` to another if the two
differ in nothing but which domains are frozen. Adding, freezing and interning all let a store
grow, and freezing changes nothing else.
-/

namespace FactEngine

/-! ## One domain -/

namespace Domain

variable {F : Type} [DecidableEq F] [Labelled F]

theorem name_intern (d : Domain F) (f : F) : (d.intern f).2.name = d.name := by
  unfold intern
  split
  · rfl
  · split <;> rfl

theorem name_extend (d : Domain F) (fs : List F) : (d.extend fs).2.name = d.name := by
  induction fs generalizing d with
  | nil => rfl
  | cons f fs ih =>
    have hi := d.name_intern f
    unfold extend
    split
    · rename_i h
      rwa [h] at hi
    · rename_i i d' h
      rw [h] at hi
      have hx := ih d'
      split <;> rename_i h' <;> rw [h'] at hx <;> exact hx.trans hi

end Domain

namespace AnyDomain

theorem freeze_eq_of_frozen {d : AnyDomain} (h : d.frozen = true) : d.freeze = d := by
  obtain ⟨t, ⟨name, facts, frozen⟩⟩ := d
  obtain rfl : frozen = true := h
  rfl

@[simp] theorem freeze_freeze (d : AnyDomain) : d.freeze.freeze = d.freeze :=
  rfl

@[simp] theorem downcast_self {t : FactType} (d : Domain t.Carrier) :
    (⟨t, d⟩ : AnyDomain).downcast t = .ok d :=
  dif_pos rfl

/-- A domain that is given its type again is the one it was. -/
theorem eq_of_downcast {d : AnyDomain} {t : FactType} {e : Domain t.Carrier}
    (h : d.downcast t = .ok e) : d = ⟨t, e⟩ := by
  obtain ⟨u, c⟩ := d
  unfold downcast at h
  split at h
  · rename_i hu
    obtain rfl : u = t := hu
    obtain rfl := Except.ok.inj h
    rfl
  · cases h

end AnyDomain

/-! ## Stores -/

namespace Store

theorem get_set (s : Store) (i j : DomainId) (d : AnyDomain) :
    (s.set i d).get j = if j = i ∧ i.place < s.domains.length then d else s.get j := by
  obtain ⟨i⟩ := i
  obtain ⟨j⟩ := j
  simp only [get, set, List.getD_eq_getElem?_getD, List.getElem?_set, DomainId.mk.injEq]
  by_cases h : i = j
  · subst h
    by_cases hl : i < s.domains.length
    · simp [hl]
    · simp [hl]
  · simp [h, Ne.symm h]

theorem length_set (s : Store) (i : DomainId) (d : AnyDomain) :
    (s.set i d).domains.length = s.domains.length :=
  List.length_set

theorem get_add_of_lt (s : Store) (d : AnyDomain) {id : DomainId}
    (h : id.place < s.domains.length) : (s.add d).2.get id = s.get id := by
  simp only [get, add, List.getD_eq_getElem?_getD, List.getElem?_append_left h]

theorem get_add_self (s : Store) (d : AnyDomain) : (s.add d).2.get (s.add d).1 = d := by
  simp [get, add]

/-- The domains of a store keep their names and fact types. -/
structure Grows (s t : Store) : Prop where
  length_le : s.domains.length ≤ t.domains.length
  name_eq : ∀ id, id.place < s.domains.length → (t.get id).name = (s.get id).name
  factType_eq : ∀ id, id.place < s.domains.length → (t.get id).factType = (s.get id).factType

theorem Grows.refl (s : Store) : s.Grows s :=
  ⟨le_refl _, fun _ _ => rfl, fun _ _ => rfl⟩

theorem Grows.trans {s t u : Store} (h : s.Grows t) (h' : t.Grows u) : s.Grows u :=
  ⟨h.length_le.trans h'.length_le,
    fun id hid => (h'.name_eq id (hid.trans_le h.length_le)).trans (h.name_eq id hid),
    fun id hid => (h'.factType_eq id (hid.trans_le h.length_le)).trans (h.factType_eq id hid)⟩

theorem grows_set (s : Store) (id : DomainId) {d : AnyDomain} (hn : d.name = (s.get id).name)
    (ht : d.factType = (s.get id).factType) : s.Grows (s.set id d) := by
  refine ⟨(s.length_set id d).ge, fun j _ => ?_, fun j _ => ?_⟩ <;> rw [get_set] <;> split
  · rename_i h
    rw [hn, h.1]
  · rfl
  · rename_i h
    rw [ht, h.1]
  · rfl

theorem grows_add (s : Store) (d : AnyDomain) : s.Grows (s.add d).2 := by
  refine ⟨by simp [add], fun id hid => ?_, fun id hid => ?_⟩ <;> rw [s.get_add_of_lt d hid]

/-- The second store differs from the first in nothing but which domains are frozen. -/
structure Thawed (s t : Store) : Prop where
  length_eq : t.domains.length = s.domains.length
  freeze_eq : ∀ id, (t.get id).freeze = (s.get id).freeze

theorem Thawed.refl (s : Store) : s.Thawed s :=
  ⟨rfl, fun _ => rfl⟩

theorem Thawed.trans {s t u : Store} (h : s.Thawed t) (h' : t.Thawed u) : s.Thawed u :=
  ⟨h'.length_eq.trans h.length_eq, fun id => (h'.freeze_eq id).trans (h.freeze_eq id)⟩

theorem Thawed.grows {s t : Store} (h : s.Thawed t) : s.Grows t :=
  ⟨h.length_eq.ge, fun id _ => congrArg (fun d => d.name) (h.freeze_eq id),
    fun id _ => congrArg (fun d => d.factType) (h.freeze_eq id)⟩

theorem get_freeze_of_ne (s : Store) {i j : DomainId} (h : j ≠ i) :
    (s.freeze i).get j = s.get j := by
  rw [freeze, get_set, if_neg fun hj => h hj.1]

theorem thawed_freeze (s : Store) (id : DomainId) : s.Thawed (s.freeze id) := by
  refine ⟨s.length_set id _, fun j => ?_⟩
  rw [freeze, get_set]
  split
  · rename_i h
    rw [h.1, AnyDomain.freeze_freeze]
  · rfl

theorem length_extend (s : Store) (id : DomainId) (t : FactType) (fs : List t.Carrier) :
    (s.extend id t fs).2.domains.length = s.domains.length := by
  unfold extend
  split
  · rfl
  · exact s.length_set id _

theorem grows_extend (s : Store) (id : DomainId) (t : FactType) (fs : List t.Carrier) :
    s.Grows (s.extend id t fs).2 := by
  unfold extend
  split
  · exact .refl s
  · rename_i d h
    have hd := AnyDomain.eq_of_downcast h
    refine s.grows_set id ?_ ?_
    · rw [hd]
      exact d.name_extend fs
    · rw [hd]

end Store

namespace Artifact

theorem grows_extend (s : Store) (a : Artifact) (t : FactType) (fs : List t.Carrier) :
    s.Grows (a.extend s t fs).2 := by
  cases a with
  | domain id => exact s.grows_extend id t fs
  | relation r => exact .refl s

end Artifact

end FactEngine
