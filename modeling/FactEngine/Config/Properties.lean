/-!
# Properties

Analyses read their settings from properties, texts under textual keys. `Properties` keeps
them in ascending order of their keys, each key once, so two collections that answer alike
are equal (`Properties.sorted`).
-/

namespace FactEngine

/-- Set the value of a key in a list ordered by keys. -/
def insertEntry (key value : String) : List (String × String) → List (String × String)
  | [] => [(key, value)]
  | e :: l =>
    if key < e.1 then (key, value) :: e :: l
    else if key = e.1 then (key, value) :: l
    else e :: insertEntry key value l

theorem fst_of_mem_insertEntry {key value : String} {l : List (String × String)}
    {e : String × String} (h : e ∈ insertEntry key value l) : e.1 = key ∨ e ∈ l := by
  induction l with
  | nil => simp_all [insertEntry]
  | cons a l ih =>
    unfold insertEntry at h
    split at h
    · rcases List.mem_cons.1 h with rfl | h
      · exact Or.inl rfl
      · exact Or.inr h
    · split at h
      · rcases List.mem_cons.1 h with rfl | h
        · exact Or.inl rfl
        · exact Or.inr (List.mem_cons_of_mem a h)
      · rcases List.mem_cons.1 h with rfl | h
        · exact Or.inr List.mem_cons_self
        · exact (ih h).imp id (List.mem_cons_of_mem a)

theorem pairwise_insertEntry (key value : String) {l : List (String × String)}
    (h : l.Pairwise (·.1 < ·.1)) : (insertEntry key value l).Pairwise (·.1 < ·.1) := by
  induction l with
  | nil => simp [insertEntry]
  | cons a l ih =>
    obtain ⟨ha, hl⟩ := List.pairwise_cons.1 h
    unfold insertEntry
    split
    · rename_i hlt
      refine List.pairwise_cons.2 ⟨fun e he => ?_, h⟩
      rcases List.mem_cons.1 he with rfl | he
      · exact hlt
      · exact String.lt_trans hlt (ha e he)
    · rename_i hlt
      split
      · rename_i heq
        exact List.pairwise_cons.2 ⟨fun e he => heq ▸ ha e he, hl⟩
      · rename_i hne
        refine List.pairwise_cons.2 ⟨fun e he => ?_, ih hl⟩
        rcases fst_of_mem_insertEntry he with heq | he
        · rw [heq]
          exact Std.lt_of_le_of_ne (String.not_lt.1 hlt) (Ne.symm hne)
        · exact ha e he

theorem lookup_insertEntry (key value k : String) (l : List (String × String)) :
    (insertEntry key value l).lookup k = if k = key then some value else l.lookup k := by
  have hcons : ∀ (a b : String) (l : List (String × String)),
      ((a, b) :: l).lookup k = if k = a then some b else l.lookup k := by
    intro a b l
    by_cases hk : k = a
    · simp [hk]
    · simp [List.lookup_cons, beq_eq_false_iff_ne.2 hk, hk]
  induction l with
  | nil => exact hcons key value []
  | cons e l ih =>
    obtain ⟨a, b⟩ := e
    unfold insertEntry
    split
    · rw [hcons]
    · split
      · rename_i heq
        obtain rfl : key = a := heq
        rw [hcons, hcons]
        split <;> rfl
      · rename_i hne
        rw [hcons, hcons, ih]
        by_cases hk : k = a
        · have hkey : k ≠ key := fun h => hne (h.symm.trans hk)
          rw [if_pos hk, if_neg hkey, if_pos hk]
        · rw [if_neg hk, if_neg hk]

/-- Texts under textual keys. -/
structure Properties where
  entries : List (String × String)
  sorted : entries.Pairwise (·.1 < ·.1)
  deriving DecidableEq

namespace Properties

/-- No properties. -/
def empty : Properties :=
  ⟨[], .nil⟩

/-- The value of a key. -/
def get? (p : Properties) (key : String) : Option String :=
  p.entries.lookup key

/-- Set the value of a key. -/
def set (p : Properties) (key value : String) : Properties :=
  ⟨insertEntry key value p.entries, pairwise_insertEntry key value p.sorted⟩

@[simp] theorem get?_set (p : Properties) (key value k : String) :
    (p.set key value).get? k = if k = key then some value else p.get? k :=
  lookup_insertEntry key value k p.entries

/-- The properties set from left to right. -/
def ofList (l : List (String × String)) : Properties :=
  l.foldl (fun p e => p.set e.1 e.2) empty

end Properties

end FactEngine
