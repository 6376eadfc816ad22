/-!
# Maps from names

What a run knows about a target is kept under the target's name. A `NameMap` is a list of
names with values, each name once. It is used through `get?`, which `get?_insert` and
`get?_erase` say how the operations change.
-/

namespace FactEngine

/-- Values under names. -/
structure NameMap (α : Type) where
  entries : List (String × α)
  deriving DecidableEq

namespace NameMap

variable {α : Type}

/-- No values. -/
def empty : NameMap α :=
  ⟨[]⟩

/-- The value under a name. -/
def get? (m : NameMap α) (name : String) : Option α :=
  m.entries.lookup name

/-- Remove the value under a name. -/
def erase (m : NameMap α) (name : String) : NameMap α :=
  ⟨m.entries.filter (·.1 ≠ name)⟩

/-- Put a value under a name. -/
def insert (m : NameMap α) (name : String) (a : α) : NameMap α :=
  ⟨(name, a) :: (m.erase name).entries⟩

@[simp] theorem get?_empty (name : String) : (empty : NameMap α).get? name = none :=
  rfl

theorem lookup_filter_ne (l : List (String × α)) (n k : String) :
    (l.filter (·.1 ≠ k)).lookup n = if n = k then none else l.lookup n := by
  induction l with
  | nil => simp
  | cons e l ih =>
    obtain ⟨m, a⟩ := e
    by_cases hm : m = k
    · subst hm
      rw [List.filter_cons_of_neg (by simp), ih]
      split
      · rfl
      · rename_i hn
        simp [List.lookup_cons, beq_eq_false_iff_ne.2 hn]
    · rw [List.filter_cons_of_pos (by simpa using hm), List.lookup_cons, List.lookup_cons]
      by_cases hn : n = m
      · simp [hn, hm]
      · simpa [beq_eq_false_iff_ne.2 hn] using ih

@[simp] theorem get?_erase (m : NameMap α) (n k : String) :
    (m.erase k).get? n = if n = k then none else m.get? n :=
  lookup_filter_ne m.entries n k

@[simp] theorem get?_insert (m : NameMap α) (n k : String) (a : α) :
    (m.insert k a).get? n = if n = k then some a else m.get? n := by
  have h := m.get?_erase n k
  simp only [get?, insert, List.lookup_cons] at h ⊢
  by_cases hn : n = k
  · simp [hn]
  · have : (n == k) = false := by simpa using hn
    simp only [this, hn, if_false] at h ⊢
    exact h

@[simp] theorem get?_foldl_erase (m : NameMap α) (names : List String) (n : String) :
    (names.foldl .erase m).get? n = if n ∈ names then none else m.get? n := by
  induction names generalizing m with
  | nil => simp
  | cons k names ih =>
    rw [List.foldl_cons, ih, get?_erase]
    by_cases h : n ∈ names <;> by_cases hk : n = k <;> simp [h, hk]

@[simp] theorem get?_foldl_insert_const (m : NameMap α) (names : List String) (a : α)
    (n : String) :
    (names.foldl (fun m k => m.insert k a) m).get? n =
      if n ∈ names then some a else m.get? n := by
  induction names generalizing m with
  | nil => simp
  | cons k names ih =>
    rw [List.foldl_cons, ih, get?_insert]
    by_cases h : n ∈ names <;> by_cases hk : n = k <;> simp [h, hk]

theorem get?_foldl_insert_of_not_mem (m : NameMap α) (l : List (String × α)) {n : String}
    (h : n ∉ l.map Prod.fst) : (l.foldl (fun m e => m.insert e.1 e.2) m).get? n = m.get? n := by
  induction l generalizing m with
  | nil => rfl
  | cons e l ih =>
    rw [List.map_cons, List.mem_cons, not_or] at h
    rw [List.foldl_cons, ih _ h.2, get?_insert, if_neg h.1]

theorem get?_foldl_insert_of_mem (m : NameMap α) {l : List (String × α)}
    (hl : (l.map Prod.fst).Nodup) {n : String} {a : α} (h : (n, a) ∈ l) :
    (l.foldl (fun m e => m.insert e.1 e.2) m).get? n = some a := by
  induction l generalizing m with
  | nil => simp at h
  | cons e l ih =>
    rw [List.map_cons, List.nodup_cons] at hl
    rw [List.foldl_cons]
    rcases List.mem_cons.1 h with rfl | h
    · rw [get?_foldl_insert_of_not_mem _ _ hl.1, get?_insert, if_pos rfl]
    · exact ih _ hl.2 h

theorem mem_or_get?_of_get?_foldl_insert (m : NameMap α) {l : List (String × α)} {n : String}
    {a : α} (h : (l.foldl (fun m e => m.insert e.1 e.2) m).get? n = some a) :
    (n, a) ∈ l ∨ m.get? n = some a := by
  induction l generalizing m with
  | nil => exact Or.inr h
  | cons e l ih =>
    rcases ih _ h with hl | hn
    · exact Or.inl (List.mem_cons_of_mem _ hl)
    · rw [get?_insert] at hn
      split at hn
      · rename_i hname
        rw [hname, ← Option.some.inj hn]
        exact Or.inl List.mem_cons_self
      · exact Or.inr hn

end NameMap

end FactEngine
