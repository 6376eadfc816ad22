import Mathlib.Data.List.Forall2

/-!
# Lists

Facts about lists of any elements : lists related element by element, functions that can fail and
such that are applied to all elements, lists joined by a separator or split at one, lists cut
where a test fails first, and lists with an element more at the end.
-/

namespace FactEngine

theorem exists_of_forall₂ {α β : Type} {R : α → β → Prop} {l : List α} {l' : List β}
    (h : List.Forall₂ R l l') {a : α} (ha : a ∈ l) : ∃ b, R a b := by
  induction h with
  | nil => cases ha
  | cons hab _ ih =>
    rcases List.mem_cons.1 ha with rfl | ha
    · exact ⟨_, hab⟩
    · exact ih ha

theorem exists_forall₂_of_forall {α β : Type} {R : α → β → Prop} {l : List α}
    (h : ∀ a ∈ l, ∃ b, R a b) : ∃ l', List.Forall₂ R l l' := by
  induction l with
  | nil => exact ⟨[], .nil⟩
  | cons a l ih =>
    obtain ⟨⟨b, hb⟩, hl⟩ := List.forall_mem_cons.1 h
    obtain ⟨l', hl'⟩ := ih hl
    exact ⟨b :: l', .cons hb hl'⟩

theorem exists_ok_of_isOk {ε α : Type} {r : Except ε α} (h : r.isOk = true) : ∃ a, r = .ok a := by
  cases r with
  | error e => cases h
  | ok a => exact ⟨a, rfl⟩

theorem mapM_eq_ok_iff {ε α β : Type} {f : α → Except ε β} {l : List α} {bs : List β} :
    l.mapM f = .ok bs ↔ List.Forall₂ (fun a b => f a = .ok b) l bs := by
  induction l generalizing bs with
  | nil => simp [pure, Except.pure, eq_comm]
  | cons a l ih =>
    rw [List.mapM_cons, List.forall₂_cons_left_iff]
    cases hf : f a with
    | error e => simp [bind, Except.bind]
    | ok b =>
      cases hl : l.mapM f with
      | error e =>
        simp only [hl] at ih
        simp [bind, Except.bind, ← ih]
      | ok bs' =>
        simp only [hl] at ih
        simp [bind, Except.bind, pure, Except.pure, ← ih, eq_comm]

theorem mem_intercalate_singleton {α : Type} {a x : α} {l : List (List α)}
    (h : a ∈ [x].intercalate l) : a = x ∨ ∃ l' ∈ l, a ∈ l' := by
  induction l with
  | nil => simp at h
  | cons b l ih =>
    cases l with
    | nil => exact Or.inr ⟨b, List.mem_cons_self, by simpa using h⟩
    | cons d l =>
      rw [List.intercalate_cons_cons, List.append_assoc, List.mem_append, List.mem_append,
        List.mem_singleton] at h
      rcases h with h | h | h
      · exact Or.inr ⟨b, List.mem_cons_self, h⟩
      · exact Or.inl h
      · exact (ih h).imp id fun ⟨l', hl', ha⟩ => ⟨l', List.mem_cons_of_mem _ hl', ha⟩

/-- The pieces of a list have elements of the list, without the one at which it is split. -/
theorem mem_of_mem_splitOn {α : Type} [DecidableEq α] {a b : α} {l piece : List α}
    (hp : piece ∈ l.splitOn a) (hb : b ∈ piece) : b ∈ l ∧ b ≠ a := by
  induction l generalizing piece with
  | nil =>
    rw [List.splitOn_nil, List.mem_singleton] at hp
    simp [hp] at hb
  | cons x l ih =>
    rw [List.splitOn_cons_eq_if_modifyHead] at hp
    split at hp
    · rcases List.mem_cons.1 hp with rfl | hp
      · cases hb
      · exact (ih hp hb).imp_left (List.mem_cons_of_mem x)
    · rename_i hx
      cases hs : l.splitOn a with
      | nil => exact (List.splitOn_ne_nil a l hs).elim
      | cons q qs =>
        rw [hs] at ih hp
        rcases List.mem_cons.1 hp with rfl | hp
        · rcases List.mem_cons.1 hb with rfl | hb
          · exact ⟨List.mem_cons_self, by simpa using hx⟩
          · exact (ih List.mem_cons_self hb).imp_left (List.mem_cons_of_mem x)
        · exact (ih (List.mem_cons_of_mem q hp) hb).imp_left (List.mem_cons_of_mem x)

section

variable {α : Type} {p : α → Bool} {l r : List α}

theorem takeWhile_append_of_stop (hl : ∀ a ∈ l, p a = true) (hr : ∀ a ∈ r.head?, p a = false) :
    (l ++ r).takeWhile p = l := by
  rw [List.takeWhile_append_of_pos hl]
  cases r with
  | nil => simp
  | cons a r => simp [hr a rfl]

theorem dropWhile_append_of_stop (hl : ∀ a ∈ l, p a = true) (hr : ∀ a ∈ r.head?, p a = false) :
    (l ++ r).dropWhile p = r := by
  rw [List.dropWhile_append_of_pos hl]
  cases r with
  | nil => rfl
  | cons a r => simp [hr a rfl]

end

/-- An element of an extended list is the new one, or it is followed by the new one. -/
theorem concat_eq_append_cons_iff {α : Type} {l before after : List α} {a b : α} :
    l ++ [a] = before ++ b :: after ↔ l = before ∧ a = b ∧ after = [] ∨
      ∃ after', l = before ++ b :: after' ∧ after = after' ++ [a] := by
  rcases List.eq_nil_or_concat' after with rfl | ⟨front, c, rfl⟩
  · simp
  · have hsplit : before ++ b :: (front ++ [c]) = (before ++ b :: front) ++ [c] := by simp
    rw [hsplit, List.append_singleton_inj]
    constructor
    · rintro ⟨hl, rfl⟩
      exact Or.inr ⟨front, hl, rfl⟩
    · rintro (⟨-, -, hnil⟩ | ⟨after', hl, hafter⟩)
      · simp at hnil
      · obtain ⟨rfl, rfl⟩ := List.append_singleton_inj.1 hafter
        exact ⟨hl, rfl⟩

end FactEngine
