/-!
# Lists without repetition

Facts, tuples, consumed names and graph nodes are all numbered or listed by first mention.
`appendNew` adds an element at the end unless it is there, and `distinct` keeps the first
occurrence of every element : the elements stand in the order in which they first occur
(`FirstOccurrences`).
-/

namespace FactEngine

variable {α : Type} [DecidableEq α]

/-- The list with `a` at its end, or the list itself if `a` is in it. -/
def appendNew (l : List α) (a : α) : List α :=
  if a ∈ l then l else l ++ [a]

/-- The elements of a list, each once, by first occurrence. -/
def distinct (l : List α) : List α :=
  l.foldl appendNew []

theorem mem_appendNew {l : List α} {a b : α} : b ∈ appendNew l a ↔ b ∈ l ∨ b = a := by
  unfold appendNew
  split
  · rename_i h
    exact ⟨Or.inl, fun hb => hb.elim id fun e => e ▸ h⟩
  · simp

theorem nodup_appendNew {l : List α} (h : l.Nodup) (a : α) : (appendNew l a).Nodup := by
  unfold appendNew
  split
  · exact h
  · rename_i ha
    refine List.nodup_append.2 ⟨h, by simp, ?_⟩
    intro x hx y hy
    obtain rfl := List.mem_singleton.1 hy
    exact fun e => ha (e ▸ hx)

theorem prefix_appendNew (l : List α) (a : α) : l <+: appendNew l a := by
  unfold appendNew
  split
  · exact List.prefix_refl l
  · exact List.prefix_append l [a]

theorem mem_foldl_appendNew {l acc : List α} {a : α} :
    a ∈ l.foldl appendNew acc ↔ a ∈ acc ∨ a ∈ l := by
  induction l generalizing acc with
  | nil => simp
  | cons b l ih => rw [List.foldl_cons, ih, mem_appendNew, List.mem_cons, or_assoc]

theorem nodup_foldl_appendNew (l : List α) {acc : List α} (h : acc.Nodup) :
    (l.foldl appendNew acc).Nodup := by
  induction l generalizing acc with
  | nil => exact h
  | cons a l ih => exact ih (nodup_appendNew h a)

theorem prefix_foldl_appendNew (l acc : List α) : acc <+: l.foldl appendNew acc := by
  induction l generalizing acc with
  | nil => exact List.prefix_refl acc
  | cons a l ih => exact (prefix_appendNew acc a).trans (ih _)

/-- What is in the first of two lists is not added, and the rest goes to the second. -/
theorem foldl_appendNew_append (l pre acc : List α) :
    l.foldl appendNew (pre ++ acc) = pre ++ (l.filter (· ∉ pre)).foldl appendNew acc := by
  induction l generalizing acc with
  | nil => rfl
  | cons a l ih =>
    by_cases ha : a ∈ pre
    · have hold : appendNew (pre ++ acc) a = pre ++ acc := if_pos (List.mem_append_left acc ha)
      rw [List.foldl_cons, hold, ih, List.filter_cons_of_neg (by simpa using ha)]
    · have hnew : appendNew (pre ++ acc) a = pre ++ appendNew acc a := by
        by_cases hacc : a ∈ acc <;> simp [appendNew, ha, hacc]
      rw [List.foldl_cons, hnew, ih, List.filter_cons_of_pos (by simpa using ha), List.foldl_cons]

/-- The new elements come behind the old ones, each once, by first occurrence. -/
theorem foldl_appendNew_eq (l acc : List α) :
    l.foldl appendNew acc = acc ++ distinct (l.filter (· ∉ acc)) := by
  have h := foldl_appendNew_append l acc []
  rwa [List.append_nil] at h

/-- Nothing is added where everything is there. -/
theorem foldl_appendNew_of_subset {l acc : List α} (h : l ⊆ acc) :
    l.foldl appendNew acc = acc := by
  have hnil : l.filter (· ∉ acc) = [] :=
    List.filter_eq_nil_iff.2 fun a ha => by simpa using h ha
  rw [foldl_appendNew_eq, hnil]
  exact List.append_nil acc

@[simp] theorem mem_distinct {l : List α} {a : α} : a ∈ distinct l ↔ a ∈ l := by
  simp [distinct, mem_foldl_appendNew]

theorem nodup_distinct (l : List α) : (distinct l).Nodup :=
  nodup_foldl_appendNew l List.nodup_nil

/-- More elements leave those that are there in front. -/
theorem prefix_distinct_append (l more : List α) : distinct l <+: distinct (l ++ more) := by
  rw [distinct, distinct, List.foldl_append]
  exact prefix_foldl_appendNew more _

theorem map_appendNew {β : Type} [DecidableEq β] {f : α → β} (hf : ∀ a b, f a = f b → a = b)
    (l : List α) (a : α) : (appendNew l a).map f = appendNew (l.map f) (f a) := by
  have hmem : f a ∈ l.map f ↔ a ∈ l := by
    refine ⟨fun h => ?_, List.mem_map_of_mem⟩
    obtain ⟨b, hb, he⟩ := List.mem_map.1 h
    exact hf b a he ▸ hb
  unfold appendNew
  by_cases ha : a ∈ l <;> simp [ha, hmem]

/-- Elements may be replaced one for one before or after repetitions are dropped. -/
theorem map_distinct {β : Type} [DecidableEq β] {f : α → β} (hf : ∀ a b, f a = f b → a = b)
    (l : List α) : (distinct l).map f = distinct (l.map f) := by
  have hfoldl : ∀ acc : List α,
      (l.foldl appendNew acc).map f = (l.map f).foldl appendNew (acc.map f) := by
    induction l with
    | nil => exact fun _ => rfl
    | cons a l ih =>
      intro acc
      rw [List.foldl_cons, ih, List.map_cons, List.foldl_cons, map_appendNew hf]
  exact hfoldl []

/-- Where nothing occurs twice, the index of an element is where it stands. -/
theorem idxOf?_eq_some_iff_of_nodup {l : List α} (h : l.Nodup) {a : α} {i : Nat} :
    l.idxOf? a = some i ↔ l[i]? = some a := by
  rw [List.idxOf?_eq_some_iff, List.getElem?_eq_some_iff]
  constructor
  · rintro ⟨hi, ha, -⟩
    exact ⟨hi, ha⟩
  · rintro ⟨hi, ha⟩
    refine ⟨hi, ha, fun j hj he => ?_⟩
    have := (List.getElem_inj h).1 (he.trans ha.symm)
    omega

/-! ## First occurrences -/

/-- The elements of a list, each once, in the order in which they first occur in it. -/
structure FirstOccurrences (l firsts : List α) : Prop where
  mem_iff : ∀ a, a ∈ firsts ↔ a ∈ l
  increasing : firsts.Pairwise fun a b => l.idxOf a < l.idxOf b

namespace FirstOccurrences

variable {l firsts : List α}

theorem nil : FirstOccurrences ([] : List α) [] :=
  ⟨fun _ => .rfl, .nil⟩

/-- What has occurred keeps its first position while the list is extended. -/
theorem concat (h : FirstOccurrences l firsts) (a : α) :
    FirstOccurrences (l ++ [a]) (appendNew firsts a) := by
  have hidx : ∀ b ∈ firsts, (l ++ [a]).idxOf b = l.idxOf b := fun b hb => by
    rw [List.idxOf_append, if_pos ((h.mem_iff b).1 hb)]
  have hold : firsts.Pairwise fun b c => (l ++ [a]).idxOf b < (l ++ [a]).idxOf c :=
    h.increasing.imp_of_mem fun hb hc hlt => by rwa [hidx _ hb, hidx _ hc]
  refine ⟨fun b => ?_, ?_⟩
  · rw [mem_appendNew, h.mem_iff, List.mem_append, List.mem_singleton]
  · unfold appendNew
    split
    · exact hold
    · rename_i ha
      refine List.pairwise_append.2 ⟨hold, List.pairwise_singleton _ _, fun b hb c hc => ?_⟩
      obtain rfl := List.mem_singleton.1 hc
      rw [hidx b hb, List.idxOf_append, if_neg (mt (h.mem_iff c).2 ha)]
      exact Nat.lt_add_left _ (List.idxOf_lt_length_of_mem ((h.mem_iff b).1 hb))

theorem foldl_appendNew (h : FirstOccurrences l firsts) (more : List α) :
    FirstOccurrences (l ++ more) (more.foldl appendNew firsts) := by
  induction more generalizing l firsts with
  | nil => rwa [List.append_nil]
  | cons a more ih =>
    rw [List.append_cons]
    exact ih (h.concat a)

end FirstOccurrences

theorem firstOccurrences_distinct (l : List α) : FirstOccurrences l (distinct l) :=
  FirstOccurrences.nil.foldl_appendNew l

end FactEngine
