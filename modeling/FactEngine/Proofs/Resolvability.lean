import FactEngine.Proofs.Resolution

/-!
# Which targets have an order

What a target needs can be read off the declarations and the names that are done, without any
search : the producer of the target, unless all its outputs are done, and whatever it awaits,
directly or through others (`Registry.NeededFor`). A descriptor awaits one that is not done
and whose output it consumes.

A resolved order lists what the target needs and nothing else, each descriptor once and after
all that it awaits (`order_lists_needed`). There is no order exactly if the target is
unknown, or something that it needs consumes a name without a producer or awaits itself
(`Registry.Stuck`), and the error says which (`Registry.Explains`, `order_refused_iff`).
-/

namespace FactEngine

namespace Registry

variable {r : Registry} {isDone : String → Bool} {target : String}

/-! ## What a target needs -/

/-- Some output of the descriptor at `i` is not done. -/
def Pending (r : Registry) (isDone : String → Bool) (i : Nat) : Prop :=
  ∃ n ∈ (r.descriptor i).outputs, isDone n = false

/-- The descriptor at `i` consumes an output of the one at `j`, which is not done. -/
def Awaits (r : Registry) (isDone : String → Bool) (i j : Nat) : Prop :=
  r.ConsumesFrom i j ∧ r.Pending isDone j

/-- The descriptor at `k` is the producer of the target, which is not done, or is awaited by it,
directly or through others. -/
def NeededFor (r : Registry) (isDone : String → Bool) (target : String) (k : Nat) : Prop :=
  ∃ i, target ∈ (r.descriptor i).outputs ∧ r.Pending isDone i ∧
    Relation.ReflTransGen (r.Awaits isDone) i k

theorem pending_iff {i : Nat} : r.Pending isDone i ↔ r.outputsDone isDone i = false := by
  simp [Pending, outputsDone]

/-- To await is one step of the search. -/
theorem WellFormed.awaits_eq (hr : r.WellFormed) : r.Awaits isDone = r.Needs isDone := by
  funext i j
  rw [Awaits, Needs, hr.mem_dependencies_iff, pending_iff]

theorem WellFormed.neededFor_iff (hr : r.WellFormed) {k : Nat} :
    r.NeededFor isDone target k ↔ ∃ i, r.producerIndex? target = some i ∧
      r.outputsDone isDone i = false ∧ r.Reaches isDone i k := by
  simp only [NeededFor, pending_iff, hr.awaits_eq, hr.producerIndex?_eq_some_iff]

theorem NeededFor.pending {k : Nat} (h : r.NeededFor isDone target k) : r.Pending isDone k := by
  obtain ⟨i, -, hi, hreach⟩ := h
  rcases hreach.cases_tail with rfl | ⟨j, -, hj⟩
  · exact hi
  · exact hj.2

theorem NeededFor.lt_size {k : Nat} (h : r.NeededFor isDone target k) : k < r.size := by
  obtain ⟨n, hn, -⟩ := h.pending
  exact lt_size_of_mem_outputs hn

theorem WellFormed.barred_iff (hr : r.WellFormed) {k : Nat} :
    r.Barred isDone k ↔ (∃ n ∈ (r.descriptor k).consumes, ∀ j, n ∉ (r.descriptor j).outputs) ∨
      Relation.TransGen (r.Awaits isDone) k k := by
  simp only [Barred, hr.producerIndex?_eq_none_iff, hr.awaits_eq]

/-! ## Orders -/

section

variable {order : List Nat}

theorem WellFormed.mem_order_iff (hr : r.WellFormed)
    (h : r.orderFor target isDone = .ok order) {k : Nat} :
    k ∈ order ↔ r.NeededFor isDone target k :=
  (mem_orderFor_iff h).trans hr.neededFor_iff.symm

/-- A resolved order lists what the target needs, each descriptor once and after the producers
of what it consumes, as far as these are not done, and it ends with the producer of the target. -/
theorem order_lists_needed (ds : List Draft) (isDone : String → Bool) (target : String)
    (order : List Nat) (h : (ofDrafts ds).orderFor target isDone = .ok order) :
    let r := ofDrafts ds
    (order.map r.nameOf).Nodup ∧
    (∀ k, k ∈ order ↔ r.NeededFor isDone target k) ∧
    (∀ before k later, order = before ++ k :: later → ∀ n ∈ (r.descriptor k).consumes,
      ∃ j, n ∈ (r.descriptor j).outputs ∧ (¬r.Pending isDone j ∨ j ∈ before)) ∧
    (∀ k, order.getLast? = some k → target ∈ (r.descriptor k).outputs) := by
  intro r
  have hr : r.WellFormed := wellFormed_ofDrafts ds
  have hmem : ∀ k, k ∈ order ↔ r.NeededFor isDone target k := fun k => hr.mem_order_iff h
  obtain ⟨i, hi, hordered, hcase⟩ := orderFor_ok h
  refine ⟨hr.nodup_map_nameOf hordered.nodup fun k hk => ((hmem k).1 hk).lt_size, hmem,
    fun before k later hsplit n hn => ?_, fun k hk => ?_⟩
  · obtain ⟨j, hj⟩ := missing?_eq_none_iff.1 (hordered.complete k (by simp [hsplit])) n hn
    refine ⟨j, hr.producerIndex?_eq_some_iff.1 hj, ?_⟩
    rw [pending_iff, Bool.not_eq_false]
    exact hordered.earlier hsplit (hr.mem_dependencies.2 ⟨n, hn, hj⟩)
  · rcases hcase with ⟨-, rfl⟩ | ⟨-, -, hlast⟩
    · cases hk
    · obtain rfl : i = k := Option.some.inj (hlast.symm.trans hk)
      exact hr.producerIndex?_eq_some_iff.1 hi

end

/-- The parts of a book. Its index lists words of the pages, and needs both. -/
def bookIndex : List Draft :=
  [⟨"pages", [⟨"pages", .domain .text⟩], ["scans"], .finish⟩,
    ⟨"words", [⟨"words", .domain .text⟩, ⟨"stops", .domain .text⟩], ["pages"], .finish⟩,
    ⟨"index", [⟨"index", .domain .text⟩], ["words", "pages"], .finish⟩,
    ⟨"notes", [⟨"notes", .domain .text⟩], [], .finish⟩,
    ⟨"book", [⟨"book", .domain .text⟩], ["index", "stops"], .finish⟩]

/-- When the pages and the words are done but not the stops, the book needs all but the pages and
the notes. -/
theorem order_of_book :
    (ofDrafts bookIndex).orderFor "book" (· ∈ ["pages", "words"]) = .ok [1, 2, 4] ∧
      ∀ k, (ofDrafts bookIndex).NeededFor (· ∈ ["pages", "words"]) "book" k ↔ k ∈ [1, 2, 4] := by
  have horder : (ofDrafts bookIndex).orderFor "book" (· ∈ ["pages", "words"]) = .ok [1, 2, 4] := by
    decide +kernel
  exact ⟨horder, fun k => ((order_lists_needed bookIndex _ "book" _ horder).2.1 k).symm⟩

/-! ## Refusals -/

/-- The target has no producer, or something that it needs consumes a name without a producer or
awaits itself, directly or through others. -/
def Stuck (r : Registry) (isDone : String → Bool) (target : String) : Prop :=
  (∀ i, target ∉ (r.descriptor i).outputs) ∨
    ∃ k, r.NeededFor isDone target k ∧
      ((∃ n ∈ (r.descriptor k).consumes, ∀ j, n ∉ (r.descriptor j).outputs) ∨
        Relation.TransGen (r.Awaits isDone) k k)

/-- The error is true of the target and of what it needs. -/
inductive Explains (r : Registry) (isDone : String → Bool) (target : String) : Error → Prop
  /-- Nothing produces the target. -/
  | unknown (unproduced : ∀ i, target ∉ (r.descriptor i).outputs) :
      Explains r isDone target (.unknownTarget target none)
  /-- A descriptor that is needed consumes a name that nothing produces. -/
  | missing {k : Nat} {n : String} (needed : r.NeededFor isDone target k)
      (consumed : n ∈ (r.descriptor k).consumes)
      (unproduced : ∀ j, n ∉ (r.descriptor j).outputs) :
      Explains r isDone target (.unknownTarget n (some (r.nameOf k)))
  /-- Descriptors that are needed consume from one another in a circle. It is walked once, from
  its first descriptor round to the same one. -/
  | cyclic {cycle : List Nat} (needed : ∀ k ∈ cycle, r.NeededFor isDone target k)
      (chain : cycle.IsChain r.ConsumesFrom) (nontrivial : 2 ≤ cycle.length)
      (closed : cycle.head? = cycle.getLast?)
      (simple : (cycle.map r.nameOf).dropLast.Nodup) :
      Explains r isDone target (.cyclicDependency (cycle.map r.nameOf))

/-- A refusal of the search is explained. -/
theorem Refused.explains (hr : r.WellFormed) {i : Nat} {e : Error}
    (hi : r.producerIndex? target = some i) (hd : r.outputsDone isDone i = false)
    (h : r.Refused isDone i e) : r.Explains isDone target e := by
  have hneeded : ∀ {k}, r.Reaches isDone i k → r.NeededFor isDone target k :=
    fun hk => hr.neededFor_iff.2 ⟨i, hi, hd, hk⟩
  cases h with
  | missing reached consumed unknown =>
    exact .missing (hneeded reached) consumed (hr.producerIndex?_eq_none_iff.1 unknown)
  | @cyclic cycle walk reached =>
    have hbound : ∀ k ∈ cycle.dropLast, k < r.size :=
      fun k hk => (hneeded (reached k (List.dropLast_subset _ hk))).lt_size
    refine .cyclic (fun k hk => hneeded (reached k hk))
      (walk.chain.imp fun _ _ hstep => hr.mem_dependencies_iff.1 hstep.1) ?_ ?_ ?_
    · obtain ⟨j, l, rfl⟩ := walk.closed
      simp
    · obtain ⟨j, l, rfl⟩ := walk.closed
      rw [List.getLast?_append, List.cons_append, List.head?_cons]
      rfl
    · rw [List.map_dropLast.symm]
      exact hr.nodup_map_nameOf walk.simple hbound

/-- A target with an order is not stuck. -/
theorem WellFormed.not_stuck (hr : r.WellFormed) {order : List Nat}
    (h : r.orderFor target isDone = .ok order) : ¬r.Stuck isDone target := by
  obtain ⟨i, hi, hordered, -⟩ := orderFor_ok h
  rintro (hnone | ⟨k, hk, hbarred⟩)
  · exact hnone i (hr.producerIndex?_eq_some_iff.1 hi)
  · exact hordered.not_barred ((hr.mem_order_iff h).2 hk) (hr.barred_iff.2 hbarred)

theorem WellFormed.stuck_iff (hr : r.WellFormed) :
    r.Stuck isDone target ↔ ∃ e, r.orderFor target isDone = .error e := by
  constructor
  · intro hstuck
    cases ho : r.orderFor target isDone with
    | error e => exact ⟨e, rfl⟩
    | ok order => exact (hr.not_stuck ho hstuck).elim
  · rintro ⟨e, he⟩
    rcases orderFor_error hr he with ⟨hnone, -⟩ | ⟨i, hi, hd, hrefused⟩
    · exact Or.inl (hr.producerIndex?_eq_none_iff.1 hnone)
    · obtain ⟨k, hk, hbarred⟩ := hrefused.exists_barred
      exact Or.inr ⟨k, hr.neededFor_iff.2 ⟨i, hi, hd, hk⟩, hr.barred_iff.1 hbarred⟩

/-- There is no order exactly if the target is stuck, and then the error explains why. -/
theorem order_refused_iff (ds : List Draft) (isDone : String → Bool) (target : String) :
    let r := ofDrafts ds
    ((∃ e, r.orderFor target isDone = .error e) ↔ r.Stuck isDone target) ∧
    ∀ e, r.orderFor target isDone = .error e → r.Explains isDone target e := by
  intro r
  have hr : r.WellFormed := wellFormed_ofDrafts ds
  refine ⟨hr.stuck_iff.symm, fun e he => ?_⟩
  rcases orderFor_error hr he with ⟨hnone, rfl⟩ | ⟨i, hi, hd, hrefused⟩
  · exact .unknown (hr.producerIndex?_eq_none_iff.1 hnone)
  · exact hrefused.explains hr hi hd

/-- The cycle is reported without the way that leads to it. -/
example : (ofDrafts [⟨"a", [⟨"a", .domain .text⟩], ["b"], .finish⟩,
    ⟨"b", [⟨"b", .domain .text⟩], ["c"], .finish⟩,
    ⟨"c", [⟨"c", .domain .text⟩], ["b"], .finish⟩]).orderFor "a" (fun _ => false) =
      .error (.cyclicDependency ["b", "c", "b"]) := by
  decide +kernel

end Registry

end FactEngine
