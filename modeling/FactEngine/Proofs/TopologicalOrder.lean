import FactEngine.Proofs.Recording
import FactEngine.Proofs.Validation

/-!
# Topological orders

A graph made by recording is sorted exactly if no recorded dependencies lead from a name back to
itself. Then the order has every name once, and behind all that it depends on. Otherwise the
name that is answered is on a cycle (`sort_ofCalls`).

The second pass of the sort is a search against the edges that is begun at every recorded node
in turn, and that stops at the second node which it meets from one start (`secondMet?`). All
earlier starts are met by then, so that node is a direct dependency of the start, and it is
enough to look at these (`secondMet?_eq`).
-/

namespace FactEngine

namespace DependencyGraph

variable {g : DependencyGraph} {met nodes ns : List Nat} {a b k n : Nat}

/-! ## Searching against the edges -/

/-- The next node that a depth-first search against the edges meets, and the stack behind it. Nodes
on the stack that were met before are dropped. The dependencies of the node go on the stack,
unless they were met. -/
def nextAgainst (g : DependencyGraph) (met : List Nat) : List Nat → Option (Nat × List Nat)
  | [] => none
  | n :: stack =>
    if n ∈ met then g.nextAgainst met stack
    else some (n, ((g.predecessors n).filter (· ∉ n :: met)).reverse ++ stack)

/-- The first node that is met second from one of some starts, searched from in turn. -/
def secondMet? (g : DependencyGraph) (met : List Nat) : List Nat → Option Nat
  | [] => none
  | n :: ns =>
    match g.nextAgainst met [n] with
    | none => g.secondMet? met ns
    | some (first, stack) =>
      match g.nextAgainst (first :: met) stack with
      | none => g.secondMet? (first :: met) ns
      | some (second, _) => some second

theorem nextAgainst_singleton (hn : n ∉ met) : g.nextAgainst met [n] =
    some (n, ((g.predecessors n).filter (· ∉ n :: met)).reverse) := by
  simp [nextAgainst, hn]

/-- Of the nodes on a stack, none of which was met, the one on top is next. -/
theorem map_fst_nextAgainst {stack : List Nat} (h : ∀ k ∈ stack, k ∉ met) :
    (g.nextAgainst met stack).map Prod.fst = stack.head? := by
  cases stack with
  | nil => rfl
  | cons k stack => simp [nextAgainst, h k List.mem_cons_self]

/-- What is met second is a dependency of the start that was not met before. -/
theorem secondMet?_eq (hns : ns.Nodup) (hmet : ∀ n ∈ ns, n ∉ met) :
    g.secondMet? met ns = g.firstBackward met ns := by
  induction ns generalizing met with
  | nil => rfl
  | cons n ns ih =>
    obtain ⟨hn, hns⟩ := List.nodup_cons.1 hns
    have hrest : ∀ m ∈ ns, m ∉ n :: met := fun m hm => by
      rw [List.mem_cons, not_or]
      exact ⟨fun he => hn (he ▸ hm), hmet m (List.mem_cons_of_mem _ hm)⟩
    have hfirst : (g.nextAgainst (n :: met)
        ((g.predecessors n).filter (· ∉ n :: met)).reverse).map Prod.fst =
          ((g.predecessors n).filter (· ∉ n :: met)).reverse.head? :=
      map_fst_nextAgainst fun k hk =>
        of_decide_eq_true (List.mem_filter.1 (List.mem_reverse.1 hk)).2
    rw [List.head?_reverse] at hfirst
    rw [secondMet?, nextAgainst_singleton (hmet n List.mem_cons_self), firstBackward, ← hfirst,
      ← ih hns hrest]
    simp only
    cases g.nextAgainst (n :: met) ((g.predecessors n).filter (· ∉ n :: met)).reverse <;> rfl

/-- The nodes with dependencies first, or a node on a cycle, by a search along the edges and one
against them. -/
def sortBySearches (g : DependencyGraph) : Sorted Nat :=
  match g.finishAll (List.range g.size) (List.range g.size) [] with
  | .cyclic n => .cyclic n
  | .order nodes =>
    match g.secondMet? [] nodes with
    | some n => .cyclic n
    | none => .order nodes

theorem WellFormed.sortNodes_eq (hg : g.WellFormed) : g.sortNodes = g.sortBySearches := by
  unfold sortNodes sortBySearches
  cases h : g.finishAll (List.range g.size) (List.range g.size) [] with
  | cyclic n => rfl
  | order nodes =>
    obtain ⟨fresh, hw⟩ := hg.walk_of_order h
    have hsecond : g.secondMet? [] nodes = g.firstBackward [] nodes :=
      secondMet?_eq hw.finished_nodup fun _ _ => List.not_mem_nil
    cases hback : g.firstBackward [] nodes <;> simp only [hsecond, hback]

/-! ## Orders -/

/-- An order lists every node once. -/
theorem WellFormed.perm_of_sortNodes (hg : g.WellFormed) (h : g.sortNodes = .order nodes) :
    nodes.Perm (List.range g.size) := by
  obtain ⟨hall, -⟩ := sortNodes_eq_order h
  obtain ⟨fresh, hw⟩ := hg.walk_of_order hall
  rw [List.perm_ext_iff_of_nodup hw.finished_nodup List.nodup_range]
  intro n
  constructor
  · exact fun hn => List.mem_range.2 (hw.listed n hn)
  · exact fun hn => ((finishAll_order List.nodup_range hall).2 n hn hn).1

/-- In a graph with an order, nothing depends on itself. -/
theorem WellFormed.acyclic_of_sortNodes (hg : g.WellFormed) (h : g.sortNodes = .order nodes) :
    ¬Relation.TransGen g.Arrow n n := by
  have hlt : ∀ {b}, Relation.TransGen g.Arrow n b → nodes.idxOf n < nodes.idxOf b := by
    intro b hb
    induction hb with
    | single hstep => exact hg.idxOf_lt_of_edge h hstep
    | tail _ hstep ih => exact ih.trans (hg.idxOf_lt_of_edge h hstep)
  exact fun hself => Nat.lt_irrefl _ (hlt hself)

/-! ## Names -/

theorem sort_eq_order_iff {names : List String} :
    g.sort = .order names ↔ ∃ nodes, g.sortNodes = .order nodes ∧ nodes.map g.nameOf = names := by
  unfold sort
  cases g.sortNodes <;> simp

theorem sort_eq_cyclic_iff {name : String} :
    g.sort = .cyclic name ↔ ∃ n, g.sortNodes = .cyclic n ∧ g.nameOf n = name := by
  unfold sort
  cases g.sortNodes <;> simp

theorem map_nameOf_range (g : DependencyGraph) : (List.range g.size).map g.nameOf = g.names := by
  refine List.ext_getElem (by simp [size]) fun i hi _ => ?_
  have hlt : i < g.names.length := by simpa [size] using hi
  simp [nameOf_eq (List.getElem?_eq_getElem hlt)]

/-- A name that a sort answers depends on itself, directly or through others. -/
theorem WellFormed.edge_self (hg : g.WellFormed) {name : String} (h : g.sort = .cyclic name) :
    Relation.TransGen g.Edge name name := by
  obtain ⟨n, hn, rfl⟩ := sort_eq_cyclic_iff.1 h
  exact (hg.arrow_self hn).lift g.nameOf fun _ _ => hg.edge_of_arrow

/-- An order lists every name once, behind all that it depends on. -/
theorem WellFormed.perm_and_before (hg : g.WellFormed) {names : List String}
    (h : g.sort = .order names) : names.Perm g.names ∧
      ∀ before d later, names = before ++ d :: later → ∀ p, g.Edge p d → p ∈ before := by
  obtain ⟨nodes, hnodes, rfl⟩ := sort_eq_order_iff.1 h
  have hperm := hg.perm_of_sortNodes hnodes
  refine ⟨g.map_nameOf_range ▸ hperm.map g.nameOf, fun before d later hsplit p hpd => ?_⟩
  obtain ⟨pre, rest, rfl, rfl, hrest⟩ := List.map_eq_append_iff.1 hsplit
  obtain ⟨b, post, rfl, rfl, -⟩ := List.map_eq_cons_iff.1 hrest
  obtain ⟨a, b', he, ha, hb'⟩ := hpd
  have hb : g.names[b]? = some (g.nameOf b) :=
    getElem?_nameOf (List.mem_range.1 (hperm.subset (by simp)))
  obtain rfl : b = b' := (hg.idxOf_eq hb).symm.trans (hg.idxOf_eq hb')
  rw [← nameOf_eq ha]
  exact List.mem_map_of_mem (hg.mem_before_of_edge hnodes rfl he)

theorem WellFormed.exists_order_iff (hg : g.WellFormed) :
    (∃ names, g.sort = .order names) ↔ ∀ x, ¬Relation.TransGen g.Edge x x := by
  constructor
  · rintro ⟨names, h⟩ x hself
    obtain ⟨nodes, hnodes, -⟩ := sort_eq_order_iff.1 h
    exact hg.acyclic_of_sortNodes hnodes (hself.lift g.names.idxOf fun _ _ => hg.arrow_of_edge)
  · intro hacyclic
    cases h : g.sort with
    | order names => exact ⟨names, rfl⟩
    | cyclic name => exact (hacyclic name (hg.edge_self h)).elim

/-- A sort of recorded dependencies finds an order exactly if they have no cycle. The order has
every name that was mentioned once, behind all that it depends on. Otherwise a name on a cycle is
answered. The sort is a search along the edges followed by one against them. -/
theorem sort_ofCalls (calls : List GraphCall) :
    let g := ofCalls calls
    let feeds := Recorded calls
    ((∃ names, g.sort = .order names) ↔ ∀ x, ¬Relation.TransGen feeds x x) ∧
    (∀ names, g.sort = .order names →
      names.Nodup ∧ (∀ x, x ∈ names ↔ ∃ call ∈ calls, x ∈ call.mentions) ∧
      ∀ before d later, names = before ++ d :: later → ∀ p, feeds p d → p ∈ before) ∧
    (∀ name, g.sort = .cyclic name → Relation.TransGen feeds name name) ∧
    g.sortNodes = g.sortBySearches := by
  intro g feeds
  obtain ⟨hg, hnames, hedge⟩ := recordOf_ofCalls calls
  have hfeeds : g.Edge = feeds := funext fun p => funext fun d => propext (hedge p d)
  rw [← hfeeds]
  refine ⟨hg.exists_order_iff, fun names h => ?_, fun name => hg.edge_self, hg.sortNodes_eq⟩
  obtain ⟨hperm, hbefore⟩ := hg.perm_and_before h
  exact ⟨hperm.nodup_iff.2 hg.names_nodup, fun x => hperm.mem_iff.trans (hnames x), hbefore⟩

end DependencyGraph

end FactEngine
