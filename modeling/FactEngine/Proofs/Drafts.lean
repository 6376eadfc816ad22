import FactEngine.Proofs.Preparation

/-!
# Drafts that are built

A client drafts a descriptor call by call (`Draft.ofCalls`), and only building it looks at what was
declared. What is built depends on the targets and on the consumed names, each in the order of
their declaration (`Draft.produces_ofCalls`, `Draft.consumes_ofCalls`).

Two targets of one name are refused. Otherwise the domains of the columns are consumed as well,
unless they are consumed or produced already (`Draft.allConsumed_eq`). So a step can be given the
domain of every column, and it waits for no name that its relations do not need
(`Draft.build_completes_consumes`).
-/

namespace FactEngine

/-! ## Calls -/

/-- A call that declares something of an analysis. -/
inductive DraftCall where
  | produce (t : Target)
  | produceDomain (name : String) (t : FactType)
  | produceRelation (name : String) (sig : Signature)
  | consume (names : List String)
  | withFill (fill : Fill)

namespace DraftCall

/-- The targets that a call declares. -/
def targets : DraftCall → List Target
  | produce t => [t]
  | produceDomain name t => [⟨name, .domain t⟩]
  | produceRelation name sig => [⟨name, .relation sig⟩]
  | _ => []

/-- The names that a call declares to be consumed. -/
def consumed : DraftCall → List String
  | consume names => names
  | _ => []

end DraftCall

namespace Draft

/-- The draft after a call. -/
def handle (d : Draft) : DraftCall → Draft
  | .produce t => d.produce t
  | .produceDomain name t => d.produceDomain name t
  | .produceRelation name sig => d.produceRelation name sig
  | .consume names => d.consume names
  | .withFill fill => d.withFill fill

/-- The draft that is declared by some calls. -/
def ofCalls (name : String) (calls : List DraftCall) : Draft :=
  calls.foldl handle (.empty name)

theorem foldl_handle (d : Draft) (calls : List DraftCall) :
    (calls.foldl handle d).name = d.name ∧
    (calls.foldl handle d).produces = d.produces ++ calls.flatMap DraftCall.targets ∧
    (calls.foldl handle d).consumes = d.consumes ++ calls.flatMap DraftCall.consumed := by
  induction calls generalizing d with
  | nil => simp
  | cons call calls ih =>
    obtain ⟨hname, hproduces, hconsumes⟩ := ih (d.handle call)
    simp only [List.foldl_cons, List.flatMap_cons, ← List.append_assoc]
    rw [hname, hproduces, hconsumes]
    cases call <;>
      simp [handle, DraftCall.targets, DraftCall.consumed, produce, produceDomain, produceRelation,
        consume, withFill]

variable {name : String} {calls : List DraftCall}

@[simp] theorem name_ofCalls : (ofCalls name calls).name = name :=
  (foldl_handle (.empty name) calls).1

@[simp] theorem produces_ofCalls :
    (ofCalls name calls).produces = calls.flatMap DraftCall.targets :=
  (foldl_handle (.empty name) calls).2.1

@[simp] theorem consumes_ofCalls :
    (ofCalls name calls).consumes = calls.flatMap DraftCall.consumed :=
  (foldl_handle (.empty name) calls).2.2

/-! ## Consumed names -/

theorem columnDomains_eq (d : Draft) :
    d.columnDomains = (Outputs.columns d.produces).map Column.domain :=
  List.map_flatMap.symm

/-- The declared names come first. The column domains that are added are neither among them nor
produced here. -/
theorem allConsumed_eq (d : Draft) : d.allConsumed = distinct d.consumes ++
    distinct (d.columnDomains.filter fun n =>
      n ∉ d.consumes ∧ n ∉ d.produces.map Target.name) := by
  rw [allConsumed, distinct, List.foldl_append, foldl_appendNew_eq, List.filter_filter, ← distinct]
  congr 2
  exact List.filter_congr fun n _ => by simp

theorem mem_allConsumed (d : Draft) (n : String) : n ∈ d.allConsumed ↔
    n ∈ d.consumes ∨
      n ∈ d.columnDomains ∧ n ∉ d.consumes ∧ n ∉ d.produces.map Target.name := by
  rw [allConsumed_eq, List.mem_append, mem_distinct, mem_distinct, List.mem_filter,
    decide_eq_true_iff]

/-! ## Building -/

/-- The first output that repeats an earlier one is reported. -/
theorem exists_of_build_error {d : Draft} {e : Error} (h : d.build = .error e) :
    ∃ before n after, d.produces.map Target.name = before ++ n :: after ∧ before.Nodup ∧
      n ∈ before ∧ e = .duplicateName n d.name := by
  unfold build at h
  split at h
  · rename_i n hrepeated
    obtain ⟨before, after, hsplit, hn, hnodup, -⟩ := repeated?_eq_some hrepeated
    have hbefore : n ∈ before := hn.resolve_right List.not_mem_nil
    exact ⟨before, n, after, hsplit, hnodup, hbefore, (Except.error.inj h).symm⟩
  · cases h

theorem exists_build_error_iff {d : Draft} :
    (∃ e, d.build = .error e) ↔ ¬(d.produces.map Target.name).Nodup := by
  constructor
  · rintro ⟨e, he⟩ hnodup
    obtain ⟨before, n, after, hsplit, -, hn, -⟩ := exists_of_build_error he
    rw [hsplit, List.nodup_append] at hnodup
    exact hnodup.2.2 n hn n List.mem_cons_self rfl
  · intro hrepeated
    cases h : d.build with
    | error e => exact ⟨e, rfl⟩
    | ok b =>
      have houtputs := (Descriptor.wellFormed_of_build h).outputs_nodup
      rw [build_eq h] at houtputs
      exact (hrepeated houtputs).elim

/-- A draft is refused exactly if two of its targets share a name, and then for the first name that
repeats an earlier one. What is built consumes the declared names, own outputs among them, and
behind these the column domains that are neither declared nor produced; both are listed once each
in the order of their first mention. So every column domain is produced or consumed, and no other
name is added. -/
theorem build_completes_consumes (name : String) (calls : List DraftCall) :
    let produced := calls.flatMap DraftCall.targets
    let declared := calls.flatMap DraftCall.consumed
    let outputs := produced.map Target.name
    let mentioned := (Outputs.columns produced).map Column.domain
    let answer := (ofCalls name calls).build
    ((∃ e, answer = .error e) ↔ ¬outputs.Nodup) ∧
    (∀ e, answer = .error e → ∃ before n after, outputs = before ++ n :: after ∧
      before.Nodup ∧ n ∈ before ∧ e = .duplicateName n name) ∧
    ∀ d, answer = .ok d →
      d.name = name ∧ d.produces = produced ∧ d.consumes.Nodup ∧
      (∃ explicit implied, d.consumes = explicit ++ implied ∧
        FirstOccurrences declared explicit ∧
        FirstOccurrences (mentioned.filter fun n => n ∉ declared ∧ n ∉ outputs) implied) ∧
      (∀ n ∈ mentioned, n ∈ outputs ∨ n ∈ d.consumes) ∧
      ∀ n ∈ d.consumes, n ∈ declared ∨ n ∈ mentioned ∧ n ∉ outputs := by
  intro produced declared outputs mentioned answer
  have hrefused := exists_build_error_iff (d := ofCalls name calls)
  rw [produces_ofCalls] at hrefused
  refine ⟨hrefused, fun e he => ?_, fun d hd => ?_⟩
  · have hfirst := exists_of_build_error he
    rwa [produces_ofCalls, name_ofCalls] at hfirst
  · have hconsumes := (ofCalls name calls).allConsumed_eq
    have hmem := (ofCalls name calls).mem_allConsumed
    rw [columnDomains_eq, produces_ofCalls, consumes_ofCalls] at hconsumes hmem
    rw [build_eq hd, name_ofCalls, produces_ofCalls]
    refine ⟨rfl, rfl, nodup_distinct _, ⟨_, _, hconsumes, firstOccurrences_distinct _,
      firstOccurrences_distinct _⟩, fun n hn => ?_, fun n hn => ?_⟩
    · rw [hmem]
      tauto
    · exact ((hmem n).1 hn).imp_right fun h => ⟨h.1, h.2.2⟩

/-- A declared output stays a consumed name. Of the column domains only `M` is added, since `cha` is
declared and `T` is produced. -/
example : (ofCalls "calls" [.consume ["cha", "calls"],
      .produceRelation "calls" ⟨[⟨"cha", 0⟩, ⟨"T", 0⟩, ⟨"M", 0⟩, ⟨"M", 1⟩], "M0"⟩,
      .produceDomain "T" .text, .consume ["cha"]]).build.toOption.map Descriptor.consumes =
    some ["cha", "calls", "M"] := by
  decide

end Draft

end FactEngine
