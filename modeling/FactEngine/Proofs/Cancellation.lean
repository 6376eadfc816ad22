import FactEngine.Cancellation
import FactEngine.Proofs.Lists
import Mathlib.Data.List.DropRight

/-!
# Histories of cancellation tokens

What a signal answers is decided by the calls that were made on it since it was cleared last
(`SignalHistory.sinceReset`). It is cancelled if there was a request, or a question that met an
expired timeout (`SignalHistory.Cancelled`), and the reason is the latest that was given, where such
a question gives one too if it is the first (`SignalHistory.GivesReason`). A timeout that nobody
asked about leaves no trace once it is replaced.

Clones share a signal. The calls on the family of a token are picked from a history of all tokens by
the token that the family began with (`TokenCall.founders`), and no other call matters to the token
(`TokenPool.tokens_follow_history`).
-/

namespace FactEngine

/-! ## Calls on one signal -/

/-- A call on a token, whichever it is. -/
inductive SignalCall where
  | cancel (reason : Option String)
  | setTimeout (ms : Nat)
  | isCancelled
  | reason
  | reset
  deriving DecidableEq

/-- Calls on one signal, the earliest first. -/
abbrev SignalHistory := List SignalCall

namespace SignalHistory

variable {h : SignalHistory} {q : SignalCall}

/-- Some call satisfies `p` with the calls before it. -/
def SomeCall (p : SignalHistory → SignalCall → Prop) (h : SignalHistory) : Prop :=
  ∃ before q after, h = before ++ q :: after ∧ p before q

/-- Of the calls that give something, with the calls before them, the last one gives `a`. -/
def Latest {α : Type} (gives : SignalHistory → SignalCall → α → Prop) (h : SignalHistory)
    (a : α) : Prop :=
  ∃ before q after, h = before ++ q :: after ∧ gives before q a ∧
    ∀ mid q' rest, after = mid ++ q' :: rest → ∀ b, ¬gives (before ++ q :: mid) q' b

/-- The call sets a timeout that ends at the deadline. -/
def SetsDeadline (_ : SignalHistory) (q : SignalCall) (d : Deadline) : Prop :=
  ∃ ms, q = .setTimeout ms ∧ d = .after ms

/-- The latest timeout has expired. -/
def TimedOut (h : SignalHistory) : Prop :=
  h.Latest SetsDeadline .passed

/-- The call cancels the signal : it requests so, or asks while the latest timeout has expired. -/
inductive Cancels (before : SignalHistory) : SignalCall → Prop
  | request (reason : Option String) : Cancels before (.cancel reason)
  | timeout (h : before.TimedOut) : Cancels before .isCancelled

/-- The call gives a reason : it requests cancellation for this reason, or it is the first that
notices an expired timeout, and the signal is not cancelled yet. -/
inductive GivesReason (before : SignalHistory) : SignalCall → String → Prop
  | request (reason : String) : GivesReason before (.cancel (some reason)) reason
  | timeout (h : before.TimedOut) (hfirst : ¬before.SomeCall Cancels) :
      GivesReason before .isCancelled "Timeout"

/-- The calls after the last reset. -/
def sinceReset (h : SignalHistory) : SignalHistory :=
  h.rtakeWhile (· ≠ .reset)

/-- The signal has been cancelled since the last reset. -/
def Cancelled (h : SignalHistory) : Prop :=
  h.sinceReset.SomeCall Cancels

theorem cancels_iff :
    Cancels h q ↔ (∃ reason, q = .cancel reason) ∨ q = .isCancelled ∧ h.TimedOut := by
  constructor
  · rintro (⟨reason⟩ | ⟨hexpired⟩)
    · exact Or.inl ⟨reason, rfl⟩
    · exact Or.inr ⟨rfl, hexpired⟩
  · rintro (⟨reason, rfl⟩ | ⟨rfl, hexpired⟩)
    · exact .request reason
    · exact .timeout hexpired

theorem givesReason_iff {r : String} : GivesReason h q r ↔
    q = .cancel (some r) ∨ q = .isCancelled ∧ h.TimedOut ∧ ¬h.SomeCall Cancels ∧ r = "Timeout" := by
  constructor
  · rintro (⟨reason⟩ | ⟨hexpired, hfirst⟩)
    · exact Or.inl rfl
    · exact Or.inr ⟨rfl, hexpired, hfirst, rfl⟩
  · rintro (rfl | ⟨rfl, hexpired, hfirst, rfl⟩)
    · exact .request r
    · exact .timeout hexpired hfirst

/-- Who gives a reason cancels. -/
theorem someCall_of_latest {r : String} (hr : h.Latest GivesReason r) : h.SomeCall Cancels := by
  obtain ⟨before, q, after, hsplit, hgives, -⟩ := hr
  refine ⟨before, q, after, hsplit, ?_⟩
  cases hgives with
  | request => exact .request _
  | timeout hexpired => exact .timeout hexpired

/-! ## One call more -/

theorem not_someCall_nil (p : SignalHistory → SignalCall → Prop) : ¬SomeCall p [] := by
  rintro ⟨before, q, after, hsplit, -⟩
  simp at hsplit

theorem someCall_concat {p : SignalHistory → SignalCall → Prop} :
    SomeCall p (h ++ [q]) ↔ h.SomeCall p ∨ p h q := by
  constructor
  · rintro ⟨before, r, after, hsplit, hp⟩
    obtain ⟨rfl, rfl, rfl⟩ | ⟨after', rfl, rfl⟩ := concat_eq_append_cons_iff.1 hsplit
    · exact Or.inr hp
    · exact Or.inl ⟨before, r, after', rfl, hp⟩
  · rintro (⟨before, r, after, rfl, hp⟩ | hp)
    · exact ⟨before, r, after ++ [q], by simp, hp⟩
    · exact ⟨h, q, [], rfl, hp⟩

theorem not_latest_nil {α : Type} (gives : SignalHistory → SignalCall → α → Prop) (a : α) :
    ¬Latest gives [] a := by
  rintro ⟨before, q, after, hsplit, -⟩
  simp at hsplit

theorem latest_concat {α : Type} {gives : SignalHistory → SignalCall → α → Prop} {a : α} :
    Latest gives (h ++ [q]) a ↔ gives h q a ∨ (∀ b, ¬gives h q b) ∧ h.Latest gives a := by
  constructor
  · rintro ⟨before, r, after, hsplit, hr, hlast⟩
    obtain ⟨rfl, rfl, rfl⟩ | ⟨after', rfl, rfl⟩ := concat_eq_append_cons_iff.1 hsplit
    · exact Or.inl hr
    · refine Or.inr ⟨hlast after' q [] rfl, before, r, after', rfl, hr, fun mid q' rest hmid => ?_⟩
      exact hlast mid q' (rest ++ [q]) (by simp [hmid])
  · rintro (hq | ⟨hnot, before, r, after, rfl, hr, hlast⟩)
    · exact ⟨h, q, [], rfl, hq, by simp⟩
    · refine ⟨before, r, after ++ [q], by simp, hr, fun mid q' rest hmid => ?_⟩
      obtain ⟨rfl, rfl, rfl⟩ | ⟨rest', rfl, rfl⟩ := concat_eq_append_cons_iff.1 hmid
      · exact hnot
      · exact hlast mid q' rest' rfl

@[simp] theorem sinceReset_reset (h : SignalHistory) : sinceReset (h ++ [.reset]) = [] := by
  rw [sinceReset, List.rtakeWhile_concat_neg]
  simp

theorem sinceReset_concat (hq : q ≠ .reset) : sinceReset (h ++ [q]) = h.sinceReset ++ [q] := by
  rw [sinceReset, List.rtakeWhile_concat_pos _ _ _ (by simpa using hq), sinceReset]

/-- A question is a call itself, which may be what cancels the signal. -/
theorem cancelled_question :
    Cancelled (h ++ [.isCancelled]) ↔ h.Cancelled ∨ h.sinceReset.TimedOut := by
  rw [Cancelled, sinceReset_concat (by simp), someCall_concat, cancels_iff, Cancelled]
  simp

/-- What cancelled a signal counts until the next reset. -/
theorem Cancelled.append (hc : h.Cancelled) {more : SignalHistory} (hmore : .reset ∉ more) :
    Cancelled (h ++ more) := by
  induction more using List.reverseRecOn with
  | nil => rwa [List.append_nil]
  | append_singleton more q ih =>
    rw [List.mem_append, not_or] at hmore
    have hq : q ≠ .reset := fun heq => hmore.2 (heq ▸ List.mem_singleton_self q)
    rw [← List.append_assoc, Cancelled, sinceReset_concat hq]
    exact someCall_concat.2 (Or.inl (ih hmore.1))

end SignalHistory

/-! ## The signal after its history -/

namespace Signal

open SignalHistory

/-- The signal after a call. -/
def handle (s : Signal) : SignalCall → Signal
  | .cancel reason => s.cancel reason
  | .setTimeout ms => s.setTimeout ms
  | .isCancelled => s.isCancelled.2
  | .reason => s
  | .reset => .clear

/-- What a client hears in answer to a call. -/
def answer (s : Signal) : SignalCall → TokenAnswer
  | .isCancelled => .cancelled s.isCancelled.1
  | .reason => .reason s.reason
  | _ => .done

/-- The signal after some calls. -/
def after (h : SignalHistory) : Signal :=
  h.foldl handle .clear

variable {s : Signal} {h : SignalHistory} {q : SignalCall}

theorem after_concat : after (h ++ [q]) = (after h).handle q :=
  List.foldl_append

/-- The calls without a reset say what the signal is. -/
structure Shows (s : Signal) (h : SignalHistory) : Prop where
  cancelled : s.cancelled = true ↔ h.SomeCall Cancels
  deadline : ∀ d, s.deadline = some d ↔ h.Latest SetsDeadline d
  reason : ∀ r, s.reason = some r ↔ h.Latest GivesReason r

theorem Shows.nil : Shows .clear [] :=
  ⟨by simp [clear, not_someCall_nil], by simp [clear, not_latest_nil],
    by simp [clear, not_latest_nil]⟩

/-- A call that says nothing new leaves the signal as it is. -/
theorem Shows.unchanged (hs : s.Shows h) (hcancels : Cancels h q → h.SomeCall Cancels)
    (hdeadline : ∀ d, ¬SetsDeadline h q d) (hreason : ∀ r, ¬GivesReason h q r) :
    s.Shows (h ++ [q]) := by
  refine ⟨?_, fun d => ?_, fun r => ?_⟩
  · rw [someCall_concat, or_iff_left_of_imp hcancels, hs.cancelled]
  · simp [latest_concat, hdeadline, hs.deadline]
  · simp [latest_concat, hreason, hs.reason]

theorem Shows.cancel (hs : s.Shows h) {reason : Option String} (hcancels : Cancels h q)
    (hdeadline : ∀ d, ¬SetsDeadline h q d) (hreason : ∀ r, GivesReason h q r ↔ reason = some r) :
    (s.cancel reason).Shows (h ++ [q]) := by
  refine ⟨?_, fun d => ?_, fun r => ?_⟩
  · simp [Signal.cancel, someCall_concat, hcancels]
  · simp [Signal.cancel, latest_concat, hdeadline, hs.deadline]
  · cases reason <;> simp [Signal.cancel, latest_concat, hreason, hs.reason]

theorem Shows.setTimeout (hs : s.Shows h) (ms : Nat) :
    (s.setTimeout ms).Shows (h ++ [.setTimeout ms]) := by
  refine ⟨?_, fun d => ?_, fun r => ?_⟩
  · simp [Signal.setTimeout, someCall_concat, cancels_iff, hs.cancelled]
  · simp [Signal.setTimeout, latest_concat, SetsDeadline, eq_comm]
  · simp [Signal.setTimeout, latest_concat, givesReason_iff, hs.reason]

/-- A question is answered by what was noticed before and by what it notices. -/
theorem Shows.isCancelled_iff (hs : s.Shows h) :
    s.isCancelled.1 = true ↔ h.SomeCall Cancels ∨ h.TimedOut := by
  have htimeout : s.deadline = some .passed ↔ h.TimedOut := hs.deadline .passed
  rw [← hs.cancelled, ← htimeout, Signal.isCancelled]
  by_cases hcancelled : s.cancelled = true
  · simp [hcancelled]
  · by_cases hexpired : s.deadline = some .passed <;> simp [hcancelled, hexpired]

theorem Shows.isCancelled (hs : s.Shows h) : s.isCancelled.2.Shows (h ++ [.isCancelled]) := by
  have htimeout : s.deadline = some .passed ↔ h.TimedOut := hs.deadline .passed
  unfold Signal.isCancelled
  split
  · rename_i hcancelled
    have hcall := hs.cancelled.1 hcancelled
    exact hs.unchanged (fun _ => hcall) (by simp [SetsDeadline]) (by simp [givesReason_iff, hcall])
  · rename_i hcancelled
    have hcall : ¬h.SomeCall Cancels := mt hs.cancelled.2 hcancelled
    split
    · rename_i hexpired
      have hnoticed := htimeout.1 hexpired
      exact hs.cancel (.timeout hnoticed) (by simp [SetsDeadline])
        (by simp [givesReason_iff, hnoticed, hcall, eq_comm])
    · rename_i hexpired
      have hnot : ¬h.TimedOut := mt htimeout.2 hexpired
      exact hs.unchanged (by simp [cancels_iff, hnot]) (by simp [SetsDeadline])
        (by simp [givesReason_iff, hnot])

/-- A call other than a reset changes the signal as it continues the history. -/
theorem Shows.handle (hs : s.Shows h) (hq : q ≠ .reset) : (s.handle q).Shows (h ++ [q]) := by
  cases q with
  | cancel reason =>
    exact hs.cancel (.request reason) (by simp [SetsDeadline])
      (by simp [givesReason_iff])
  | setTimeout ms => exact hs.setTimeout ms
  | isCancelled => exact hs.isCancelled
  | reason =>
    exact hs.unchanged (by simp [cancels_iff]) (by simp [SetsDeadline])
      (by simp [givesReason_iff])
  | reset => exact (hq rfl).elim

/-- The calls since the last reset say what the signal is. -/
theorem shows_after (h : SignalHistory) : (after h).Shows h.sinceReset := by
  induction h using List.reverseRecOn with
  | nil => exact .nil
  | append_singleton h q ih =>
    rw [after_concat]
    by_cases hq : q = .reset
    · rw [hq, sinceReset_reset]
      exact .nil
    · rw [sinceReset_concat hq]
      exact ih.handle hq

end Signal

/-! ## Families -/

/-- The call on a token. -/
def SignalCall.on (token : Nat) : SignalCall → TokenCall
  | .cancel why => .cancel token why
  | .setTimeout ms => .setTimeout token ms
  | .isCancelled => .isCancelled token
  | .reason => .reason token
  | .reset => .reset token

namespace TokenCall

/-- The token that a call is about, and what the call is. -/
def on? : TokenCall → Option (Nat × SignalCall)
  | .new | .clone _ => none
  | .cancel token why => some (token, .cancel why)
  | .setTimeout token ms => some (token, .setTimeout ms)
  | .isCancelled token => some (token, .isCancelled)
  | .reason token => some (token, .reason)
  | .reset token => some (token, .reset)

/-- The token that the family of each token began with, after a call more : a new token begins a
family, and a clone joins that of the token it was cloned from. -/
def join (founders : List Nat) : TokenCall → List Nat
  | .new => founders ++ [founders.length]
  | .clone token => founders ++ founders[token]?.toList
  | _ => founders

/-- The token that the family of each token began with. There is one token before all calls. -/
def founders (calls : List TokenCall) : List Nat :=
  calls.foldl join [0]

/-- The tokens are clones of one token. -/
def SameFamily (calls : List TokenCall) (token token' : Nat) : Prop :=
  (founders calls)[token]? = (founders calls)[token']?

instance (calls : List TokenCall) (token token' : Nat) :
    Decidable (SameFamily calls token token') :=
  inferInstanceAs (Decidable (_ = _))

/-- The calls on the family of a token. -/
def family (calls : List TokenCall) (token : Nat) : SignalHistory :=
  ((calls.filterMap on?).filter fun e => SameFamily calls e.1 token).map Prod.snd

variable {c : TokenCall} {calls : List TokenCall} {token : Nat} {q : SignalCall}

@[simp] theorem on?_on (token : Nat) (q : SignalCall) : (q.on token).on? = some (token, q) := by
  cases q <;> rfl

@[simp] theorem join_on (founders : List Nat) (token : Nat) (q : SignalCall) :
    join founders (q.on token) = founders := by
  cases q <;> rfl

theorem cases (c : TokenCall) :
    c = .new ∨ (∃ token, c = .clone token) ∨ ∃ (q : SignalCall) (token : Nat), c = q.on token := by
  cases c with
  | new => exact Or.inl rfl
  | clone token => exact Or.inr (Or.inl ⟨token, rfl⟩)
  | cancel token why => exact Or.inr (Or.inr ⟨.cancel why, token, rfl⟩)
  | setTimeout token ms => exact Or.inr (Or.inr ⟨.setTimeout ms, token, rfl⟩)
  | isCancelled token => exact Or.inr (Or.inr ⟨.isCancelled, token, rfl⟩)
  | reason token => exact Or.inr (Or.inr ⟨.reason, token, rfl⟩)
  | reset token => exact Or.inr (Or.inr ⟨.reset, token, rfl⟩)

theorem eq_on_of_on? (h : c.on? = some (token, q)) : c = q.on token := by
  obtain rfl | ⟨t, rfl⟩ | ⟨r, t, rfl⟩ := c.cases
  · cases h
  · cases h
  · obtain ⟨rfl, rfl⟩ := Prod.mk.inj (Option.some.inj ((on?_on t r).symm.trans h))
    rfl

theorem founders_concat : founders (calls ++ [c]) = join (founders calls) c :=
  List.foldl_append

end TokenCall

namespace TokenPool

open TokenCall

variable {p p' : TokenPool} {calls : List TokenCall} {c : TokenCall} {a : TokenAnswer}
  {tokens : List Nat} {token place : Nat} {q : SignalCall}

/-- A call on a token is answered by the signal that the token reaches. -/
theorem call_on_eq_some_iff : p.call (q.on token) = some (a, p') ↔
    ∃ place s, p.tokens[token]? = some place ∧ p.signals[place]? = some s ∧ a = s.answer q ∧
      p' = { p with signals := p.signals.set place (s.handle q) } := by
  have hcall : p.call (q.on token) = p.update token fun s => (s.answer q, s.handle q) := by
    cases q <;> rfl
  rw [hcall, update, Option.bind_eq_some_iff]
  simp only [Option.map_eq_some_iff, Prod.mk.injEq, ← exists_and_left, eq_comm (b := a),
    eq_comm (b := p')]

/-- The calls on the tokens that reach a place. -/
def callsAt (tokens : List Nat) (place : Nat) (calls : List TokenCall) : SignalHistory :=
  ((calls.filterMap on?).filter fun e => tokens[e.1]? = some place).map Prod.snd

theorem callsAt_append (tokens : List Nat) (place : Nat) (calls later : List TokenCall) :
    callsAt tokens place (calls ++ later) =
      callsAt tokens place calls ++ callsAt tokens place later := by
  simp [callsAt]

/-- Tokens that come later change nothing about the calls before. -/
theorem callsAt_append_tokens (h : ∀ e ∈ calls.filterMap on?, e.1 < tokens.length)
    (more : List Nat) (place : Nat) :
    callsAt (tokens ++ more) place calls = callsAt tokens place calls := by
  refine congrArg (List.map Prod.snd) (List.filter_congr fun e he => ?_)
  rw [List.getElem?_append_left (h e he)]

/-- Nothing was called at a place that no token reaches. -/
theorem callsAt_eq_nil (h : place ∉ tokens) (calls : List TokenCall) :
    callsAt tokens place calls = [] := by
  rw [callsAt, List.filter_eq_nil_iff.2, List.map_nil]
  intro e _ he
  exact h (List.mem_of_getElem? (of_decide_eq_true he))

/-- The pool is what some calls make of the first one : tokens of one family reach one signal, and
the signal is what the calls on the family make of it. -/
structure RecordOf (calls : List TokenCall) (p : TokenPool) : Prop where
  founders_eq : founders calls = p.tokens.map p.tokens.idxOf
  place_lt : ∀ place ∈ p.tokens, place < p.signals.length
  token_lt : ∀ e ∈ calls.filterMap on?, e.1 < p.tokens.length
  signal : ∀ place < p.signals.length,
    p.signals[place]? = some (.after (callsAt p.tokens place calls))

theorem recordOf_single : RecordOf [] single := by
  refine ⟨rfl, by decide, by simp, fun place hplace => ?_⟩
  obtain rfl : place = 0 := Nat.lt_one_iff.1 hplace
  rfl

theorem map_idxOf_concat (l : List Nat) (a : Nat) :
    (l ++ [a]).map (l ++ [a]).idxOf = l.map l.idxOf ++ [(l ++ [a]).idxOf a] := by
  rw [List.map_append]
  refine congrArg (· ++ _) (List.map_congr_left fun b hb => List.idxOf_append_of_mem hb)

/-- A new token reaches a signal of its own, on which nothing was called. -/
theorem RecordOf.new (h : RecordOf calls p) : RecordOf (calls ++ [.new]) p.new.2 := by
  have hfresh : p.signals.length ∉ p.tokens := fun hmem => Nat.lt_irrefl _ (h.place_lt _ hmem)
  have hcalls : (calls ++ [TokenCall.new]).filterMap on? = calls.filterMap on? := by
    simp [on?]
  refine ⟨?_, fun place hplace => ?_, fun e he => ?_, fun place hplace => ?_⟩
  · rw [founders_concat, join, h.founders_eq, List.length_map, TokenPool.new, map_idxOf_concat,
      List.idxOf_append_of_notMem hfresh, List.idxOf_cons_self, Nat.add_zero]
  · rw [TokenPool.new, List.length_append, List.length_singleton]
    rcases List.mem_append.1 hplace with hold | hnew
    · exact Nat.lt_succ_of_lt (h.place_lt place hold)
    · exact Nat.lt_succ_of_le (List.mem_singleton.1 hnew).le
  · rw [TokenPool.new, List.length_append]
    exact Nat.lt_add_right _ (h.token_lt e (hcalls ▸ he))
  · have hhistory : callsAt p.new.2.tokens place (calls ++ [.new]) =
        callsAt p.tokens place calls := by
      rw [callsAt, hcalls]
      exact callsAt_append_tokens h.token_lt _ place
    rw [hhistory]
    rcases Nat.lt_or_ge place p.signals.length with hlt | hge
    · exact (List.getElem?_append_left hlt).trans (h.signal place hlt)
    · have hlength : p.new.2.signals.length = p.signals.length + 1 := List.length_append
      obtain rfl : place = p.signals.length := by omega
      rw [callsAt_eq_nil hfresh]
      exact List.getElem?_concat_length

/-- A clone reaches the signal of the token it was cloned from. -/
theorem RecordOf.clone (h : RecordOf calls p) (hplace : p.tokens[token]? = some place) :
    RecordOf (calls ++ [.clone token]) { p with tokens := p.tokens ++ [place] } := by
  have hmem : place ∈ p.tokens := List.mem_of_getElem? hplace
  have hcalls : (calls ++ [TokenCall.clone token]).filterMap on? = calls.filterMap on? := by
    simp [on?]
  refine ⟨?_, fun j hj => ?_, fun e he => ?_, fun j hj => ?_⟩
  · rw [founders_concat, join, h.founders_eq, List.getElem?_map, hplace, map_idxOf_concat,
      List.idxOf_append_of_mem hmem]
    rfl
  · rcases List.mem_append.1 hj with hold | hnew
    · exact h.place_lt j hold
    · exact h.place_lt j (List.mem_singleton.1 hnew ▸ hmem)
  · rw [List.length_append]
    exact Nat.lt_add_right _ (h.token_lt e (hcalls ▸ he))
  · rw [callsAt, hcalls]
    exact (h.signal j hj).trans (congrArg _ (congrArg _
      (callsAt_append_tokens h.token_lt _ j).symm))

/-- A call on a token changes the signal that it reaches. -/
theorem RecordOf.on (h : RecordOf calls p) {s : Signal} (hplace : p.tokens[token]? = some place)
    (hs : p.signals[place]? = some s) : RecordOf (calls ++ [q.on token])
      { p with signals := p.signals.set place (s.handle q) } := by
  have hlast (j : Nat) : callsAt p.tokens j [q.on token] = if place = j then [q] else [] := by
    by_cases hj : place = j <;> simp [callsAt, hplace, hj]
  refine ⟨?_, fun j hj => ?_, fun e he => ?_, fun j hj => ?_⟩
  · rw [founders_concat, join_on, h.founders_eq]
  · rw [List.length_set]
    exact h.place_lt j hj
  · rw [List.filterMap_append, List.mem_append] at he
    rcases he with hold | hnew
    · exact h.token_lt e hold
    · obtain rfl : e = (token, q) := by simpa [eq_comm] using hnew
      exact (List.getElem?_eq_some_iff.1 hplace).1
  · rw [List.length_set] at hj
    rw [callsAt_append, hlast, List.getElem?_set]
    split
    · rename_i hsame
      subst hsame
      have hafter : s = .after (callsAt p.tokens place calls) :=
        Option.some.inj (hs.symm.trans (h.signal place hj))
      rw [if_pos hj, Signal.after_concat, hafter]
    · rw [List.append_nil, h.signal j hj]

theorem RecordOf.call (h : RecordOf calls p) (hc : p.call c = some (a, p')) :
    RecordOf (calls ++ [c]) p' ∧ p.tokens <+: p'.tokens := by
  obtain rfl | ⟨token, rfl⟩ | ⟨q, token, rfl⟩ := c.cases
  · obtain ⟨-, rfl⟩ := Prod.mk.inj (Option.some.inj hc)
    exact ⟨h.new, List.prefix_append _ _⟩
  · obtain ⟨⟨n, p₁⟩, hclone, hp⟩ := Option.map_eq_some_iff.1 hc
    obtain ⟨place, hplace, hp₁⟩ := Option.map_eq_some_iff.1 hclone
    obtain ⟨-, rfl⟩ := Prod.mk.inj hp
    obtain ⟨-, rfl⟩ := Prod.mk.inj hp₁
    exact ⟨h.clone hplace, List.prefix_append _ _⟩
  · obtain ⟨place, s, hplace, hs, -, rfl⟩ := call_on_eq_some_iff.1 hc
    exact ⟨h.on hplace hs, List.prefix_refl _⟩

theorem RecordOf.run (h : RecordOf calls p) {later : List TokenCall} {answers : List TokenAnswer}
    (hrun : p.run later = some (answers, p')) :
    RecordOf (calls ++ later) p' ∧ p.tokens <+: p'.tokens := by
  induction later generalizing calls p answers with
  | nil =>
    obtain ⟨-, rfl⟩ := Prod.mk.inj (Option.some.inj hrun)
    rw [List.append_nil]
    exact ⟨h, List.prefix_refl _⟩
  | cons c later ih =>
    obtain ⟨⟨a, p₁⟩, hc, hrest⟩ := Option.bind_eq_some_iff.1 hrun
    obtain ⟨⟨as, p₂⟩, hlater, hp⟩ := Option.map_eq_some_iff.1 hrest
    obtain ⟨-, rfl⟩ := Prod.mk.inj hp
    obtain ⟨h₁, htokens⟩ := h.call hc
    obtain ⟨h₂, htokens'⟩ := ih h₁ hlater
    rw [List.append_cons]
    exact ⟨h₂, htokens.trans htokens'⟩

/-! ## Answers -/

theorem RecordOf.length_founders (h : RecordOf calls p) :
    (founders calls).length = p.tokens.length := by
  rw [h.founders_eq, List.length_map]

/-- Tokens are of one family if they reach one signal. -/
theorem RecordOf.sameFamily_iff (h : RecordOf calls p) (hplace : p.tokens[token]? = some place)
    (t : Nat) : SameFamily calls t token ↔ p.tokens[t]? = some place := by
  rw [SameFamily, h.founders_eq, List.getElem?_map, List.getElem?_map, hplace, Option.map_some]
  cases ht : p.tokens[t]? with
  | none => simp
  | some j =>
    rw [Option.map_some, Option.some_inj, Option.some_inj]
    exact List.idxOf_inj (List.mem_of_getElem? ht)

theorem RecordOf.family_eq (h : RecordOf calls p) (hplace : p.tokens[token]? = some place) :
    family calls token = callsAt p.tokens place calls := by
  refine congrArg (List.map Prod.snd) (List.filter_congr fun e _ => ?_)
  exact decide_eq_decide.2 (h.sameFamily_iff hplace e.1)

/-- A call on a token is answered as the calls on its family decide. -/
theorem RecordOf.exists_call_on (h : RecordOf calls p) (htoken : token < (founders calls).length)
    (q : SignalCall) :
    ∃ next, p.call (q.on token) = some ((Signal.after (family calls token)).answer q, next) := by
  rw [h.length_founders] at htoken
  have hplace := List.getElem?_eq_getElem htoken
  have hs := h.signal _ (h.place_lt _ (List.getElem_mem htoken))
  rw [← h.family_eq hplace] at hs
  exact ⟨_, call_on_eq_some_iff.2 ⟨_, _, hplace, hs, rfl, rfl⟩⟩

/-- The calls on the family go on where they were. -/
theorem RecordOf.family_append (h : RecordOf calls p) (htoken : token < (founders calls).length)
    {later : List TokenCall} {answers : List TokenAnswer}
    (hrun : p.run later = some (answers, p'))
    (hlater : ∀ t, .reset t ∈ later → ¬SameFamily (calls ++ later) t token) :
    ∃ more, family (calls ++ later) token = family calls token ++ more ∧ .reset ∉ more := by
  obtain ⟨h', rest, hrest⟩ := h.run hrun
  rw [h.length_founders] at htoken
  have hplace := List.getElem?_eq_getElem htoken
  have hplace' : p'.tokens[token]? = some p.tokens[token] := by
    rw [← hrest, List.getElem?_append_left htoken, hplace]
  refine ⟨callsAt p'.tokens p.tokens[token] later, ?_, fun hreset => ?_⟩
  · rw [h'.family_eq hplace', callsAt_append, h.family_eq hplace, ← hrest,
      callsAt_append_tokens h.token_lt]
  · obtain ⟨⟨t, q⟩, he, rfl⟩ := List.mem_map.1 hreset
    obtain ⟨hmem, ht⟩ := List.mem_filter.1 he
    obtain ⟨c, hc, hon⟩ := List.mem_filterMap.1 hmem
    obtain rfl := eq_on_of_on? hon
    exact hlater t hc ((h'.sameFamily_iff hplace' t).2 (of_decide_eq_true ht))

/-- The token is cancelled if the calls on its family noticed so, or if this question does. -/
theorem RecordOf.call_isCancelled (h : RecordOf calls p)
    (htoken : token < (founders calls).length) :
    ∃ b next, p.call (.isCancelled token) = some (.cancelled b, next) ∧
      (b = true ↔ (family calls token).Cancelled ∨ (family calls token).sinceReset.TimedOut) := by
  obtain ⟨next, hnext⟩ := h.exists_call_on htoken .isCancelled
  exact ⟨_, next, hnext, (Signal.shows_after _).isCancelled_iff⟩

/-- The reason is the latest that was given, and who gave it cancelled the token. -/
theorem RecordOf.call_reason (h : RecordOf calls p) (htoken : token < (founders calls).length) :
    ∃ reason next, p.call (.reason token) = some (.reason reason, next) ∧
      (∀ r, reason = some r ↔
        (family calls token).sinceReset.Latest SignalHistory.GivesReason r) ∧
      (reason ≠ none → (family calls token).Cancelled) := by
  have hshows := Signal.shows_after (family calls token)
  obtain ⟨next, hnext⟩ := h.exists_call_on htoken .reason
  refine ⟨_, next, hnext, hshows.reason, fun hgiven => ?_⟩
  obtain ⟨r, hr⟩ := Option.ne_none_iff_exists'.1 hgiven
  exact SignalHistory.someCall_of_latest ((hshows.reason r).1 hr)

/-- Tokens whose families have the same calls behind them cannot be told apart. -/
theorem RecordOf.answer_congr (h : RecordOf calls p) (htoken : token < (founders calls).length)
    {calls' : List TokenCall} {token' : Nat} (h' : RecordOf calls' p')
    (htoken' : token' < (founders calls').length)
    (hsame : family calls' token' = family calls token) (q : SignalCall) :
    ∃ answer, (p.call (q.on token)).map Prod.fst = some answer ∧
      (p'.call (q.on token')).map Prod.fst = some answer := by
  obtain ⟨next, hnext⟩ := h.exists_call_on htoken q
  obtain ⟨next', hnext'⟩ := h'.exists_call_on htoken' q
  refine ⟨_, congrArg _ hnext, ?_⟩
  rw [hnext', hsame]
  rfl

/-- A cancelled token stays so while its family is not reset. -/
theorem RecordOf.stays_cancelled (h : RecordOf calls p) (htoken : token < (founders calls).length)
    (hcancelled : (family calls token).Cancelled) {later : List TokenCall}
    {answers : List TokenAnswer} (hrun : p.run later = some (answers, p'))
    (hlater : ∀ t, .reset t ∈ later → ¬SameFamily (calls ++ later) t token) :
    ∃ next, p'.call (.isCancelled token) = some (.cancelled true, next) := by
  obtain ⟨more, hmore, hnot⟩ := h.family_append htoken hrun hlater
  obtain ⟨h', hprefix⟩ := h.run hrun
  have htoken' : token < (founders (calls ++ later)).length := by
    rw [h.length_founders] at htoken
    rw [h'.length_founders]
    exact htoken.trans_le hprefix.length_le
  obtain ⟨b, next, hnext, hb⟩ := h'.call_isCancelled htoken'
  obtain rfl : b = true := hb.2 (Or.inl (hmore ▸ hcancelled.append hnot))
  exact ⟨next, hnext⟩

/-- What is heard about a token depends on the calls on its family alone. It is cancelled if since
the last reset somebody cancelled it or noticed an expired timeout, or if the latest timeout has
expired, which the question itself then notices. The reason is the latest that was given since the
reset, so there is none on a token that is not cancelled. A cancelled token stays so until a reset
of its family, whatever happens to other tokens. -/
theorem tokens_follow_history {calls : List TokenCall} {answers : List TokenAnswer}
    {p : TokenPool} (hrun : single.run calls = some (answers, p)) {token : Nat}
    (htoken : token < (founders calls).length) :
    let own := family calls token
    (∃ b next, p.call (.isCancelled token) = some (.cancelled b, next) ∧
      (b = true ↔ own.Cancelled ∨ own.sinceReset.TimedOut) ∧
      (b = true ↔ SignalHistory.Cancelled (own ++ [.isCancelled]))) ∧
    (∃ reason next, p.call (.reason token) = some (.reason reason, next) ∧
      (∀ r, reason = some r ↔ own.sinceReset.Latest SignalHistory.GivesReason r) ∧
      (reason ≠ none → own.Cancelled)) ∧
    (∀ calls' answers' p' token', single.run calls' = some (answers', p') →
      token' < (founders calls').length → family calls' token' = own → ∀ q, ∃ answer,
        (p.call (SignalCall.on token q)).map Prod.fst = some answer ∧
        (p'.call (SignalCall.on token' q)).map Prod.fst = some answer) ∧
    (∀ later answers' p', p.run later = some (answers', p') →
      (∀ t, .reset t ∈ later → ¬SameFamily (calls ++ later) t token) → own.Cancelled →
        ∃ next, p'.call (.isCancelled token) = some (.cancelled true, next)) := by
  intro own
  have h : RecordOf calls p := (recordOf_single.run hrun).1
  refine ⟨?_, h.call_reason htoken, fun calls' answers' p' token' hrun' htoken' hsame => ?_,
    fun later answers' p' hlater hreset hcancelled => ?_⟩
  · obtain ⟨b, next, hnext, hb⟩ := h.call_isCancelled htoken
    exact ⟨b, next, hnext, hb, hb.trans SignalHistory.cancelled_question.symm⟩
  · exact h.answer_congr htoken (recordOf_single.run hrun').1 htoken' hsame
  · exact h.stays_cancelled htoken hcancelled hlater hreset

/-- Two families. A clone notices the expired timeout of the first, which is replaced then. The
second is cancelled and reset, and reset once more, which is nothing to the first. -/
theorem tokens_of_two_families :
    let calls : List TokenCall := [.clone 0, .new, .setTimeout 1 0, .isCancelled 0,
      .setTimeout 0 1000, .cancel 2 (some "late"), .reset 2, .cancel 1 none]
    let own : SignalHistory := [.setTimeout 0, .isCancelled, .setTimeout 1000, .cancel none]
    let later : List TokenCall := [.reset 2, .setTimeout 1 1000]
    ∃ answers p answers' p', single.run calls = some (answers, p) ∧ 1 < (founders calls).length ∧
      family calls 1 = own ∧ p.call (.reason 1) = some (.reason (some "Timeout"), p) ∧
      own.Latest SignalHistory.GivesReason "Timeout" ∧ own.Cancelled ∧
      p.run later = some (answers', p') ∧
      ∃ next, p'.call (.isCancelled 1) = some (.cancelled true, next) := by
  intro calls own later
  let s : Signal := ⟨true, some "Timeout", some .distant⟩
  let p : TokenPool := ⟨[s, .clear], [0, 0, 1]⟩
  have hrun : single.run calls = some ([.token 1, .token 2, .done, .cancelled true, .done, .done,
    .done, .done], p) := rfl
  have hlater : p.run later = some ([.done, .done], p) := rfl
  have hreason : p.call (.reason 1) = some (.reason (some "Timeout"), p) := rfl
  have htoken : 1 < (founders calls).length := by decide
  have hown : family calls 1 = own := by decide
  obtain ⟨-, ⟨why, next, hcall, hlatest, hcancelled⟩, -, hkept⟩ := tokens_follow_history hrun htoken
  obtain rfl : why = some "Timeout" := by
    simpa using congrArg (Option.map Prod.fst) (hcall.symm.trans hreason)
  have hfirst : own.Cancelled := hown ▸ hcancelled (by simp)
  refine ⟨_, p, _, p, hrun, htoken, hown, hreason, (hlatest _).1 rfl, hfirst, hlater,
    hkept later _ p hlater ?_ (hown.symm ▸ hfirst)⟩
  intro t ht
  obtain rfl : t = 2 := by simpa [later] using ht
  decide

end TokenPool

end FactEngine
