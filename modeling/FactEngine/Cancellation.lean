/-!
# Cancellation

A run is cancelled through a signal that its clients share. `Signal` holds whether the run
is cancelled, the latest reason given, and the deadline of a timeout. The passing of time is
not part of the model : a timeout of zero has expired when it is set, and any other lies
beyond the end of every run.

Nobody watches a deadline. A timeout takes effect when somebody asks whether the signal is
cancelled, so `Signal.isCancelled` answers together with the signal after the question.

A `TokenPool` holds signals and the tokens by which clients reach them. A cloned token
reaches the signal of the token it was cloned from, and a new token a signal of its own.
-/

namespace FactEngine

/-- When a timeout ends. -/
inductive Deadline where
  | passed
  | distant
  deriving DecidableEq

/-- The deadline of a timeout of so many milliseconds. -/
def Deadline.after (ms : Nat) : Deadline :=
  if ms = 0 then passed else distant

/-- The state that all clones of a token share. -/
structure Signal where
  cancelled : Bool
  reason : Option String
  deadline : Option Deadline
  deriving DecidableEq

namespace Signal

/-- The signal that nobody has cancelled. -/
def clear : Signal :=
  ⟨false, none, none⟩

/-- Request cancellation. Without a reason, the reason given before stands. -/
def cancel (s : Signal) (reason : Option String) : Signal :=
  { s with cancelled := true, reason := reason.or s.reason }

/-- Set the timeout. It replaces the one set before. -/
def setTimeout (s : Signal) (ms : Nat) : Signal :=
  { s with deadline := some (.after ms) }

/-- Whether the signal is cancelled. An expired timeout cancels it on being noticed. -/
def isCancelled (s : Signal) : Bool × Signal :=
  if s.cancelled then (true, s)
  else if s.deadline = some .passed then (true, s.cancel (some "Timeout"))
  else (false, s)

end Signal

/-- Signals, and for every token the place of the signal it reaches. -/
structure TokenPool where
  signals : List Signal
  tokens : List Nat
  deriving DecidableEq

namespace TokenPool

/-- The pool of one token with a signal of its own. -/
def single : TokenPool :=
  ⟨[.clear], [0]⟩

/-- Add a token with a signal of its own, and give its number. -/
def new (p : TokenPool) : Nat × TokenPool :=
  (p.tokens.length, ⟨p.signals ++ [.clear], p.tokens ++ [p.signals.length]⟩)

/-- Add a token that reaches the signal of `token`, and give its number. -/
def clone (p : TokenPool) (token : Nat) : Option (Nat × TokenPool) :=
  p.tokens[token]?.map fun place =>
    (p.tokens.length, { p with tokens := p.tokens ++ [place] })

/-- Let `f` answer from the signal of a token and change it. -/
def update {α : Type} (p : TokenPool) (token : Nat) (f : Signal → α × Signal) :
    Option (α × TokenPool) :=
  p.tokens[token]?.bind fun place =>
    p.signals[place]?.map fun s =>
      ((f s).1, { p with signals := p.signals.set place (f s).2 })

end TokenPool

/-- A question or request of a client. -/
inductive TokenCall where
  | new
  | clone (token : Nat)
  | cancel (token : Nat) (reason : Option String)
  | setTimeout (token : Nat) (ms : Nat)
  | isCancelled (token : Nat)
  | reason (token : Nat)
  | reset (token : Nat)
  deriving DecidableEq

/-- What a client hears. -/
inductive TokenAnswer where
  | token (number : Nat)
  | done
  | cancelled (answer : Bool)
  | reason (answer : Option String)
  deriving DecidableEq

namespace TokenPool

/-- Answer one call. There is no answer about a token that was never given out. -/
def call (p : TokenPool) : TokenCall → Option (TokenAnswer × TokenPool)
  | .new => some (.token p.new.1, p.new.2)
  | .clone token => (p.clone token).map fun (n, p) => (.token n, p)
  | .cancel token reason => p.update token fun s => (.done, s.cancel reason)
  | .setTimeout token ms => p.update token fun s => (.done, s.setTimeout ms)
  | .isCancelled token => p.update token fun s => (.cancelled s.isCancelled.1, s.isCancelled.2)
  | .reason token => p.update token fun s => (.reason s.reason, s)
  | .reset token => p.update token fun _ => (.done, .clear)

/-- Answer calls one after another, up to the first that has no answer. -/
def run (p : TokenPool) : List TokenCall → Option (List TokenAnswer × TokenPool)
  | [] => some ([], p)
  | c :: cs =>
    (p.call c).bind fun (a, p) => (p.run cs).map fun (as, p) => (a :: as, p)

end TokenPool

end FactEngine
