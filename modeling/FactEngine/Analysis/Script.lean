import FactEngine.Analysis.Fill

/-!
# Scripts

A script is a population step written down as data : commands, done one after another. Every
command either observes something or fails. The outcome is noted in the journal, and
a failure ends the script unless the command is marked to be caught. Contexts that are to be
added to a failure are added before it is noted.

Commands write to a `Sink`. The script of a relation's own descriptor has that relation in
hand : it writes to it as `Sink.own`, and does not find it among the outputs that it can ask
for by name.

Labels can be copied into a domain of any fact type, where each stands for the fact that has
it (`FactType.ofLabel?`). If one of them tells no fact of that type, the domain is refused
as one that is not of texts.

`Script.fill` is the population step of a script. Each command is taken apart into actions,
and goes on with its outcome (`Command.fill`).
-/

namespace FactEngine

/-- Where a command writes. -/
inductive Sink where
  /-- The relation that the script has in hand. -/
  | own
  | output (name : String)
  deriving DecidableEq

/-- Where a list of names comes from. -/
inductive NameList where
  | given (list : String)
  /-- The value of a property; the empty list if it is not set. -/
  | property (key : String)
  deriving DecidableEq

/-- What a script can do in one step. -/
inductive Command where
  /-- Intern facts in an output domain. -/
  | intern (sink : Sink) (t : FactType) (fs : List t.Carrier)
  /-- Observe the size of an output domain. -/
  | outputSize (sink : Sink) (t : FactType)
  /-- Add tuples to an output relation. -/
  | add (sink : Sink) (ts : List Tuple)
  /-- Fill an output relation from a list of names. -/
  | select (sink : Sink) (names : NameList) (delimiter : Char)
  /-- Add the tuples of a consumed relation to an output relation. -/
  | copy (source : String) (sink : Sink)
  /-- Intern the facts that have the labels of a consumed domain in an output domain. -/
  | copyLabels (source : String) (sink : Sink) (t : FactType)
  /-- Observe a consumed artifact. -/
  | input (name : String)
  /-- Read a consumed domain. -/
  | domain (name : String)
  /-- Read a consumed domain with its facts. -/
  | facts (name : String) (t : FactType)
  /-- Read the labels of a consumed domain in ascending order. -/
  | nameIndex (name : String)
  /-- Read a consumed relation. -/
  | relation (name : String)
  /-- Observe the value of a property. -/
  | property (key : String)
  /-- Observe the names of the descriptor and of the strategy. -/
  | identity
  /-- Observe the status of a target. -/
  | status (name : String)
  /-- Cancel the run. -/
  | cancel (reason : Option String)
  /-- Fail with a message. -/
  | fail (message : String)
  /-- Fail with an error of the engine. -/
  | raise (e : Error)

/-- A command with what is done about its failure. -/
structure ScriptStep where
  command : Command
  /-- Whether the script goes on after a failure. -/
  caught : Bool
  /-- Contexts to put around a failure, innermost first. -/
  contexts : List String

/-- Commands, done from the first to the last. -/
structure Script where
  /-- The relation that the script has in hand. -/
  own : Option String
  steps : List ScriptStep

namespace Command

/-- What became of a command. -/
abbrev Outcome := Except Failure Observation

/-- What became of a command that ends with a reply. -/
def outcome {α : Type} (observe : α → Observation) : Except Error α → Outcome
  | .ok a => .ok (observe a)
  | .error e => .error (.ofError e)

/-- The name of the output that a sink stands for, where `own` is in hand. -/
def target (own : Option String) : Sink → Except Error String
  | .own => .ok (own.getD "")
  | .output name =>
    if own = some name then .error (.unknownTarget name own) else .ok name

/-- Go on with the name of the output, or with the failure to find it. -/
def withTarget (own : Option String) (sink : Sink) (next : Outcome → Fill)
    (act : String → Fill) : Fill :=
  match target own sink with
  | .ok name => act name
  | .error e => next (.error (.ofError e))

/-- Go on with a value, or with the failure to have it. -/
def withReply {α : Type} (next : Outcome → Fill) (act : α → Fill) : Except Error α → Fill
  | .ok a => act a
  | .error e => next (.error (.ofError e))

/-- Go on with the text of a list of names. -/
def withNames (names : NameList) (act : String → Fill) : Fill :=
  match names with
  | .given list => act list
  | .property key => .step .config fun c => act (c.propertyOr key "")

/-- Do a command, and go on with its outcome. -/
def fill (own : Option String) (next : Outcome → Fill) : Command → Fill
  | intern sink t fs =>
    withTarget own sink next fun out =>
      .step (.intern out t fs) fun r => next (outcome .indices r)
  | outputSize sink t =>
    withTarget own sink next fun out =>
      .step (.outputDomain out t) fun r => next (outcome (fun d => .count d.size) r)
  | add sink ts =>
    withTarget own sink next fun out =>
      .step (.add out ts) fun r => next (outcome .count r)
  | select sink names delimiter =>
    withNames names fun list =>
      withTarget own sink next fun out =>
        .step (.select out list delimiter) fun r => next (outcome .report r)
  | copy source sink =>
    .step (.readRelation source) <| withReply next fun r =>
      withTarget own sink next fun out =>
        .step (.add out r.tuples) fun r => next (outcome .count r)
  | copyLabels source sink t =>
    .step (.readDomain source) <| withReply next fun d =>
      withTarget own sink next fun out =>
        match d.labels.mapM t.ofLabel? with
        | some fs => .step (.intern out t fs) fun r => next (outcome .indices r)
        | none => next (.error (.ofError (.typeMismatch out (.domainOf .text))))
  | input name => .step (.input name) fun r => next (outcome .artifact r)
  | domain name => .step (.readDomain name) fun r => next (outcome .domain r)
  | facts name t =>
    .step (.readFacts name t) fun r => next (outcome (fun d => .facts t d.facts) r)
  | nameIndex name =>
    .step (.readDomain name) fun r => next (outcome (fun d => .nameIndex d.nameIndex) r)
  | relation name => .step (.readRelation name) fun r => next (outcome .relation r)
  | property key => .step .config fun c => next (.ok (.property (c.property key)))
  | identity =>
    .step .whoami fun name => .step .config fun c => next (.ok (.identity name c.strategy))
  | status name => .step (.status name) fun s => next (.ok (.status s))
  | cancel reason => .step (.cancel reason) fun _ => next (.ok .nothing)
  | fail message => next (.error (.ofMessage message))
  | raise e => next (.error (.ofError e))

end Command

/-- Note the outcome of a step, and go on unless it ends the script. -/
def ScriptStep.conclude (s : ScriptStep) (next : Fill) : Command.Outcome → Fill
  | .ok o => .step (.note (.observed o)) fun _ => next
  | .error f =>
    let f := s.contexts.foldl (fun f c => f.within c) f
    .step (.note (.failed f)) fun _ => if s.caught then next else .fail f

/-- Do one step and go on. -/
def ScriptStep.fill (own : Option String) (s : ScriptStep) (next : Fill) : Fill :=
  s.command.fill own (s.conclude next)

/-- The population step that does a script. -/
def Script.fill (s : Script) : Fill :=
  .step (.note .started) fun _ => s.steps.foldr (ScriptStep.fill s.own) .finish

end FactEngine
