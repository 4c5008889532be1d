import PullGraph.Graph.Basic

/-! # Pulling

To pull an input port is to ask the component at the other end of its connection for a
message. A source answers at once; a filter may pull its own input ports first, so a
pull can reach through any number of filters.

A component that is being asked has its inner state taken out until it has answered.
An input port whose stream has ended answers so without asking anybody. The first fault
that a component reports during a pull step is kept in the `Turn`, with the component:
those that had asked it only learn that it failed.

Filters may start over as often as they like, so a pull need not come to an end.
`patience` bounds how often they do and how deep a pull reaches. If it does not suffice
there is no result, and nothing else says so; what was done until then stands in the turn.
-/
namespace PullGraph

/-- A component that failed, and why. -/
structure Failure where
  component : ComponentId
  cause : Fault
  deriving DecidableEq, Repr

/-- A pull step on its way: the graph, its environment, and the first failure. -/
structure Turn (κ ω : Type) where
  graph : Graph κ ω
  env : Env ω
  failure : Option Failure := none

namespace Turn

variable {κ ω : Type}

/-- Puts the inner state of a component in place, or takes it out. -/
def setBehavior (t : Turn κ ω) (id : ComponentId) (k : Option κ) : Turn κ ω :=
  { t with graph := t.graph.modify id fun c => { c with behavior := k } }

/-- Notes that the stream into a port has ended. -/
def markAtEnd (t : Turn κ ω) (id : ComponentId) (index : Nat) : Turn κ ω :=
  { t with graph := t.graph.modify id fun c =>
      c.modifyPort index fun p => { p with atEnd := true } }

/-- Notes that the stream into a port has ended, if an answer says so. -/
def latch (t : Turn κ ω) (id : ComponentId) (index : Nat) (answer : Except Fault Pull) :
    Turn κ ω :=
  match answer with
  | .ok .endOfStream => t.markAtEnd id index
  | _ => t

/-- Writes down a call of a component. -/
def record (t : Turn κ ω) (id : ComponentId) (call : Call) : Turn κ ω :=
  { t with env := t.env.record (.call t.graph.id id call) }

/-- Writes down that the executor itself refused a request. -/
def refuse (t : Turn κ ω) (f : Fault) : Turn κ ω :=
  { t with env := t.env.record (.refused t.graph.id f) }

/-- Keeps a failure, unless there was one before. -/
def blame (t : Turn κ ω) (f : Failure) : Turn κ ω :=
  { t with failure := t.failure.or (some f) }

/-- Performs an act of a component. -/
def perform {α : Type} (t : Turn κ ω) (x : Act ω α) : α × Turn κ ω :=
  let (a, env) := t.env.perform x
  (a, { t with env := env })

end Turn

/-- What a request during a pull step leaves behind. There is no result if patience ran
out; the turn is then as it was at that moment. -/
structure Answer (κ ω α : Type) where
  result : Option α
  turn : Turn κ ω

/-- Goes on with a result, if there is one. -/
@[inline] def Answer.andThen {κ ω α β : Type} (x : Answer κ ω α)
    (next : α → Turn κ ω → Answer κ ω β) : Answer κ ω β :=
  match x with
  | ⟨some a, t⟩ => next a t
  | ⟨none, t⟩ => ⟨none, t⟩

/-- How a filter in a given state is brought to answer for one of its output ports. -/
abbrev Converse (κ ω : Type) :=
  ComponentId → String → κ → Turn κ ω → Answer κ ω (Except Fault Pull × κ)

variable {κ ω : Type} [Behavior κ ω]

/-- A component's own answer for an output port, by its kind. -/
def produce (converse : Converse κ ω) (kind : Kind) (id : ComponentId) (port : String) (k : κ)
    (t : Turn κ ω) : Answer κ ω (Except Fault Pull × κ) :=
  match kind with
  | .source =>
    let (r, t) := t.perform (Behavior.emit port k)
    ⟨some r, t⟩
  | .filter => converse id port k t
  | .sink => ⟨some (.error .sinkWithoutOutputs, k), t.refuse .sinkWithoutOutputs⟩

/-- Takes the answer of a component. Its inner state is put back, and its fault kept. -/
def accept (id : ComponentId) (port : String) (answer : Except Fault Pull) (k : κ)
    (t : Turn κ ω) : Answer κ ω (Except Fault Pull) :=
  let t := (t.setBehavior id (some k)).record id (.answered port answer)
  match answer with
  | .ok pulled => ⟨some (.ok pulled), t⟩
  | .error cause => ⟨some (.error .feederFailed), t.blame ⟨id, cause⟩⟩

/-- Asks a component for a message on one of its output ports. -/
def pullOutput (converse : Converse κ ω) (id : ComponentId) (index : Nat) (t : Turn κ ω) :
    Answer κ ω (Except Fault Pull) :=
  match t.graph.components[id]?, t.graph.portAt? id index with
  | some c, some port =>
    match c.behavior with
    | none => ⟨some (.error (.busy c.name)), t.refuse (.busy c.name)⟩
    | some k =>
      let t := (t.setBehavior id none).record id (.asked port.name)
      (produce converse c.kind id port.name k t).andThen fun (answer, k) t =>
        accept id port.name answer k t
  | _, _ => ⟨some (.error .outputOutOfRange), t.refuse .outputOutOfRange⟩

/-- Pulls an input port, by its position. -/
def pullInput (converse : Converse κ ω) (id : ComponentId) (index : Nat) (t : Turn κ ω) :
    Answer κ ω (Except Fault Pull) :=
  match t.graph.portAt? id index with
  | none => ⟨some (.error .inputOutOfRange), t.refuse .inputOutOfRange⟩
  | some port =>
    if port.atEnd then ⟨some (.ok .endOfStream), t⟩
    else match t.graph.connectionOf? port with
      | none =>
        ⟨some (.error (.inputUnconnected port.name)), t.refuse (.inputUnconnected port.name)⟩
      | some connection =>
        (pullOutput converse connection.output.component connection.output.index t).andThen
          fun answer t => ⟨some answer, t.latch id index answer⟩

/-- Pulls an input port, by its name. -/
def pullNamed (converse : Converse κ ω) (id : ComponentId) (port : String) (t : Turn κ ω) :
    Answer κ ω (Except Fault Pull) :=
  match t.graph.components[id]?.bind (·.portIndex? port .input) with
  | none => ⟨some (.error (.unknownInput port)), t⟩
  | some index => pullInput converse id index t

/-- Pulls an input port until there are `max` messages, it has none, or its stream ends. -/
def pullBatch (converse : Converse κ ω) (id : ComponentId) (port : String) :
    (max : Nat) → Turn κ ω → Answer κ ω (Except Fault Batch)
  | 0, t => ⟨some (.ok ⟨[], false⟩), t⟩
  | max + 1, t =>
    (pullNamed converse id port t).andThen fun
      | .error f, t => ⟨some (.error f), t⟩
      | .ok .again, t => ⟨some (.ok ⟨[], false⟩), t⟩
      | .ok .endOfStream, t => ⟨some (.ok ⟨[], true⟩), t⟩
      | .ok (.message m), t =>
        (pullBatch converse id port max t).andThen fun rest t =>
          ⟨some (rest.map (Batch.cons m)), t⟩

/-- Whether the stream into a named input port has ended. A port that does not exist has
no stream. -/
def isAtEnd (id : ComponentId) (port : String) (t : Turn κ ω) : Bool :=
  ((t.graph.components[id]?.bind (·.portIndex? port .input)).bind (t.graph.portAt? id ·)).any
    (·.atEnd)

/-- How a dialogue ends. -/
inductive Ending (κ : Type) where
  | reply (answer : Except Fault Pull) (next : κ)
  | retry (next : κ)

/-- Leads a filter's dialogue to its end, with `converse` for the filters that it reaches. -/
def Dialogue.play (converse : Converse κ ω) (id : ComponentId) :
    Dialogue κ ω → Turn κ ω → Answer κ ω (Ending κ)
  | .reply answer k, t => ⟨some (.reply answer k), t⟩
  | .retry k, t => ⟨some (.retry k), t⟩
  | .pull port next, t =>
    (pullNamed converse id port t).andThen fun r t => (next r).play converse id t
  | .batch port max next, t =>
    (pullBatch converse id port max t).andThen fun r t => (next r).play converse id t
  | .atEnd port next, t => (next (isAtEnd id port t)).play converse id t
  | .inputs next, t =>
    (next id ((t.graph.components[id]?.map (·.inputNames)).getD [])).play converse id t
  | .look next, t => (next t.env.shared).play converse id t
  | .act step next, t => next.play converse id (t.perform step).2

/-- Brings a filter to answer. Each start of a dialogue, its own or that of a filter it
pulls, costs one unit of patience. -/
def converse : (patience : Nat) → Converse κ ω
  | 0, _, _, _, t => ⟨none, t⟩
  | patience + 1, id, port, k, t =>
    ((Behavior.answer port k).play (converse patience) id t).andThen fun
      | .reply answer k, t => ⟨some (answer, k), t⟩
      | .retry k, t => converse patience id port k t

end PullGraph
