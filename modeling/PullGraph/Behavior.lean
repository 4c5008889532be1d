import PullGraph.Fault
import PullGraph.Message
import PullGraph.Settings

/-! # How components behave

The inner states of components form a type `κ`, and the class `Behavior κ ω` says how
each of them reacts when it is set up, asked for a message, handed one, told that a
stream ended, or finalized. All components of a graph have states in one `κ`; two
families of components stand in one graph as the sum of their types.

Components may share a state of type `ω` with each other and with whoever runs the
graph, and they may cancel runs. Both go through `Act`. A cancelled run stays
cancelled: an act can only add to the cancellations.

A source or a sink reacts in one act. A filter that is asked for a message may pull
its own inputs first. What it does is a `Dialogue` with the executor: a finite tree of
requests, each with the continuation for every answer. A dialogue may end in `retry`,
which starts it over in a new state, so a filter may go on for as long as its inputs
have messages. A pull, once made, is played to its end before the filter goes on. A filter
that starts a pull and abandons it while it is pending is not modelled.
-/
namespace PullGraph

/-- The identity of a graph. -/
abbrev GraphId := Nat

/-- The position of a component in its graph, in order of creation. -/
abbrev ComponentId := Nat

/-- What an act leaves behind: its value, the shared state, and the runs to cancel. -/
structure Effect (ω α : Type) where
  value : α
  shared : ω
  cancels : List GraphId

/-- Something done to the state that components share. -/
def Act (ω α : Type) : Type := ω → Effect ω α

namespace Act

variable {ω α β : Type}

/-- Does nothing. -/
def pure (a : α) : Act ω α := fun w => ⟨a, w, []⟩

/-- One act after another. -/
def bind (x : Act ω α) (f : α → Act ω β) : Act ω β := fun w =>
  let first := x w
  let second := f first.value first.shared
  ⟨second.value, second.shared, first.cancels ++ second.cancels⟩

/-- Acts follow each other. -/
instance : Monad (Act ω) where
  pure := pure
  bind := bind

/-- The shared state. -/
def read : Act ω ω := fun w => ⟨w, w, []⟩

/-- Changes the shared state. -/
def modify (f : ω → ω) : Act ω Unit := fun w => ⟨(), f w, []⟩

/-- Cancels the runs of the given graphs. -/
def cancel (graphs : List GraphId) : Act ω Unit := fun w => ⟨(), w, graphs⟩

end Act

/-- What a filter does until it has an answer. -/
inductive Dialogue (κ ω : Type) where
  /-- Answers, and goes on in state `next`. -/
  | reply (answer : Except Fault Pull) (next : κ)
  /-- Starts over in state `next`. -/
  | retry (next : κ)
  /-- Pulls an input port. -/
  | pull (port : String) (next : Except Fault Pull → Dialogue κ ω)
  /-- Pulls up to `max` messages from an input port. -/
  | batch (port : String) (max : Nat) (next : Except Fault Batch → Dialogue κ ω)
  /-- Asks whether an input port has reached the end of its stream. -/
  | atEnd (port : String) (next : Bool → Dialogue κ ω)
  /-- Asks for the filter's own position and the names of its input ports. -/
  | inputs (next : ComponentId → List String → Dialogue κ ω)
  /-- Looks at the shared state. -/
  | look (next : ω → Dialogue κ ω)
  /-- Acts on the shared state. -/
  | act (step : Act ω Unit) (next : Dialogue κ ω)

namespace Dialogue

variable {κ κ' ω : Type}

/-- The dialogue with every state renamed. -/
def map (f : κ → κ') : Dialogue κ ω → Dialogue κ' ω
  | .reply answer k => .reply answer (f k)
  | .retry k => .retry (f k)
  | .pull port next => .pull port fun r => (next r).map f
  | .batch port max next => .batch port max fun r => (next r).map f
  | .atEnd port next => .atEnd port fun b => (next b).map f
  | .inputs next => .inputs fun i names => (next i names).map f
  | .look next => .look fun w => (next w).map f
  | .act step next => .act step (next.map f)

end Dialogue

/-- How components whose states are in `κ` behave among a shared state `ω`. -/
class Behavior (κ : Type) (ω : outParam Type) where
  /-- Prepares a component from its settings. -/
  setUp : Settings → κ → Act ω (Except Fault Unit × κ)
  /-- A source's next message for an output port. -/
  emit : String → κ → Act ω (Except Fault Pull × κ)
  /-- A filter's way to its next message for an output port. -/
  answer : String → κ → Dialogue κ ω
  /-- A sink takes a message from an input port. -/
  consume : String → Message → κ → Act ω (Except Fault Unit × κ)
  /-- A sink learns that an input port has reached the end of its stream. -/
  endOfStream : String → κ → Act ω (Except Fault Unit × κ)
  /-- Releases what a component holds. -/
  finalize : κ → Act ω (Except Fault Unit × κ)

namespace Behavior

variable {κ κ' ω : Type}

/-- A reaction with its state renamed. -/
def rename {α : Type} (f : κ → κ') (x : Act ω (α × κ)) : Act ω (α × κ') := do
  let (a, k) ← x
  pure (a, f k)

/-- Two families of components in one graph. -/
instance [Behavior κ ω] [Behavior κ' ω] : Behavior (κ ⊕ κ') ω where
  setUp s
    | .inl k => rename .inl (setUp s k)
    | .inr k => rename .inr (setUp s k)
  emit p
    | .inl k => rename .inl (emit p k)
    | .inr k => rename .inr (emit p k)
  answer p
    | .inl k => (answer p k).map .inl
    | .inr k => (answer p k).map .inr
  consume p m
    | .inl k => rename .inl (consume p m k)
    | .inr k => rename .inr (consume p m k)
  endOfStream p
    | .inl k => rename .inl (endOfStream p k)
    | .inr k => rename .inr (endOfStream p k)
  finalize
    | .inl k => rename .inl (finalize k)
    | .inr k => rename .inr (finalize k)

end Behavior
end PullGraph
