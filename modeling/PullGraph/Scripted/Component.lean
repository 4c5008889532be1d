import PullGraph.Scripted.Bench

/-! # Scripted components

A scripted component does what its script says and writes every call down on the bench.
Lines start with what happened and the label of the component.
-/
namespace PullGraph

/-- What a scripted source gives. -/
inductive Item where
  | message (m : Message)
  | again
  | endOfStream
  | fail (text : String)
  /-- Cancels a run, then goes on with another item. -/
  | cancel (inner : Item)
  deriving Inhabited

/-- What a scripted filter does. -/
inductive Action where
  /-- Answers with what an input port gives. -/
  | pull (port : String)
  /-- Pulls an input port, keeps a message in hand and survives a fault. -/
  | tryPull (port : String)
  /-- Pulls up to `max` messages and keeps them in hand. -/
  | batch (port : String) (max : Nat)
  /-- Writes down the input ports. -/
  | ports
  /-- Writes down whether a stream has ended. -/
  | atEnd (port : String)
  /-- Answers with the end of the stream if that of an input port has ended. -/
  | skipAtEnd (port : String)
  /-- Answers with the first message in hand, if there is one. -/
  | held
  | emit (m : Message)
  | again
  | endOfStream
  | fail (text : String)
  | cancel

/-- What a scripted sink does with an arrival. -/
inductive Reaction where
  | accept
  | cancel
  | fail (text : String)

/-- The script of a component, and how far it has come. -/
inductive Script where
  /-- Gives the items in turn, then `last` for ever. -/
  | source (items : List Item) (last : Item) (pulls : Nat)
  /-- Follows the action lists in turn, over and over. -/
  | filter (program : List (List Action)) (pulls : Nat)
  /-- Takes messages from its input ports in turn. -/
  | merge (turn : Nat)
  /-- Reacts to messages in turn, and to the end of the stream of each port. -/
  | sink (reactions : List Reaction) (ends : List (String × Reaction)) (consumed : Nat)

/-- A scripted component. -/
structure Scripted where
  label : String
  /-- The fault with which its set-up fails. -/
  failSetUp : Option String := none
  /-- The fault with which its finalization fails. -/
  failFinalize : Option String := none
  /-- The place of the graph whose run it cancels. -/
  cancels : String := "g"
  script : Script

namespace Scripted

/-- The kind of a scripted component. -/
def kind (k : Scripted) : Kind :=
  match k.script with
  | .source .. => .source
  | .filter .. | .merge _ => .filter
  | .sink .. => .sink

/-- Succeeds, or fails with a text if there is one. -/
def verdict : Option String → Except Fault Unit
  | none => .ok ()
  | some text => .error (.own text)

/-- What a pull gave, as it is written down. -/
def pullText : Pull → String
  | .message m => textOf (Json.writeMessage m)
  | .again => "again"
  | .endOfStream => "eos"

/-- Takes its label from the settings and writes down all of them. -/
def setUp (settings : Settings) (k : Scripted) : Act Bench (Except Fault Unit × Scripted) := do
  let label := ((settings.get? "label").bind Value.text?).getD k.label
  Bench.write s!"init:{label} {textOf (Json.writeSettings settings)}"
  pure (verdict k.failSetUp, { k with label := label })

/-- Does what an item says. -/
def give (place : String) : Item → Act Bench (Except Fault Pull)
  | .message m => pure (.ok (.message m))
  | .again => pure (.ok .again)
  | .endOfStream => pure (.ok .endOfStream)
  | .fail text => pure (.error (.own text))
  | .cancel inner => do
    Bench.cancel place
    give place inner

/-- A source's next item. -/
def emit (port : String) (k : Scripted) : Act Bench (Except Fault Pull × Scripted) := do
  Bench.write s!"pull:{k.label}.{port}"
  match k.script with
  | .source items last pulls =>
    let answer ← give k.cancels (items[pulls]?.getD last)
    pure (answer, { k with script := .source items last (pulls + 1) })
  | _ => pure (.ok .endOfStream, k)

/-- Writes a line in the course of a dialogue. -/
def tell (line : String) (next : Dialogue Scripted Bench) : Dialogue Scripted Bench :=
  .act (Bench.write line) next

/-- Follows actions, with the given messages in hand. Past the last one there is no
message yet. -/
def follow (k : Scripted) : List Action → (held : List Message) → Dialogue Scripted Bench
  | [], _ => .reply (.ok .again) k
  | .pull port :: _, _ => .pull port fun r => .reply r k
  | .tryPull port :: rest, held =>
    .pull port fun
      | .ok pulled =>
        tell s!"got:{k.label}.{port} {pullText pulled}"
          (follow k rest (held ++ pulled.message?.toList))
      | .error f => tell s!"caught:{k.label}.{port} {f.message}" (follow k rest held)
  | .batch port max :: rest, held =>
    .batch port max fun
      | .ok b =>
        let messages := textOf (Json.writeArray (b.messages.map Json.writeMessage))
        tell s!"batch:{k.label}.{port} {messages} {describeBool b.endOfStream}"
          (follow k rest (held ++ b.messages))
      | .error f => .reply (.error f) k
  | .ports :: rest, held =>
    .inputs fun id names =>
      let listed := textOf (Json.writeArray (names.map Json.writeText))
      tell s!"ports:{k.label} {componentTag id} {listed}" (follow k rest held)
  | .atEnd port :: rest, held =>
    .atEnd port fun b => tell s!"at_end:{k.label}.{port} {describeBool b}" (follow k rest held)
  | .skipAtEnd port :: rest, held =>
    .atEnd port fun b => if b then .reply (.ok .endOfStream) k else follow k rest held
  | .held :: rest, held =>
    match held with
    | m :: _ => .reply (.ok (.message m)) k
    | [] => follow k rest []
  | .emit m :: _, _ => .reply (.ok (.message m)) k
  | .again :: _, _ => .reply (.ok .again) k
  | .endOfStream :: _, _ => .reply (.ok .endOfStream) k
  | .fail text :: _, _ => .reply (.error (.own text)) k
  | .cancel :: rest, held => .act (Bench.cancel k.cancels) (follow k rest held)

/-- Asks up to `count` input ports in turn for a message. Those whose streams have ended
are passed by. -/
def mergeFrom (k : Scripted) (names : List String) : (count turn : Nat) → Dialogue Scripted Bench
  | 0, turn => .reply (.ok .endOfStream) { k with script := .merge turn }
  | count + 1, turn =>
    let port := (names[turn % names.length]?).getD ""
    .atEnd port fun
      | true => mergeFrom k names count (turn + 1)
      | false =>
        .pull port fun
          | .ok .endOfStream => mergeFrom k names count (turn + 1)
          | r => .reply r { k with script := .merge (turn + 1) }

/-- What a filter does when it is asked. -/
def answer (port : String) (k : Scripted) : Dialogue Scripted Bench :=
  tell s!"pull:{k.label}.{port}" <|
    match k.script with
    | .filter program pulls =>
      let next := { k with script := .filter program (pulls + 1) }
      follow next ((program[pulls % program.length]?).getD []) []
    | .merge turn => .inputs fun _ names => mergeFrom k names names.length turn
    | _ => .reply (.ok .again) k

/-- Does what a reaction says. -/
def react (place : String) : Option Reaction → Act Bench (Except Fault Unit)
  | some .cancel => do
    Bench.cancel place
    pure (.ok ())
  | some (.fail text) => pure (.error (.own text))
  | _ => pure (.ok ())

/-- Reacts to a message. -/
def consume (port : String) (m : Message) (k : Scripted) :
    Act Bench (Except Fault Unit × Scripted) := do
  Bench.write s!"consume:{k.label}.{port} {textOf (Json.writeMessage m)}"
  match k.script with
  | .sink reactions ends consumed =>
    let result ← react k.cancels reactions[consumed]?
    pure (result, { k with script := .sink reactions ends (consumed + 1) })
  | _ => pure (.ok (), k)

/-- Reacts to the end of a stream. -/
def endOfStream (port : String) (k : Scripted) : Act Bench (Except Fault Unit × Scripted) := do
  Bench.write s!"eos:{k.label}.{port}"
  match k.script with
  | .sink _ ends _ => pure (← react k.cancels (ends.lookup port), k)
  | _ => pure (.ok (), k)

/-- Writes down its end. -/
def finalize (k : Scripted) : Act Bench (Except Fault Unit × Scripted) := do
  Bench.write s!"finalize:{k.label}"
  pure (verdict k.failFinalize, k)

/-- Scripted components behave as their scripts say and write down every call. -/
instance : Behavior Scripted Bench where
  setUp := setUp
  emit := emit
  answer := answer
  consume := consume
  endOfStream := endOfStream
  finalize := finalize

/-- A class of scripted components. -/
def componentClass (name : String) (k : Scripted) : ComponentClass Scripted where
  name := name
  kind := k.kind
  blank := k

end Scripted
end PullGraph
