import PullGraph.Registry
import PullGraph.Word

/-! # Standard components

Sources that count or give a list of messages, filters that forward or transform
messages one by one, and sinks that drop or keep them.
-/
namespace PullGraph

/-- The state of a standard component. -/
inductive Standard (ω : Type) where
  /-- Gives the integers from `next` up to, but not including, `stop`. -/
  | counter (next stop : Int64)
  /-- Gives the messages that are left. -/
  | items (rest : List Message)
  /-- Forwards every message. -/
  | passthrough
  /-- Gives what `f` makes of each message, if it makes anything. -/
  | transform (f : Message → Except String (Option Message))
  /-- Drops every message. -/
  | discard
  /-- Puts every message into the shared state. -/
  | collect (store : Message → ω → ω)

namespace Standard

variable {ω : Type}

/-- The kind of a standard component. -/
def kind : Standard ω → Kind
  | .counter .. | .items _ => .source
  | .passthrough | .transform _ => .filter
  | .discard | .collect _ => .sink

/-- The integer under a key; `missing` is the answer when there is none. -/
def integerSetting (settings : Settings) (key : String) (missing : Except Fault Int64) :
    Except Fault Int64 :=
  match settings.get? key with
  | none => missing
  | some (.int n) => .ok n
  | some v => .error (.own s!"'{key}' must be an integer, got {v.kindName}")

/-- How many integers to give, and the first of them. -/
def counterSettings (settings : Settings) : Except Fault (Int64 × Int64) := do
  let count ← integerSetting settings "count" (.error (.own "missing required parameter 'count'"))
  if count < 0 then throw (.own s!"'count' must not be negative, got {count.toInt}")
  let start ← integerSetting settings "start" (.ok 0)
  pure (start, count)

/-- Sets up a counter. It counts from the given start even if the end is out of range. -/
def setUpCounter (settings : Settings) (next stop : Int64) : Except Fault Unit × Standard ω :=
  match counterSettings settings with
  | .error f => (.error f, .counter next stop)
  | .ok (start, count) =>
    match toInt64? (start.toInt + count.toInt) with
    | some stop => (.ok (), .counter start stop)
    | none => (.error (.own "'start' + 'count' overflows"), .counter start stop)

/-- The next message of a source. -/
def emit : Standard ω → Pull × Standard ω
  | .counter next stop =>
    if next < stop then (.message (.int next), .counter (next + 1) stop)
    else (.endOfStream, .counter next stop)
  | .items (m :: rest) => (.message m, .items rest)
  | k => (.endOfStream, k)

/-- The port that the standard filters read. -/
def inputPort : String := "in"

/-- What a filter does when it is asked. A message that it makes nothing of is passed by. -/
def answer : Standard ω → Dialogue (Standard ω) ω
  | .transform f =>
    .pull inputPort fun
      | .ok (.message m) =>
        match f m with
        | .ok (some m) => .reply (.ok (.message m)) (.transform f)
        | .ok none => .retry (.transform f)
        | .error text => .reply (.error (.own text)) (.transform f)
      | r => .reply r (.transform f)
  | k => .pull inputPort fun r => .reply r k

/-- Standard components do not fail, except to be set up and to transform. -/
instance : Behavior (Standard ω) ω where
  setUp settings
    | .counter next stop => pure (setUpCounter settings next stop)
    | k => pure (.ok (), k)
  emit _ k := pure ((emit k).map .ok id)
  answer _ k := answer k
  consume _ m
    | .collect store => do
      Act.modify (store m)
      pure (.ok (), .collect store)
    | k => pure (.ok (), k)
  endOfStream _ k := pure (.ok (), k)
  finalize k := pure (.ok (), k)

/-- The class of a counter. -/
def counterClass : ComponentClass (Standard ω) where
  name := "source.counter"
  kind := .source
  ports := [⟨"out", .output⟩]
  description := some "Emits consecutive integers"
  help := some "Parameters: count (integer, required), start (integer, default 0)"
  blank := .counter 0 0

/-- The class of a filter that forwards. -/
def passthroughClass : ComponentClass (Standard ω) where
  name := "filter.passthrough"
  kind := .filter
  ports := [⟨"in", .input⟩, ⟨"out", .output⟩]
  description := some "Forwards every message unchanged"
  blank := .passthrough

/-- The class of a sink that drops. -/
def discardClass : ComponentClass (Standard ω) where
  name := "sink.discard"
  kind := .sink
  ports := [⟨"in", .input⟩]
  description := some "Drops every message"
  blank := .discard

/-- The classes that every library user has. -/
def classes : List (ComponentClass (Standard ω)) :=
  [counterClass, passthroughClass, discardClass]

/-- A class of sources that give a list of messages. -/
def itemsClass (name : String) (items : List Message) : ComponentClass (Standard ω) where
  name := name
  kind := .source
  ports := [⟨"out", .output⟩]
  blank := .items items

/-- A class of filters that transform messages one by one. -/
def transformClass (name : String) (f : Message → Except String (Option Message)) :
    ComponentClass (Standard ω) where
  name := name
  kind := .filter
  ports := [⟨"in", .input⟩, ⟨"out", .output⟩]
  blank := .transform f

/-- A class of sinks that keep messages in the shared state. -/
def collectClass (name : String) (store : Message → ω → ω) : ComponentClass (Standard ω) where
  name := name
  kind := .sink
  ports := [⟨"in", .input⟩]
  blank := .collect store

end Standard

/-- A registry with the standard classes, their states put into `κ` by `f`. -/
def Registry.withStandard {κ ω : Type} (f : Standard ω → κ) (j : Journal) : Registry κ × Journal :=
  empty.registerAll j (Standard.classes.map (·.map f))

end PullGraph
