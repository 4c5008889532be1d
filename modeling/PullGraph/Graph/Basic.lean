import PullGraph.Journal

/-! # Graphs

A graph holds its components in order of creation, the connections between their ports,
the positions of its sinks, and how far its run has come. What lies outside of all
graphs (the state that components share, the cancelled runs, the journal) is its
environment, `Env`.
-/
namespace PullGraph

/-- What graphs share. -/
structure Env (ω : Type) where
  /-- The state that components share. -/
  shared : ω
  /-- The graphs whose runs have been cancelled. -/
  cancelled : List GraphId := []
  /-- The identity of the next graph. -/
  nextGraph : GraphId := 1
  journal : Journal := {}

namespace Env

variable {ω α : Type}

/-- Writes an event into the journal. -/
def record (env : Env ω) (e : Event) : Env ω := { env with journal := env.journal.record e }

/-- Tells people something. -/
def note (env : Env ω) (n : Notice) : Env ω := env.record (.notice n)

/-- Performs an act on the shared state, and the cancellations it asks for. -/
def perform (env : Env ω) (x : Act ω α) : α × Env ω :=
  let e := x env.shared
  (e.value, { env with shared := e.shared, cancelled := e.cancels ++ env.cancelled })

/-- Cancels the run of a graph. -/
def cancel (env : Env ω) (graph : GraphId) : Env ω :=
  { env with cancelled := graph :: env.cancelled }

/-- Whether the run of a graph has been cancelled. -/
def isCancelled (env : Env ω) (graph : GraphId) : Bool := env.cancelled.contains graph

end Env

/-- How far a component has come. -/
inductive RunState where
  | created
  | initialized
  | running
  | finalized
  deriving DecidableEq, Repr

/-- A component of a graph. -/
structure Component (κ : Type) where
  graph : GraphId
  id : ComponentId
  name : String
  cls : ComponentClass κ
  state : RunState
  ports : List Port
  /-- The inner state; away while the component is being called. -/
  behavior : Option κ

namespace Component

variable {κ ω : Type}

/-- A new component of a class. -/
def create (graph : GraphId) (id : ComponentId) (name : String) (cls : ComponentClass κ) :
    Component κ where
  graph := graph
  id := id
  name := name
  cls := cls
  state := .created
  ports := cls.ports.map fun p => { name := p.name, direction := p.direction }
  behavior := some cls.blank

/-- The kind of a component is that of its class. -/
def kind (c : Component κ) : Kind := c.cls.kind

/-- The names of the input ports, in order of declaration. -/
def inputNames (c : Component κ) : List String :=
  (c.ports.filter (·.direction = .input)).map (·.name)

/-- The position of the first port with a name and a direction. -/
def portIndex? (c : Component κ) (name : String) (d : Direction) : Option Nat :=
  c.ports.findIdx? fun p => p.direction = d && p.name = name

/-- The handle of a port by its position. -/
def handleAt? (c : Component κ) (index : Nat) : Option PortHandle :=
  c.ports[index]?.map fun p => ⟨c.graph, c.id, index, p.direction⟩

/-- The handle of a port by its name and direction. -/
def handle? (c : Component κ) (name : String) (d : Direction) : Option PortHandle :=
  (c.portIndex? name d).bind c.handleAt?

/-- The positions of the input ports whose streams have not ended. -/
def pending (c : Component κ) : List Nat :=
  c.ports.zipIdx.filterMap fun (p, i) =>
    if p.direction = .input && !p.atEnd then some i else none

/-- Changes the port at a position. -/
def modifyPort (c : Component κ) (index : Nat) (f : Port → Port) : Component κ :=
  { c with ports := c.ports.modify index f }

/-- The fault of a call that has one. -/
def faultOf {α : Type} : Except Fault α → Option Fault
  | .error f => some f
  | .ok _ => none

/-- Sets up a new component from settings. It counts as set up unless it fails. -/
def setUp [Behavior κ ω] (c : Component κ) (settings : Settings) (env : Env ω) :
    Except Fault Unit × Component κ × Env ω :=
  let env := env.note (.settingUp c.name)
  match c.behavior with
  | none => (.ok (), c, env)
  | some k =>
    let ((result, k), env) := env.perform (Behavior.setUp settings k)
    let env := env.record (.call c.graph c.id (.setUp (faultOf result)))
    let state := if (faultOf result).isNone then .initialized else c.state
    (result, { c with behavior := some k, state := state }, env)

/-- Takes part in the run that starts. -/
def start (c : Component κ) : Component κ :=
  if c.state = .initialized then { c with state := .running } else c

/-- Finalizes a component, unless it has been. It counts as finalized even if it fails. -/
def finalize [Behavior κ ω] (c : Component κ) (env : Env ω) :
    Option Fault × Component κ × Env ω :=
  if c.state = .finalized then (none, c, env)
  else
    let env := env.note (.finalizing c.name)
    match c.behavior with
    | none => (none, { c with state := .finalized }, env)
    | some k =>
      let ((result, k), env) := env.perform (Behavior.finalize k)
      let env := env.record (.call c.graph c.id (.finalized (faultOf result)))
      (faultOf result, { c with behavior := some k, state := .finalized }, env)

end Component

/-- How far a graph has come. -/
inductive GraphState where
  /-- Components and connections can still be added. -/
  | configuring
  | running
  /-- Every stream has reached its sink's end. -/
  | finished
  | cancelled
  /-- A component failed, or nothing moved for too long. -/
  | faulted
  | tornDown
  deriving DecidableEq, Repr

/-- The counters of a run. -/
structure Stats where
  rounds : UInt64 := 0
  /-- Messages handed to sinks. -/
  messages : UInt64 := 0
  /-- Rounds in a row, up to now, in which nothing moved. -/
  idleRounds : UInt32 := 0
  /-- Whether the run has started. -/
  started : Bool := false
  deriving DecidableEq, Repr

/-- How long to wait after a number of idle rounds in a row; `none` gives up. -/
structure Policy (ω : Type) where
  delay : UInt32 → Act ω (Option Duration)

/-- A backoff as a policy. -/
def Backoff.policy {ω : Type} (b : Backoff) : Policy ω := ⟨fun idle => pure (b.delay idle)⟩

/-- A graph of components. -/
structure Graph (κ ω : Type) where
  id : GraphId
  name : String
  components : List (Component κ) := []
  connections : List Connection := []
  /-- The positions of the sinks, in order of creation. -/
  sinks : List ComponentId := []
  state : GraphState := .configuring
  policy : Policy ω
  stats : Stats := {}

/-- What a call on a graph leaves behind. -/
structure After (κ ω α : Type) where
  result : α
  graph : Graph κ ω
  env : Env ω

/-- The same with another result. -/
def After.map {κ ω α β : Type} (f : α → β) (x : After κ ω α) : After κ ω β :=
  ⟨f x.result, x.graph, x.env⟩

namespace Graph

variable {κ ω : Type}

/-- A new graph without components, and the environment that knows of it. -/
def create (name : String) (config : RunConfig) (env : Env ω) : Graph κ ω × Env ω :=
  let env := env.note (.creating name config)
  ({ id := env.nextGraph, name := name, policy := config.backoff.policy },
    { env with nextGraph := env.nextGraph + 1 })

/-- Whether components and connections can no longer be added. -/
def isFrozen (g : Graph κ ω) : Bool := g.state ≠ .configuring

/-- The component of a name. -/
def find? (g : Graph κ ω) (name : String) : Option (Component κ) :=
  g.components.find? (·.name = name)

/-- The port at a position of the component at a position. -/
def portAt? (g : Graph κ ω) (component index : Nat) : Option Port :=
  g.components[component]?.bind (·.ports[index]?)

/-- The port that a handle names, if it belongs to this graph. -/
def port? (g : Graph κ ω) (p : PortHandle) : Option Port :=
  if p.graph = g.id then g.portAt? p.component p.index else none

/-- The port at the other end of a port's connection. -/
def peer? (g : Graph κ ω) (p : PortHandle) : Option PortHandle := do
  let port ← g.port? p
  let connection ← g.connections[← port.connection]?
  connection.peerOf p

/-- Changes the component at a position. -/
def modify (g : Graph κ ω) (id : ComponentId) (f : Component κ → Component κ) : Graph κ ω :=
  { g with components := g.components.modify id f }

/-- The connection that ends at a port. -/
def connectionOf? (g : Graph κ ω) (p : Port) : Option Connection :=
  p.connection.bind (g.connections[·]?)

end Graph
end PullGraph
