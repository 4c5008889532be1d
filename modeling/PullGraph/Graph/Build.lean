import PullGraph.Graph.Basic

/-! # Building graphs

Components are added and their ports connected as long as the graph has not started.
A refused call leaves the graph as it was.
-/
namespace PullGraph

/-- A component that could not be set up. -/
structure SetUpError where
  component : String
  cls : String
  cause : Fault
  deriving DecidableEq, Repr

/-- The wording of a failed set-up. -/
def SetUpError.message (e : SetUpError) : String :=
  s!"failed to initialize component '{e.component}' of class '{e.cls}': {e.cause.message}"

/-- The wording when a graph can no longer be changed. -/
def frozenMessage (graph : String) : String :=
  s!"graph '{graph}' is frozen: topology cannot change after execution starts"

/-- Why a component is not added. -/
inductive AddError where
  | frozen (graph : String)
  | schema (e : SchemaError)
  | duplicateName (name : String)
  | setUp (e : SetUpError)
  deriving DecidableEq, Repr

/-- The wording of a refused addition. -/
def AddError.message : AddError → String
  | .frozen graph => frozenMessage graph
  | .schema e => e.message
  | .duplicateName name => s!"graph already contains a component named '{name}'"
  | .setUp e => e.message

/-- Why two ports are not connected. -/
inductive ConnectError where
  | frozen (graph : String)
  | foreignGraph
  | directionMismatch (first second : Direction)
  | unknownPort (component port : String)
  | selfLoop (component : String)
  | alreadyConnected (component port : String)
  deriving DecidableEq, Repr

/-- The wording of a refused connection. -/
def ConnectError.message : ConnectError → String
  | .frozen graph => frozenMessage graph
  | .foreignGraph => "ports belong to different graphs"
  | .directionMismatch first second =>
    s!"expected an output port and an input port, got {first.label} and {second.label}"
  | .unknownPort component port => s!"unknown port '{port}' on component '{component}'"
  | .selfLoop component => s!"component '{component}' cannot be connected to itself"
  | .alreadyConnected component port =>
    s!"port '{port}' of component '{component}' is already connected"

namespace Graph

variable {κ ω : Type}

/-- Whether a component of a class and a name may be added. -/
def mayAdd (g : Graph κ ω) (cls : ComponentClass κ) (name : String) : Except AddError Unit :=
  if g.isFrozen then .error (.frozen g.name)
  else match cls.validate with
    | .error e => .error (.schema e)
    | .ok () => if (g.find? name).isSome then .error (.duplicateName name) else .ok ()

/-- The graph with one more component at its end. -/
def push (g : Graph κ ω) (c : Component κ) : Graph κ ω :=
  { g with
    components := g.components ++ [c]
    sinks := if c.kind = .sink then g.sinks ++ [c.id] else g.sinks }

/-- Adds a component of a class and sets it up. -/
def add [Behavior κ ω] (g : Graph κ ω) (cls : ComponentClass κ) (name : String)
    (settings : Settings) (env : Env ω) : After κ ω (Except AddError ComponentId) :=
  let env := env.note (.adding g.name cls.name name)
  match g.mayAdd cls name with
  | .error e => ⟨.error e, g, env⟩
  | .ok () =>
    let id := g.components.length
    let (result, c, env) := (Component.create g.id id name cls).setUp settings env
    match result with
    | .error cause => ⟨.error (.setUp ⟨name, cls.name, cause⟩), g, env⟩
    | .ok () => ⟨.ok id, g.push c, env.note (.added g.name name id)⟩

/-- Two ports of opposite directions, the output first. -/
def orient (a b : PortHandle) : Except ConnectError (PortHandle × PortHandle) :=
  match a.direction, b.direction with
  | .output, .input => .ok (a, b)
  | .input, .output => .ok (b, a)
  | first, second => .error (.directionMismatch first second)

/-- The component and the port that a handle names. -/
def resolve (g : Graph κ ω) (p : PortHandle) : Except ConnectError (Component κ × Port) :=
  match g.components[p.component]?, g.port? p with
  | some c, some port => .ok (c, port)
  | _, _ => .error (.unknownPort (componentTag p.component) s!"{p.index}")

/-- The connection that two ports would get, with the components and ports that it would
join, output first. -/
def plan (g : Graph κ ω) (a b : PortHandle) :
    Except ConnectError (Connection × (Component κ × Port) × (Component κ × Port)) := do
  if g.isFrozen then throw (.frozen g.name)
  if a.graph ≠ g.id || b.graph ≠ g.id then throw .foreignGraph
  let (output, input) ← orient a b
  let (giver, from_) ← g.resolve output
  let (taker, to_) ← g.resolve input
  if output.component = input.component then throw (.selfLoop giver.name)
  if from_.connection.isSome then throw (.alreadyConnected giver.name from_.name)
  if to_.connection.isSome then throw (.alreadyConnected taker.name to_.name)
  pure (⟨g.connections.length, output, input⟩, (giver, from_), (taker, to_))

/-- Notes at a port that connection `k` ends there. -/
def attach (g : Graph κ ω) (p : PortHandle) (k : Nat) : Graph κ ω :=
  g.modify p.component fun c => c.modifyPort p.index fun port => { port with connection := some k }

/-- The graph with one more connection. -/
def join (g : Graph κ ω) (c : Connection) : Graph κ ω :=
  let g := (g.attach c.output c.id).attach c.input c.id
  { g with connections := g.connections ++ [c] }

/-- Connects an output port and an input port, given in either order. -/
def connect (g : Graph κ ω) (a b : PortHandle) (env : Env ω) :
    After κ ω (Except ConnectError Connection) :=
  let env := env.note (.connecting g.name a b)
  match g.plan a b with
  | .error e => ⟨.error e, g, env⟩
  | .ok (c, (giver, output), (taker, input)) =>
    ⟨.ok c, g.join c,
      env.note (.connected g.name giver.name output.name taker.name input.name)⟩

/-- The handle of a port by the names of its component and itself. -/
def lookUp (g : Graph κ ω) (component port : String) (d : Direction) :
    Except ConnectError PortHandle :=
  match (g.find? component).bind (·.handle? port d) with
  | some p => .ok p
  | none => .error (.unknownPort component port)

/-- Connects the output port `output` of component `giver` to the input port `input` of
component `taker`. -/
def link (g : Graph κ ω) (giver output taker input : String) (env : Env ω) :
    After κ ω (Except ConnectError Connection) :=
  match g.lookUp giver output .output with
  | .error e => ⟨.error e, g, env⟩
  | .ok a =>
    match g.lookUp taker input .input with
    | .error e => ⟨.error e, g, env⟩
    | .ok b => g.connect a b env

end Graph
end PullGraph
