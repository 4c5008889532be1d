import PullGraph.Graph.Port
import PullGraph.RunConfig
import PullGraph.Schema

/-! # Descriptions

Values of the library as text for people: a record is its name and its fields between
braces. The number of a graph says nothing to a reader and is left out.
-/
namespace PullGraph

/-- A record with its fields. -/
def describeRecord (name : String) (fields : List (String × String)) : String :=
  name ++ " \x7b " ++ ", ".intercalate (fields.map fun (k, v) => k ++ ": " ++ v) ++ " \x7d"

/-- A list of descriptions. -/
def describeList (items : List String) : String := "[" ++ ", ".intercalate items ++ "]"

/-- A value that may be missing. -/
def describeOption : Option String → String
  | none => "None"
  | some s => "Some(" ++ s ++ ")"

/-- A truth value. -/
def describeBool (b : Bool) : String := if b then "true" else "false"

/-- The identity of a graph, which is not shown. -/
def describeGraphId : String := "GraphId(_)"

/-- The identity of a component. -/
def describeComponentId (id : ComponentId) : String := s!"ComponentId({id})"

/-- The short name of a component's identity. -/
def componentTag (id : ComponentId) : String := s!"#{id}"

/-- A configuration, all fields shown. -/
def RunConfig.describe (c : RunConfig) : String :=
  describeRecord "ExecutorConfig"
    [("initial_backoff_ms", s!"{c.initialMillis.toNat}"),
     ("max_backoff_ms", s!"{c.maxMillis.toNat}"),
     ("max_idle_rounds", describeOption (c.maxIdleRounds.map fun n => s!"{n.toNat}"))]

/-- A handle by what it names. -/
def PortHandle.describe (p : PortHandle) : String :=
  describeRecord "PortId"
    [("graph", describeGraphId), ("component", describeComponentId p.component),
     ("index", s!"{p.index}"), ("direction", p.direction.title)]

/-- A connection with the handles of both ends. -/
def Connection.describe (c : Connection) : String :=
  describeRecord "Connection"
    [("id", s!"ConnectionId({c.id})"), ("upstream", c.output.describe),
     ("downstream", c.input.describe)]

/-- A declared port. -/
def PortSpec.describe (p : PortSpec) : String :=
  describeRecord "PortDescriptor"
    [("name", Text.quoted p.name), ("direction", p.direction.title)]

/-- A class by its ports; of its own queries only that there are any. -/
def ComponentClass.describe {κ : Type} (c : ComponentClass κ) : String :=
  describeRecord "ComponentClass"
    [("name", Text.quoted c.name), ("kind", c.kind.title),
     ("ports", describeList (c.ports.map PortSpec.describe)),
     ("has_query_handler", describeBool c.queries.isSome)]

/-- A component's inner state, of which only the kind is shown. -/
def Kind.describeBehavior (k : Kind) : String := "Behavior::" ++ k.title

/-- An answer to a pull; what a message carries is not shown. -/
def Pull.describe : Pull → String
  | .message _ => "Pull::Message(..)"
  | .again => "Pull::Again"
  | .endOfStream => "Pull::EndOfStream"

end PullGraph
