import PullGraph.Run.Round

/-! # Descriptions of graphs

A graph, its components and its connections as text for people.
-/
namespace PullGraph

/-- The name of a component's state. -/
def RunState.title : RunState → String
  | .created => "Created"
  | .initialized => "Initialized"
  | .running => "Running"
  | .finalized => "Finalized"

/-- A component by its name, class and state. -/
def Component.describe {κ : Type} (c : Component κ) : String :=
  describeRecord "Component"
    [("id", describeComponentId c.id), ("name", Text.quoted c.name),
     ("class", Text.quoted c.cls.name), ("state", c.state.title)]

/-- A graph with its components and connections. -/
def Graph.describe {κ ω : Type} (g : Graph κ ω) : String :=
  describeRecord "Graph"
    [("id", describeGraphId), ("name", Text.quoted g.name), ("state", g.state.title),
     ("components", describeList (g.components.map Component.describe)),
     ("connections", describeList (g.connections.map Connection.describe))]

end PullGraph
