import PullGraph.Behavior
import PullGraph.Kind

/-! # Ports and connections

A port belongs to a component of a graph and is known by its handle, which stays good
for as long as the graph lives. A connection leads from an output port to an input port.
-/
namespace PullGraph

/-- Names a port of a graph: the component and the port's position in its class. -/
structure PortHandle where
  graph : GraphId
  component : ComponentId
  index : Nat
  direction : Direction
  deriving DecidableEq, Repr

/-- A port of a component. -/
structure Port where
  name : String
  direction : Direction
  /-- The position of the connection that ends here. -/
  connection : Option Nat := none
  /-- Whether the stream that comes in here has ended. -/
  atEnd : Bool := false
  deriving DecidableEq, Repr

/-- Leads messages from an output port to an input port. -/
structure Connection where
  id : Nat
  output : PortHandle
  input : PortHandle
  deriving DecidableEq, Repr

/-- The other end of a connection, seen from `p`. -/
def Connection.peerOf (c : Connection) (p : PortHandle) : Option PortHandle :=
  if p = c.output then some c.input
  else if p = c.input then some c.output
  else none

end PullGraph
