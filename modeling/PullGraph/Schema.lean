import PullGraph.Behavior
import PullGraph.Kind
import PullGraph.Text.Quoted

/-! # Classes of components

A class says what its components are: their kind, their ports, the state they start
in, and how the class answers questions about itself. `ComponentClass.validate` checks
the declared ports; it reports the first port that breaks a rule.
-/
namespace PullGraph

/-- The declaration of a port. -/
structure PortSpec where
  name : String
  direction : Direction
  deriving DecidableEq, Repr

/-- Why a class cannot answer a query. -/
inductive QueryError where
  | unknownClass (name : String)
  | unknownQuery (cls query : String)
  | invalidParams (query reason : String)
  | failed (cls query reason : String)
  deriving DecidableEq, Repr

/-- The wording of a query error. -/
def QueryError.message : QueryError → String
  | .unknownClass name => s!"unknown component class '{name}'"
  | .unknownQuery cls query => s!"class '{cls}' does not support query '{query}'"
  | .invalidParams query reason => s!"invalid parameters for query '{query}': {reason}"
  | .failed cls query reason => s!"query '{query}' on class '{cls}' failed: {reason}"

/-- How a class answers queries of its own: by name and parameters. -/
abbrev QueryHandler := String → Settings → Except QueryError Value

/-- A class of components whose states are in `κ`. -/
structure ComponentClass (κ : Type) where
  name : String
  kind : Kind
  ports : List PortSpec := []
  description : Option String := none
  help : Option String := none
  queries : Option QueryHandler := none
  /-- The state of a new component. -/
  blank : κ

/-- Why the declaration of a class is not sound. -/
inductive SchemaError where
  | emptyClassName
  | emptyPortName (cls : String)
  | directionNotAllowed (cls : String) (kind : Kind) (port : PortSpec)
  | duplicatePort (cls : String) (port : PortSpec)
  deriving DecidableEq, Repr

/-- The wording of a schema error. -/
def SchemaError.message : SchemaError → String
  | .emptyClassName => "component class name must not be empty"
  | .emptyPortName cls => s!"class '{cls}' declares a port with an empty name"
  | .directionNotAllowed cls kind port =>
    s!"{kind.label} class '{cls}' cannot declare {port.direction.label} port '{port.name}'"
  | .duplicatePort cls port =>
    s!"class '{cls}' declares {port.direction.label} port '{port.name}' more than once"

namespace ComponentClass

variable {κ : Type}

/-- The class with the states of its components renamed. -/
def map {κ' : Type} (f : κ → κ') (c : ComponentClass κ) : ComponentClass κ' :=
  { c with blank := f c.blank }

/-- Declares one more port. -/
def withPort (c : ComponentClass κ) (direction : Direction) (name : String) : ComponentClass κ :=
  { c with ports := c.ports ++ [⟨name, direction⟩] }

/-- The ports of one direction, in order of declaration. -/
def portsIn (c : ComponentClass κ) (d : Direction) : List PortSpec :=
  c.ports.filter (·.direction = d)

/-- Checks a port against the kind of its class and the ports before it. -/
def checkPort (c : ComponentClass κ) (seen : List PortSpec) (p : PortSpec) :
    Except SchemaError Unit :=
  if p.name.isEmpty then .error (.emptyPortName c.name)
  else if !c.kind.allows p.direction then .error (.directionNotAllowed c.name c.kind p)
  else if p ∈ seen then .error (.duplicatePort c.name p)
  else .ok ()

/-- Checks ports in order, each with the ones before it in `seen`. -/
def checkPorts (c : ComponentClass κ) : (seen : List PortSpec) → List PortSpec →
    Except SchemaError Unit
  | _, [] => .ok ()
  | seen, p :: ps => do
    c.checkPort seen p
    c.checkPorts (p :: seen) ps

/-- Checks the declaration of a class: names are not empty, the kind allows every
direction, and no name occurs twice in one direction. -/
def validate (c : ComponentClass κ) : Except SchemaError Unit :=
  if c.name.isEmpty then .error .emptyClassName else c.checkPorts [] c.ports

end ComponentClass
end PullGraph
