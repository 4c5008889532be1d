import PullGraph.Graph.Basic

/-! # Can a graph run?

A graph can run if it has a sink, if every input port that a sink depends on is
connected, if no connections form a cycle there, and if every input port of a sink is
fed by a source. The check walks from each input port of each sink against the
connections and marks the components it has been at, so each is looked at once.
-/
namespace PullGraph

/-- Why a graph cannot run. -/
inductive ValidationError where
  | noSink
  | unconnectedInput (component port : String)
  | unreachable (component port : String)
  | cycle (component : String)
  deriving DecidableEq, Repr

/-- The wording of a failed check. -/
def ValidationError.message : ValidationError → String
  | .noSink => "graph has no sink component"
  | .unconnectedInput component port =>
    s!"input port '{port}' of component '{component}' is not connected"
  | .unreachable component port =>
    s!"input port '{port}' of sink '{component}' is not reachable from any source"
  | .cycle component => s!"connection cycle through component '{component}'"

/-- What the walk knows of a component. -/
inductive Mark where
  | unvisited
  /-- The walk is at components that feed it. -/
  | visiting
  /-- The walk is done with it, and knows whether a source feeds it. -/
  | done (fed : Bool)
  deriving DecidableEq, Repr

namespace Graph

variable {κ ω : Type}

/-- The component from which a port gets its messages. -/
def feeder (g : Graph κ ω) (c : Component κ) (p : Port) : Except ValidationError ComponentId :=
  match g.connectionOf? p with
  | some connection => .ok connection.output.component
  | none => .error (.unconnectedInput c.name p.name)

/-- The input ports of a component. -/
def inputPorts (c : Component κ) : List Port := c.ports.filter (·.direction = .input)

/-- Visits what feeds each of some ports of a component, by `visit`, and says whether a
source feeds any of them. -/
def visitPorts (g : Graph κ ω) (c : Component κ)
    (visit : ComponentId → List Mark → Except ValidationError (Bool × List Mark)) :
    List Port → List Mark → Except ValidationError (Bool × List Mark)
  | [], marks => .ok (false, marks)
  | p :: ps, marks => do
    let id ← g.feeder c p
    let (fed, marks) ← visit id marks
    let (others, marks) ← visitPorts g c visit ps marks
    pure (fed || others, marks)

/-- Walks from a component against the connections and says whether a source feeds it.
Each step down marks one more component, so a walk deeper than there are components
would have come by one of them twice: it is in a cycle. -/
def visit (g : Graph κ ω) :
    (depth : Nat) → ComponentId → List Mark → Except ValidationError (Bool × List Mark)
  | depth, id, marks =>
    match g.components[id]? with
    | none => .ok (false, marks)
    | some c =>
      match marks[id]? with
      | some (.done fed) => .ok (fed, marks)
      | some .visiting => .error (.cycle c.name)
      | _ =>
        match c.kind with
        | .source => .ok (true, marks.set id (.done true))
        | .sink => .ok (false, marks.set id (.done false))
        | .filter =>
          match depth with
          | 0 => .error (.cycle c.name)
          | depth + 1 => do
            let (fed, marks) ←
              visitPorts g c (visit g depth) (inputPorts c) (marks.set id .visiting)
            pure (fed, marks.set id (.done fed))

/-- Checks input ports of a sink. -/
def validatePorts (g : Graph κ ω) (c : Component κ) :
    List Port → List Mark → Except ValidationError (List Mark)
  | [], marks => .ok marks
  | p :: ps, marks => do
    let id ← g.feeder c p
    let (fed, marks) ← g.visit g.components.length id marks
    if fed then validatePorts g c ps marks else .error (.unreachable c.name p.name)

/-- Checks sinks. -/
def validateSinks (g : Graph κ ω) :
    List ComponentId → List Mark → Except ValidationError (List Mark)
  | [], marks => .ok marks
  | id :: ids, marks =>
    match g.components[id]? with
    | none => validateSinks g ids marks
    | some c => do
      let marks ← g.validatePorts c (inputPorts c) marks
      validateSinks g ids marks

/-- Checks whether a graph can run. -/
def validate (g : Graph κ ω) : Except ValidationError Unit :=
  if g.sinks.isEmpty then .error .noSink
  else do
    let _ ← g.validateSinks g.sinks (List.replicate g.components.length .unvisited)
    pure ()

end Graph
end PullGraph
