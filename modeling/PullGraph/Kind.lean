/-! # Kinds of components and directions of ports

A component is a source, a filter or a sink. Its kind decides the ports it may
declare: sources only give, sinks only take, filters do both.
-/
namespace PullGraph

/-- The direction in which messages pass through a port. -/
inductive Direction where
  | input
  | output
  deriving DecidableEq, Repr

namespace Direction

/-- The direction in running text. -/
def label : Direction → String
  | .input => "input"
  | .output => "output"

/-- The direction as it stands in descriptions. -/
def title : Direction → String
  | .input => "Input"
  | .output => "Output"

end Direction

/-- The part a component plays in a graph. -/
inductive Kind where
  | source
  | filter
  | sink
  deriving DecidableEq, Repr

namespace Kind

/-- All kinds, from the producing to the consuming end. -/
def all : List Kind := [.source, .filter, .sink]

/-- Whether a component of this kind may declare a port of direction `d`. -/
def allows : Kind → Direction → Bool
  | .source, .input => false
  | .sink, .output => false
  | _, _ => true

/-- The kind in running text. -/
def label : Kind → String
  | .source => "source"
  | .filter => "filter"
  | .sink => "sink"

/-- The kind as it stands in descriptions. -/
def title : Kind → String
  | .source => "Source"
  | .filter => "Filter"
  | .sink => "Sink"

end Kind
end PullGraph
