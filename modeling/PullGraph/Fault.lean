/-! # Faults

Why a component, or the executor on its behalf, could not do what it was asked for.
-/
namespace PullGraph

/-- The cause of a failed call. -/
inductive Fault where
  /-- The component's own words. -/
  | own (text : String)
  /-- A component that feeds this one failed; its own fault is reported apart. -/
  | feederFailed
  /-- A filter asked for an input port that it does not have. -/
  | unknownInput (port : String)
  | inputOutOfRange
  | inputUnconnected (port : String)
  | outputOutOfRange
  /-- A component was asked while it was still answering. -/
  | busy (component : String)
  | sinkWithoutOutputs
  | sinkBusy (component : String)
  | notASink
  deriving DecidableEq, Repr

namespace Fault

/-- The wording of a fault. -/
def message : Fault → String
  | .own text => text
  | .feederFailed => "upstream component failed"
  | .unknownInput port => s!"no input port named '{port}'"
  | .inputOutOfRange => "input port index out of range"
  | .inputUnconnected port => s!"input port '{port}' is not connected"
  | .outputOutOfRange => "output port index out of range"
  | .busy component => s!"component '{component}' is already being pulled"
  | .sinkWithoutOutputs => "sinks have no output ports"
  | .sinkBusy component => s!"sink '{component}' is already in use"
  | .notASink => "component is not a sink"

end Fault
end PullGraph
