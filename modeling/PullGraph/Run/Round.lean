import PullGraph.Graph.Lifecycle
import PullGraph.Graph.Validate
import PullGraph.Run.Pull

/-! # Rounds

A run goes in rounds. A round makes one pull step for every input port of every sink
whose stream has not ended, in the order in which the sinks were added and their ports
declared, and hands what comes to the sink. The first round checks the graph and
freezes it.

Between two steps a round looks whether the run has been cancelled; a step that has
begun is never cut short. When no stream is left, when the run is cancelled or when a
component fails, the graph ends and its components are finalized.
-/
namespace PullGraph

/-- What a round achieved. -/
inductive Outcome where
  /-- A message or the end of a stream reached a sink. -/
  | progress
  /-- Nothing moved. -/
  | again
  /-- Every stream has ended. -/
  | finished
  | cancelled
  deriving DecidableEq, Repr

/-- A run that a component brought to its end. -/
structure ExecutionError where
  id : ComponentId
  component : String
  cause : Fault
  failures : List FinalizeFailure
  deriving DecidableEq, Repr

/-- Why a run ends before its time, or does not start. -/
inductive RunError where
  | validation (e : ValidationError)
  | execution (e : ExecutionError)
  | finalize (e : TeardownError)
  | stalled (idleRounds : UInt32) (failures : List FinalizeFailure)
  | notRunnable (state : GraphState)
  deriving DecidableEq, Repr

/-- The name of a graph state. -/
def GraphState.title : GraphState → String
  | .configuring => "Configuring"
  | .running => "Running"
  | .finished => "Finished"
  | .cancelled => "Cancelled"
  | .faulted => "Faulted"
  | .tornDown => "TornDown"

/-- The wording of a run's error. -/
def RunError.message : RunError → String
  | .validation e => s!"graph validation failed: {e.message}"
  | .execution e => s!"component '{e.component}' failed: {e.cause.message}"
  | .finalize e => e.message
  | .stalled idleRounds _ => s!"run stalled after {idleRounds.toNat} rounds without progress"
  | .notRunnable state => s!"graph cannot run in state {state.title}"

/-- How the steps of a round went. -/
inductive Sweep where
  | completed (progressed : Bool)
  | cancelled
  | failed (failure : Failure)
  deriving DecidableEq, Repr

namespace Graph

variable {κ ω : Type}

/-- Starts the run of a graph that can run. -/
def start (g : Graph κ ω) (env : Env ω) : After κ ω (Except RunError Unit) :=
  match g.validate with
  | .error e => ⟨.error (.validation e), g, env⟩
  | .ok () =>
    let g := { g with
      state := .running
      stats := { g.stats with started := true }
      components := g.components.map Component.start }
    ⟨.ok (), g, env.note (.started g.name g.components.length g.connections.length)⟩

/-- Sees that a graph is running: starts it, or lets it go on. -/
def ensureRunning (g : Graph κ ω) (env : Env ω) : After κ ω (Except RunError Unit) :=
  match g.state with
  | .configuring => g.start env
  | .running => ⟨.ok (), g, env⟩
  | state => ⟨.error (.notRunnable state), g, env⟩

/-- Whether some stream has not reached its sink's end. -/
def hasDemand (g : Graph κ ω) : Bool :=
  g.sinks.any fun id => g.components[id]?.any fun c => !c.pending.isEmpty

/-- The call that an arrival makes. -/
def arrivalCall (port : String) (arrival : Option Message) (fault : Option Fault) : Call :=
  match arrival with
  | some m => .consumed port m fault
  | none => .ended port fault

/-- Counts an arrival, if it is a message. -/
def count (g : Graph κ ω) (arrival : Option Message) : Graph κ ω :=
  match arrival with
  | some _ => { g with stats := { g.stats with messages := g.stats.messages + 1 } }
  | none => g

/-- Fails a step because there is no sink to hand an arrival to. -/
def turnAway (g : Graph κ ω) (id : ComponentId) (cause : Fault) (env : Env ω) :
    After κ ω (Except Failure Bool) :=
  ⟨.error ⟨id, cause⟩, g, env.record (.refused g.id cause)⟩

variable [Behavior κ ω]

/-- What a sink does with an arrival: a message, or the end of the stream. -/
def receive (port : String) (arrival : Option Message) (k : κ) : Act ω (Except Fault Unit × κ) :=
  match arrival with
  | some m => Behavior.consume port m k
  | none => Behavior.endOfStream port k

/-- Hands an arrival at a port to a sink. -/
def deliver (g : Graph κ ω) (id : ComponentId) (index : Nat) (arrival : Option Message)
    (env : Env ω) : After κ ω (Except Failure Bool) :=
  match g.components[id]? with
  | none => g.turnAway id .notASink env
  | some c =>
    match c.behavior with
    | none => g.turnAway id (.sinkBusy c.name) env
    | some k =>
      if c.kind = .sink then
        let port := ((c.ports[index]?).map (·.name)).getD ""
        let ((result, k), env) := env.perform (receive port arrival k)
        let env := env.record (.call g.id id (arrivalCall port arrival (Component.faultOf result)))
        let g := (g.count arrival).modify id fun c => { c with behavior := some k }
        match result with
        | .ok () => ⟨.ok true, g, env⟩
        | .error cause => ⟨.error ⟨id, cause⟩, g, env⟩
      else g.turnAway id .notASink env

/-- Goes on after a pull that came to an end. A component's failure on the way counts,
whatever those that had asked it made of it. -/
def afterPull (id : ComponentId) (index : Nat) (pulled : Except Fault Pull) (t : Turn κ ω) :
    After κ ω (Except Failure Bool) :=
  match t.failure, pulled with
  | some failure, _ => ⟨.error failure, t.graph, t.env⟩
  | none, .error cause => ⟨.error ⟨id, cause⟩, t.graph, t.env⟩
  | none, .ok .again => ⟨.ok false, t.graph, t.env⟩
  | none, .ok (.message m) => t.graph.deliver id index (some m) t.env
  | none, .ok .endOfStream => t.graph.deliver id index none t.env

/-- One pull step: pulls an input port of a sink and hands over what comes. It says
whether anything came. -/
def sinkStep (g : Graph κ ω) (patience : Nat) (id : ComponentId) (index : Nat) (env : Env ω) :
    After κ ω (Option (Except Failure Bool)) :=
  match pullInput (converse patience) id index { graph := g, env := env } with
  | ⟨none, t⟩ => ⟨none, t.graph, t.env⟩
  | ⟨some pulled, t⟩ => (afterPull id index pulled t).map some

/-- Makes one pull step for each of some input ports of a sink. -/
def sweepPorts (patience : Nat) (id : ComponentId) :
    List Nat → (progressed : Bool) → Graph κ ω → Env ω → After κ ω (Option Sweep)
  | [], progressed, g, env => ⟨some (.completed progressed), g, env⟩
  | index :: indices, progressed, g, env =>
    if env.isCancelled g.id then ⟨some .cancelled, g, env⟩
    else match g.sinkStep patience id index env with
      | ⟨none, g, env⟩ => ⟨none, g, env⟩
      | ⟨some (.error failure), g, env⟩ => ⟨some (.failed failure), g, env⟩
      | ⟨some (.ok moved), g, env⟩ => sweepPorts patience id indices (progressed || moved) g env

/-- Makes the pull steps of each of some sinks. -/
def sweepSinks (patience : Nat) :
    List ComponentId → (progressed : Bool) → Graph κ ω → Env ω → After κ ω (Option Sweep)
  | [], progressed, g, env => ⟨some (.completed progressed), g, env⟩
  | id :: ids, progressed, g, env =>
    let pending := (g.components[id]?.map (·.pending)).getD []
    match sweepPorts patience id pending progressed g env with
    | ⟨some (.completed progressed), g, env⟩ => sweepSinks patience ids progressed g env
    | stopped => stopped

/-- Ends the run with a state and finalizes the components. -/
def close (g : Graph κ ω) (state : GraphState) (env : Env ω) : After κ ω (List FinalizeFailure) :=
  { g with state := state }.finalizeAll env

/-- Ends the run with an outcome, and tells so after the components are finalized. -/
def conclude (g : Graph κ ω) (state : GraphState) (outcome : Outcome) (notice : Notice)
    (env : Env ω) : After κ ω (Except RunError Outcome) :=
  let after := g.close state env
  let env := after.env.note notice
  match TeardownError.check after.result with
  | .ok () => ⟨.ok outcome, after.graph, env⟩
  | .error e => ⟨.error (.finalize e), after.graph, env⟩

/-- Ends the run because every stream has ended. -/
def finish (g : Graph κ ω) (env : Env ω) : After κ ω (Except RunError Outcome) :=
  g.conclude .finished .finished (.finished g.name g.stats.rounds g.stats.messages) env

/-- Ends the run because it has been cancelled. -/
def cancelRun (g : Graph κ ω) (env : Env ω) : After κ ω (Except RunError Outcome) :=
  g.conclude .cancelled .cancelled (.cancelled g.name g.stats.rounds) env

/-- Ends the run because a component failed. -/
def fail (g : Graph κ ω) (f : Failure) (env : Env ω) : After κ ω (Except RunError Outcome) :=
  let component := ((g.components[f.component]?).map (·.name)).getD ""
  let after := g.close .faulted (env.note (.failed g.name component f.cause))
  ⟨.error (.execution ⟨f.component, component, f.cause, after.result⟩), after.graph, after.env⟩

/-- Ends a round whose steps were all made. -/
def endRound (g : Graph κ ω) (progressed : Bool) (env : Env ω) :
    After κ ω (Except RunError Outcome) :=
  if env.isCancelled g.id then g.cancelRun env
  else if !g.hasDemand then g.finish env
  else
    let env := env.note (.roundComplete g.name g.stats.rounds progressed)
    let idle := if progressed then 0 else g.stats.idleRounds + 1
    let g := { g with stats := { g.stats with idleRounds := idle } }
    ⟨.ok (if progressed then .progress else .again), g, env⟩

/-- Goes on after the steps of a round. -/
def afterSweep (g : Graph κ ω) (sweep : Sweep) (env : Env ω) :
    After κ ω (Except RunError Outcome) :=
  match sweep with
  | .completed progressed => g.endRound progressed env
  | .cancelled => g.cancelRun env
  | .failed failure => g.fail failure env

/-- The graph in its next round. -/
def nextRound (g : Graph κ ω) : Graph κ ω :=
  { g with stats := { g.stats with rounds := g.stats.rounds + 1 } }

/-- Makes one round. There is no result if patience ran out on the way. -/
def runOnce (g : Graph κ ω) (patience : Nat) (env : Env ω) :
    After κ ω (Option (Except RunError Outcome)) :=
  match g.ensureRunning env with
  | ⟨.error e, g, env⟩ => ⟨some (.error e), g, env⟩
  | ⟨.ok (), g, env⟩ =>
    match sweepSinks patience g.sinks false g.nextRound env with
    | ⟨none, g, env⟩ => ⟨none, g, env⟩
    | ⟨some sweep, g, env⟩ => (g.afterSweep sweep env).map some

end Graph
end PullGraph
