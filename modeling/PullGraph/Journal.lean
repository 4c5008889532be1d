import PullGraph.Describe

/-! # The journal

Everything that happens while graphs are built and run is written into a journal, in
order: every call of a component with its outcome, every refusal of the executor
itself, and the notices meant for people.
-/
namespace PullGraph

/-- A call of a component. A pull is written down twice, when it starts and when it
returns, for other calls may lie between. -/
inductive Call where
  | setUp (fault : Option Fault)
  | asked (port : String)
  | answered (port : String) (answer : Except Fault Pull)
  | consumed (port : String) (message : Message) (fault : Option Fault)
  | ended (port : String) (fault : Option Fault)
  | finalized (fault : Option Fault)

/-- Something worth telling people. -/
inductive Notice where
  | creating (graph : String) (config : RunConfig)
  | adding (graph cls component : String)
  | settingUp (component : String)
  | added (graph component : String) (id : ComponentId)
  | connecting (graph : String) (a b : PortHandle)
  | connected (graph giver output taker input : String)
  | tearingDown (graph : String)
  | finalizing (component : String)
  | finalizeFailed (graph component : String) (fault : Fault)
  | started (graph : String) (components connections : Nat)
  | roundComplete (graph : String) (round : UInt64) (progressed : Bool)
  | backingOff (graph : String) (idleRounds : UInt32) (delay : Duration)
  | finished (graph : String) (rounds messages : UInt64)
  | cancelled (graph : String) (rounds : UInt64)
  | failed (graph component : String) (fault : Fault)
  | gaveUp (graph : String) (idleRounds : UInt32)
  | registering (cls : String)
  | registered (cls : String) (kind : Kind)
  | installed (classes : Nat)
  | uninstalled
  | querying (cls query : String)

/-- How urgent a notice is. -/
inductive Level where
  | trace
  | debug
  | info
  | warn
  | error
  deriving DecidableEq, Repr

/-- A level as it stands at the start of a line. -/
def Level.label : Level → String
  | .trace => "TRACE"
  | .debug => "DEBUG"
  | .info => "INFO"
  | .warn => "WARN"
  | .error => "ERROR"

namespace Notice

/-- How urgent each notice is. -/
def level : Notice → Level
  | .added .. | .connected .. | .roundComplete .. | .registered .. | .installed _
  | .uninstalled => .debug
  | .started .. | .finished .. | .cancelled .. => .info
  | .finalizeFailed .. | .gaveUp .. => .warn
  | .failed .. => .error
  | _ => .trace

/-- What a notice tells, followed by its details. -/
def body : Notice → String
  | .creating graph config =>
    s!"Graph::with_config(name={graph}, config={config.describe})"
  | .adding graph cls component =>
    s!"Graph::add_component(graph={graph}, class={cls}, name={component})"
  | .settingUp component => s!"Component::initialize(name={component})"
  | .added graph component id =>
    s!"component added graph={graph} component={component} id={componentTag id}"
  | .connecting graph a b => s!"Graph::connect(graph={graph}, a={a.describe}, b={b.describe})"
  | .connected graph giver output taker input =>
    s!"ports connected graph={graph} from={giver}.{output} to={taker}.{input}"
  | .tearingDown graph => s!"Graph::teardown(name={graph})"
  | .finalizing component => s!"Component::finalize(name={component})"
  | .finalizeFailed graph component fault =>
    s!"component failed to finalize graph={graph} component={component} error={fault.message}"
  | .started graph components connections =>
    s!"graph execution started graph={graph} components={components} connections={connections}"
  | .roundComplete graph round progressed =>
    s!"round complete graph={graph} round={round.toNat} progressed={describeBool progressed}"
  | .backingOff graph idleRounds delay =>
    s!"no progress; backing off graph={graph} idle_rounds={idleRounds.toNat} delay={delay.text}"
  | .finished graph rounds messages =>
    s!"graph execution finished graph={graph} rounds={rounds.toNat} messages={messages.toNat}"
  | .cancelled graph rounds => s!"graph execution cancelled graph={graph} rounds={rounds.toNat}"
  | .failed graph component fault =>
    s!"component failed; halting graph execution graph={graph} component={component}"
      ++ s!" error={fault.message}"
  | .gaveUp graph idleRounds =>
    s!"backoff policy gave up; halting graph execution graph={graph}"
      ++ s!" idle_rounds={idleRounds.toNat}"
  | .registering cls => s!"Registry::register(name={cls})"
  | .registered cls kind => s!"component class registered class={cls} kind={kind.label}"
  | .installed classes => s!"process-wide registry installed classes={classes}"
  | .uninstalled => "process-wide registry torn down"
  | .querying cls query => s!"query(class={cls}, query={query})"

/-- A notice as one line. -/
def line (n : Notice) : String := n.level.label ++ " " ++ n.body

end Notice

/-- What is written into a journal. -/
inductive Event where
  /-- A component of a graph was called. -/
  | call (graph : GraphId) (component : ComponentId) (call : Call)
  /-- The executor itself refused a request on a graph. -/
  | refused (graph : GraphId) (fault : Fault)
  /-- People were told something. -/
  | notice (notice : Notice)

/-- What has happened, the latest first. -/
structure Journal where
  latest : List Event := []

namespace Journal

/-- A journal without entries. -/
def empty : Journal := ⟨[]⟩

/-- Writes down an event. -/
def record (j : Journal) (e : Event) : Journal := ⟨e :: j.latest⟩

/-- What has happened, in order. -/
def toList (j : Journal) : List Event := j.latest.reverse

@[simp] theorem toList_empty : empty.toList = [] := rfl

@[simp] theorem toList_record (j : Journal) (e : Event) :
    (j.record e).toList = j.toList ++ [e] := by
  simp [record, toList]

/-- The notices of a journal, in order. -/
def notices (j : Journal) : List Notice :=
  j.toList.filterMap fun
    | .notice n => some n
    | _ => none

/-- The calls of the components of a graph, in order. -/
def calls (j : Journal) (graph : GraphId) : List (ComponentId × Call) :=
  j.toList.filterMap fun
    | .call g c call => if g = graph then some (c, call) else none
    | _ => none

end Journal
end PullGraph
