import PullGraph.Graph.Lifecycle
import PullGraph.Graph.Build
import PullGraph.Proofs.Prelude

/-! # The topology of a graph

What is left of a graph when the inner states of its components, the ends of their
streams and how far everything has come are set aside: which components there are, of
which classes, and how their ports are connected. Only building changes it; a run
leaves it alone. So whatever is said of a graph by way of its topology (that it is
wired as it should be, that it can run) holds on to the end of its life once the graph
has started.
-/
namespace PullGraph

/-- A port apart from the stream that comes in there. -/
structure Socket where
  name : String
  direction : Direction
  connection : Option Nat
  deriving DecidableEq, Repr

/-- The port apart from its stream. -/
def Port.socket (p : Port) : Socket := ⟨p.name, p.direction, p.connection⟩

/-- A component apart from its inner state and from how far it has come. -/
structure Outline (κ : Type) where
  graph : GraphId
  id : ComponentId
  name : String
  cls : ComponentClass κ
  sockets : List Socket

/-- The kind of the component. -/
def Outline.kind {κ : Type} (o : Outline κ) : Kind := o.cls.kind

/-- The components of a graph and the connections between their ports. -/
structure Topology (κ : Type) where
  id : GraphId
  components : List (Outline κ)
  connections : List Connection
  sinks : List ComponentId

namespace Component

variable {κ ω : Type}

/-- The component apart from its state. -/
def outline (c : Component κ) : Outline κ := ⟨c.graph, c.id, c.name, c.cls, c.ports.map Port.socket⟩

@[simp] theorem outline_kind (c : Component κ) : c.outline.kind = c.kind := rfl

@[simp] theorem outline_sockets (c : Component κ) : c.outline.sockets = c.ports.map Port.socket := rfl

theorem outline_modifyPort {f : Port → Port} (h : ∀ p, (f p).socket = p.socket) (c : Component κ)
    (index : Nat) : (c.modifyPort index f).outline = c.outline := by
  simp only [outline, modifyPort, map_modify_of_eq h]

@[simp] theorem outline_start (c : Component κ) : c.start.outline = c.outline := by
  unfold start
  split <;> rfl

@[simp] theorem outline_finalize [Behavior κ ω] (c : Component κ) (env : Env ω) :
    (c.finalize env).2.1.outline = c.outline := by
  unfold finalize
  split
  · rfl
  · split <;> rfl

end Component

namespace Topology

variable {κ : Type} (T : Topology κ)

/-- The kind of the component at a position. -/
def kind? (i : ComponentId) : Option Kind := T.components[i]?.map Outline.kind

/-- The port at a position of the component at a position. -/
def socket? (i : ComponentId) (j : Nat) : Option Socket := T.components[i]?.bind (·.sockets[j]?)

end Topology

namespace Graph

variable {κ ω : Type} (g : Graph κ ω)

/-- What is left of a graph when all states are set aside. -/
def topology : Topology κ :=
  ⟨g.id, g.components.map Component.outline, g.connections, g.sinks⟩

@[simp] theorem topology_id : g.topology.id = g.id := rfl

@[simp] theorem topology_connections : g.topology.connections = g.connections := rfl

@[simp] theorem topology_sinks : g.topology.sinks = g.sinks := rfl

@[simp] theorem topology_components : g.topology.components = g.components.map Component.outline := rfl

theorem topology_getElem? (i : Nat) :
    g.topology.components[i]? = g.components[i]?.map Component.outline := by
  simp

theorem topology_socket? (i j : Nat) : g.topology.socket? i j = (g.portAt? i j).map Port.socket := by
  unfold Topology.socket? portAt?
  rw [topology_getElem?]
  cases g.components[i]? <;> simp

theorem topology_kind?_eq_some {i : Nat} {kind : Kind} :
    g.topology.kind? i = some kind ↔ ∃ c, g.components[i]? = some c ∧ c.kind = kind := by
  simp [Topology.kind?]

theorem topology_socket?_eq_some {i j : Nat} {s : Socket} :
    g.topology.socket? i j = some s ↔ ∃ p, g.portAt? i j = some p ∧ p.socket = s := by
  rw [topology_socket?, Option.map_eq_some_iff]

theorem topology_modify {f : Component κ → Component κ} (h : ∀ c, (f c).outline = c.outline)
    (id : ComponentId) : (g.modify id f).topology = g.topology := by
  simp only [topology, modify, map_modify_of_eq h]

/-- A port of a graph stands at the same position, the stream apart, in every graph of the
same topology. -/
theorem portAt?_of_topology_eq {g g' : Graph κ ω} (h : g'.topology = g.topology) {i j : Nat}
    {p : Port} (hp : g.portAt? i j = some p) :
    ∃ p', g'.portAt? i j = some p' ∧ p'.socket = p.socket := by
  have hs : g.topology.socket? i j = some p.socket := g.topology_socket?_eq_some.mpr ⟨p, hp, rfl⟩
  rw [← h] at hs
  exact g'.topology_socket?_eq_some.mp hs

end Graph
end PullGraph
