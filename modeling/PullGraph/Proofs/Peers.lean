import Mathlib.Data.List.Nodup
import PullGraph.Proofs.Lifetime

/-! # Ports and their peers

What the wiring comes to, read off the graph itself. A port is an end of one connection at
most, so the ports that are connected stand in pairs: there are twice as many of them as
there are connections, each of them knows its peer, and its peer knows it.
-/
namespace PullGraph

variable {κ ω : Type}

/-- A connection has a port for one of its ends. -/
def Connection.EndsAt (c : Connection) (p : PortHandle) : Prop := c.output = p ∨ c.input = p

/-- The handles of the ports of a component that are connected. -/
def Component.connectedHandles (c : Component κ) : List PortHandle :=
  c.ports.zipIdx.filterMap fun x =>
    if x.1.connection.isSome then some ⟨c.graph, c.id, x.2, x.1.direction⟩ else none

namespace Component

theorem length_connectedHandles (c : Component κ) :
    c.connectedHandles.length = c.ports.countP (·.connection.isSome) := by
  have hsome : (fun x : Port × Nat =>
      (if x.1.connection.isSome then some (⟨c.graph, c.id, x.2, x.1.direction⟩ : PortHandle)
        else none).isSome) = (fun p : Port => p.connection.isSome) ∘ Prod.fst := by
    funext x
    cases h : x.1.connection.isSome <;> simp [h]
  rw [connectedHandles, List.length_filterMap_eq_countP, hsome, ← List.countP_map,
    List.zipIdx_map_fst]

theorem mem_connectedHandles {c : Component κ} {p : PortHandle} :
    p ∈ c.connectedHandles ↔ ∃ port, c.ports[p.index]? = some port ∧
      port.connection.isSome = true ∧ p = ⟨c.graph, c.id, p.index, port.direction⟩ := by
  unfold connectedHandles
  rw [List.mem_filterMap]
  constructor
  · rintro ⟨⟨port, j⟩, hmem, heq⟩
    split at heq
    · rename_i hconnected
      obtain rfl := Option.some.inj heq
      exact ⟨port, List.mem_zipIdx_iff_getElem?.mp hmem, hconnected, rfl⟩
    · cases heq
  · rintro ⟨port, hport, hconnected, heq⟩
    refine ⟨(port, p.index), List.mem_zipIdx_iff_getElem?.mpr hport, ?_⟩
    rw [if_pos hconnected]
    exact congrArg some heq.symm

theorem nodup_connectedHandles (c : Component κ) : c.connectedHandles.Nodup := by
  refine List.pairwise_filterMap.mpr ((pairwise_zipIdx c.ports).imp ?_)
  intro x y hlt p hp q hq hpq
  refine Nat.ne_of_lt hlt ?_
  split at hp
  · split at hq
    · rw [← Option.some.inj hp, ← Option.some.inj hq] at hpq
      exact congrArg PortHandle.index hpq
    · cases hq
  · cases hp

end Component

namespace Graph

variable {g : Graph κ ω} {p q : PortHandle} {port : Port}

/-- A handle names a port of a graph. -/
def Names (g : Graph κ ω) (p : PortHandle) (port : Port) : Prop :=
  g.port? p = some port ∧ port.direction = p.direction

/-- What the parts of a graph say of themselves and of each other. -/
structure Consistent (g : Graph κ ω) : Prop where
  /-- Components have their positions for identities and belong to the graph. -/
  positions : ∀ (i : Nat) (c : Component κ), g.components[i]? = some c → c.id = i ∧ c.graph = g.id
  names : (g.components.map (·.name)).Nodup
  /-- Ports are those that the class declares, in order. -/
  ports : ∀ c ∈ g.components, c.ports.map (fun p => ⟨p.name, p.direction⟩) = c.cls.ports
  sinksIncrease : g.sinks.Pairwise (· < ·)
  sinks : ∀ i, i ∈ g.sinks ↔ ∃ c, g.components[i]? = some c ∧ c.kind = .sink
  numbers : ∀ (k : Nat) (c : Connection), g.connections[k]? = some c → c.id = k
  outputs : ∀ c ∈ g.connections, ∃ port, g.Names c.output port ∧ port.direction = .output
  inputs : ∀ c ∈ g.connections, ∃ port, g.Names c.input port ∧ port.direction = .input
  apart : ∀ c ∈ g.connections, c.output.component ≠ c.input.component
  /-- A port holds the number of a connection iff the connection ends there. -/
  ends : ∀ p port, g.Names p port → ∀ k, port.connection = some k ↔
    ∃ c : Connection, g.connections[k]? = some c ∧ c.EndsAt p

/-- The connected ports of a graph stand in pairs. -/
structure Paired (g : Graph κ ω) : Prop where
  /-- A port is an end of one connection at most. -/
  once : ∀ (k k' : Nat) (c c' : Connection) (p : PortHandle), g.connections[k]? = some c →
    g.connections[k']? = some c' → c.EndsAt p → c'.EndsAt p → k = k'
  /-- There are two connected ports for each connection. -/
  twice : (g.components.flatMap (·.ports)).countP (·.connection.isSome) = 2 * g.connections.length
  /-- A port is the peer of its peer, and the two differ in direction and component. -/
  peers : ∀ p q, g.peer? p = some q →
    g.peer? q = some p ∧ p.direction ≠ q.direction ∧ p.component ≠ q.component

theorem names_iff : g.Names p port ↔
    g.portAt? p.component p.index = some port ∧ p = ⟨g.id, p.component, p.index, port.direction⟩ := by
  obtain ⟨graph, component, index, direction⟩ := p
  simp only [Names, port?, PortHandle.mk.injEq, true_and]
  constructor
  · rintro ⟨hport, hd⟩
    split at hport
    · rename_i hgraph
      exact ⟨hport, hgraph, hd.symm⟩
    · cases hport
  · rintro ⟨hport, rfl, rfl⟩
    exact ⟨by rw [if_pos rfl, hport], rfl⟩

theorem names_of_offers (h : g.topology.Offers p) : ∃ port, g.Names p port := by
  obtain ⟨hgraph, s, hs, hd⟩ := h
  obtain ⟨port, hport, rfl⟩ := g.topology_socket?_eq_some.mp hs
  have hid : p.graph = g.id := hgraph
  exact ⟨port, by rw [port?, if_pos hid, hport], hd⟩

theorem connection_eq_some_iff (hw : g.topology.Wired) (h : g.Names p port) (k : Nat) :
    port.connection = some k ↔ ∃ c : Connection, g.connections[k]? = some c ∧ c.EndsAt p := by
  obtain ⟨hport, heq⟩ := names_iff.mp h
  have hs := g.topology_socket?_eq_some.mpr ⟨port, hport, rfl⟩
  have hends := hw.ends p.component p.index port.socket hs k
  change port.connection = some k ↔ ∃ c : Connection, g.connections[k]? = some c ∧
    (c.output = ⟨g.id, p.component, p.index, port.direction⟩ ∨
      c.input = ⟨g.id, p.component, p.index, port.direction⟩) at hends
  rwa [← heq] at hends

/-- The ends of a connection are ports that hold its number. -/
theorem names_of_endsAt (hw : g.topology.Wired) {k : Nat} {c : Connection}
    (hc : g.connections[k]? = some c) (hend : c.EndsAt p) :
    ∃ port, g.Names p port ∧ port.connection = some k := by
  have hmem := List.mem_of_getElem? hc
  have hoffers : g.topology.Offers p := by
    rcases hend with rfl | rfl
    · exact (hw.outputs c hmem).1
    · exact (hw.inputs c hmem).1
  obtain ⟨port, hport⟩ := names_of_offers hoffers
  exact ⟨port, hport, (connection_eq_some_iff hw hport k).mpr ⟨c, hc, hend⟩⟩

theorem eq_of_endsAt (hw : g.topology.Wired) {k k' : Nat} {c c' : Connection}
    (hc : g.connections[k]? = some c) (hc' : g.connections[k']? = some c') (hend : c.EndsAt p)
    (hend' : c'.EndsAt p) : k = k' := by
  obtain ⟨port, hport, hk⟩ := names_of_endsAt hw hc hend
  have hk' := (connection_eq_some_iff hw hport k').mpr ⟨c', hc', hend'⟩
  exact Option.some.inj (hk.symm.trans hk')

theorem output_ne_input (hw : g.topology.Wired) {c : Connection} (hc : c ∈ g.connections) :
    c.output ≠ c.input := by
  intro heq
  exact hw.apart c hc (congrArg PortHandle.component heq)

/-! ## Peers -/

/-- Two ports are peers iff there is a connection between them. -/
theorem peer?_eq_some_iff (hw : g.topology.Wired) :
    g.peer? p = some q ↔
      ∃ c ∈ g.connections, c.output = p ∧ c.input = q ∨ c.input = p ∧ c.output = q := by
  constructor
  · intro h
    obtain ⟨port, -, h⟩ := Option.bind_eq_some_iff.mp h
    obtain ⟨k, -, h⟩ := Option.bind_eq_some_iff.mp h
    obtain ⟨c, hc, h⟩ := Option.bind_eq_some_iff.mp h
    refine ⟨c, List.mem_of_getElem? hc, ?_⟩
    unfold Connection.peerOf at h
    split at h
    · rename_i heq
      exact .inl ⟨heq.symm, Option.some.inj h⟩
    · split at h
      · rename_i heq
        exact .inr ⟨heq.symm, Option.some.inj h⟩
      · cases h
  · rintro ⟨c, hmem, hends⟩
    obtain ⟨k, hc⟩ := List.mem_iff_getElem?.mp hmem
    have hend : c.EndsAt p := by
      rcases hends with ⟨hp, -⟩ | ⟨hp, -⟩
      · exact .inl hp
      · exact .inr hp
    obtain ⟨port, hport, hk⟩ := names_of_endsAt hw hc hend
    have hpeer : g.peer? p = c.peerOf p := by
      simp only [peer?, hport.1, Option.bind_eq_bind, Option.bind_some, hk, hc]
    rw [hpeer, Connection.peerOf]
    rcases hends with ⟨rfl, rfl⟩ | ⟨rfl, rfl⟩
    · rw [if_pos rfl]
    · rw [if_neg (output_ne_input hw hmem).symm, if_pos rfl]

theorem peer?_symm (hw : g.topology.Wired) (h : g.peer? p = some q) : g.peer? q = some p := by
  obtain ⟨c, hc, hends⟩ := (peer?_eq_some_iff hw).mp h
  refine (peer?_eq_some_iff hw).mpr ⟨c, hc, ?_⟩
  rcases hends with ⟨hp, hq⟩ | ⟨hp, hq⟩
  · exact .inr ⟨hq, hp⟩
  · exact .inl ⟨hq, hp⟩

/-- Peers lie on two sides: one gives and the other takes, and they are not on one component. -/
theorem peer?_apart (hw : g.topology.Wired) (h : g.peer? p = some q) :
    p.direction ≠ q.direction ∧ p.component ≠ q.component := by
  obtain ⟨c, hc, hends⟩ := (peer?_eq_some_iff hw).mp h
  have hout := (hw.outputs c hc).2
  have hin := (hw.inputs c hc).2
  have hapart := hw.apart c hc
  rcases hends with ⟨rfl, rfl⟩ | ⟨rfl, rfl⟩
  · exact ⟨by rw [hout, hin]; decide, hapart⟩
  · exact ⟨by rw [hout, hin]; decide, hapart.symm⟩

/-! ## Counting connected ports -/

/-- The handles of the ports that are connected. -/
def connectedHandles (g : Graph κ ω) : List PortHandle :=
  g.components.flatMap Component.connectedHandles

/-- The ends of the connections. -/
def endHandles (g : Graph κ ω) : List PortHandle :=
  g.connections.flatMap fun c => [c.output, c.input]

theorem length_connectedHandles (g : Graph κ ω) :
    g.connectedHandles.length = (g.components.flatMap (·.ports)).countP (·.connection.isSome) := by
  simp only [connectedHandles, List.length_flatMap, List.countP_flatMap,
    Component.length_connectedHandles, Function.comp_def]

theorem length_endHandles (g : Graph κ ω) : g.endHandles.length = 2 * g.connections.length := by
  simp [endHandles, List.length_flatMap, Nat.mul_comm]

theorem mem_connectedHandles (hw : g.topology.Wired) :
    p ∈ g.connectedHandles ↔ ∃ port, g.Names p port ∧ port.connection.isSome = true := by
  have hplace : ∀ (i : Nat) (c : Component κ), g.components[i]? = some c →
      c.id = i ∧ c.graph = g.id := fun i c hc =>
     hw.positions i c.outline (by rw [topology_getElem?, hc]; rfl)
  simp only [connectedHandles, List.mem_flatMap, Component.mem_connectedHandles, names_iff]
  constructor
  · rintro ⟨c, hc, port, hport, hconnected, heq⟩
    obtain ⟨i, hi⟩ := List.mem_iff_getElem?.mp hc
    obtain ⟨rfl, hgraph⟩ := hplace i c hi
    have hcomponent : p.component = c.id := congrArg PortHandle.component heq
    refine ⟨port, ⟨?_, ?_⟩, hconnected⟩
    · rw [portAt?, hcomponent, hi]
      exact hport
    · rw [hcomponent, ← hgraph]
      exact heq
  · rintro ⟨port, ⟨hport, heq⟩, hconnected⟩
    obtain ⟨c, hc, hat⟩ := Option.bind_eq_some_iff.mp hport
    obtain ⟨hid, hgraph⟩ := hplace _ c hc
    refine ⟨c, List.mem_of_getElem? hc, port, hat, hconnected, ?_⟩
    rw [hid, hgraph]
    exact heq

theorem mem_endHandles : p ∈ g.endHandles ↔ ∃ c ∈ g.connections, c.EndsAt p := by
  simp [endHandles, Connection.EndsAt, eq_comm]

theorem nodup_connectedHandles (hw : g.topology.Wired) : g.connectedHandles.Nodup := by
  have hids : g.components.Pairwise fun c c' => c.id ≠ c'.id := by
    rw [← List.pairwise_map, map_id_eq_range hw]
    exact List.nodup_range
  refine List.nodup_flatMap.mpr ⟨fun c _ => c.nodup_connectedHandles, hids.imp ?_⟩
  intro c c' hne p hp hp'
  obtain ⟨port, -, -, heq⟩ := Component.mem_connectedHandles.mp hp
  obtain ⟨port', -, -, heq'⟩ := Component.mem_connectedHandles.mp hp'
  exact hne (congrArg PortHandle.component (heq.symm.trans heq'))

theorem nodup_endHandles (hw : g.topology.Wired) : g.endHandles.Nodup := by
  refine List.nodup_flatMap.mpr ⟨fun c hc => ?_, List.pairwise_iff_getElem.mpr ?_⟩
  · simpa using output_ne_input hw hc
  · intro k k' hk hk' hlt p hp hp'
    have hend : g.connections[k].EndsAt p := by simpa [Connection.EndsAt, eq_comm] using hp
    have hend' : g.connections[k'].EndsAt p := by simpa [Connection.EndsAt, eq_comm] using hp'
    have heq := eq_of_endsAt hw (List.getElem?_eq_getElem hk) (List.getElem?_eq_getElem hk')
      hend hend'
    omega

/-- The connected ports are the ends of connections, so there are two for each connection. -/
theorem countP_connected (hw : g.topology.Wired) :
    (g.components.flatMap (·.ports)).countP (·.connection.isSome) = 2 * g.connections.length := by
  have hperm : g.connectedHandles.Perm g.endHandles := by
    refine (List.perm_ext_iff_of_nodup (nodup_connectedHandles hw) (nodup_endHandles hw)).mpr ?_
    intro p
    rw [mem_connectedHandles hw, mem_endHandles]
    constructor
    · rintro ⟨port, hport, hconnected⟩
      obtain ⟨k, hk⟩ := Option.isSome_iff_exists.mp hconnected
      obtain ⟨c, hc, hend⟩ := (connection_eq_some_iff hw hport k).mp hk
      exact ⟨c, List.mem_of_getElem? hc, hend⟩
    · rintro ⟨c, hmem, hend⟩
      obtain ⟨k, hc⟩ := List.mem_iff_getElem?.mp hmem
      obtain ⟨port, hport, hk⟩ := names_of_endsAt hw hc hend
      exact ⟨port, hport, by rw [hk]; rfl⟩
  rw [← length_connectedHandles, hperm.length_eq, length_endHandles]

/-! ## What the wiring comes to -/

theorem consistent_of_wired (hw : g.topology.Wired) : g.Consistent where
  positions i c hc := hw.positions i c.outline (by rw [topology_getElem?, hc]; rfl)
  names := by
    have hnames := hw.names
    rw [topology_components, List.map_map] at hnames
    exact hnames
  ports c hc := by
    have hports := (hw.schemas c.outline (List.mem_map_of_mem hc)).2
    rw [Component.outline_sockets, List.map_map] at hports
    exact hports
  sinksIncrease := by
    rw [show g.sinks = g.topology.sinks from rfl, hw.sinks]
    exact List.pairwise_lt_range.filter _
  sinks i := hw.mem_sinks.trans g.topology_kind?_eq_some
  numbers := hw.numbers
  outputs c hc := by
    obtain ⟨hoffers, hd⟩ := hw.outputs c hc
    obtain ⟨port, hport⟩ := names_of_offers hoffers
    exact ⟨port, hport, hport.2.trans hd⟩
  inputs c hc := by
    obtain ⟨hoffers, hd⟩ := hw.inputs c hc
    obtain ⟨port, hport⟩ := names_of_offers hoffers
    exact ⟨port, hport, hport.2.trans hd⟩
  apart := hw.apart
  ends _ _ h k := connection_eq_some_iff hw h k

theorem paired_of_wired (hw : g.topology.Wired) : g.Paired where
  once _ _ _ _ _ hc hc' hend hend' := eq_of_endsAt hw hc hc' hend hend'
  twice := countP_connected hw
  peers _ _ h := ⟨peer?_symm hw h, peer?_apart hw h⟩

end Graph

variable [Behavior κ ω] {g : Graph κ ω} {env : Env ω} {added : List ComponentId}

/-- **Ports and connections agree**, between requests and after any request, also where it is
refused or does not come to its end: every part of the graph is where and what it says, a
port holds the number of a connection iff it is one of its ends, and so the connected ports
stand in pairs. -/
theorem Lifetime.consistent_and_paired (h : Lifetime added g env) :
    (g.Consistent ∧ g.Paired) ∧
      ∀ r : Request κ ω, r.Fits g →
        (r.perform g env).graph.Consistent ∧ (r.perform g env).graph.Paired := by
  refine ⟨⟨Graph.consistent_of_wired h.sane.wired, Graph.paired_of_wired h.sane.wired⟩, ?_⟩
  intro r hfits
  have hwired := (r.lawful h.sane hfits).1.wired
  exact ⟨Graph.consistent_of_wired hwired, Graph.paired_of_wired hwired⟩

/-- In the pipeline the filter's output and the sink's input are peers, also after a run. -/
theorem pipeline_peers :
    let x := (Request.run 5 9).perform pipeline.1 pipeline.2
    Lifetime [0, 1, 2] pipeline.1 pipeline.2 ∧ x.graph.Consistent ∧ x.graph.Paired ∧
      x.graph.peer? ⟨1, 1, 1, .output⟩ = some ⟨1, 2, 0, .input⟩ ∧
      x.graph.peer? ⟨1, 2, 0, .input⟩ = some ⟨1, 1, 1, .output⟩ :=
  have h := pipeline_lifetime.consistent_and_paired.2 (.run 5 9) trivial
  ⟨pipeline_lifetime, h.1, h.2, rfl, (h.2.peers _ _ rfl).1⟩

end PullGraph
