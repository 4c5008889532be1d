import Mathlib.Logic.Relation
import PullGraph.Graph.Validate
import PullGraph.Proofs.Wiring

/-! # Where messages can flow

One component feeds another if a connection leads from an output port of the first to
an input port of the second. `Topology.WellFormed` says, in terms of paths of such
connections and of nothing else, what it takes for a graph to be able to run.
-/
namespace PullGraph

open Relation

namespace Topology

variable {κ : Type} (T : Topology κ)

/-- A connection leads from component `a` to component `b`. -/
def Feeds (a b : ComponentId) : Prop :=
  ∃ c ∈ T.connections, c.output.component = a ∧ c.input.component = b

/-- Messages of a component can reach a sink, which may be the component itself. -/
def Serves (i : ComponentId) : Prop := ∃ s, T.kind? s = some .sink ∧ ReflTransGen T.Feeds i s

/-- Messages of a source can reach a component, which may be the source itself. -/
def Fed (i : ComponentId) : Prop := ∃ s, T.kind? s = some .source ∧ ReflTransGen T.Feeds s i

/-- Every input port of a component is connected. -/
def Plugged (i : ComponentId) : Prop :=
  ∀ j s, T.socket? i j = some s → s.direction = .input → s.connection.isSome

/-- What it takes for a graph to be able to run. -/
structure WellFormed : Prop where
  /-- There is a sink. -/
  sink : ∃ s, T.kind? s = some .sink
  /-- Whatever a sink depends on is connected: the sink itself and all that lies upstream. -/
  plugged : ∀ i, T.Serves i → T.Plugged i
  /-- Connections form no cycle there. -/
  acyclic : ∀ i, T.Serves i → ¬ TransGen T.Feeds i i
  /-- Every input port of a sink has a connection to it, and a source at some place
  upstream. -/
  fed : ∀ i j s, T.kind? i = some .sink → T.socket? i j = some s → s.direction = .input →
    ∃ c ∈ T.connections, c.input = ⟨T.id, i, j, .input⟩ ∧ T.Fed c.output.component

/-- All that lies upstream of a component is connected, and going upstream ends. -/
structure Sound (i : ComponentId) : Prop where
  acc : Acc T.Feeds i
  plugged : ∀ j, ReflTransGen T.Feeds j i → T.Plugged j

variable {T}

theorem Serves.of_feeds {a b : ComponentId} (h : T.Serves b) (hab : T.Feeds a b) : T.Serves a := by
  obtain ⟨s, hs, hpath⟩ := h
  exact ⟨s, hs, .head hab hpath⟩

theorem Wired.mem_sinks (h : T.Wired) {s : ComponentId} :
    s ∈ T.sinks ↔ T.kind? s = some .sink := by
  rw [h.sinks, List.mem_filter, List.mem_range, decide_eq_true_iff]
  refine and_iff_right_of_imp fun hs => ?_
  obtain ⟨o, ho, -⟩ := Option.map_eq_some_iff.mp hs
  exact (List.getElem?_eq_some_iff.mp ho).1

/-- A component that feeds another is not a sink. -/
theorem Wired.kind_of_feeds (h : T.Wired) {a b : ComponentId} (hab : T.Feeds a b) :
    ∃ kind, T.kind? a = some kind ∧ kind ≠ .sink := by
  obtain ⟨c, hc, rfl, -⟩ := hab
  obtain ⟨⟨-, s, hs, hd⟩, hdir⟩ := h.outputs c hc
  obtain ⟨o, ho, -, -⟩ := h.declared hs
  have hk : T.kind? c.output.component = some o.kind := by rw [kind?, ho]; rfl
  refine ⟨o.kind, hk, ?_⟩
  intro hsink
  have hallows := h.allows hs hk
  rw [hd, hdir, hsink] at hallows
  cases hallows

/-- A source is fed by nobody. -/
theorem Wired.not_feeds_source (h : T.Wired) {a b : ComponentId} (hb : T.kind? b = some .source) :
    ¬ T.Feeds a b := by
  rintro ⟨c, hc, -, rfl⟩
  obtain ⟨⟨-, s, hs, hd⟩, hdir⟩ := h.inputs c hc
  have hallows := h.allows hs hb
  rw [hd, hdir] at hallows
  cases hallows

/-- A source has no input port. -/
theorem Wired.plugged_source (h : T.Wired) {i : ComponentId} (hi : T.kind? i = some .source) :
    T.Plugged i := by
  intro j s hs hd
  have hallows := h.allows hs hi
  rw [hd] at hallows
  cases hallows

/-- Going upstream from a sound component meets no component twice. -/
theorem Sound.not_cycle {i j : ComponentId} (h : T.Sound i) (hji : ReflTransGen T.Feeds j i) :
    ¬ TransGen T.Feeds j j := by
  have hacc : Acc T.Feeds j := by
    rcases reflTransGen_iff_eq_or_transGen.mp hji with rfl | hji
    · exact h.acc
    · exact h.acc.inv_of_transGen hji
  have hirrefl : ∀ x, Acc (TransGen T.Feeds) x → ¬ TransGen T.Feeds x x := by
    intro x hx
    induction hx with
    | intro x _ ih => exact fun hxx => ih x hxx hxx
  exact hirrefl j hacc.transGen

/-- A component is sound if it is connected and what feeds it is sound. -/
theorem Sound.of_feeders {i : ComponentId} (hplugged : T.Plugged i)
    (h : ∀ a, T.Feeds a i → T.Sound a) : T.Sound i where
  acc := Acc.intro i fun a ha => (h a ha).acc
  plugged := by
    intro j hj
    rcases hj.cases_tail with rfl | ⟨a, hja, hai⟩
    · exact hplugged
    · exact (h a hai).plugged j hja

/-- A component that is no source has its messages from those that feed it. -/
theorem fed_iff_of_not_source {i : ComponentId} (hi : T.kind? i ≠ some .source) :
    T.Fed i ↔ ∃ a, T.Feeds a i ∧ T.Fed a := by
  constructor
  · rintro ⟨s, hs, hpath⟩
    rcases hpath.cases_tail with rfl | ⟨a, hsa, hai⟩
    · exact absurd hs hi
    · exact ⟨a, hai, s, hs, hsa⟩
  · rintro ⟨a, hai, s, hs, hsa⟩
    exact ⟨s, hs, hsa.tail hai⟩

end Topology

namespace Graph

variable {κ ω : Type} {g : Graph κ ω} {i : ComponentId} {c : Component κ} {p : Port}

theorem mem_inputPorts : p ∈ inputPorts c ↔ p ∈ c.ports ∧ p.direction = .input := by
  simp [inputPorts]

/-- The input ports of a component are the input ports that its topology knows. -/
theorem mem_inputPorts_iff (hc : g.components[i]? = some c) :
    p ∈ inputPorts c ↔ ∃ j, g.portAt? i j = some p ∧ p.direction = .input := by
  rw [mem_inputPorts, List.mem_iff_getElem?]
  simp [portAt?, hc]

/-- The connection that a port holds the number of is there. -/
theorem connectionOf?_of_connection (hw : g.topology.Wired) {j k : Nat}
    (hp : g.portAt? i j = some p) (hd : p.direction = .input) (hk : p.connection = some k) :
    ∃ conn, g.connections[k]? = some conn ∧ g.connectionOf? p = some conn ∧
      conn.input = ⟨g.id, i, j, .input⟩ := by
  have hs : g.topology.socket? i j = some p.socket := g.topology_socket?_eq_some.mpr ⟨p, hp, rfl⟩
  obtain ⟨conn, hconn, hinput⟩ := hw.input_of_connection hs hd hk
  refine ⟨conn, hconn, ?_, hinput⟩
  rw [connectionOf?, hk]
  exact hconn

/-- An input port without a feeder is not connected. -/
theorem feeder_eq_error (hw : g.topology.Wired) (hc : g.components[i]? = some c)
    (hp : p ∈ inputPorts c) {e : ValidationError} (h : g.feeder c p = .error e) :
    p.connection = none ∧ e = .unconnectedInput c.name p.name := by
  unfold feeder at h
  split at h
  · cases h
  · rename_i hnone
    refine ⟨?_, (Except.error.inj h).symm⟩
    obtain ⟨j, hport, hd⟩ := (mem_inputPorts_iff hc).mp hp
    cases hk : p.connection with
    | none => rfl
    | some k =>
      obtain ⟨conn, -, hsome, -⟩ := connectionOf?_of_connection hw hport hd hk
      rw [hnone] at hsome
      cases hsome

/-- The feeder of an input port is where the connection to that port starts. -/
theorem feeder_eq_ok_iff (hw : g.topology.Wired) {j : Nat} (hp : g.portAt? i j = some p)
    (hd : p.direction = .input) {a : ComponentId} :
    g.feeder c p = .ok a ↔
      ∃ conn ∈ g.connections, conn.input = ⟨g.id, i, j, .input⟩ ∧ conn.output.component = a := by
  constructor
  · intro h
    unfold feeder at h
    split at h
    · rename_i conn hconn
      obtain ⟨k, hk, -⟩ := Option.bind_eq_some_iff.mp hconn
      obtain ⟨conn', hget, hconn', hinput⟩ := connectionOf?_of_connection hw hp hd hk
      obtain rfl : conn = conn' := Option.some.inj (hconn.symm.trans hconn')
      exact ⟨conn, List.mem_of_getElem? hget, hinput, Except.ok.inj h⟩
    · cases h
  · rintro ⟨conn, hconn, hinput, rfl⟩
    obtain ⟨k, hk⟩ := List.mem_iff_getElem?.mp hconn
    have hs : g.topology.socket? i j = some p.socket := g.topology_socket?_eq_some.mpr ⟨p, hp, rfl⟩
    have hend : conn.input = ⟨g.id, i, j, p.socket.direction⟩ := by
      rw [hinput, ← hd]
      rfl
    have hpk : p.connection = some k := (hw.ends i j p.socket hs k).mpr ⟨conn, hk, Or.inr hend⟩
    have hof : g.connectionOf? p = some conn := by
      rw [connectionOf?, hpk]
      exact hk
    rw [feeder, hof]

/-- The feeders of the input ports of a component are the components that feed it. -/
theorem exists_feeder_iff (hw : g.topology.Wired) (hc : g.components[i]? = some c)
    (a : ComponentId) :
    (∃ p ∈ inputPorts c, g.feeder c p = .ok a) ↔ g.topology.Feeds a i := by
  constructor
  · rintro ⟨p, hp, h⟩
    obtain ⟨j, hport, hd⟩ := (mem_inputPorts_iff hc).mp hp
    obtain ⟨conn, hconn, hinput, hout⟩ := (feeder_eq_ok_iff hw hport hd).mp h
    exact ⟨conn, hconn, hout, by rw [hinput]⟩
  · rintro ⟨conn, hconn, rfl, rfl⟩
    obtain ⟨⟨-, s, hs, hd⟩, hdir⟩ := hw.inputs conn hconn
    have hinput := (hw.inputs conn hconn).1.eq_mk hs rfl rfl
    obtain ⟨p, hp, rfl⟩ := g.topology_socket?_eq_some.mp hs
    have hpd : p.direction = .input := hd.trans hdir
    rw [hd, hdir] at hinput
    exact ⟨p, (mem_inputPorts_iff hc).mpr ⟨_, hp, hpd⟩,
      (feeder_eq_ok_iff hw hp hpd).mpr ⟨conn, hconn, hinput, rfl⟩⟩

/-- A component is connected if each of its input ports has a feeder. -/
theorem plugged_of_feeders (hc : g.components[i]? = some c)
    (h : ∀ p ∈ inputPorts c, ∃ a, g.feeder c p = .ok a) : g.topology.Plugged i := by
  intro j s hs hd
  obtain ⟨p, hp, rfl⟩ := g.topology_socket?_eq_some.mp hs
  obtain ⟨a, ha⟩ := h p ((mem_inputPorts_iff hc).mpr ⟨j, hp, hd⟩)
  unfold feeder at ha
  split at ha
  · rename_i conn hconn
    obtain ⟨k, hk, -⟩ := Option.bind_eq_some_iff.mp hconn
    exact Option.isSome_iff_exists.mpr ⟨k, hk⟩
  · cases ha

theorem sound_of_feeders (hw : g.topology.Wired) (hc : g.components[i]? = some c)
    (h : ∀ p ∈ inputPorts c, ∃ a, g.feeder c p = .ok a ∧ g.topology.Sound a) :
    g.topology.Sound i := by
  refine .of_feeders (plugged_of_feeders hc fun p hp => ?_) fun a ha => ?_
  · obtain ⟨a, ha, -⟩ := h p hp
    exact ⟨a, ha⟩
  · obtain ⟨p, hp, ha⟩ := (exists_feeder_iff hw hc a).mpr ha
    obtain ⟨a', ha', hsound⟩ := h p hp
    obtain rfl : a = a' := Except.ok.inj (ha.symm.trans ha')
    exact hsound

theorem fed_iff_feeders (hw : g.topology.Wired) (hc : g.components[i]? = some c)
    (hk : c.kind ≠ .source) :
    g.topology.Fed i ↔ ∃ p ∈ inputPorts c, ∃ a, g.feeder c p = .ok a ∧ g.topology.Fed a := by
  have hkind : g.topology.kind? i ≠ some .source := by
    rw [g.topology_kind?_eq_some.mpr ⟨c, hc, rfl⟩]
    exact fun h => hk (Option.some.inj h)
  rw [Topology.fed_iff_of_not_source hkind]
  constructor
  · rintro ⟨a, ha, hfed⟩
    obtain ⟨p, hp, ha⟩ := (exists_feeder_iff hw hc a).mpr ha
    exact ⟨p, hp, a, ha, hfed⟩
  · rintro ⟨p, hp, a, ha, hfed⟩
    exact ⟨a, (exists_feeder_iff hw hc a).mp ⟨p, hp, ha⟩, hfed⟩

end Graph
end PullGraph
