import PullGraph.Proofs.Peers

/-! # What a failed check says is so

`Graph.validate` reports its errors by the names of components and ports. The names of the
components of a graph differ, and so do those of the ports of a component in one direction,
so an error is about one place of the graph, and `ValidationError.Holds` says what it says
of that place: in terms of connections and the paths they form, not of the walk that found
it.
-/
namespace PullGraph

open Relation

variable {κ ω : Type}

/-- A component lies upstream of an input port: messages of it can reach the port. -/
def Topology.Upstream (T : Topology κ) (a i : ComponentId) (j : Nat) : Prop :=
  ∃ c ∈ T.connections, c.input = ⟨T.id, i, j, .input⟩ ∧ ReflTransGen T.Feeds a c.output.component

namespace Graph

variable {g : Graph κ ω} {c : Component κ} {p : Port}

/-! ## Places by name -/

/-- A name leads to the component that has it. -/
theorem find?_eq_some_iff (hw : g.topology.Wired) {name : String} :
    g.find? name = some c ↔ g.components[c.id]? = some c ∧ c.name = name := by
  have hg := consistent_of_wired hw
  constructor
  · intro hfind
    obtain ⟨i, hi⟩ := List.mem_iff_getElem?.mp (List.mem_of_find?_eq_some hfind)
    obtain ⟨rfl, -⟩ := hg.positions i c hi
    exact ⟨hi, by simpa using List.find?_some hfind⟩
  · rintro ⟨hc, rfl⟩
    have hmem : c ∈ g.components := List.mem_of_getElem? hc
    obtain ⟨c', hfind⟩ := Option.isSome_iff_exists.mp
      (List.find?_isSome.mpr ⟨c, hmem, decide_eq_true rfl⟩ : (g.find? c.name).isSome)
    have hname : c'.name = c.name := by simpa using List.find?_some hfind
    rw [find?, hfind,
      List.inj_on_of_nodup_map hg.names (List.mem_of_find?_eq_some hfind) hmem hname]

/-- A name and a direction lead to the port that has them. -/
theorem portIndex?_eq_some (hw : g.topology.Wired) (hc : c ∈ g.components) {j : Nat}
    (hp : c.ports[j]? = some p) : c.portIndex? p.name p.direction = some j := by
  have hdiffer : c.ports.Pairwise fun p q =>
      (⟨p.name, p.direction⟩ : PortSpec) ≠ ⟨q.name, q.direction⟩ := by
    rw [← List.pairwise_map, (consistent_of_wired hw).ports c hc]
    exact (c.cls.validate_eq_ok_iff.mp (hw.schemas c.outline (List.mem_map_of_mem hc)).1).2.2
  obtain ⟨hj, rfl⟩ := List.getElem?_eq_some_iff.mp hp
  refine List.findIdx?_eq_some_iff_getElem.mpr ⟨hj, by simp, fun k hk hmatch => ?_⟩
  simp only [Bool.and_eq_true, decide_eq_true_eq] at hmatch
  refine List.pairwise_iff_getElem.mp hdiffer k j (Nat.lt_trans hk hj) hj hk ?_
  rw [hmatch.1, hmatch.2]

/-- The names of a component and of an input port of it lead to a port of the graph. -/
structure Locates (g : Graph κ ω) (component port : String) (c : Component κ) (j : Nat)
    (p : Port) : Prop where
  component : g.find? component = some c
  index : c.portIndex? port .input = some j
  port : c.ports[j]? = some p

theorem locates_of_mem (hw : g.topology.Wired) {i : ComponentId} (hc : g.components[i]? = some c)
    (hp : p ∈ inputPorts c) : c.id = i ∧ ∃ j, g.Locates c.name p.name c j p := by
  obtain ⟨rfl, -⟩ := (consistent_of_wired hw).positions i c hc
  obtain ⟨j, hport, hd⟩ := (mem_inputPorts_iff hc).mp hp
  have hat : c.ports[j]? = some p := by simpa [portAt?, hc] using hport
  refine ⟨rfl, j, (find?_eq_some_iff hw).mpr ⟨hc, rfl⟩, ?_, hat⟩
  rw [← hd]
  exact portIndex?_eq_some hw (List.mem_of_getElem? hc) hat

end Graph

/-! ## The errors -/

/-- What an error of the check says of a graph. -/
def ValidationError.Holds (g : Graph κ ω) : ValidationError → Prop
  | .noSink => ∀ c ∈ g.components, c.kind ≠ .sink
  | .cycle component =>
    ∃ c, g.find? component = some c ∧ g.topology.Serves c.id ∧ TransGen g.topology.Feeds c.id c.id
  | .unconnectedInput component port =>
    ∃ c j p, g.Locates component port c j p ∧ p.connection = none ∧
      (c.kind = .sink ∨ c.kind = .filter ∧ g.topology.Serves c.id)
  | .unreachable component port =>
    ∃ c j p, g.Locates component port c j p ∧ c.kind = .sink ∧ p.connection.isSome ∧
      ∀ a, g.topology.Upstream a c.id j →
        g.topology.Plugged a ∧ ¬ TransGen g.topology.Feeds a a ∧ g.topology.kind? a ≠ some .source

namespace Graph

variable {g : Graph κ ω} {e : ValidationError}

theorem sinks_eq_nil_iff (hw : g.topology.Wired) :
    g.sinks = [] ↔ ∀ c ∈ g.components, c.kind ≠ .sink := by
  have hsinks := (consistent_of_wired hw).sinks
  rw [List.eq_nil_iff_forall_not_mem]
  constructor
  · intro h c hc hk
    obtain ⟨i, hi⟩ := List.mem_iff_getElem?.mp hc
    exact h i ((hsinks i).mpr ⟨c, hi, hk⟩)
  · intro h i hi
    obtain ⟨c, hc, hk⟩ := (hsinks i).mp hi
    exact h c (List.mem_of_getElem? hc) hk

/-- A component with an input port upstream of a sink is that sink or a filter. -/
theorem kind_of_input (hw : g.topology.Wired) {i s : ComponentId} {c : Component κ} {p : Port}
    (hc : g.components[i]? = some c) (hp : p ∈ inputPorts c)
    (hs : g.topology.kind? s = some .sink) (hpath : ReflTransGen g.topology.Feeds i s) :
    c.kind = .sink ∨ c.kind = .filter ∧ g.topology.Serves i := by
  have hkind : g.topology.kind? i = some c.kind := g.topology_kind?_eq_some.mpr ⟨c, hc, rfl⟩
  cases hk : c.kind with
  | sink => exact .inl rfl
  | filter => exact .inr ⟨rfl, s, hs, hpath⟩
  | source =>
    obtain ⟨j, hport, hd⟩ := (mem_inputPorts_iff hc).mp hp
    have hallows := hw.allows (g.topology_socket?_eq_some.mpr ⟨p, hport, rfl⟩) hkind
    rw [hk, show p.socket.direction = .input from hd] at hallows
    cases hallows

/-- What the walk from a sink objects to is so. -/
theorem Objects.holds (hw : g.topology.Wired) {s : ComponentId} (h : Objects g s e)
    (hs : g.topology.kind? s = some .sink) : e.Holds g := by
  cases h with
  | @cycle i c hc hpath hcycle =>
    obtain ⟨rfl, -⟩ := (consistent_of_wired hw).positions i c hc
    exact ⟨c, (find?_eq_some_iff hw).mpr ⟨hc, rfl⟩, ⟨s, hs, hpath⟩, hcycle⟩
  | @unconnected i c p hc hpath hp hnone =>
    have hkind := kind_of_input hw hc hp hs hpath
    obtain ⟨rfl, j, hplace⟩ := locates_of_mem hw hc hp
    exact ⟨c, j, p, hplace, hnone, hkind⟩

theorem Refuses.holds (hw : g.topology.Wired) (h : Refuses g e) : e.Holds g := by
  cases h with
  | noSink hempty => exact (sinks_eq_nil_iff hw).mp hempty
  | upstream hs hobjects => exact hobjects.holds hw (hw.mem_sinks.mp hs)
  | @unreachable s c p a hs hc hp hf hsound hunfed =>
    obtain ⟨rfl, j, hplace⟩ := locates_of_mem hw hc hp
    obtain ⟨c', hc', hk⟩ := ((consistent_of_wired hw).sinks c.id).mp hs
    obtain rfl : c = c' := Option.some.inj (hc.symm.trans hc')
    have hport : g.portAt? c.id j = some p := by
      rw [portAt?, hc]
      exact hplace.port
    have hd : p.direction = .input := (mem_inputPorts.mp hp).2
    have hfeeder : ∀ b, g.feeder c p = .ok b ↔ ∃ conn ∈ g.connections,
        conn.input = ⟨g.id, c.id, j, .input⟩ ∧ conn.output.component = b :=
      fun b => feeder_eq_ok_iff hw hport hd
    refine ⟨c, j, p, hplace, hk, ?connected, ?above⟩
    case connected =>
      obtain ⟨conn, hmem, hinput, -⟩ := (hfeeder a).mp hf
      obtain ⟨k, hget⟩ := List.mem_iff_getElem?.mp hmem
      obtain ⟨port, hnames, hheld⟩ := names_of_endsAt hw hget (.inr hinput)
      obtain rfl : port = p := Option.some.inj ((names_iff.mp hnames).1.symm.trans hport)
      rw [hheld]
      rfl
    case above =>
      rintro b ⟨conn, hmem, hinput, hpath⟩
      -- one connection comes in at the port, and its feeder is where the walk went
      obtain rfl : a = conn.output.component :=
        Except.ok.inj (hf.symm.trans ((hfeeder _).mpr ⟨conn, hmem, hinput, rfl⟩))
      exact ⟨hsound.plugged b hpath, hsound.not_cycle hpath, fun hb => hunfed ⟨b, hb, hpath⟩⟩

theorem holds_of_validate (hw : g.topology.Wired) (h : g.validate = .error e) : e.Holds g := by
  have hanswers := validate_answers hw
  rw [h] at hanswers
  exact hanswers.holds hw

theorem validate_eq_noSink_iff (hw : g.topology.Wired) :
    g.validate = .error .noSink ↔ ∀ c ∈ g.components, c.kind ≠ .sink := by
  refine ⟨holds_of_validate hw, fun h => ?_⟩
  rw [validate, (sinks_eq_nil_iff hw).mpr h]
  rfl

end Graph

section

variable [Behavior κ ω] {g : Graph κ ω} {env : Env ω} {added : List ComponentId}

/-- **What a failed check says is so**, at any time of the life of a graph; that there is no
sink is said whenever there is none, and something is said of every graph that cannot run. -/
theorem Lifetime.validate_truthful (h : Lifetime added g env) :
    (∀ e, g.validate = .error e → e.Holds g) ∧
      (g.validate = .error .noSink ↔ ∀ c ∈ g.components, c.kind ≠ .sink) ∧
      ((∃ e, g.validate = .error e) ↔ ¬ g.topology.WellFormed) := by
  have hw := h.sane.wired
  refine ⟨fun e => Graph.holds_of_validate hw, Graph.validate_eq_noSink_iff hw, ?_⟩
  rw [← Graph.validate_iff hw]
  cases g.validate with
  | error e => simp
  | ok u => simp

end

/-- A filter that also takes what it gave before. -/
def tankClass : ComponentClass (Standard (List Message)) :=
  ((Standard.passthroughClass.withPort .input "back").withPort .output "again")

/-- The requests that build a graph with a loop: a tank gives to a sink and, by way of a pump,
to itself. -/
def loopRequests : List (Request (Standard (List Message)) (List Message)) :=
  [.add (Standard.itemsClass "letters" [.int 1]) "giver" .nil,
    .add tankClass "tank" .nil,
    .add Standard.passthroughClass "pump" .nil,
    .add (Standard.collectClass "keep" fun m kept => kept ++ [m]) "taker" .nil,
    .link "giver" "out" "tank" "in",
    .link "tank" "again" "pump" "in",
    .link "pump" "out" "tank" "back",
    .link "tank" "out" "taker" "in"]

/-- The graph with a loop, and its environment. -/
def loop : Graph (Standard (List Message)) (List Message) × Env (List Message) :=
  Graph.build "loop" .standard [] loopRequests

theorem loop_lifetime : Lifetime [0, 1, 2, 3] loop.1 loop.2 := by
  refine .built (rfl : loop = Graph.build _ _ _ loopRequests) ?_
  simp [loopRequests, Request.runs, Request.Fits]

/-- The tank lies on a cycle upstream of the sink, and the check says so. -/
theorem loop_cycle :
    Lifetime [0, 1, 2, 3] loop.1 loop.2 ∧ loop.1.validate = .error (.cycle "tank") ∧
      (ValidationError.cycle "tank").Holds loop.1 :=
  ⟨loop_lifetime, rfl, loop_lifetime.validate_truthful.1 _ rfl⟩

end PullGraph
