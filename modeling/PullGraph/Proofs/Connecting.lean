import PullGraph.Proofs.Freezing
import PullGraph.Proofs.Latches
import PullGraph.Proofs.Peers

/-! # Connecting two ports

A caller has handles of ports, got at some time from a component of the graph or of another
one. A graph only grows: a port stays where it is, with its name and its direction, and keeps
its connection once it has one. So a handle resolves to the same port for good, and whether
two ports can be connected is a matter of the ports, not of the order in which they are given.
-/
namespace PullGraph

variable {κ ω : Type}

/-! ## Growing -/

namespace Topology

/-- A topology grows: components keep their places, names and ports, and a port that is
connected keeps its connection. -/
structure Grows (T T' : Topology κ) : Prop where
  id : T'.id = T.id
  component : ∀ (i : Nat) (o : Outline κ), T.components[i]? = some o →
    ∃ o' : Outline κ, T'.components[i]? = some o' ∧ o'.id = o.id ∧ o'.name = o.name
  socket : ∀ i j s, T.socket? i j = some s →
    ∃ s', T'.socket? i j = some s' ∧ s'.spec = s.spec ∧
      (s.connection.isSome → s'.connection = s.connection)

namespace Grows

variable {T T' T'' : Topology κ}

theorem refl (T : Topology κ) : T.Grows T where
  id := rfl
  component _ o ho := ⟨o, ho, rfl, rfl⟩
  socket _ _ s hs := ⟨s, hs, rfl, fun _ => rfl⟩

theorem trans (h : T.Grows T') (h' : T'.Grows T'') : T.Grows T'' where
  id := h'.id.trans h.id
  component := by
    intro i o ho
    obtain ⟨o', ho', hid, hname⟩ := h.component i o ho
    obtain ⟨o'', ho'', hid', hname'⟩ := h'.component i o' ho'
    exact ⟨o'', ho'', hid'.trans hid, hname'.trans hname⟩
  socket := by
    intro i j s hs
    obtain ⟨s', hs', hspec, hkept⟩ := h.socket i j s hs
    obtain ⟨s'', hs'', hspec', hkept'⟩ := h'.socket i j s' hs'
    refine ⟨s'', hs'', hspec'.trans hspec, fun hsome => ?_⟩
    have hmid := hkept hsome
    exact (hkept' (hmid ▸ hsome)).trans hmid

theorem push (T : Topology κ) (o : Outline κ) : T.Grows (T.push o) where
  id := rfl
  component i o' ho' := by
    refine ⟨o', ?_, rfl, rfl⟩
    rw [push_getElem?_of_lt o (List.getElem?_eq_some_iff.mp ho').1, ho']
  socket i j s hs := by
    refine ⟨s, ?_, rfl, fun _ => rfl⟩
    rw [push_socket?_of_lt o (lt_of_socket? hs), hs]

/-- A connection between free ports takes nothing from any port. -/
theorem join (T : Topology κ) {c : Connection}
    (hfree : ∀ p s, p = c.output ∨ p = c.input → T.socket? p.component p.index = some s →
      s.connection = none) : T.Grows (T.join c) where
  id := rfl
  component := by
    have hmap : (T.join c).components.map (fun o => (o.id, o.name)) =
        T.components.map fun o => (o.id, o.name) := join_map (fun _ _ => rfl) c
    intro i o ho
    have hi : ((T.join c).components.map fun o => (o.id, o.name))[i]? = some (o.id, o.name) := by
      rw [hmap, List.getElem?_map, ho]
      rfl
    rw [List.getElem?_map] at hi
    obtain ⟨o', ho', heq⟩ := Option.map_eq_some_iff.mp hi
    exact ⟨o', ho', (Prod.mk.inj heq).1, (Prod.mk.inj heq).2⟩
  socket := by
    intro i j s hs
    rw [join_socket?, hs]
    split
    · rename_i hend
      have hnone : s.connection = none := by
        rcases hend with ⟨rfl, rfl⟩ | ⟨rfl, rfl⟩
        · exact hfree c.output s (.inl rfl) hs
        · exact hfree c.input s (.inr rfl) hs
      exact ⟨s.plug c.id, rfl, rfl, fun hsome => by rw [hnone] at hsome; cases hsome⟩
    · exact ⟨s, rfl, rfl, fun _ => rfl⟩

theorem offers (h : T.Grows T') {p : PortHandle} (hp : T.Offers p) : T'.Offers p := by
  obtain ⟨hid, s, hs, hd⟩ := hp
  obtain ⟨s', hs', hspec, -⟩ := h.socket _ _ s hs
  exact ⟨hid.trans h.id.symm, s', hs', (congrArg PortSpec.direction hspec).trans hd⟩

end Grows
end Topology

namespace Graph

variable {g g' : Graph κ ω} {a b p q : PortHandle} {c : Connection}

theorem connect_grows (g : Graph κ ω) (a b : PortHandle) (env : Env ω) :
    g.topology.Grows (g.connect a b env).graph.topology := by
  rcases g.connect_cases a b env with ⟨e, env', hconnect, -⟩ | ⟨c, env', hplans, hconnect, -⟩
  · rw [hconnect]
    exact .refl _
  · rw [hconnect]
    change g.topology.Grows (g.join c).topology
    rw [topology_join]
    exact .join g.topology fun p s hp hs => hplans.free hp hs

end Graph

section

variable [Behavior κ ω] {g g' : Graph κ ω} {env env' : Env ω}

/-- Whatever is asked of a graph, it only grows. -/
theorem Request.topology_grows (g : Graph κ ω) (env : Env ω) (r : Request κ ω) :
    g.topology.Grows (r.perform g env).graph.topology := by
  cases r with
  | add cls name settings =>
    change g.topology.Grows (g.add cls name settings env).graph.topology
    rcases g.add_cases cls name settings env with ⟨e, env', hadd, -⟩ | ⟨-, k, env', hadd, -⟩
    · rw [hadd]
      exact .refl _
    · rw [hadd]
      change g.topology.Grows (g.push _).topology
      rw [Graph.topology_push]
      exact .push g.topology _
  | connect a b => exact g.connect_grows a b env
  | link giver output taker input =>
    change g.topology.Grows (g.link giver output taker input env).graph.topology
    rcases g.link_cases giver output taker input env with ⟨e, hlink⟩ | ⟨a, b, -, -, hlink⟩
    · rw [hlink]
      exact .refl _
    · rw [hlink]
      exact g.connect_grows a b env
  | follow policy => exact .refl _
  | runOnce patience => exact (g.runOnce_ran patience env).topology_eq ▸ .refl _
  | run patience rounds => exact (g.run_ran patience rounds env).topology_eq ▸ .refl _
  | cancel => exact .refl _
  | teardown => exact g.teardown_topology env ▸ .refl _

theorem Graph.Later.grows (h : g.Later env g' env') : g.topology.Grows g'.topology := by
  induction h with
  | here => exact .refl _
  | elsewhere _ _ ih => exact ih
  | call _ r ih => exact ih.trans (r.topology_grows _ _)

end

/-! ## Handles -/

namespace Graph

variable {g g' : Graph κ ω} {a b p q output input : PortHandle} {c : Connection}

theorem resolve_of_offers (h : g.topology.Offers p) :
    ∃ x port, g.components[p.component]? = some x ∧ g.port? p = some port ∧
      g.resolve p = .ok (x, port) := by
  obtain ⟨port, hport⟩ := names_of_offers h
  have hid : p.graph = g.id := h.1
  obtain ⟨x, hx, hresolve⟩ := resolve_of_portAt? hid (names_iff.mp hport).1
  exact ⟨x, port, hx, hport.1, hresolve⟩

/-- A handle resolves to a port of a component, by their names and the direction. -/
def ResolvesAs (g : Graph κ ω) (p : PortHandle) (x : Component κ) (port : Port) : Prop :=
  ∃ x' port', g.resolve p = .ok (x', port') ∧ x'.id = x.id ∧ x'.name = x.name ∧
    port'.name = port.name ∧ port'.direction = port.direction

/-- A handle resolves to the same port after the graph has grown. -/
theorem resolvesAs_of_grows (hw : g.topology.Wired) (h : g.topology.Grows g'.topology)
    {x : Component κ} {j : Nat} {port : Port} (hx : x ∈ g.components)
    (hport : x.ports[j]? = some port) (hp : x.handleAt? j = some p) : g'.ResolvesAs p x port := by
  obtain ⟨i, hi⟩ := List.mem_iff_getElem?.mp hx
  obtain ⟨rfl, hgraph⟩ := (consistent_of_wired hw).positions i x hi
  obtain rfl : p = ⟨x.graph, x.id, j, port.direction⟩ := by
    rw [Component.handleAt?, hport] at hp
    exact (Option.some.inj hp).symm
  -- where the port is, and what it is called, is a matter of the topology
  obtain ⟨o, ho, hid, hname⟩ := h.component x.id x.outline (by rw [topology_getElem?, hi]; rfl)
  have hsocket : g.topology.socket? x.id j = some port.socket := by
    refine g.topology_socket?_eq_some.mpr ⟨port, ?_, rfl⟩
    rw [portAt?, hi]
    exact hport
  obtain ⟨s, hs, hspec, -⟩ := h.socket x.id j port.socket hsocket
  obtain ⟨port', hport', rfl⟩ := g'.topology_socket?_eq_some.mp hs
  obtain ⟨x', hx', hresolve⟩ := resolve_of_portAt? (g := g')
    (p := ⟨x.graph, x.id, j, port.direction⟩) (hgraph.trans h.id.symm) hport'
  rw [topology_getElem?, show g'.components[x.id]? = some x' from hx'] at ho
  obtain rfl : x'.outline = o := Option.some.inj ho
  exact ⟨x', port', hresolve, hid, hname, congrArg PortSpec.name hspec,
    congrArg PortSpec.direction hspec⟩

/-- A handle that a caller may have: of another graph, or given out by a component of this
graph, now or before. -/
inductive Held [Behavior κ ω] (g : Graph κ ω) (env : Env ω) (p : PortHandle) : Prop where
  | foreign (graph : p.graph ≠ g.id)
  | own {added : List ComponentId} {g₀ : Graph κ ω} {env₀ : Env ω} {x : Component κ}
      (life : Lifetime added g₀ env₀) (later : g₀.Later env₀ g env) (component : x ∈ g₀.components)
      (handle : x.handleAt? p.index = some p)

theorem Held.offers [Behavior κ ω] {env : Env ω} (h : g.Held env p) (hp : p.graph = g.id) :
    g.topology.Offers p := by
  cases h with
  | foreign hgraph => exact absurd hp hgraph
  | own hlife hlater hx hhandle =>
    have hgrows := hlater.grows
    exact hgrows.offers (Issued.offers hlife.sane.wired (fun _ => ⟨_, hx, hhandle⟩)
      (hp.trans hgrows.id))

/-! ## What becomes of two ports -/

/-- The handle names a port that is connected. -/
def Taken (g : Graph κ ω) (p : PortHandle) : Prop :=
  ∃ port, g.port? p = some port ∧ port.connection.isSome = true

/-- The two ports can be connected. -/
structure Joinable (g : Graph κ ω) (a b : PortHandle) : Prop where
  open_ : g.state = .configuring
  first : a.graph = g.id
  second : b.graph = g.id
  directions : a.direction ≠ b.direction
  apart : a.component ≠ b.component
  firstFree : ¬ g.Taken a
  secondFree : ¬ g.Taken b

/-- One of two ports gives and the other takes. -/
structure Oriented (a b output input : PortHandle) : Prop where
  ends : output = a ∧ input = b ∨ output = b ∧ input = a
  gives : output.direction = .output
  takes : input.direction = .input

/-- What connecting two ports makes of a graph. -/
structure Joins (g : Graph κ ω) (a b : PortHandle) (c : Connection) (g' : Graph κ ω) : Prop where
  oriented : Oriented a b c.output c.input
  number : c.id = g.connections.length
  connections : g'.connections = g.connections ++ [c]
  /-- The connection is noted at the two ports; apart from that no port differs. -/
  ports : ∀ i j, g'.portAt? i j =
    if (a.component = i ∧ a.index = j) ∨ (b.component = i ∧ b.index = j)
    then (g.portAt? i j).map fun port => { port with connection := some c.id }
    else g.portAt? i j
  /-- Apart from their ports no components differ. -/
  components : g'.components.map (fun x => { x with ports := [] }) =
    g.components.map fun x => { x with ports := [] }
  rest : { g' with components := g.components, connections := g.connections } = g

theorem Oriented.orient_eq (h : Oriented a b output input) : orient a b = .ok (output, input) := by
  rcases h.ends with ⟨rfl, rfl⟩ | ⟨rfl, rfl⟩
  · simp [orient, h.gives, h.takes]
  · simp [orient, h.gives, h.takes]

/-- What holds of both ports does so in whichever order they are given. -/
theorem Oriented.and_iff (h : Oriented a b output input) (P : PortHandle → Prop) :
    P output ∧ P input ↔ P a ∧ P b := by
  rcases h.ends with ⟨rfl, rfl⟩ | ⟨rfl, rfl⟩
  · exact Iff.rfl
  · exact and_comm

theorem Oriented.ne_iff {α : Type} (h : Oriented a b output input) (f : PortHandle → α) :
    f output ≠ f input ↔ f a ≠ f b := by
  rcases h.ends with ⟨rfl, rfl⟩ | ⟨rfl, rfl⟩
  · exact Iff.rfl
  · exact ne_comm

theorem exists_oriented (h : a.direction ≠ b.direction) :
    ∃ output input, Oriented a b output input := by
  cases ha : a.direction with
  | output =>
    cases hb : b.direction with
    | output => exact absurd (ha.trans hb.symm) h
    | input => exact ⟨a, b, .inl ⟨rfl, rfl⟩, ha, hb⟩
  | input =>
    cases hb : b.direction with
    | output => exact ⟨b, a, .inr ⟨rfl, rfl⟩, hb, ha⟩
    | input => exact absurd (ha.trans hb.symm) h

theorem Oriented.symm (h : Oriented a b output input) : Oriented b a output input :=
  ⟨h.ends.symm, h.gives, h.takes⟩

theorem orient_comm (a b : PortHandle) : orient b a = orient a b := by
  unfold orient
  cases a.direction <;> cases b.direction <;> rfl

/-- The order in which two ports are given does not matter. -/
theorem plan_comm (g : Graph κ ω) (a b : PortHandle) : g.plan b a = g.plan a b := by
  unfold plan
  rw [orient_comm, Bool.or_comm]

theorem connect_comm (g : Graph κ ω) (a b : PortHandle) (env : Env ω) :
    (g.connect b a env).result = (g.connect a b env).result ∧
      (g.connect b a env).graph = (g.connect a b env).graph := by
  unfold connect
  rw [plan_comm]
  cases g.plan a b <;> exact ⟨rfl, rfl⟩

theorem connect_result (g : Graph κ ω) (a b : PortHandle) (env : Env ω) :
    (g.connect a b env).result = (g.plan a b).map (·.1) := by
  unfold connect
  cases g.plan a b <;> rfl

theorem Taken.graph_eq (h : g.Taken p) : p.graph = g.id := by
  obtain ⟨port, hport, -⟩ := h
  unfold port? at hport
  split at hport
  · assumption
  · cases hport

/-- A port that is connected stays connected. -/
theorem Taken.of_grows (h : g.Taken p) (hgrows : g.topology.Grows g'.topology) : g'.Taken p := by
  have hid : p.graph = g'.id := h.graph_eq.trans hgrows.id.symm
  obtain ⟨port, hport, hsome⟩ := h
  rw [port?, if_pos (Taken.graph_eq ⟨port, hport, hsome⟩)] at hport
  obtain ⟨s, hs, -, hkept⟩ := hgrows.socket _ _ port.socket
    (g.topology_socket?_eq_some.mpr ⟨port, hport, rfl⟩)
  obtain ⟨port', hport', rfl⟩ := g'.topology_socket?_eq_some.mp hs
  have hconnection : port'.connection = port.connection := hkept hsome
  exact ⟨port', by rw [port?, if_pos hid, hport'], hconnection ▸ hsome⟩

theorem not_taken_iff (h : g.topology.Offers p) :
    ¬ g.Taken p ↔ ∃ port, g.portAt? p.component p.index = some port ∧ port.connection = none := by
  have hid : p.graph = g.id := h.1
  obtain ⟨port, hport⟩ := names_of_offers h
  have hat := (names_iff.mp hport).1
  constructor
  · intro hfree
    refine ⟨port, hat, ?_⟩
    cases hk : port.connection with
    | none => rfl
    | some k => exact absurd ⟨port, hport.1, by rw [hk]; rfl⟩ hfree
  · rintro ⟨port', hport', hnone⟩ ⟨port'', hport'', hsome⟩
    rw [port?, if_pos hid, hport'] at hport''
    obtain rfl := Option.some.inj hport''
    rw [hnone] at hsome
    cases hsome

/-- Ports that are there are connected iff they can be. -/
theorem connects_iff (ha : a.graph = g.id → g.topology.Offers a)
    (hb : b.graph = g.id → g.topology.Offers b) (env : Env ω) :
    (∃ c, (g.connect a b env).result = .ok c) ↔ g.Joinable a b := by
  constructor
  · rintro ⟨c, hc⟩
    have h := plans_of_connect hc
    have ho : Oriented a b c.output c.input := ⟨h.ends, h.output, h.input⟩
    have hdirections : c.output.direction ≠ c.input.direction := by
      rw [h.output, h.input]
      decide
    obtain ⟨hout, hin⟩ := (ho.and_iff g.topology.Offers).mpr ⟨ha h.first, hb h.second⟩
    obtain ⟨hafree, hbfree⟩ := (ho.and_iff fun p => ¬ g.Taken p).mp
      ⟨(not_taken_iff hout).mpr h.outputFree, (not_taken_iff hin).mpr h.inputFree⟩
    exact ⟨h.open_, h.first, h.second, (ho.ne_iff PortHandle.direction).mp hdirections,
      (ho.ne_iff PortHandle.component).mp h.apart, hafree, hbfree⟩
  · intro h
    obtain ⟨output, input, ho⟩ := exists_oriented h.directions
    have hapart := (ho.ne_iff PortHandle.component).mpr h.apart
    obtain ⟨hout, hin⟩ := (ho.and_iff fun p => ∃ port,
        g.portAt? p.component p.index = some port ∧ port.connection = none).mpr
      ⟨(not_taken_iff (ha h.first)).mp h.firstFree, (not_taken_iff (hb h.second)).mp h.secondFree⟩
    have hplans : g.Plans a b ⟨g.connections.length, output, input⟩ :=
      ⟨h.open_, h.first, h.second, ho.ends, rfl, ho.gives, ho.takes, hapart, hout, hin⟩
    obtain ⟨first, second, hconnect⟩ := hplans.connect_eq env
    exact ⟨_, congrArg After.result hconnect⟩

/-- Of two ports on two components that are there, the one that is taken is reported, and the
output if both are. -/
theorem connect_taken (hopen : g.state = .configuring) (ho : Oriented a b output input)
    (hout : g.topology.Offers output) (hin : g.topology.Offers input)
    (hapart : output.component ≠ input.component) (env : Env ω)
    (hp : p = output ∧ g.Taken output ∨ p = input ∧ ¬ g.Taken output ∧ g.Taken input) :
    ∃ x port, g.resolve p = .ok (x, port) ∧
      (g.connect a b env).result = .error (.alreadyConnected x.name port.name) := by
  have hgraphs := (ho.and_iff (·.graph = g.id)).mp ⟨hout.1, hin.1⟩
  obtain ⟨giver, from_, -, hfrom, hgiver⟩ := resolve_of_offers hout
  obtain ⟨taker, to_, -, hto, htaker⟩ := resolve_of_offers hin
  have htaken : ∀ {q port}, g.port? q = some port →
      (g.Taken q ↔ port.connection.isSome = true) := by
    intro q port hport
    refine ⟨?_, fun hsome => ⟨port, hport, hsome⟩⟩
    rintro ⟨port', hport', hsome⟩
    obtain rfl := Option.some.inj (hport.symm.trans hport')
    exact hsome
  rw [htaken hfrom, htaken hto] at hp
  rw [connect_result, plan_of_resolve hopen hgraphs.1 hgraphs.2 ho.orient_eq hgiver htaker,
    if_neg hapart]
  rcases hp with ⟨rfl, hsome⟩ | ⟨rfl, hnone, hsome⟩
  · exact ⟨giver, from_, hgiver, by rw [if_pos hsome]; rfl⟩
  · exact ⟨taker, to_, htaker, by rw [if_neg hnone, if_pos hsome]; rfl⟩

/-- What is refused before any port is looked at. -/
theorem plan_unfit (h : ¬ (g.state = .configuring ∧ (a.graph = g.id ∧ b.graph = g.id) ∧
    a.direction ≠ b.direction)) :
    g.plan a b = .error (.frozen g.name) ∨ g.plan a b = .error .foreignGraph ∨
      g.plan a b = .error (.directionMismatch a.direction b.direction) := by
  by_cases hopen : g.state = .configuring
  · by_cases hgraphs : a.graph = g.id ∧ b.graph = g.id
    · have hsame : a.direction = b.direction := by
        by_contra hdiffer
        exact h ⟨hopen, hgraphs, hdiffer⟩
      have horient : orient a b = .error (.directionMismatch a.direction b.direction) := by
        unfold orient
        rw [hsame]
        cases b.direction <;> rfl
      refine .inr (.inr ?_)
      simp [plan, isFrozen, hopen, hgraphs, horient, bind, Except.bind]
    · have hforeign : (decide (a.graph ≠ g.id) || decide (b.graph ≠ g.id)) = true := by
        by_cases ha : a.graph = g.id
        · simpa [ha] using fun hb => hgraphs ⟨ha, hb⟩
        · simp [ha]
      refine .inr (.inl ?_)
      simp only [plan, isFrozen, hopen, hforeign]
      rfl
  · refine .inl ?_
    simp [plan, isFrozen, hopen, bind, Except.bind, throw, throwThe, MonadExceptOf.throw]

/-- Ports that are there are never unknown. -/
theorem connect_ne_unknownPort (ha : a.graph = g.id → g.topology.Offers a)
    (hb : b.graph = g.id → g.topology.Offers b) (env : Env ω) (component port : String) :
    (g.connect a b env).result ≠ .error (.unknownPort component port) := by
  rw [connect_result]
  by_cases hfit : g.state = .configuring ∧ (a.graph = g.id ∧ b.graph = g.id) ∧
      a.direction ≠ b.direction
  · obtain ⟨hopen, hgraphs, hdirections⟩ := hfit
    obtain ⟨output, input, ho⟩ := exists_oriented hdirections
    obtain ⟨hout, hin⟩ := (ho.and_iff g.topology.Offers).mpr ⟨ha hgraphs.1, hb hgraphs.2⟩
    obtain ⟨giver, from_, -, -, hgiver⟩ := resolve_of_offers hout
    obtain ⟨taker, to_, -, -, htaker⟩ := resolve_of_offers hin
    rw [plan_of_resolve hopen hgraphs.1 hgraphs.2 ho.orient_eq hgiver htaker]
    split
    · simp [Except.map]
    · split
      · simp [Except.map]
      · split <;> simp [Except.map]
  · rcases plan_unfit hfit with hplan | hplan | hplan <;> simp [hplan, Except.map]

theorem attach_portAt? (g : Graph κ ω) (p : PortHandle) (k i j : Nat) :
    (g.attach p k).portAt? i j = if p.component = i ∧ p.index = j
      then (g.portAt? i j).map fun port => { port with connection := some k } else g.portAt? i j :=
  portAt?_modifyPort _ g p.component p.index i j

/-- A new connection is noted at the two ports that it joins, and nowhere else. -/
theorem join_portAt? (g : Graph κ ω) (c : Connection) (i j : Nat) :
    (g.join c).portAt? i j =
      if (c.output.component = i ∧ c.output.index = j) ∨ (c.input.component = i ∧ c.input.index = j)
      then (g.portAt? i j).map fun port => { port with connection := some c.id }
      else g.portAt? i j := by
  change ((g.attach c.output c.id).attach c.input c.id).portAt? i j = _
  rw [attach_portAt?, attach_portAt?]
  by_cases hin : c.input.component = i ∧ c.input.index = j
  · by_cases hout : c.output.component = i ∧ c.output.index = j
    · simp [hin, hout, Option.map_map, Function.comp_def]
    · simp [hin, hout]
  · by_cases hout : c.output.component = i ∧ c.output.index = j <;> simp [hin, hout]

theorem joins_of_connect {env : Env ω} (h : (g.connect a b env).result = .ok c) :
    g.Joins a b c (g.connect a b env).graph := by
  have hplans := plans_of_connect h
  obtain ⟨first, second, hconnect⟩ := hplans.connect_eq env
  rw [hconnect]
  refine ⟨⟨hplans.ends, hplans.output, hplans.input⟩, hplans.number, rfl, fun i j => ?_,
    join_map (fun _ _ _ => rfl) g c, rfl⟩
  rw [join_portAt?]
  rcases hplans.ends with ⟨rfl, rfl⟩ | ⟨rfl, rfl⟩
  · rfl
  · simp only [or_comm]

theorem Joins.id_eq (h : g.Joins a b c g') : g'.id = g.id := by
  rw [← h.rest]

/-- The ends of a connection are taken. -/
theorem taken_of_connect {env : Env ω} (h : (g.connect a b env).result = .ok c)
    (hp : p = a ∨ p = b) : (g.connect a b env).graph.Taken p := by
  have hplans := plans_of_connect h
  have hjoins := joins_of_connect h
  obtain ⟨hgraph, port, hport⟩ : p.graph = g.id ∧
      ∃ port, g.portAt? p.component p.index = some port := by
    have hout := hplans.outputFree.imp fun _ h => h.1
    have hin := hplans.inputFree.imp fun _ h => h.1
    obtain ⟨ha, hb⟩ := (hjoins.oriented.and_iff fun p => ∃ port,
      g.portAt? p.component p.index = some port).mp ⟨hout, hin⟩
    rcases hp with rfl | rfl
    · exact ⟨hplans.first, ha⟩
    · exact ⟨hplans.second, hb⟩
  refine ⟨{ port with connection := some c.id }, ?_, rfl⟩
  rw [port?, if_pos (hgraph.trans hjoins.id_eq.symm), hjoins.ports, hport, if_pos]
  · rfl
  · rcases hp with rfl | rfl
    · exact .inl ⟨rfl, rfl⟩
    · exact .inr ⟨rfl, rfl⟩

/-- A taken port is refused, in either order. -/
theorem Taken.connect_eq_error (h : g.Taken p) (hopen : g.state = .configuring)
    (hp : g.topology.Offers p) (hq : g.topology.Offers q) (hdirections : q.direction ≠ p.direction)
    (hcomponents : q.component ≠ p.component) (env : Env ω) :
    ∃ component port,
      (g.connect p q env).result = .error (.alreadyConnected component port) ∧
      (g.connect q p env).result = .error (.alreadyConnected component port) := by
  obtain ⟨output, input, ho⟩ := exists_oriented hdirections.symm
  obtain ⟨hout, hin⟩ := (ho.and_iff g.topology.Offers).mpr ⟨hp, hq⟩
  have hapart := (ho.ne_iff PortHandle.component).mpr hcomponents.symm
  have hwhich : g.Taken output ∨ g.Taken input := by
    rcases ho.ends with ⟨rfl, -⟩ | ⟨-, rfl⟩
    · exact .inl h
    · exact .inr h
  obtain ⟨r, hr⟩ : ∃ r, r = output ∧ g.Taken output ∨
      r = input ∧ ¬ g.Taken output ∧ g.Taken input := by
    by_cases htaken : g.Taken output
    · exact ⟨output, .inl ⟨rfl, htaken⟩⟩
    · exact ⟨input, .inr ⟨rfl, htaken, hwhich.resolve_left htaken⟩⟩
  obtain ⟨x, port, -, hresult⟩ := connect_taken hopen ho hout hin hapart env hr
  exact ⟨x.name, port.name, hresult, (g.connect_comm p q env).1.trans hresult⟩

end Graph

/-! ## Connecting -/

section

variable [Behavior κ ω] {g : Graph κ ω} {env : Env ω} {added : List ComponentId}
  {a b : PortHandle}

/-- **Two ports are connected whenever they can be, in whichever order they are given.** The
handles may have been got at any time. A connection is made iff the graph is still being built,
both ports are its own, they stand in opposite directions on two components and neither is
connected. No handle that was given out is ever unknown: it resolves to the same port for good.
A connection leads from the output to the input, is noted at these two ports and changes
nothing else, and from then on neither port can be connected again. If ports are taken, the one
that is reported is the output, unless that is free. -/
theorem Lifetime.connect_exact (h : Lifetime added g env) (ha : g.Held env a)
    (hb : g.Held env b) :
    ((∃ c, (g.connect a b env).result = .ok c) ↔ g.Joinable a b) ∧
      (∀ component port, (g.connect a b env).result ≠ .error (.unknownPort component port)) ∧
      (∀ x ∈ g.components, ∀ j port p, x.ports[j]? = some port → x.handleAt? j = some p →
        ∀ g' env', g.Later env g' env' → g'.ResolvesAs p x port) ∧
      (∀ c, (g.connect a b env).result = .ok c → g.Joins a b c (g.connect a b env).graph ∧
        ∀ g' env', (g.connect a b env).graph.Later (g.connect a b env).env g' env' →
          g'.state = .configuring → ∀ p q, p = a ∨ p = b → g'.Held env' q → q.graph = g'.id →
          q.direction ≠ p.direction → q.component ≠ p.component →
          ∃ component port,
            (g'.connect p q env').result = .error (.alreadyConnected component port) ∧
            (g'.connect q p env').result = .error (.alreadyConnected component port)) ∧
      ((g.connect b a env).result = (g.connect a b env).result ∧
        (g.connect b a env).graph = (g.connect a b env).graph) ∧
      (∀ output input, Graph.Oriented a b output input → g.state = .configuring →
        output.graph = g.id → input.graph = g.id → output.component ≠ input.component →
        ∀ p, p = output ∧ g.Taken output ∨ p = input ∧ ¬ g.Taken output ∧ g.Taken input →
        ∃ x port, g.resolve p = .ok (x, port) ∧
          (g.connect a b env).result = .error (.alreadyConnected x.name port.name)) := by
  refine ⟨Graph.connects_iff ha.offers hb.offers env,
    Graph.connect_ne_unknownPort ha.offers hb.offers env, ?resolves, ?joins,
    g.connect_comm a b env, ?taken⟩
  case resolves =>
    intro x hx j port p hport hp g' env' hlater
    exact Graph.resolvesAs_of_grows h.sane.wired hlater.grows hx hport hp
  case joins =>
    refine fun c hc => ⟨Graph.joins_of_connect hc, ?_⟩
    intro g' env' hlater hopen p q hp hq hgraph hdirections hcomponents
    have hfree := (Graph.connects_iff ha.offers hb.offers env).mp ⟨c, hc⟩
    have hoffers : g.topology.Offers p := by
      rcases hp with rfl | rfl
      · exact ha.offers hfree.first
      · exact hb.offers hfree.second
    have htaken := (Graph.taken_of_connect hc hp).of_grows hlater.grows
    have hlasts := hlater.grows.offers ((g.connect_grows a b env).offers hoffers)
    exact htaken.connect_eq_error hopen hlasts (hq.offers hgraph) hdirections hcomponents env'
  case taken =>
    intro output input ho hopen hout hin hapart p hp
    obtain ⟨houtput, hinput⟩ :=
      (ho.and_iff fun p => p.graph = g.id → g.topology.Offers p).mpr ⟨ha.offers, hb.offers⟩
    exact Graph.connect_taken hopen ho (houtput hout) (hinput hin) hapart env hp

end

/-- The components of the pipeline before any of them is connected. -/
def parts : Graph (Standard (List Message)) (List Message) × Env (List Message) :=
  Graph.build "parts" .standard [] (pipelineRequests.take 4)

theorem parts_lifetime : Lifetime [0, 1, 2] parts.1 parts.2 := by
  refine .built (rfl : parts = Graph.build _ _ _ (pipelineRequests.take 4)) ?_
  simp [pipelineRequests, Request.runs, Request.Fits]

theorem parts_held (i j : Nat) (p : PortHandle)
    (h : (parts.1.components[i]?.bind (·.handleAt? j)) = some p) (hj : p.index = j) :
    parts.1.Held parts.2 p := by
  obtain ⟨x, hx, hat⟩ := Option.bind_eq_some_iff.mp h
  exact .own parts_lifetime .here (List.mem_of_getElem? hx) (hj ▸ hat)

/-- The giver's output and the taker's input are connected although they are given the wrong
way round. After that the middle component cannot get at the output. -/
theorem parts_connect :
    let output : PortHandle := ⟨1, 0, 0, .output⟩
    let input : PortHandle := ⟨1, 2, 0, .input⟩
    let middle : PortHandle := ⟨1, 1, 0, .input⟩
    let x := parts.1.connect input output parts.2
    Lifetime [0, 1, 2] parts.1 parts.2 ∧ parts.1.Held parts.2 input ∧
      parts.1.Held parts.2 output ∧ parts.1.Joinable input output ∧
      x.result = .ok ⟨0, output, input⟩ ∧ parts.1.Joins input output ⟨0, output, input⟩ x.graph ∧
      (parts.1.connect output input parts.2).graph = x.graph ∧
      ∃ component port, (x.graph.connect output middle x.env).result =
        .error (.alreadyConnected component port) :=
  have hoffered := parts_held 0 0 ⟨1, 0, 0, .output⟩ rfl rfl
  have hwanted := parts_held 2 0 ⟨1, 2, 0, .input⟩ rfl rfl
  have h := parts_lifetime.connect_exact hwanted hoffered
  have hjoined := h.2.2.2.1 _ rfl
  have hrefused := hjoined.2 _ _ .here rfl ⟨1, 0, 0, .output⟩ ⟨1, 1, 0, .input⟩ (.inr rfl)
    (.own parts_lifetime (.call .here (.connect ⟨1, 2, 0, .input⟩ ⟨1, 0, 0, .output⟩))
      (List.mem_of_getElem? (i := 1) rfl) rfl) rfl (by decide) (by decide)
  ⟨parts_lifetime, hwanted, hoffered, h.1.mp ⟨_, rfl⟩, rfl, hjoined.1, h.2.2.2.2.1.2,
    hrefused.imp fun _ h => h.imp fun _ h => h.1⟩

end PullGraph
