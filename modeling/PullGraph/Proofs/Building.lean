import PullGraph.Proofs.Events
import PullGraph.Proofs.Wiring

/-! # What building does

Each of the calls that build a graph either leaves it as it was or adds one component
or one connection. In both cases the graph stays wired as it should be.
-/
namespace PullGraph

namespace Topology

/-- A topology without components is wired. -/
theorem Wired.empty {κ : Type} (id : GraphId) : (⟨id, [], [], []⟩ : Topology κ).Wired where
  positions _ _ h := nomatch h
  names := List.nodup_nil
  schemas _ h := nomatch h
  sinks := rfl
  numbers _ _ h := nomatch h
  outputs _ h := nomatch h
  inputs _ h := nomatch h
  apart _ h := nomatch h
  ends _ _ _ h := nomatch h

end Topology

/-- A component that has been set up and now has the inner state `k`. -/
def Component.fresh {κ : Type} (graph : GraphId) (id : ComponentId) (name : String)
    (cls : ComponentClass κ) (k : κ) : Component κ :=
  { Component.create graph id name cls with state := .initialized, behavior := some k }

namespace Graph

variable {κ ω : Type} {g : Graph κ ω}

/-- Handles that name this graph were given out by one of its components. Nobody can
make a handle, so this is so of every handle that a caller has. -/
def Issued (g : Graph κ ω) (p : PortHandle) : Prop :=
  p.graph = g.id → ∃ c ∈ g.components, c.handleAt? p.index = some p

theorem Issued.offers (hw : g.topology.Wired) {p : PortHandle} (h : g.Issued p)
    (hp : p.graph = g.id) : g.topology.Offers p := by
  obtain ⟨c, hc, hat⟩ := h hp
  obtain ⟨port, hport, heq⟩ := Option.map_eq_some_iff.mp hat
  obtain ⟨i, hi⟩ := List.mem_iff_getElem?.mp hc
  obtain ⟨hid, -⟩ := hw.positions i c.outline (by rw [topology_getElem?, hi]; rfl)
  have hcomponent : p.component = i := (congrArg PortHandle.component heq).symm.trans hid
  refine ⟨hp, port.socket, ?_, congrArg PortHandle.direction heq⟩
  rw [hcomponent]
  refine g.topology_socket?_eq_some.mpr ⟨port, ?_, rfl⟩
  rw [portAt?, hi]
  exact hport

/-! ## Adding a component -/

theorem mayAdd_eq_ok {cls : ComponentClass κ} {name : String} (h : g.mayAdd cls name = .ok ()) :
    g.state = .configuring ∧ cls.validate = .ok () ∧ ∀ c ∈ g.components, c.name ≠ name := by
  unfold mayAdd at h
  split at h
  · cases h
  · rename_i hfrozen
    split at h
    · cases h
    · rename_i hvalid
      split at h
      · cases h
      · rename_i hfind
        refine ⟨by simpa [isFrozen] using hfrozen, hvalid, ?_⟩
        intro c hc hname
        exact hfind (by simpa [find?] using ⟨c, hc, hname⟩)

theorem topology_push (c : Component κ) : (g.push c).topology = g.topology.push c.outline := by
  simp [topology, push, Topology.push, Component.outline]
  rfl

/-- A new component is set up in its first state, and the call is written down. -/
theorem setUp_create [Behavior κ ω] (graph : GraphId) (id : ComponentId) (name : String)
    (cls : ComponentClass κ) (settings : Settings) {env env' : Env ω} {result : Except Fault Unit}
    {k : κ}
    (h : (env.note (.settingUp name)).perform (Behavior.setUp settings cls.blank) =
      ((result, k), env')) :
    (Component.create graph id name cls).setUp settings env =
      (result,
        { Component.create graph id name cls with
          behavior := some k
          state := if (Component.faultOf result).isNone then .initialized else .created },
        env'.record (.call graph id (.setUp (Component.faultOf result)))) := by
  simp only [Component.setUp, Component.create, h]

/-- What adding a component can do. A refused one leaves no trace of calls, one that
cannot be set up leaves that of the failure; the graph is the same after both. -/
theorem add_cases [Behavior κ ω] (g : Graph κ ω) (cls : ComponentClass κ) (name : String)
    (settings : Settings) (env : Env ω) :
    (∃ e env', g.add cls name settings env = ⟨.error e, g, env'⟩ ∧
      (env'.journal.about g.id = env.journal.about g.id ∨
        g.mayAdd cls name = .ok () ∧ ∃ f, env'.journal.about g.id =
          env.journal.about g.id ++ [.call g.id g.components.length (.setUp (some f))])) ∨
    (g.mayAdd cls name = .ok () ∧ ∃ k env',
      g.add cls name settings env =
        ⟨.ok g.components.length, g.push (.fresh g.id g.components.length name cls k), env'⟩ ∧
      env'.journal.about g.id =
        env.journal.about g.id ++ [.call g.id g.components.length (.setUp none)]) := by
  cases hmay : g.mayAdd cls name with
  | error e =>
    refine Or.inl ⟨e, env.note (.adding g.name cls.name name), ?_, Or.inl (by simp)⟩
    simp only [add, hmay]
  | ok u =>
    let env₁ := (env.note (.adding g.name cls.name name)).note (.settingUp name)
    obtain ⟨result, k, env₂, hrun⟩ : ∃ result k env₂,
        env₁.perform (Behavior.setUp settings cls.blank) = ((result, k), env₂) := ⟨_, _, _, rfl⟩
    have hjournal : env₂.journal.about g.id = env.journal.about g.id := by
      have hperform : (env₁.perform (Behavior.setUp settings cls.blank)).2.journal = env₁.journal := rfl
      rw [hrun] at hperform
      change env₂.journal = env₁.journal at hperform
      simp [hperform, env₁]
    have hsetUp := setUp_create g.id g.components.length name cls settings hrun
    cases result with
    | error cause =>
      refine Or.inl ⟨.setUp ⟨name, cls.name, cause⟩,
        env₂.record (.call g.id g.components.length (.setUp (some cause))), ?_,
        Or.inr ⟨rfl, cause, ?_⟩⟩
      · simp only [add, hmay, hsetUp, Component.faultOf]
      · simp [hjournal]
    | ok v =>
      refine Or.inr ⟨rfl, k, (env₂.record (.call g.id g.components.length (.setUp none))).note
        (.added g.name name g.components.length), ?_, ?_⟩
      · simp only [add, hmay, hsetUp, Component.faultOf]
        rfl
      · simp [hjournal]

/-- Adding a component keeps the wiring. -/
theorem add_wired [Behavior κ ω] (hw : g.topology.Wired) (cls : ComponentClass κ) (name : String)
    (settings : Settings) (env : Env ω) : (g.add cls name settings env).graph.topology.Wired := by
  rcases g.add_cases cls name settings env with ⟨e, env', h, -⟩ | ⟨hmay, k, env', h, -⟩
  · rw [h]
    exact hw
  · obtain ⟨-, hvalid, hname⟩ := mayAdd_eq_ok hmay
    rw [h]
    change (g.push _).topology.Wired
    rw [topology_push]
    refine hw.push (by simp [Component.fresh, Component.create, Component.outline]) rfl ?_ hvalid ?_
    · intro o ho
      obtain ⟨c, hc, rfl⟩ := List.mem_map.mp ho
      exact hname c hc
    · simp [Component.fresh, Component.create, Component.outline, PortSpec.socket, Port.socket]

/-! ## Connecting two ports -/

/-- Connection `c` may be made of the ports `a` and `b`. -/
structure Plans (g : Graph κ ω) (a b : PortHandle) (c : Connection) : Prop where
  open_ : g.state = .configuring
  first : a.graph = g.id
  second : b.graph = g.id
  ends : c.output = a ∧ c.input = b ∨ c.output = b ∧ c.input = a
  number : c.id = g.connections.length
  output : c.output.direction = .output
  input : c.input.direction = .input
  apart : c.output.component ≠ c.input.component
  outputFree : ∃ p, g.portAt? c.output.component c.output.index = some p ∧ p.connection = none
  inputFree : ∃ p, g.portAt? c.input.component c.input.index = some p ∧ p.connection = none

theorem orient_eq_ok {a b output input : PortHandle} (h : orient a b = .ok (output, input)) :
    (output = a ∧ input = b ∨ output = b ∧ input = a) ∧
      output.direction = .output ∧ input.direction = .input := by
  unfold orient at h
  split at h
  · rename_i ha hb
    obtain ⟨rfl, rfl⟩ := Prod.mk.inj (Except.ok.inj h)
    exact ⟨Or.inl ⟨rfl, rfl⟩, ha, hb⟩
  · rename_i ha hb
    obtain ⟨rfl, rfl⟩ := Prod.mk.inj (Except.ok.inj h)
    exact ⟨Or.inr ⟨rfl, rfl⟩, hb, ha⟩
  · cases h

theorem resolve_eq_ok {p : PortHandle} {c : Component κ} {port : Port}
    (h : g.resolve p = .ok (c, port)) :
    g.components[p.component]? = some c ∧ g.portAt? p.component p.index = some port := by
  unfold resolve at h
  split at h
  · rename_i c' port' hc hport
    obtain ⟨rfl, rfl⟩ := Prod.mk.inj (Except.ok.inj h)
    refine ⟨hc, ?_⟩
    unfold port? at hport
    split at hport
    · exact hport
    · cases hport
  · cases h

/-- Each of the checks has passed when a connection is planned. -/
theorem plan_eq_ok {a b : PortHandle} {c : Connection} {giver taker : Component κ × Port}
    (h : g.plan a b = .ok (c, giver, taker)) : g.Plans a b c := by
  unfold plan at h
  simp only [bind, Except.bind, pure, Except.pure, throw, throwThe, MonadExceptOf.throw] at h
  -- one split for each check, in the order in which they are made
  split at h
  · cases h
  rename_i hfrozen
  split at h
  · cases h
  rename_i hgraph
  split at h
  · cases h
  rename_i oriented horient
  obtain ⟨output, input⟩ := oriented
  split at h
  · cases h
  rename_i from_ hfrom
  split at h
  · cases h
  rename_i to_ hto
  split at h
  · cases h
  rename_i hapart
  split at h
  · cases h
  rename_i hfromFree
  split at h
  · cases h
  rename_i htoFree
  obtain ⟨rfl, -⟩ := Prod.mk.inj (Except.ok.inj h)
  obtain ⟨hends, hout, hin⟩ := orient_eq_ok horient
  obtain ⟨ha, hb⟩ : a.graph = g.id ∧ b.graph = g.id := by simpa using hgraph
  exact {
    open_ := by simpa [isFrozen] using hfrozen
    first := ha
    second := hb
    ends := hends
    number := rfl
    output := hout
    input := hin
    apart := hapart
    outputFree := ⟨from_.2, (resolve_eq_ok hfrom).2, by simpa using hfromFree⟩
    inputFree := ⟨to_.2, (resolve_eq_ok hto).2, by simpa using htoFree⟩ }

/-- A handle of this graph resolves if there is a port where it points to. -/
theorem resolve_of_portAt? {p : PortHandle} {port : Port} (hp : p.graph = g.id)
    (hport : g.portAt? p.component p.index = some port) :
    ∃ c, g.components[p.component]? = some c ∧ g.resolve p = .ok (c, port) := by
  obtain ⟨c, hc, -⟩ := Option.bind_eq_some_iff.mp hport
  refine ⟨c, hc, ?_⟩
  simp only [resolve, port?, hp, if_true, hc, hport]

/-- What is planned for two ports of an open graph, once it is known which of them gives and
that both are there. -/
theorem plan_of_resolve {a b output input : PortHandle} {giver taker : Component κ}
    {from_ to_ : Port} (hopen : g.state = .configuring) (ha : a.graph = g.id)
    (hb : b.graph = g.id) (horient : orient a b = .ok (output, input))
    (hfrom : g.resolve output = .ok (giver, from_)) (hto : g.resolve input = .ok (taker, to_)) :
    g.plan a b =
      if output.component = input.component then .error (.selfLoop giver.name)
      else if from_.connection.isSome then .error (.alreadyConnected giver.name from_.name)
      else if to_.connection.isSome then .error (.alreadyConnected taker.name to_.name)
      else .ok (⟨g.connections.length, output, input⟩, (giver, from_), (taker, to_)) := by
  simp only [plan, isFrozen, hopen, ha, hb, horient, hfrom, hto, ne_eq, not_true_eq_false,
    decide_false, Bool.or_self, Bool.false_eq_true, if_false, bind, Except.bind, pure, Except.pure,
    throw, throwThe, MonadExceptOf.throw]

theorem topology_attach (p : PortHandle) (k : Nat) :
    (g.attach p k).topology = g.topology.attach p k := by
  have hports : ∀ ports : List Port,
      (ports.modify p.index fun port => { port with connection := some k }).map Port.socket =
        (ports.map Port.socket).modify p.index (·.plug k) := by
    intro ports
    refine map_modify (fun port => ?_) ports p.index
    rfl
  have hcomponents : (g.attach p k).components.map Component.outline =
      (g.components.map Component.outline).modify p.component fun o =>
        { o with sockets := o.sockets.modify p.index (·.plug k) } := by
    refine map_modify (fun c => ?_) g.components p.component
    simp only [Component.outline, Component.modifyPort, hports]
  simp only [topology, Topology.attach, hcomponents]
  rfl

theorem topology_join (c : Connection) : (g.join c).topology = g.topology.join c := by
  have h : (g.join c).topology =
      { ((g.attach c.output c.id).attach c.input c.id).topology with
        connections := g.connections ++ [c] } := rfl
  rw [h, topology_attach, topology_attach]
  rfl

/-- What connecting two ports can do. -/
theorem connect_cases (g : Graph κ ω) (a b : PortHandle) (env : Env ω) :
    (∃ e env', g.connect a b env = ⟨.error e, g, env'⟩ ∧
      env'.journal.about g.id = env.journal.about g.id) ∨
    (∃ c env', g.Plans a b c ∧ g.connect a b env = ⟨.ok c, g.join c, env'⟩ ∧
      env'.journal.about g.id = env.journal.about g.id) := by
  unfold connect
  cases hplan : g.plan a b with
  | error e => exact Or.inl ⟨e, _, rfl, by simp⟩
  | ok r =>
    obtain ⟨c, ⟨giver, output⟩, ⟨taker, input⟩⟩ := r
    exact Or.inr ⟨c, _, plan_eq_ok hplan, rfl, by simp⟩

theorem plans_of_connect {p q : PortHandle} {c : Connection} {env : Env ω}
    (h : (g.connect p q env).result = .ok c) : g.Plans p q c := by
  rcases g.connect_cases p q env with ⟨e, env', hconnect, -⟩ | ⟨c', env', hplans, hconnect, -⟩
  · rw [hconnect] at h
    cases h
  · rw [hconnect] at h
    obtain rfl := Except.ok.inj h
    exact hplans

/-- Ports that were given out and are to be connected are there. -/
theorem Plans.offers (hw : g.topology.Wired) {p q : PortHandle} {c : Connection}
    (h : g.Plans p q c) (hp : g.Issued p) (hq : g.Issued q) :
    g.topology.Offers c.output ∧ g.topology.Offers c.input := by
  rcases h.ends with ⟨hout, hin⟩ | ⟨hout, hin⟩ <;> rw [hout, hin]
  · exact ⟨hp.offers hw h.first, hq.offers hw h.second⟩
  · exact ⟨hq.offers hw h.second, hp.offers hw h.first⟩

/-- Ports that can be connected are. -/
theorem Plans.connect_eq {p q : PortHandle} {c : Connection} (h : g.Plans p q c) (env : Env ω) :
    ∃ first second, g.connect p q env = ⟨.ok c, g.join c, (env.note first).note second⟩ := by
  obtain ⟨from_, hfrom, hfromFree⟩ := h.outputFree
  obtain ⟨to_, hto, htoFree⟩ := h.inputFree
  have horient : orient p q = .ok (c.output, c.input) := by
    rcases h.ends with ⟨hp, hq⟩ | ⟨hq, hp⟩
    · simp [orient, ← hp, ← hq, h.output, h.input]
    · simp [orient, ← hp, ← hq, h.output, h.input]
  have hgraphs : c.output.graph = g.id ∧ c.input.graph = g.id := by
    rcases h.ends with ⟨hp, hq⟩ | ⟨hq, hp⟩
    · rw [hp, hq]
      exact ⟨h.first, h.second⟩
    · rw [hp, hq]
      exact ⟨h.second, h.first⟩
  obtain ⟨giver, -, hgiver⟩ := resolve_of_portAt? hgraphs.1 hfrom
  obtain ⟨taker, -, htaker⟩ := resolve_of_portAt? hgraphs.2 hto
  have hplan : g.plan p q = .ok (c, (giver, from_), (taker, to_)) := by
    have hconn : (⟨g.connections.length, c.output, c.input⟩ : Connection) = c := by rw [← h.number]
    rw [plan_of_resolve h.open_ h.first h.second horient hgiver htaker, if_neg h.apart, hfromFree,
      htoFree, hconn]
    rfl
  refine ⟨.connecting g.name p q,
    .connected g.name giver.name from_.name taker.name to_.name, ?_⟩
  simp only [connect, hplan]

/-- The ends of a connection that may be made are free. -/
theorem Plans.free {a b p : PortHandle} {c : Connection} (h : g.Plans a b c) {s : Socket}
    (hp : p = c.output ∨ p = c.input)
    (hs : g.topology.socket? p.component p.index = some s) : s.connection = none := by
  obtain ⟨port, hport, rfl⟩ := g.topology_socket?_eq_some.mp hs
  obtain ⟨port', hport', hnone⟩ :
      ∃ port, g.portAt? p.component p.index = some port ∧ port.connection = none := by
    rcases hp with rfl | rfl
    · exact h.outputFree
    · exact h.inputFree
  obtain rfl : port = port' := Option.some.inj (hport.symm.trans hport')
  exact hnone

/-- Connecting ports that were given out keeps the wiring. -/
theorem Plans.wired (hw : g.topology.Wired) {a b : PortHandle} {c : Connection}
    (h : g.Plans a b c) (ha : g.Issued a) (hb : g.Issued b) : (g.join c).topology.Wired := by
  obtain ⟨hout, hin⟩ := h.offers hw ha hb
  rw [topology_join]
  exact hw.join h.number hout h.output hin h.input h.apart fun _ _ hp hs => h.free hp hs

theorem lookUp_issued {component port : String} {d : Direction} {p : PortHandle}
    (h : g.lookUp component port d = .ok p) : g.Issued p := by
  unfold lookUp at h
  split at h
  · rename_i p' hfound
    obtain rfl : p' = p := Except.ok.inj h
    obtain ⟨c, hc, hhandle⟩ := Option.bind_eq_some_iff.mp hfound
    obtain ⟨index, -, hat⟩ := Option.bind_eq_some_iff.mp hhandle
    obtain ⟨found, -, heq⟩ := Option.map_eq_some_iff.mp hat
    have hindex : p'.index = index := by rw [← heq]
    intro _
    refine ⟨c, List.mem_of_find?_eq_some hc, ?_⟩
    rw [hindex]
    exact hat
  · cases h

/-- Connecting by name is connecting two ports that were given out, unless there is no
such port. -/
theorem link_cases (g : Graph κ ω) (giver output taker input : String) (env : Env ω) :
    (∃ e, g.link giver output taker input env = ⟨.error e, g, env⟩) ∨
    (∃ a b, g.Issued a ∧ g.Issued b ∧ g.link giver output taker input env = g.connect a b env) := by
  unfold link
  cases ha : g.lookUp giver output .output with
  | error e => exact Or.inl ⟨e, rfl⟩
  | ok a =>
    cases hb : g.lookUp taker input .input with
    | error e => exact Or.inl ⟨e, rfl⟩
    | ok b => exact Or.inr ⟨a, b, lookUp_issued ha, lookUp_issued hb, rfl⟩

/-! ## What building leaves alone -/

/-- Two graphs differ in components and connections at most. -/
structure Builds (g g' : Graph κ ω) : Prop where
  id : g'.id = g.id
  name : g'.name = g.name
  state : g'.state = g.state
  policy : g'.policy = g.policy
  stats : g'.stats = g.stats

theorem Builds.refl (g : Graph κ ω) : g.Builds g := ⟨rfl, rfl, rfl, rfl, rfl⟩

theorem add_builds [Behavior κ ω] (g : Graph κ ω) (cls : ComponentClass κ) (name : String)
    (settings : Settings) (env : Env ω) : g.Builds (g.add cls name settings env).graph := by
  rcases g.add_cases cls name settings env with ⟨e, env', hadd, -⟩ | ⟨-, k, env', hadd, -⟩
  · rw [hadd]
    exact .refl g
  · rw [hadd]
    exact ⟨rfl, rfl, rfl, rfl, rfl⟩

theorem connect_builds (g : Graph κ ω) (a b : PortHandle) (env : Env ω) :
    g.Builds (g.connect a b env).graph := by
  rcases g.connect_cases a b env with ⟨e, env', hconnect, -⟩ | ⟨c, env', -, hconnect, -⟩
  · rw [hconnect]
    exact .refl g
  · rw [hconnect]
    exact ⟨rfl, rfl, rfl, rfl, rfl⟩

theorem link_builds (g : Graph κ ω) (giver output taker input : String) (env : Env ω) :
    g.Builds (g.link giver output taker input env).graph := by
  rcases g.link_cases giver output taker input env with ⟨e, hlink⟩ | ⟨a, b, -, -, hlink⟩
  · rw [hlink]
    exact .refl g
  · rw [hlink]
    exact g.connect_builds a b env

end Graph
end PullGraph
