import PullGraph.Proofs.Blame
import PullGraph.Proofs.Peers
import PullGraph.Proofs.Performance

/-! # Streams end once

When a component says that one of its streams has ended, the input port at the other end
notes it, and from then on the port itself answers for the component. `Graph.Heeds` says so
of a graph and the calls that were made on it, and it is kept by whatever filters do. A
sink is told of the end of a stream once, after all its messages (`Graph.Streams`), and as
long as all goes well it has been told of every end that its ports have noted
(`Graph.Served`).
-/
namespace PullGraph

variable {κ ω : Type}

/-! ## Calls -/

namespace Call

/-- Whether a call asks for a message or answers. -/
def isPull : Call → Bool
  | .asked _ | .answered .. => true
  | _ => false

/-- Whether a call hands something to a sink: a message, or the end of a stream. -/
def isArrival : Call → Bool
  | .consumed .. | .ended .. => true
  | _ => false

end Call

/-- The answer that a stream has ended, on an output port of a component. -/
abbrev lastAnswer (a : ComponentId) (port : String) : ComponentId × Call :=
  (a, .answered port (.ok .endOfStream))

/-- Two ports of a component have the same name and direction only if they are the same. -/
theorem Topology.Wired.socket_inj {T : Topology κ} (h : T.Wired) {i j j' : Nat} {s s' : Socket}
    (hs : T.socket? i j = some s) (hs' : T.socket? i j' = some s') (hspec : s.spec = s'.spec) :
    j = j' := by
  obtain ⟨o, ho, hj⟩ := Option.bind_eq_some_iff.mp hs
  obtain ⟨o', ho', hj'⟩ := Option.bind_eq_some_iff.mp hs'
  obtain rfl : o = o' := Option.some.inj (ho.symm.trans ho')
  obtain ⟨hvalid, hports⟩ := h.schemas o (List.mem_of_getElem? ho)
  have hnodup := (o.cls.validate_eq_ok_iff.mp hvalid).2.2
  rw [← hports] at hnodup
  have hget : (o.sockets.map Socket.spec)[j]? = some s.spec := by rw [List.getElem?_map, hj]; rfl
  have hget' : (o.sockets.map Socket.spec)[j']? = some s.spec := by
    rw [List.getElem?_map, hj', hspec]
    rfl
  obtain ⟨hlt, hval⟩ := List.getElem?_eq_some_iff.mp hget
  obtain ⟨hlt', hval'⟩ := List.getElem?_eq_some_iff.mp hget'
  exact (hnodup.getElem_inj_iff).mp (hval.trans hval'.symm)

theorem Graph.connections_of_topology_eq {g g' : Graph κ ω} (h : g'.topology = g.topology) :
    g'.connections = g.connections :=
  congrArg Topology.connections h

theorem Graph.portAt?_inj {g : Graph κ ω} (hw : g.topology.Wired) {i j j' : Nat} {p p' : Port}
    (hp : g.portAt? i j = some p) (hp' : g.portAt? i j' = some p') (hname : p.name = p'.name)
    (hd : p.direction = p'.direction) : j = j' := by
  refine hw.socket_inj (g.topology_socket?_eq_some.mpr ⟨p, hp, rfl⟩)
    (g.topology_socket?_eq_some.mpr ⟨p', hp', rfl⟩) ?_
  simp [Socket.spec, Port.socket, hname, hd]

/-- An output port of a connection leads nowhere else. -/
theorem Graph.connection_of_output {g : Graph κ ω} (hw : g.topology.Wired) {conn conn' : Connection}
    (hmem : conn ∈ g.connections) (hmem' : conn' ∈ g.connections)
    (hcomponent : conn.output.component = conn'.output.component)
    (hindex : conn.output.index = conn'.output.index) : conn = conn' := by
  obtain ⟨k, hk⟩ := List.mem_iff_getElem?.mp hmem
  obtain ⟨k', hk'⟩ := List.mem_iff_getElem?.mp hmem'
  obtain ⟨⟨hid, -⟩, hdir⟩ := hw.outputs conn hmem
  obtain ⟨⟨hid', -⟩, hdir'⟩ := hw.outputs conn' hmem'
  have heq : conn.output = conn'.output := by
    cases hout : conn.output with
    | mk graph component index direction =>
      cases hout' : conn'.output with
      | mk graph' component' index' direction' => simp_all
  obtain rfl := Graph.eq_of_endsAt hw hk hk' (.inl rfl) (.inl heq.symm)
  exact Option.some.inj (hk.symm.trans hk')

/-- An output port of a connection is an output port. -/
theorem Graph.direction_of_output {g : Graph κ ω} (hw : g.topology.Wired) {conn : Connection}
    (hmem : conn ∈ g.connections) {out : Port}
    (hout : g.portAt? conn.output.component conn.output.index = some out) :
    out.direction = .output := by
  obtain ⟨⟨-, s, hs, hdir⟩, houtput⟩ := hw.outputs conn hmem
  obtain ⟨p, hp, rfl⟩ := g.topology_socket?_eq_some.mp hs
  obtain rfl := Option.some.inj (hout.symm.trans hp)
  exact hdir.trans houtput

namespace Graph

/-! ## Whoever has said that it ended is not asked again -/

/-- The ends of streams are heeded: where a component has said that a stream has ended, the
port at the other end has noted it, and the component has not been asked again. -/
structure Heeds (g : Graph κ ω) (l : List (ComponentId × Call)) : Prop where
  noted : ∀ conn ∈ g.connections, ∀ out,
    g.portAt? conn.output.component conn.output.index = some out →
    lastAnswer conn.output.component out.name ∈ l →
    ∃ p, g.portAt? conn.input.component conn.input.index = some p ∧ p.atEnd = true
  silent : Follows (fun before x => ∀ a port, x = (a, .asked port) → lastAnswer a port ∉ before) l

/-- Calls that are no pulls, and more streams that have ended, make no difference. -/
theorem Heeds.keep {g g' : Graph κ ω} {l es : List (ComponentId × Call)} {S : Nat → Nat → Prop}
    (h : g.Heeds l) (htopology : g'.topology = g.topology) (hlatches : g.Latches S g')
    (hes : ∀ x ∈ es, x.2.isPull = false) : g'.Heeds (l ++ es) where
  noted := by
    intro conn hconn out hout hended
    have hmem : conn ∈ g.connections := connections_of_topology_eq htopology ▸ hconn
    obtain ⟨out', hout', hsocket⟩ := portAt?_of_topology_eq htopology.symm hout
    have hname : out'.name = out.name := congrArg Socket.name hsocket
    rcases List.mem_append.mp hended with hold | hnew
    · rw [← hname] at hold
      obtain ⟨p, hp, hend⟩ := h.noted conn hmem out' hout' hold
      exact ⟨p, hlatches.atEnd hp hend, hend⟩
    · exact nomatch hes _ hnew
  silent := by
    refine h.silent.append (.of_forall ?_)
    rintro before x hx - a port rfl
    exact nomatch hes _ hx

end Graph

namespace Turn

variable {t t' : Turn κ ω}

/-- The relation for what filters do. -/
def Heeds (_ : ComponentId) (t t' : Turn κ ω) : Prop :=
  t'.graph.topology = t.graph.topology ∧
    (t.graph.topology.Wired → t.graph.Heeds t.calls → t'.graph.Heeds t'.calls)

section

variable {id : ComponentId} {index : Nat} {p out : Port} {conn : Connection} {c : Component κ} {k : κ}

/-- A component is asked only if it has not said that the stream has ended. -/
theorem Asks.heeds_ask (hasks : t.Asks id index p conn c out k) (hd : p.direction = .input)
    (hw : t.graph.topology.Wired) (h : t.graph.Heeds t.calls) :
    (t.ask conn.output.component out.name).graph.Heeds
      (t.ask conn.output.component out.name).calls := by
  have hopen : lastAnswer conn.output.component out.name ∉ t.calls := by
    intro hended
    obtain ⟨p', hp', hend⟩ := h.noted conn hasks.mem_connections out hasks.output hended
    rw [hasks.input_eq hw hd] at hp'
    obtain rfl := Option.some.inj (hasks.port.symm.trans hp')
    exact nomatch hasks.open_.symm.trans hend
  rw [ask_calls]
  refine ⟨?noted, ?silent⟩
  case noted =>
    intro conn' hconn' out' hout' hended
    rw [t.ask_portAt?] at hout' ⊢
    refine h.noted conn' hconn' out' hout' ?_
    simpa using hended
  case silent =>
    refine h.silent.concat ?_
    rintro a port heq
    cases heq
    exact hopen

/-- Where an answer says that the stream has ended, the port that it comes to notes it. -/
theorem heeds_settle (hw : t.graph.topology.Wired) (hmem : conn ∈ t.graph.connections)
    (hinput : conn.input.component = id ∧ conn.input.index = index)
    (hp : t.graph.portAt? id index = some p)
    (hout : t.graph.portAt? conn.output.component conn.output.index = some out)
    (h : t.graph.Heeds t.calls) (answer : Except Fault Pull) (k : κ) :
    (t.settle id index conn.output.component out.name answer k).graph.Heeds
      (t.settle id index conn.output.component out.name answer k).calls := by
  have htopology := t.settle_topology id index conn.output.component out.name answer k
  rw [settle_calls]
  refine ⟨?noted, ?silent⟩
  case silent =>
    refine h.silent.concat ?_
    rintro a port heq
    cases heq
  case noted =>
    intro conn' hconn' out' hout' hended
    have hmem' : conn' ∈ t.graph.connections := Graph.connections_of_topology_eq htopology ▸ hconn'
    obtain ⟨out'', hout'', hsocket⟩ := Graph.portAt?_of_topology_eq htopology.symm hout'
    have hname : out''.name = out'.name := congrArg Socket.name hsocket
    rw [← hname] at hended
    rw [t.settle_portAt?]
    rcases List.mem_append.mp hended with hold | hnew
    · obtain ⟨p', hp', hend⟩ := h.noted conn' hmem' out'' hout'' hold
      rw [hp']
      split
      · exact ⟨_, rfl, rfl⟩
      · exact ⟨p', rfl, hend⟩
    · -- the answer that was just given: it is about `conn`, whose input port is latched
      obtain ⟨hcomponent, hanswer⟩ := Prod.mk.inj (List.mem_singleton.mp hnew)
      obtain ⟨hport, rfl⟩ := Call.answered.inj hanswer
      have hindex : conn'.output.index = conn.output.index := by
        rw [hcomponent] at hout''
        refine Graph.portAt?_inj hw hout'' hout hport ?_
        have hdir := Graph.direction_of_output hw hmem hout
        rw [← hcomponent] at hout''
        exact (Graph.direction_of_output hw hmem' hout'').trans hdir.symm
      obtain rfl := Graph.connection_of_output hw hmem' hmem hcomponent hindex
      rw [if_pos ⟨rfl, hinput.1.symm, hinput.2.symm⟩, hinput.1, hinput.2, hp]
      exact ⟨_, rfl, rfl⟩

end

/-- **Whatever filters do, the ends of streams are heeded.** -/
theorem heeds_law : ExchangeLaw (Heeds : ComponentId → Turn κ ω → Turn κ ω → Prop) where
  refl _ t := ⟨rfl, fun _ h => h⟩
  trans := by
    rintro id t t' t'' ⟨htopology, h⟩ ⟨htopology', h'⟩
    exact ⟨htopology'.trans htopology, fun hw hheeds => h' (htopology ▸ hw) (h hw hheeds)⟩
  act _ t _ _ := ⟨rfl, fun _ h => h⟩
  refuse := by
    intro id t f
    refine ⟨rfl, fun _ h => ?_⟩
    have hcalls : (t.refuse f).calls = t.calls ++ [] :=
      Journal.calls_of_about (Journal.about_record_refused t.env.journal f)
    rw [hcalls, List.append_nil]
    exact h
  unanswered := by
    rintro id index t t' p out conn c k hasks hd ⟨htopology, h⟩
    have hask := (t.ask_leads conn.output.component out.name).topology
    refine ⟨htopology.trans hask, fun hw hheeds => h (hask ▸ hw) ?_⟩
    exact hasks.heeds_ask hd hw hheeds
  answered := by
    rintro id index t t' p out conn c k hasks hd ⟨htopology, h⟩ answer k'
    have hask := (t.ask_leads conn.output.component out.name).topology
    have htopology' := htopology.trans hask
    refine ⟨(t'.settle_topology _ _ _ _ answer k').trans htopology', fun hw hheeds => ?_⟩
    have hheeds' := h (hask ▸ hw) (hasks.heeds_ask hd hw hheeds)
    obtain ⟨p', hp', -⟩ := Graph.portAt?_of_topology_eq htopology' hasks.port
    obtain ⟨out', hout', hsocket⟩ := Graph.portAt?_of_topology_eq htopology' hasks.output
    have hmem : conn ∈ t'.graph.connections :=
      (Graph.connections_of_topology_eq htopology').symm ▸ hasks.mem_connections
    have hinput := hasks.input_eq hw hd
    rw [show out.name = out'.name from (congrArg Socket.name hsocket).symm]
    refine heeds_settle (htopology' ▸ hw) hmem ?_ hp' hout' hheeds' answer k'
    rw [hinput]
    exact ⟨rfl, rfl⟩

end Turn

/-! ## Sinks are told once -/

theorem isArrival_arrivalCall (port : String) (arrival : Option Message) (fault : Option Fault) :
    (Graph.arrivalCall port arrival fault).isArrival = true := by
  cases arrival <;> rfl

theorem isPull_arrivalCall (port : String) (arrival : Option Message) (fault : Option Fault) :
    (Graph.arrivalCall port arrival fault).isPull = false := by
  cases arrival <;> rfl

/-- Calls among events that hand nothing to a sink hand nothing to a sink. -/
theorem isArrival_of_events {es : List Event} (h : ∀ e ∈ es, e.isArrival = false) :
    ∀ x ∈ es.filterMap Event.call?, x.2.isArrival = false := by
  intro x hx
  obtain ⟨e, he, hcall⟩ := List.mem_filterMap.mp hx
  have hfalse := h e he
  match e with
  | .call graph component call =>
    obtain rfl := Option.some.inj hcall
    cases call <;> first | rfl | exact hfalse

namespace Graph

/-- Streams end once: what is said to end is heeded, only input ports note ends, and a sink
is told of the end of a stream when it has ended, after which nothing more comes. -/
structure Streams (g : Graph κ ω) (l : List (ComponentId × Call)) : Prop extends Heeds g l where
  outputs : ∀ i j p, g.portAt? i j = some p → p.direction = .output → p.atEnd = false
  taken : ∀ s port fault, (s, Call.ended port fault) ∈ l → ∃ j p, g.portAt? s j = some p ∧
    p.direction = .input ∧ p.name = port ∧ p.atEnd = true
  order : Follows (fun before x => ∀ s port arrival fault, x = (s, arrivalCall port arrival fault) →
    ∀ fault', (s, Call.ended port fault') ∉ before) l

namespace Streams

variable {g g' : Graph κ ω} {l es : List (ComponentId × Call)} {S : Nat → Nat → Prop}

theorem of_heeds (h : g.Streams l) (hheeds : g'.Heeds (l ++ es))
    (htopology : g'.topology = g.topology) (hlatches : g.Latches S g')
    (hes : ∀ x ∈ es, x.2.isArrival = false) : g'.Streams (l ++ es) where
  toHeeds := hheeds
  outputs := by
    intro i j p' hp' hd
    obtain ⟨p, hp, rfl | ⟨rfl, hinput, -⟩⟩ := hlatches.back htopology hp'
    · exact h.outputs i j p' hp hd
    · exact nomatch hinput.symm.trans hd
  taken := by
    intro s port fault hended
    rcases List.mem_append.mp hended with hold | hnew
    · obtain ⟨j, p, hp, hd, hname, hend⟩ := h.taken s port fault hold
      exact ⟨j, p, hlatches.atEnd hp hend, hd, hname, hend⟩
    · exact nomatch hes _ hnew
  order := by
    refine h.order.append (.of_forall ?_)
    rintro before x hx - s port arrival fault rfl
    exact nomatch (isArrival_arrivalCall port arrival fault).symm.trans (hes _ hx)

/-- Calls that neither pull nor hand anything to a sink make no difference. -/
theorem keep (h : g.Streams l) (htopology : g'.topology = g.topology) (hlatches : g.Latches S g')
    (hes : ∀ x ∈ es, x.2.isPull = false ∧ x.2.isArrival = false) : g'.Streams (l ++ es) :=
  h.of_heeds (h.toHeeds.keep htopology hlatches fun x hx => (hes x hx).1) htopology hlatches
    fun x hx => (hes x hx).2

theorem congr (h : g.Streams l) (htopology : g'.topology = g.topology)
    (hports : ∀ i j, g'.portAt? i j = g.portAt? i j) : g'.Streams l := by
  have hlatches : g.Latches (fun _ _ => True) g' := .of_eq hports
  have hkeep : g'.Streams (l ++ []) := h.keep htopology hlatches fun x hx => nomatch hx
  rwa [List.append_nil] at hkeep

/-- A sink that has not been told of the end of a stream is handed something from it. -/
theorem arrive (h : g.Streams l) {s j : Nat} {p : Port} (hp : g.portAt? s j = some p)
    (hd : p.direction = .input) (hopen : ∀ fault, (s, Call.ended p.name fault) ∉ l)
    {arrival : Option Message} (harrival : arrival = none → p.atEnd = true) (fault : Option Fault) :
    g.Streams (l ++ [(s, arrivalCall p.name arrival fault)]) where
  toHeeds := by
    refine h.toHeeds.keep rfl (.refl (S := fun _ _ => True) g) ?_
    exact List.forall_mem_singleton.mpr (isPull_arrivalCall p.name arrival fault)
  outputs := h.outputs
  taken := by
    intro s' port fault' hended
    rcases List.mem_append.mp hended with hold | hnew
    · exact h.taken s' port fault' hold
    · obtain ⟨rfl, hcall⟩ := Prod.mk.inj (List.mem_singleton.mp hnew)
      cases arrival with
      | some m => cases hcall
      | none =>
        obtain ⟨rfl, -⟩ := Call.ended.inj hcall
        exact ⟨j, p, hp, hd, rfl, harrival rfl⟩
  order := by
    refine h.order.concat ?_
    intro s' port arrival' fault₁ heq fault'
    obtain ⟨rfl, hcall⟩ := Prod.mk.inj heq
    have hport : port = p.name := by
      cases arrival <;> cases arrival' <;> cases hcall <;> rfl
    rw [hport]
    exact hopen fault'

end Streams

/-- Every sink has been told of the streams that have ended at its ports. -/
def Served (g : Graph κ ω) (l : List (ComponentId × Call)) : Prop :=
  ∀ s ∈ g.sinks, ∀ j p, g.portAt? s j = some p → p.direction = .input → p.atEnd = true →
    (s, Call.ended p.name none) ∈ l

end Graph

/-! ## Steps -/

section Steps

variable [Behavior κ ω] {s : Step κ ω} {patience : Nat}

theorem Graph.deliver_calls {g : Graph κ ω} {id index : Nat} {c : Component κ} {k : κ} {p : Port}
    (hc : g.components[id]? = some c) (hb : c.behavior = some k) (hk : c.kind = .sink)
    (hp : g.portAt? id index = some p) (arrival : Option Message) (env : Env ω) :
    (g.deliver id index arrival env).env.journal.calls g.id =
      env.journal.calls g.id ++ [(id, arrivalCall p.name arrival
        (Component.faultOf (env.perform (receive p.name arrival k)).1.1))] := by
  rw [deliver_eq hc hb hk hp]
  exact Journal.calls_of_about (Journal.about_record_call _ _ _)

namespace Step

/-- The calls on the graph when the step is made. -/
def calls (s : Step κ ω) : List (ComponentId × Call) := s.env.journal.calls s.graph.id

/-- The calls on the graph when the step has been made. -/
def callsAfter (s : Step κ ω) (patience : Nat) : List (ComponentId × Call) :=
  (s.after patience).env.journal.calls (s.after patience).graph.id

/-- A pull on behalf of a sink heeds the ends of streams and hands nothing to a sink. -/
theorem Due.pulled_streams (h : s.Due) (hw : s.graph.topology.Wired) (hs : s.graph.Streams s.calls)
    {r : Option (Except Fault Pull)} {t : Turn κ ω} (hpulled : s.pulled patience = ⟨r, t⟩) :
    t.graph.Streams t.calls ∧ ∃ es, t.calls = s.calls ++ es ∧ ∀ x ∈ es, x.2.isArrival = false := by
  obtain ⟨p, hp, hd, -⟩ := h.port
  obtain ⟨htopology, es, habout, -, hes⟩ := h.blames hpulled
  have hid : t.graph.id = s.graph.id := congrArg Topology.id htopology
  have hcalls : t.calls = s.calls ++ es.filterMap Event.call? := by
    rw [Turn.calls, hid]
    exact Journal.calls_of_about habout
  have harrivals := isArrival_of_events fun e he => (hes e he).1
  have hlatches : s.turn.graph.Latches (s.graph.topology.Within s.sink s.index)
      (s.pulled patience).turn.graph := pullInput_latches patience hp hd
  have hheeds : Turn.Heeds s.sink s.turn (s.pulled patience).turn :=
    Turn.heeds_law.pullInput (Turn.heeds_law.pullLaw.converse patience) hp hd
  rw [hpulled] at hlatches hheeds
  have hheeds' : t.graph.Heeds t.calls := hheeds.2 hw hs.toHeeds
  rw [hcalls] at hheeds' ⊢
  exact ⟨hs.of_heeds hheeds' htopology hlatches harrivals, _, rfl, harrivals⟩

/-- The port of a step notes the end of its stream iff that is what is pulled. -/
theorem Due.ended_iff (h : s.Due) (hsteady : s.graph.Steady) {r : Except Fault Pull} {t : Turn κ ω}
    (hpulled : s.pulled patience = ⟨some r, t⟩) :
    ∃ p, t.graph.portAt? s.sink s.index = some p ∧ p.direction = .input ∧
      (p.atEnd = true ↔ r = .ok .endOfStream) := by
  have hlaw : ExchangeLaw (LatchesAbove : ComponentId → Turn κ ω → Turn κ ω → Prop) :=
    latchesAbove_law
  obtain ⟨p, out, conn, c, k, hasks, hd, ⟨t', -, heq⟩ | ⟨answer, k', t', hproduced, heq⟩⟩ :=
    h.exchange hsteady patience
  · exact nomatch (congrArg Answer.result hpulled).symm.trans (congrArg Answer.result heq)
  · rw [hpulled] at heq
    obtain ⟨hresult, rfl⟩ := Answer.mk.inj heq
    obtain rfl := Option.some.inj hresult
    have hq := hlaw.produce (hlaw.pullLaw.converse patience) c.kind conn.output.component out.name k
      (s.turn.ask conn.output.component out.name)
    rw [hproduced] at hq
    -- what happens upstream leaves the ports of sinks alone, so only the answer counts
    have hport : t'.graph.portAt? s.sink s.index = some p :=
      (LatchesAbove.of_asked hasks hq).2.portAt?_eq hasks.port
        fun hupstream => hupstream hsteady.wired (hsteady.wired.mem_sinks.mp h.sink)
    have hopen := hasks.open_
    rw [t'.settle_portAt?, hport]
    match answer with
    | .ok .endOfStream =>
      rw [if_pos ⟨rfl, rfl, rfl⟩]
      exact ⟨{ p with atEnd := true }, rfl, hd, iff_of_true rfl rfl⟩
    | .ok .again | .ok (.message m) | .error cause =>
      refine ⟨p, rfl, hd, iff_of_false ?_ nofun⟩
      rw [hopen]
      decide

omit [Behavior κ ω] in
/-- A sink has not been told of the end of a stream that a step is made for. -/
theorem Due.not_told (h : s.Due) (hw : s.graph.topology.Wired) (hs : s.graph.Streams s.calls)
    {g' : Graph κ ω} (htopology : g'.topology = s.graph.topology) {p : Port}
    (hp : g'.portAt? s.sink s.index = some p) {fault : Option Fault} :
    (s.sink, Call.ended p.name fault) ∉ s.calls := by
  intro htold
  obtain ⟨p₀, hp₀, hd₀, hopen⟩ := h.port
  obtain ⟨j, p', hp', hd', hname, hend⟩ := hs.taken s.sink p.name fault htold
  obtain ⟨p₁, hp₁, hsocket⟩ := Graph.portAt?_of_topology_eq htopology hp₀
  obtain rfl := Option.some.inj (hp.symm.trans hp₁)
  have hsame : p'.name = p₀.name := hname.trans (congrArg Socket.name hsocket)
  obtain rfl := Graph.portAt?_inj hw hp' hp₀ hsame (hd'.trans hd₀.symm)
  obtain rfl := Option.some.inj (hp'.symm.trans hp₀)
  exact nomatch hopen.symm.trans hend

/-- **Streams end once, step by step.**  Also in a step that fails or does not come to its
end. -/
theorem Due.streams (h : s.Due) (hsteady : s.graph.Steady) (hs : s.graph.Streams s.calls) :
    (s.after patience).graph.Streams (s.callsAfter patience) := by
  unfold callsAfter
  cases hpulled : s.pulled patience with
  | mk result t =>
    obtain ⟨hstreams, es, hcalls, hes⟩ := h.pulled_streams hsteady.wired hs hpulled
    cases result with
    | none =>
      rw [s.after_eq, hpulled]
      exact hstreams
    | some r =>
      have houtcome := h.outcome hsteady hpulled
      obtain ⟨p, hp, hd, hended⟩ := h.ended_iff hsteady hpulled
      generalize s.after patience = x at houtcome ⊢
      cases houtcome with
      | failed => exact hstreams
      | idle => exact hstreams
      | @delivered pull arrival c k p' _ hr harrives hc hb hk hp' =>
        obtain rfl := Option.some.inj (hp.symm.trans hp')
        have hopen : ∀ fault, (s.sink, Call.ended p.name fault) ∉ t.calls := by
          intro fault htold
          rw [hcalls] at htold
          rcases List.mem_append.mp htold with hold | hnew
          · exact h.not_told hsteady.wired hs (h.blames hpulled).1 hp hold
          · exact nomatch hes _ hnew
        have harrival : arrival = none → p.atEnd = true := by
          rintro rfl
          refine hended.mpr (hr.trans (congrArg Except.ok ?_))
          cases pull with
          | endOfStream => rfl
          | message m => cases harrives
          | again => cases harrives
        have hdelivered := t.graph.deliver_passes s.sink s.index arrival t.env
        have harrive := fun fault => hstreams.arrive hp hd hopen harrival fault
        have hcallsAfter := Graph.deliver_calls hc hb hk hp arrival t.env
        have hid : (t.graph.deliver s.sink s.index arrival t.env).graph.id = t.graph.id :=
          hdelivered.leads.id_eq
        simp only [After.map, hid, hcallsAfter]
        exact (harrive _).congr hdelivered.leads.topology
          fun i j => t.graph.deliver_portAt? s.sink s.index arrival t.env i j

/-- A step that goes well tells the sink if the stream has ended. -/
theorem Due.served (h : s.Due) (hsteady : s.graph.Steady) (hs : s.graph.Served s.calls)
    {moved : Bool} (hmoved : (s.after patience).result = some (.ok moved)) :
    (s.after patience).graph.Served (s.callsAfter patience) := by
  have hleads := (h.passes patience).leads
  have hkept : ∀ x ∈ s.calls, x ∈ s.callsAfter patience := by
    obtain ⟨es, habout, -⟩ := hleads.journal
    intro x hx
    rw [callsAfter, hleads.id_eq, Journal.calls_of_about habout]
    exact List.mem_append_left _ hx
  intro id hid j p' hp' hd hend
  rw [hleads.sinks_eq] at hid
  obtain ⟨p, hp, rfl | ⟨rfl, -, hwithin⟩⟩ := (h.latches patience).back hleads.topology hp'
  · exact hkept _ (hs id hid j p' hp hd hend)
  rcases hwithin with hupstream | ⟨rfl, rfl⟩
  · exact absurd (hsteady.wired.mem_sinks.mp hid) (hupstream hsteady.wired)
  -- the step's own port has noted the end, so that is what was pulled and handed to the sink
  have hreturned : (s.after patience).result.isSome = true := by
    rw [hmoved]
    rfl
  obtain ⟨r, t, hpulled⟩ := s.pulled_of_returned hreturned
  obtain ⟨p₁, hp₁, -, hended⟩ := h.ended_iff hsteady hpulled
  have houtcome := h.outcome hsteady hpulled
  unfold callsAfter
  generalize s.after patience = x at houtcome hmoved hp' ⊢
  cases houtcome with
  | failed => cases hmoved
  | idle _ hr =>
    obtain rfl := Option.some.inj (hp₁.symm.trans hp')
    exact nomatch hr.symm.trans (hended.mp rfl)
  | @delivered pull arrival c k p₂ _ hr harrives hc hb hk hp₂ =>
    obtain rfl := Option.some.inj (hp₁.symm.trans hp₂)
    have hid : (t.graph.deliver s.sink s.index arrival t.env).graph.id = t.graph.id :=
      (t.graph.deliver_passes s.sink s.index arrival t.env).leads.id_eq
    have hport := (t.graph.deliver_portAt? s.sink s.index arrival t.env _ _).symm.trans hp'
    obtain rfl := Option.some.inj (hp₁.symm.trans hport)
    obtain rfl : pull = .endOfStream := Except.ok.inj (hr.symm.trans (hended.mp rfl))
    obtain rfl := Option.some.inj harrives
    have hcallsAfter := Graph.deliver_calls hc hb hk hp₁ none t.env
    rw [Graph.deliver_eq hc hb hk hp₁] at hmoved
    generalize (t.env.perform (Graph.receive _ none k)).1.1 = verdict at hmoved hcallsAfter
    simp only [After.map, hid, hcallsAfter]
    cases verdict with
    | ok u => exact List.mem_append_right _ (List.mem_singleton_self _)
    | error cause => cases hmoved

end Step
end Steps
end PullGraph
