import PullGraph.Proofs.Diagnosis
import PullGraph.Proofs.Streams

/-! # How far a pull step reaches

A pull step is made for one input port of a sink. All that it calls are the components upstream
of the port, and the sink itself; all that changes are their inner states and the ends of the
streams into the port and into the components upstream (`Step.Confined`). `Graph.Reaches` says
so of any part of a step. What a filter may reach while it is asked is what lies upstream of
it; the rest follows along the connections, from the sink backwards.
-/
namespace PullGraph

open Relation

variable {κ ω : Type}

/-! ## What is new in a journal -/

namespace Journal

variable {P Q : Event → Prop} {j j' j'' : Journal}

/-- What is new in `j'` has the property `P`. -/
def Adds (P : Event → Prop) (j j' : Journal) : Prop :=
  ∃ es, j'.toList = j.toList ++ es ∧ ∀ e ∈ es, P e

theorem Adds.refl (j : Journal) : Adds P j j := ⟨[], by simp, by simp⟩

theorem Adds.mono (h : Adds P j j') (hPQ : ∀ e, P e → Q e) : Adds Q j j' := by
  obtain ⟨es, heq, hes⟩ := h
  exact ⟨es, heq, fun e he => hPQ e (hes e he)⟩

theorem Adds.trans (h : Adds P j j') (h' : Adds P j' j'') : Adds P j j'' := by
  obtain ⟨es, heq, hes⟩ := h
  obtain ⟨es', heq', hes'⟩ := h'
  refine ⟨es ++ es', by rw [heq', heq, List.append_assoc], ?_⟩
  exact List.forall_mem_append.mpr ⟨hes, hes'⟩

theorem Adds.record (j : Journal) {e : Event} (h : P e) : Adds P j (j.record e) :=
  ⟨[e], toList_record j e, List.forall_mem_singleton.mpr h⟩

theorem about_of_toList {graph : GraphId} {es : List Event} (h : j'.toList = j.toList ++ es) :
    j'.about graph = j.about graph ++ es.filter fun e => e.graph? = some graph := by
  rw [about, h, List.filter_append]
  rfl

theorem Adds.grows (h : Adds P j j') (graph : GraphId) : Grows P graph j j' := by
  obtain ⟨es, heq, hes⟩ := h
  exact ⟨_, about_of_toList heq, fun e he => hes e (List.mem_of_mem_filter he)⟩

/-- Where nothing is added to the refusals of a graph, none is added to the journal. -/
theorem refused_not_mem {graph : GraphId} {es : List Event} (h : j'.toList = j.toList ++ es)
    (hrefusals : j'.refusals graph = j.refusals graph) (fault : Fault) :
    Event.refused graph fault ∉ es := by
  intro hmem
  rw [refusals, about_of_toList h, List.filterMap_append] at hrefusals
  have hnone := List.filterMap_eq_nil_iff.mp (List.append_right_eq_self.mp hrefusals)
  cases hnone (.refused graph fault) (List.mem_filter.mpr ⟨hmem, by simp [Event.graph?]⟩)

end Journal

/-- The event is about the graph, and if it is a call, it is one that `may` allows. -/
def Event.Allowed (graph : GraphId) (may : ComponentId → Call → Prop) : Event → Prop
  | .call g i c => g = graph ∧ may i c
  | .refused g _ => g = graph
  | .notice _ => False

theorem Event.Allowed.mono {graph : GraphId} {may may' : ComponentId → Call → Prop} {e : Event}
    (h : e.Allowed graph may) (hmay : ∀ i call, may i call → may' i call) :
    e.Allowed graph may' := by
  cases e with
  | call g i c => exact ⟨h.1, hmay i c h.2⟩
  | refused g fault => exact h
  | notice n => exact h

namespace Graph

variable {g g' g'' : Graph κ ω} {env env' env'' : Env ω} {may may' : ComponentId → Call → Prop}
  {S S' : Nat → Nat → Prop}

/-- What a part of a step comes to that makes no calls but those that `may` allows and notes
the ends of streams only at input ports that `S` allows. -/
structure Reaches (may : ComponentId → Call → Prop) (S : Nat → Nat → Prop) (g : Graph κ ω)
    (env : Env ω) (g' : Graph κ ω) (env' : Env ω) : Prop where
  topology : g'.topology = g.topology
  behaviors : ∀ i, (∀ call, ¬ may i call) → g'.behaviors[i]? = g.behaviors[i]?
  ends : g.Latches S g'
  journal : Journal.Adds (Event.Allowed g.id may) env.journal env'.journal

namespace Reaches

theorem of_journal (h : Journal.Adds (Event.Allowed g.id may) env.journal env'.journal) :
    g.Reaches may S env g env' :=
  ⟨rfl, fun _ _ => rfl, .refl g, h⟩

theorem refl (g : Graph κ ω) (env : Env ω) : g.Reaches may S env g env := of_journal (.refl _)

theorem mono (h : g.Reaches may S env g' env') (hmay : ∀ i call, may i call → may' i call)
    (hS : ∀ i j, S i j → S' i j) : g.Reaches may' S' env g' env' where
  topology := h.topology
  behaviors i hi := h.behaviors i fun call hcall => hi call (hmay i call hcall)
  ends := h.ends.mono hS
  journal := h.journal.mono fun _ he => he.mono hmay

theorem trans (h : g.Reaches may S env g' env') (h' : g'.Reaches may S env' g'' env'') :
    g.Reaches may S env g'' env'' where
  topology := h'.topology.trans h.topology
  behaviors i hi := (h'.behaviors i hi).trans (h.behaviors i hi)
  ends := h.ends.trans h'.ends
  journal := by
    have hid : g'.id = g.id := congrArg Topology.id h.topology
    exact h.journal.trans (hid ▸ h'.journal)

end Reaches
end Graph

/-! ## Pulling -/

namespace Turn

variable (t : Turn κ ω) {may : ComponentId → Call → Prop} {S : Nat → Nat → Prop}

theorem ask_reaches (a : ComponentId) (port : String) (h : may a (.asked port)) :
    t.graph.Reaches may S t.env (t.ask a port).graph (t.ask a port).env where
  topology := (t.ask_leads a port).topology
  behaviors i hi := by
    have hne : a ≠ i := by
      rintro rfl
      exact hi _ h
    rw [ask_behaviors, List.getElem?_set_ne hne]
  ends := .of_eq (t.ask_portAt? a port)
  journal := .record _ ⟨rfl, h⟩

theorem settle_reaches (id index : Nat) (a : ComponentId) (port : String)
    (answer : Except Fault Pull) (k : κ) (h : may a (.answered port answer)) {p : Port}
    (hp : t.graph.portAt? id index = some p) (hd : p.direction = .input) (hS : S id index) :
    t.graph.Reaches may S t.env (t.settle id index a port answer k).graph
      (t.settle id index a port answer k).env where
  topology := t.settle_topology id index a port answer k
  behaviors i hi := by
    have hne : a ≠ i := by
      rintro rfl
      exact hi _ h
    rw [settle_behaviors, List.getElem?_set_ne hne]
  ends := by
    refine (t.settle_latches id index a port answer k hp hd).mono ?_
    rintro i j ⟨rfl, rfl⟩
    exact hS
  journal := by
    rw [settle_env]
    exact .record _ ⟨rfl, h⟩

end Turn

/-- The relation for what a component does that is being asked: it pulls its own input ports, and
so reaches what lies upstream of it. -/
def ReachesAbove (id : ComponentId) (t t' : Turn κ ω) : Prop :=
  t'.graph.topology = t.graph.topology ∧ (t.graph.topology.Wired →
    t.graph.Reaches (fun i call => TransGen t.graph.topology.Feeds i id ∧ call.isPull = true)
      (fun i _ => ReflTransGen t.graph.topology.Feeds i id) t.env t'.graph t'.env)

namespace ReachesAbove

variable {t t' : Turn κ ω} {id : ComponentId} {index : Nat} {p out : Port} {conn : Connection}
  {c : Component κ} {k : κ} {may : ComponentId → Call → Prop} {S : Nat → Nat → Prop}

/-- A component that is asked reaches no further than what lies upstream of it. -/
theorem of_asked (h : ReachesAbove conn.output.component (t.ask conn.output.component out.name) t')
    (hw : t.graph.topology.Wired)
    (hmay : ∀ i call, ReflTransGen t.graph.topology.Feeds i conn.output.component →
      call.isPull = true → may i call)
    (hS : ∀ i j, ReflTransGen t.graph.topology.Feeds i conn.output.component → S i j) :
    t.graph.Reaches may S t.env t'.graph t'.env := by
  have hask := t.ask_reaches (S := S) conn.output.component out.name (hmay _ _ .refl rfl)
  have hrest := h.2
  rw [hask.topology] at hrest
  refine hask.trans ((hrest hw).mono ?_ hS)
  rintro i call ⟨hpath, hpull⟩
  exact hmay i call hpath.to_reflTransGen hpull

/-- And when it has answered, whoever asked may have learned of the end of a stream. -/
theorem of_answered
    (h : ReachesAbove conn.output.component (t.ask conn.output.component out.name) t')
    (hasks : t.Asks id index p conn c out k) (hd : p.direction = .input)
    (hw : t.graph.topology.Wired)
    (hmay : ∀ i call, ReflTransGen t.graph.topology.Feeds i conn.output.component →
      call.isPull = true → may i call)
    (hS : ∀ i j, ReflTransGen t.graph.topology.Feeds i conn.output.component → S i j)
    (hhere : S id index) (answer : Except Fault Pull) (k' : κ) :
    t.graph.Reaches may S t.env
      (t'.settle id index conn.output.component out.name answer k').graph
      (t'.settle id index conn.output.component out.name answer k').env := by
  have hrest := h.of_asked hw hmay hS
  obtain ⟨p', hp', hsocket⟩ := Graph.portAt?_of_topology_eq hrest.topology hasks.port
  have hd' : p'.direction = .input := (congrArg Socket.direction hsocket).trans hd
  exact hrest.trans (t'.settle_reaches id index _ _ answer k' (hmay _ _ .refl rfl) hp' hd' hhere)

end ReachesAbove

/-- Whoever is asked feeds whoever asks. -/
theorem Turn.Asks.feeds {t : Turn κ ω} {id : ComponentId} {index : Nat} {p out : Port}
    {conn : Connection} {c : Component κ} {k : κ} (h : t.Asks id index p conn c out k)
    (hw : t.graph.topology.Wired) (hd : p.direction = .input) :
    t.graph.topology.Feeds conn.output.component id :=
  ⟨conn, h.mem_connections, rfl, congrArg PortHandle.component (h.input_eq hw hd)⟩

/-- **Pulling reaches upstream**, however the components on the way go about it. -/
theorem reachesAbove_law : ExchangeLaw (ReachesAbove : ComponentId → Turn κ ω → Turn κ ω → Prop) where
  refl _ t := ⟨rfl, fun _ => .refl t.graph t.env⟩
  trans := by
    rintro id t t' t'' ⟨htopology, hreaches⟩ ⟨htopology', hreaches'⟩
    rw [htopology] at htopology' hreaches'
    exact ⟨htopology', fun hw => (hreaches hw).trans (hreaches' hw)⟩
  act _ t _ _ := ⟨rfl, fun _ => .of_journal (.refl _)⟩
  refuse _ t _ := ⟨rfl, fun _ => .of_journal (.record _ rfl)⟩
  unanswered := by
    intro id index t t' p out conn c k hasks hd h
    refine ⟨h.1.trans (t.ask_leads _ _).topology, fun hw => ?_⟩
    have hfeeds := hasks.feeds hw hd
    refine h.of_asked hw ?_ ?_
    · exact fun i call hpath hpull => ⟨.tail' hpath hfeeds, hpull⟩
    · exact fun i j hpath => hpath.tail hfeeds
  answered := by
    intro id index t t' p out conn c k hasks hd h answer k'
    refine ⟨(t'.settle_topology _ _ _ _ answer k').trans
      (h.1.trans (t.ask_leads _ _).topology), fun hw => ?_⟩
    have hfeeds := hasks.feeds hw hd
    refine h.of_answered hasks hd hw ?_ ?_ .refl answer k'
    · exact fun i call hpath hpull => ⟨.tail' hpath hfeeds, hpull⟩
    · exact fun i j hpath => hpath.tail hfeeds

/-- Where the end of a stream may be noted in a step: at the port that it is made for, and
upstream. -/
def Topology.Catchment (T : Topology κ) (id index : Nat) (i j : Nat) : Prop :=
  T.Upstream i id index ∨ i = id ∧ j = index

/-- The calls that a step may make: components upstream of its port are pulled, and the sink is
handed what comes. -/
def Topology.MayCall (T : Topology κ) (id index : Nat) (i : ComponentId) (call : Call) : Prop :=
  T.Upstream i id index ∧ call.isPull = true ∨ i = id ∧ call.isArrival = true

section Steps

variable [Behavior κ ω]

/-- A pull of an input port reaches what lies upstream of it. -/
theorem pullInput_reaches (patience : Nat) {id : ComponentId} {index : Nat} {t : Turn κ ω} {p : Port}
    (hw : t.graph.topology.Wired) (hp : t.graph.portAt? id index = some p)
    (hd : p.direction = .input) :
    t.graph.Reaches (t.graph.topology.MayCall id index) (t.graph.topology.Catchment id index) t.env
      (pullInput (converse patience) id index t).turn.graph
      (pullInput (converse patience) id index t).turn.env := by
  have hlaw : ExchangeLaw (ReachesAbove : ComponentId → Turn κ ω → Turn κ ω → Prop) :=
    reachesAbove_law
  have hpulled := pullInput_pulled (converse patience) id index t
  generalize pullInput (converse patience) id index t = x at hpulled ⊢
  -- from the component that is asked, the way leads on to the port
  have hupstream : ∀ {p' out conn c k}, t.Asks id index p' conn c out k → ∀ i,
      ReflTransGen t.graph.topology.Feeds i conn.output.component →
      t.graph.topology.Upstream i id index := by
    intro p' out conn c k hasks i hpath
    obtain rfl : p = p' := Option.some.inj (hp.symm.trans hasks.port)
    exact ⟨conn, hasks.mem_connections, hasks.input_eq hw hd, hpath⟩
  cases hpulled with
  | atEnd => exact .refl t.graph t.env
  | refused fault => exact .of_journal (.record _ rfl)
  | @unanswered p' out conn c k t' hasks hproduced =>
    have hq := hlaw.produce (hlaw.pullLaw.converse patience) c.kind conn.output.component out.name k
      (t.ask conn.output.component out.name)
    rw [hproduced] at hq
    refine hq.of_asked hw ?_ ?_
    · exact fun i call hpath hpull => .inl ⟨hupstream hasks i hpath, hpull⟩
    · exact fun i j hpath => .inl (hupstream hasks i hpath)
  | @answered p' out conn c k k' t' answer hasks hproduced =>
    have hq := hlaw.produce (hlaw.pullLaw.converse patience) c.kind conn.output.component out.name k
      (t.ask conn.output.component out.name)
    rw [hproduced] at hq
    obtain rfl : p = p' := Option.some.inj (hp.symm.trans hasks.port)
    refine hq.of_answered hasks hd hw ?_ ?_ (.inr ⟨rfl, rfl⟩) answer k'
    · exact fun i call hpath hpull => .inl ⟨hupstream hasks i hpath, hpull⟩
    · exact fun i j hpath => .inl (hupstream hasks i hpath)

namespace Graph

/-- What a sink is handed reaches the sink. -/
theorem deliver_reaches (g : Graph κ ω) {may : ComponentId → Call → Prop} {S : Nat → Nat → Prop}
    (id : ComponentId) (index : Nat) (arrival : Option Message) (env : Env ω)
    (hmay : ∀ call : Call, call.isArrival = true → may id call) :
    g.Reaches may S env (g.deliver id index arrival env).graph
      (g.deliver id index arrival env).env := by
  by_cases hready : g.CanTake id
  · obtain ⟨c, k, hc, hb, hk⟩ := hready
    obtain ⟨port, result, k', env', hperform, hgraph, henv⟩ :=
      deliver_sink hc hb hk index arrival env
    have hjournal : env'.journal = env.journal := by
      rw [← env.perform_journal (receive port arrival k), hperform]
    refine ⟨(g.deliver_passes id index arrival env).leads.topology, fun i hi => ?_,
      .of_eq (g.deliver_portAt? id index arrival env), ?_⟩
    · have hne : id ≠ i := by
        rintro rfl
        exact hi _ (hmay _ (isArrival_arrivalCall port arrival (Component.faultOf result)))
      rw [hgraph, count_modify_behaviors, List.getElem?_set_ne hne]
    · rw [henv, Env.record_journal, hjournal]
      exact .record _ ⟨rfl, hmay _ (isArrival_arrivalCall port arrival (Component.faultOf result))⟩
  · obtain ⟨cause, hdeliver⟩ := deliver_eq_turnAway hready index arrival env
    rw [hdeliver]
    exact .of_journal (.record _ rfl)

theorem afterPull_reaches {may : ComponentId → Call → Prop} {S : Nat → Nat → Prop}
    (id : ComponentId) (index : Nat) (pulled : Except Fault Pull) (t : Turn κ ω)
    (hmay : ∀ call : Call, call.isArrival = true → may id call) :
    t.graph.Reaches may S t.env (afterPull id index pulled t).graph
      (afterPull id index pulled t).env := by
  unfold afterPull
  split
  · exact .refl _ _
  · exact .refl _ _
  · exact .refl _ _
  · exact t.graph.deliver_reaches id index _ t.env hmay
  · exact t.graph.deliver_reaches id index _ t.env hmay

/-- **A pull step reaches what lies upstream of its port, and its sink.** -/
theorem sinkStep_reaches {g : Graph κ ω} (hw : g.topology.Wired) {id index : Nat} {p : Port}
    (hp : g.portAt? id index = some p) (hd : p.direction = .input) (patience : Nat) (env : Env ω) :
    g.Reaches (g.topology.MayCall id index) (g.topology.Catchment id index) env
      (g.sinkStep patience id index env).graph (g.sinkStep patience id index env).env := by
  have hpull := pullInput_reaches (t := (⟨g, env, none⟩ : Turn κ ω)) patience hw hp hd
  unfold sinkStep
  generalize pullInput (converse patience) id index ⟨g, env, none⟩ = x at hpull ⊢
  obtain ⟨result, t⟩ := x
  cases result with
  | none => exact hpull
  | some pulled =>
    exact hpull.trans (afterPull_reaches id index pulled t fun call hcall => .inr ⟨rfl, hcall⟩)

end Graph

/-! ## What a step leaves alone -/

namespace Graph

omit [Behavior κ ω]

variable {g g' : Graph κ ω} {env env' : Env ω}

/-- A port that `S` does not allow, or none, is at a position as before. -/
theorem Latches.portAt?_eq_of_not {S : Nat → Nat → Prop} (h : g.Latches S g')
    (htopology : g'.topology = g.topology) {i j : Nat} (hs : ¬ S i j) :
    g'.portAt? i j = g.portAt? i j := by
  cases hp : g.portAt? i j with
  | some p => exact h.portAt?_eq hp hs
  | none =>
    cases hp' : g'.portAt? i j with
    | none => rfl
    | some p' =>
      obtain ⟨p, hp'', -⟩ := h.back htopology hp'
      cases hp.symm.trans hp''

/-- A part of a run changes no more of a graph than its components and counters. -/
theorem Leads.rest_eq (h : g.Leads env g' env') :
    { g' with components := g.components, stats := g.stats } = g := by
  obtain ⟨htopology, hname, hstate, hpolicy, -, -⟩ := h
  have hid : g'.id = g.id := congrArg Topology.id htopology
  have hconnections : g'.connections = g.connections := congrArg Topology.connections htopology
  have hsinks : g'.sinks = g.sinks := congrArg Topology.sinks htopology
  rw [hid, hname, hconnections, hsinks, hstate, hpolicy]

/-- And no more of a component than its inner state and its ports. -/
theorem Leads.components_eq (h : g.Leads env g' env') :
    g'.components.map (fun c => { c with behavior := none, ports := [] }) =
      g.components.map fun c => { c with behavior := none, ports := [] } := by
  -- what is left is made of the outline and the stage, which are the same
  have hparts : ∀ g : Graph κ ω,
      g.components.map (fun c => { c with behavior := none, ports := [] }) =
        List.zipWith (fun (o : Outline κ) state => ⟨o.graph, o.id, o.name, o.cls, state, [], none⟩)
          g.topology.components (g.components.map (·.state)) := by
    intro g
    rw [topology_components, List.zipWith_map, List.zipWith_self]
    rfl
  rw [hparts, hparts, h.topology, h.stages]

/-- A component of which neither the inner state nor a port has changed is as it was. -/
theorem Leads.component_eq (h : g.Leads env g' env') {i : ComponentId}
    (hbehavior : g'.behaviors[i]? = g.behaviors[i]?)
    (hports : ∀ j, g'.portAt? i j = g.portAt? i j) : g'.components[i]? = g.components[i]? := by
  have hframe := congrArg (·[i]?) h.components_eq
  simp only [List.getElem?_map, behaviors] at hframe hbehavior
  simp only [portAt?] at hports
  cases hc : g.components[i]? with
  | none =>
    cases hc' : g'.components[i]? with
    | none => rfl
    | some c' => simp [hc, hc'] at hframe
  | some c =>
    cases hc' : g'.components[i]? with
    | none => simp [hc, hc'] at hframe
    | some c' =>
      have hsame : c'.ports = c.ports := List.ext_getElem? (by simpa [hc, hc'] using hports)
      cases c
      cases c'
      simp_all

end Graph

/-- What a step keeps to. -/
structure Step.Confined (s : Step κ ω) (patience : Nat) : Prop where
  /-- Components upstream of the port are pulled and the sink is handed what comes, and nothing
  else happens, on no graph. -/
  calls : ∃ es, (s.after patience).env.journal.toList = s.env.journal.toList ++ es ∧
    ∀ e ∈ es, ∃ i call, e = .call s.graph.id i call ∧
      s.graph.topology.MayCall s.sink s.index i call
  /-- Other components are not touched. -/
  others : ∀ i, i ≠ s.sink → ¬ s.graph.topology.Upstream i s.sink s.index →
    (s.after patience).graph.components[i]? = s.graph.components[i]?
  /-- No port differs, but for ends of streams into the port and upstream. -/
  ends : s.graph.Latches (s.graph.topology.Catchment s.sink s.index) (s.after patience).graph
  /-- Apart from inner states and ports no components differ. -/
  components : (s.after patience).graph.components.map
      (fun c => { c with behavior := none, ports := [] }) =
    s.graph.components.map fun c => { c with behavior := none, ports := [] }
  rest : { (s.after patience).graph with
    components := s.graph.components, stats := s.graph.stats } = s.graph

/-- **A step of a steady graph keeps to what is upstream.** -/
theorem Step.Due.confined {s : Step κ ω} (h : s.Due) (hw : s.graph.topology.Wired)
    (hsteady : s.graph.Steady) (patience : Nat) : s.Confined patience := by
  obtain ⟨p, hp, hd, -⟩ := h.port
  have hpasses := h.passes patience
  have hreaches : s.graph.Reaches _ _ s.env (s.after patience).graph (s.after patience).env :=
    Graph.sinkStep_reaches hw hp hd patience s.env
  refine ⟨?calls, fun i hsink hupstream => ?others, hreaches.ends, hpasses.leads.components_eq,
    hpasses.leads.rest_eq⟩
  case calls =>
    obtain ⟨es, heq, hes⟩ := hreaches.journal
    refine ⟨es, heq, fun e he => ?_⟩
    have hallowed := hes e he
    cases e with
    | call graph i call => exact ⟨i, call, by rw [hallowed.1], hallowed.2⟩
    | notice n => exact hallowed.elim
    | refused graph fault =>
      -- the graph is steady, so nothing was refused
      obtain rfl : graph = s.graph.id := hallowed
      exact absurd he (Journal.refused_not_mem heq (hpasses.safe hsteady) fault)
  case others =>
    have houtside : ∀ j, ¬ s.graph.topology.Catchment s.sink s.index i j := by
      rintro j (hup | ⟨rfl, -⟩)
      · exact hupstream hup
      · exact hsink rfl
    refine hpasses.leads.component_eq (hreaches.behaviors i ?_) fun j => ?_
    · rintro call (⟨hup, -⟩ | ⟨rfl, -⟩)
      · exact hupstream hup
      · exact hsink rfl
    · exact hreaches.ends.portAt?_eq_of_not hreaches.topology (houtside j)

end Steps
end PullGraph
