import PullGraph.Proofs.Stages

/-! # Frozen graphs

A request to build that is refused leaves the graph as it was, and once a graph has started
or has been ended every such request is refused. So its topology stays what it was at that
moment, whatever is asked of the graph from then on and whether it comes to an end or not:
`Graph.Later` lists what can become of it. Nor is any component set up again.
-/
namespace PullGraph

open Relation

variable {κ ω : Type}

/-- Whether an event sets a component up, or fails to. -/
def Event.setsUp : Event → Bool
  | .call _ _ (.setUp _) => true
  | _ => false

/-- What is new about a graph sets nothing up. -/
abbrev Journal.Unextended (graph : GraphId) (j j' : Journal) : Prop :=
  Journal.Grows (fun e => e.setsUp = false) graph j j'

theorem Event.setsUp_of_isWork {e : Event} (h : e.isWork = true) : e.setsUp = false := by
  cases e with
  | call graph component call =>
    cases call with
    | setUp fault => cases h
    | asked | answered | consumed | ended | finalized => rfl
  | refused => rfl
  | notice => rfl

namespace Graph

variable [Behavior κ ω] {g g' : Graph κ ω} {env env' : Env ω}

/-- What can become of a graph that requests are made of, which may or may not come to their
ends, while other things happen in between. -/
inductive Later (g : Graph κ ω) (env : Env ω) : Graph κ ω → Env ω → Prop where
  | here : Later g env g env
  | elsewhere {g' : Graph κ ω} {env' env'' : Env ω} (later : Later g env g' env')
      (about : env''.journal.about g'.id = env'.journal.about g'.id) : Later g env g' env''
  | call {g' : Graph κ ω} {env' : Env ω} (later : Later g env g' env') (r : Request κ ω) :
      Later g env (r.perform g' env').graph (r.perform g' env').env

/-! ## Running and ending set nothing up -/

omit [Behavior κ ω] in
theorem Leads.unextended (h : g.Leads env g' env') :
    Journal.Unextended g.id env.journal env'.journal := by
  obtain ⟨es, habout, hwork⟩ := h.journal
  exact ⟨es, habout, fun e he => Event.setsUp_of_isWork (hwork e he)⟩

/-- What holds of finalizing a component and of whatever is told holds of all that is new. -/
theorem finalize_grows {P : Event → Prop}
    (hfinalized : ∀ graph i fault, P (.call graph i (.finalized fault)))
    (hnotice : ∀ n, P (.notice n)) (graph : GraphId) (c : Component κ) (env : Env ω) :
    Journal.Grows P graph env.journal (c.finalize env).2.2.journal := by
  unfold Component.finalize
  split
  · exact .refl _
  · have hnote : Journal.Grows P graph env.journal (env.note (.finalizing c.name)).journal :=
      .record env.journal (hnotice _)
    split
    · exact hnote
    · exact hnote.trans (.record _ (hfinalized _ _ _))

/-- Components are finalized one after another, and nothing else is done. -/
theorem finalizeList_grows {P : Event → Prop}
    (hfinalized : ∀ graph i fault, P (.call graph i (.finalized fault)))
    (hnotice : ∀ n, P (.notice n)) (graph : GraphId) (name : String) (cs : List (Component κ))
    (env : Env ω) : Journal.Grows P graph env.journal (finalizeList name cs env).2.2.journal := by
  induction cs with
  | nil => exact .refl _
  | cons c cs ih =>
    have hc := finalize_grows hfinalized hnotice graph c (finalizeList name cs env).2.2
    unfold finalizeList
    generalize finalizeList name cs env = x at ih hc ⊢
    obtain ⟨failures, cs', env'⟩ := x
    dsimp only at ih hc ⊢
    generalize c.finalize env' = y at hc ⊢
    obtain ⟨fault, c', env''⟩ := y
    cases fault with
    | none => exact ih.trans hc
    | some fault => exact (ih.trans hc).trans (.record _ (hnotice _))

/-- What it takes for a property of events to hold of all that is new after runs of a graph of
topology `T`, and after it has been ended. -/
structure RunLaw (P : Event → Prop) (T : Topology κ) : Prop where
  finalized : ∀ graph i fault, P (.call graph i (.finalized fault))
  notice : ∀ n, P (.notice n)
  step : ∀ (g : Graph κ ω) (env : Env ω) {id index : Nat} (patience : Nat), g.topology = T →
    g.CanStep id index →
      Journal.Grows P g.id env.journal (g.sinkStep patience id index env).env.journal

namespace RunLaw

variable {P : Event → Prop} {T : Topology κ}

theorem close (h : RunLaw (ω := ω) P T) (graph : GraphId) (g : Graph κ ω) (env : Env ω) :
    Journal.Grows P graph env.journal (g.finalizeAll env).env.journal :=
  finalizeList_grows h.finalized h.notice graph g.name g.components env

theorem advance (h : RunLaw (ω := ω) P T) (hT : g.topology = T)
    (hadvance : Advance g env g' env') : Journal.Grows P g.id env.journal env'.journal := by
  cases hadvance with
  | remark habout => exact .of_eq habout
  | tally => exact .refl _
  | pull patience hdue _ => exact h.step g env patience hT hdue
  | close => exact h.close g.id _ env

theorem course (h : RunLaw (ω := ω) P T) (hT : g.topology = T) {returned : Bool}
    (hcourse : Course g env returned g' env') : Journal.Grows P g.id env.journal env'.journal := by
  induction hcourse with
  | done => exact .refl _
  | pause => exact .refl _
  | @broken g env id index patience hdue _ => exact h.step g env patience hT hdue
  | next hstep _ ih =>
    have hrest := ih (hstep.topology_eq.trans hT)
    rw [show Graph.id _ = _ from congrArg Topology.id hstep.topology_eq] at hrest
    exact (h.advance hT hstep).trans hrest

theorem ran (h : RunLaw (ω := ω) P T) (hT : g.topology = T) {returned : Bool}
    (hran : Ran g env returned g' env') : Journal.Grows P g.id env.journal env'.journal := by
  cases hran with
  | unchanged => exact .refl _
  | resumed _ hcourse => exact h.course hT hcourse
  | started _ hvalid hcourse =>
    have hrest := h.course ((start_topology hvalid env).trans hT) hcourse
    obtain ⟨g₁, notice, hstart, htopology, -, -⟩ := start_spec hvalid env
    rw [hstart] at hrest
    rw [show g₁.id = g.id from congrArg Topology.id htopology] at hrest
    exact .trans (.record env.journal (h.notice _)) hrest

theorem teardown (h : RunLaw (ω := ω) P T) (g : Graph κ ω) (env : Env ω) :
    Journal.Grows P g.id env.journal (g.teardown env).env.journal := by
  have hnote : Journal.Grows P g.id env.journal (env.note (.tearingDown g.name)).journal :=
    .record env.journal (h.notice _)
  exact hnote.trans (h.close g.id _ _)

end RunLaw

/-- Runs set nothing up. -/
theorem unextended_runLaw (T : Topology κ) :
    RunLaw (ω := ω) (fun e => e.setsUp = false) T where
  finalized _ _ _ := rfl
  notice _ := rfl
  step _ env _ _ patience _ hdue := (hdue.passes patience env).leads.unextended

/-! ## Building a frozen graph -/

theorem add_frozen (hfrozen : g.state ≠ .configuring) (cls : ComponentClass κ) (name : String)
    (settings : Settings) (env : Env ω) :
    g.add cls name settings env =
      ⟨.error (.frozen g.name), g, env.note (.adding g.name cls.name name)⟩ := by
  have hmay : g.mayAdd cls name = .error (.frozen g.name) := by
    simp [mayAdd, isFrozen, hfrozen]
  simp only [add, hmay]

omit [Behavior κ ω] in
theorem connect_frozen (hfrozen : g.state ≠ .configuring) (a b : PortHandle) (env : Env ω) :
    g.connect a b env = ⟨.error (.frozen g.name), g, env.note (.connecting g.name a b)⟩ := by
  have hplan : g.plan a b = .error (.frozen g.name) := by
    simp [plan, isFrozen, hfrozen, bind, Except.bind, throw, throwThe, MonadExceptOf.throw]
  simp only [connect, hplan]

omit [Behavior κ ω] in
/-- Names that name no ports are noticed before it is noticed that the graph is frozen. -/
theorem link_frozen (hfrozen : g.state ≠ .configuring) (giver output taker input : String)
    (env : Env ω) : ∃ e env', g.link giver output taker input env = ⟨.error e, g, env'⟩ ∧
      (env' = env ∨ ∃ notice, env' = env.note notice) := by
  rcases g.link_cases giver output taker input env with ⟨e, hlink⟩ | ⟨a, b, -, -, hlink⟩
  · exact ⟨e, env, hlink, .inl rfl⟩
  · rw [connect_frozen hfrozen] at hlink
    exact ⟨_, _, hlink, .inr ⟨_, rfl⟩⟩

end Graph

variable [Behavior κ ω] {g g' : Graph κ ω} {env env' : Env ω}

/-- No request brings a graph back to where it can be built. -/
theorem Request.frozen_of_frozen (hfrozen : g.state ≠ .configuring) (env : Env ω)
    (r : Request κ ω) : (r.perform g env).graph.state ≠ .configuring := by
  have hmoves := r.moves g env
  generalize (r.perform g env).graph.state = state at hmoves ⊢
  induction hmoves with
  | refl => exact hfrozen
  | tail _ hstep _ =>
    cases hstep with
    | start => exact GraphState.noConfusion
    | endRun _ hends => rcases hends with rfl | rfl | rfl <;> exact GraphState.noConfusion
    | tearDown => exact GraphState.noConfusion

/-- A request after which a graph cannot be built has not built it. -/
theorem Request.topology_of_frozen (r : Request κ ω)
    (hfrozen : (r.perform g env).graph.state ≠ .configuring) :
    (r.perform g env).graph.topology = g.topology := by
  cases r with
  | add cls name settings =>
    have hstate : g.state ≠ .configuring := (g.add_builds cls name settings env).state ▸ hfrozen
    exact congrArg (·.graph.topology) (Graph.add_frozen hstate cls name settings env)
  | connect a b =>
    have hstate : g.state ≠ .configuring := (g.connect_builds a b env).state ▸ hfrozen
    exact congrArg (·.graph.topology) (Graph.connect_frozen hstate a b env)
  | link giver output taker input =>
    have hstate : g.state ≠ .configuring :=
      (g.link_builds giver output taker input env).state ▸ hfrozen
    obtain ⟨e, env', hlink, -⟩ := Graph.link_frozen hstate giver output taker input env
    exact congrArg (·.graph.topology) hlink
  | follow policy => rfl
  | runOnce patience => exact (g.runOnce_ran patience env).topology_eq
  | run patience rounds => exact (g.run_ran patience rounds env).topology_eq
  | cancel => rfl
  | teardown => exact g.teardown_topology env

/-- A request of a graph that cannot be built sets nothing up. -/
theorem Request.unextended (hfrozen : g.state ≠ .configuring) (env : Env ω) (r : Request κ ω) :
    Journal.Unextended g.id env.journal (r.perform g env).env.journal := by
  cases r with
  | add cls name settings =>
    have hadd := congrArg After.env (Graph.add_frozen hfrozen cls name settings env)
    exact .of_eq ((congrArg (·.journal.about g.id) hadd).trans (env.about_note _ g.id))
  | connect a b =>
    have hconnect := congrArg After.env (Graph.connect_frozen hfrozen a b env)
    exact .of_eq ((congrArg (·.journal.about g.id) hconnect).trans (env.about_note _ g.id))
  | link giver output taker input =>
    obtain ⟨e, env', hlink, rfl | ⟨notice, rfl⟩⟩ :=
      Graph.link_frozen hfrozen giver output taker input env
    · exact .of_eq (congrArg (·.env.journal.about g.id) hlink)
    · exact .of_eq ((congrArg (·.env.journal.about g.id) hlink).trans (env.about_note notice g.id))
  | follow policy => exact .refl _
  | runOnce patience => exact (Graph.unextended_runLaw _).ran rfl (g.runOnce_ran patience env)
  | run patience rounds => exact (Graph.unextended_runLaw _).ran rfl (g.run_ran patience rounds env)
  | cancel => exact .refl _
  | teardown => exact (Graph.unextended_runLaw g.topology).teardown g env

/-- **A frozen graph stays frozen**, with its topology and what has been set up. -/
theorem Graph.Later.frozen (h : g.Later env g' env') (hfrozen : g.state ≠ .configuring) :
    g'.topology = g.topology ∧ g'.state ≠ .configuring ∧
      Journal.Unextended g.id env.journal env'.journal := by
  induction h with
  | here => exact ⟨rfl, hfrozen, .refl _⟩
  | elsewhere _ habout ih =>
    obtain ⟨htopology, hstate, hjournal⟩ := ih
    have hid : Graph.id _ = g.id := congrArg Topology.id htopology
    rw [hid] at habout
    exact ⟨htopology, hstate, hjournal.trans (.of_eq habout)⟩
  | @call g' env' _ r ih =>
    obtain ⟨htopology, hstate, hjournal⟩ := ih
    have hid : g'.id = g.id := congrArg Topology.id htopology
    have hnext := r.frozen_of_frozen hstate env'
    have hrest := r.unextended hstate env'
    rw [hid] at hrest
    exact ⟨(r.topology_of_frozen hnext).trans htopology, hnext, hjournal.trans hrest⟩

/-- **Refused requests change nothing, and the first step freezes the topology.**  A request
to add a component or to connect two ports that fails, for whatever reason, leaves the graph
as it was. A request that takes a graph out of its configuration keeps its topology: which
components there are, their names, classes and ports, the connections and the sinks. From
then on so does everything that is asked of the graph. No component is set up any more: to
add one and to connect ports fails without doing anything but to tell so. -/
theorem Graph.refused_unchanged_and_frozen (g : Graph κ ω) (env : Env ω) :
    (∀ cls name settings e, (g.add cls name settings env).result = .error e →
        (g.add cls name settings env).graph = g) ∧
      (∀ a b e, (g.connect a b env).result = .error e → (g.connect a b env).graph = g) ∧
      (∀ giver output taker input e, (g.link giver output taker input env).result = .error e →
        (g.link giver output taker input env).graph = g) ∧
      (∀ r : Request κ ω, (r.perform g env).graph.state ≠ .configuring →
        (r.perform g env).graph.topology = g.topology) ∧
      (g.state ≠ .configuring → ∀ g' env', g.Later env g' env' →
        g'.topology = g.topology ∧ Journal.Unextended g.id env.journal env'.journal ∧
        (∀ cls name settings, g'.add cls name settings env' =
          ⟨.error (.frozen g'.name), g', env'.note (.adding g'.name cls.name name)⟩) ∧
        (∀ a b, g'.connect a b env' =
          ⟨.error (.frozen g'.name), g', env'.note (.connecting g'.name a b)⟩) ∧
        (∀ giver output taker input, ∃ e env'',
          g'.link giver output taker input env' = ⟨.error e, g', env''⟩ ∧
          (env'' = env' ∨ ∃ notice, env'' = env'.note notice))) := by
  refine ⟨?add, ?connect, ?link, fun r => r.topology_of_frozen, ?frozen⟩
  case add =>
    intro cls name settings e he
    rcases g.add_cases cls name settings env with ⟨e', env', hadd, -⟩ | ⟨-, k, env', hadd, -⟩
    · rw [hadd]
    · rw [hadd] at he
      cases he
  case connect =>
    intro a b e he
    rcases g.connect_cases a b env with ⟨e', env', hconnect, -⟩ | ⟨c, env', -, hconnect, -⟩
    · rw [hconnect]
    · rw [hconnect] at he
      cases he
  case link =>
    intro giver output taker input e he
    rcases g.link_cases giver output taker input env with ⟨e', hlink⟩ | ⟨a, b, -, -, hlink⟩
    · rw [hlink]
    · rw [hlink] at he ⊢
      rcases g.connect_cases a b env with ⟨e', env', hconnect, -⟩ | ⟨c, env', -, hconnect, -⟩
      · rw [hconnect]
      · rw [hconnect] at he
        cases he
  case frozen =>
    intro hfrozen g' env' hlater
    obtain ⟨htopology, hstate, hjournal⟩ := hlater.frozen hfrozen
    exact ⟨htopology, hjournal, fun cls name settings => add_frozen hstate cls name settings env',
      fun a b => connect_frozen hstate a b env',
      fun giver output taker input => link_frozen hstate giver output taker input env'⟩

/-- The pipeline refuses a second component of a name, a port twice and a name that nobody
has. Its first round freezes it, and when it is ended after that it still has its topology and
refuses a new component. -/
theorem pipeline_frozen :
    let output : PortHandle := ⟨pipeline.1.id, 0, 0, .output⟩
    let x := (Request.runOnce 5).perform pipeline.1 pipeline.2
    let y := Request.teardown.perform x.graph x.env
    (pipeline.1.add Standard.discardClass "middle" .nil pipeline.2).result =
        .error (.duplicateName "middle") ∧
      (pipeline.1.add Standard.discardClass "middle" .nil pipeline.2).graph = pipeline.1 ∧
      (pipeline.1.connect output output pipeline.2).result =
        .error (.directionMismatch .output .output) ∧
      (pipeline.1.connect output output pipeline.2).graph = pipeline.1 ∧
      (pipeline.1.link "giver" "out" "nobody" "in" pipeline.2).result =
        .error (.unknownPort "nobody" "in") ∧
      (pipeline.1.link "giver" "out" "nobody" "in" pipeline.2).graph = pipeline.1 ∧
      x.graph.state ≠ .configuring ∧ x.graph.topology = pipeline.1.topology ∧
      x.graph.Later x.env y.graph y.env ∧ y.graph.topology = x.graph.topology ∧
      y.graph.add Standard.discardClass "late" .nil y.env =
        ⟨.error (.frozen "pipeline"), y.graph, y.env.note (.adding "pipeline" "sink.discard" "late")⟩ :=
  let x := (Request.runOnce 5).perform pipeline.1 pipeline.2
  have h := pipeline.1.refused_unchanged_and_frozen pipeline.2
  have hstate : x.graph.state ≠ .configuring := by decide
  have hlater := x.graph.refused_unchanged_and_frozen x.env
  have hended := hlater.2.2.2.2 hstate _ _ (.call .here .teardown)
  ⟨rfl, h.1 _ _ _ _ rfl, rfl, h.2.1 _ _ _ rfl, rfl, h.2.2.1 _ _ _ _ _ rfl, hstate,
    h.2.2.2.1 (.runOnce 5) hstate, .call .here .teardown, hended.1, hended.2.2.1 _ _ _⟩

end PullGraph
