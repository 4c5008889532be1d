import PullGraph.Run.Loop
import PullGraph.Proofs.Pulling

/-! # Courses of a run

Rounds and runs are taken apart into what they are made of: pull steps, closing the graph,
and things that leave the graph alone. `Graph.Advance` lists these, and `Graph.Course` is a
sequence of them; where patience runs out, it breaks off in the middle of a pull step. Every
round and every run of a running graph is a course. So to see that a run keeps something is
to look at a pull step and at the close.
-/
namespace PullGraph

open Relation

variable {κ ω : Type}

/-- How far the components of a graph have come. -/
def GraphState.stage : GraphState → RunState
  | .configuring => .initialized
  | .running => .running
  | .finished | .cancelled | .faulted | .tornDown => .finalized

/-- Whether a graph has come to its end. -/
def GraphState.isOver : GraphState → Bool
  | .configuring | .running => false
  | .finished | .cancelled | .faulted | .tornDown => true

theorem GraphState.stage_eq_finalized_iff {state : GraphState} :
    state.stage = .finalized ↔ state.isOver = true := by
  cases state <;> simp [stage, isOver]

/-- The states in which a run can end. -/
def GraphState.EndsRun (state : GraphState) : Prop :=
  state = .finished ∨ state = .cancelled ∨ state = .faulted

theorem GraphState.cases_isOver (state : GraphState) :
    state = .configuring ∨ state = .running ∨ state.isOver = true := by
  cases state <;> simp [isOver]

theorem GraphState.EndsRun.isOver {state : GraphState} (h : state.EndsRun) :
    state.isOver = true := by
  rcases h with rfl | rfl | rfl <;> rfl

namespace Graph

/-! ## Pull steps -/

/-- No component has its inner state taken out. -/
def InPlace (g : Graph κ ω) : Prop := ∀ c ∈ g.components, c.behavior.isSome = true

theorem inPlace_iff {g : Graph κ ω} : g.InPlace ↔ ∀ b ∈ g.presence, b = true := by
  simp [InPlace, presence]

/-- An arrival can be handed to a component: it is a sink whose inner state is in place. -/
def CanTake (g : Graph κ ω) (id : ComponentId) : Prop :=
  ∃ c k, g.components[id]? = some c ∧ c.behavior = some k ∧ c.kind = .sink

/-- A graph that passed the check and waits for its next pull step. -/
structure Steady (g : Graph κ ω) : Prop where
  wired : g.topology.Wired
  formed : g.topology.WellFormed
  inPlace : g.InPlace

namespace Steady

variable {g g' : Graph κ ω} {s : ComponentId}

theorem of_eq (h : g.Steady) (htopology : g'.topology = g.topology)
    (hpresence : g'.presence = g.presence) : g'.Steady where
  wired := htopology ▸ h.wired
  formed := htopology ▸ h.formed
  inPlace := inPlace_iff.mpr (hpresence ▸ inPlace_iff.mp h.inPlace)

theorem canTake (h : g.Steady) (hs : s ∈ g.sinks) : g.CanTake s := by
  obtain ⟨c, hc, hk⟩ := g.topology_kind?_eq_some.mp (h.wired.mem_sinks.mp hs)
  obtain ⟨k, hb⟩ := Option.isSome_iff_exists.mp (h.inPlace c (List.mem_of_getElem? hc))
  exact ⟨c, k, hc, hb, hk⟩

theorem ready (h : g.Steady) (hs : s ∈ g.sinks) : g.Ready s where
  wired := h.wired
  formed := h.formed
  serves := ⟨s, h.wired.mem_sinks.mp hs, .refl⟩
  upstream := by
    intro a ha
    obtain ⟨b, hab, -⟩ := TransGen.head'_iff.mp ha
    obtain ⟨kind, hkind, -⟩ := h.wired.kind_of_feeds hab
    obtain ⟨c, hc, -⟩ := g.topology_kind?_eq_some.mp hkind
    simp [presence, hc, h.inPlace c (List.mem_of_getElem? hc)]

end Steady

theorem count_leads (g : Graph κ ω) (env : Env ω) (arrival : Option Message) :
    g.Leads env (g.count arrival) env := by
  cases arrival with
  | none => exact .refl g env
  | some m => exact ⟨rfl, rfl, rfl, rfl, rfl, .refl _⟩

@[simp] theorem count_presence (g : Graph κ ω) (arrival : Option Message) :
    (g.count arrival).presence = g.presence := by
  cases arrival <;> rfl

theorem turnAway_passes {ready : Prop} (g : Graph κ ω) (id : ComponentId) (cause : Fault)
    (env : Env ω) (h : ¬ ready) :
    g.Passes ready env true (g.turnAway id cause env).graph (g.turnAway id cause env).env :=
  ⟨.of_journal (.record env.journal rfl), fun _ => rfl, fun hr => absurd hr h⟩

section Steps

variable [Behavior κ ω]

/-- A sink that is handed an arrival performs what it does with it. That gives it its new
inner state, and the fault that is written down. -/
theorem deliver_sink {g : Graph κ ω} {id : ComponentId} {c : Component κ} {k : κ}
    (hc : g.components[id]? = some c) (hb : c.behavior = some k) (hk : c.kind = .sink)
    (index : Nat) (arrival : Option Message) (env : Env ω) :
    ∃ (port : String) (result : Except Fault Unit) (k' : κ) (env' : Env ω),
      env.perform (receive port arrival k) = ((result, k'), env') ∧
      (g.deliver id index arrival env).graph =
        (g.count arrival).modify id (fun c => { c with behavior := some k' }) ∧
      (g.deliver id index arrival env).env =
        env'.record (.call g.id id (arrivalCall port arrival (Component.faultOf result))) := by
  refine ⟨((c.ports[index]?).map (·.name)).getD "", _, _, _, rfl, ?_, ?_⟩
  · simp only [deliver, hc, hb, hk, if_true]
    split <;> rfl
  · simp only [deliver, hc, hb, hk, if_true]
    split <;> rfl

theorem deliver_eq_turnAway {g : Graph κ ω} {id : ComponentId} (h : ¬ g.CanTake id) (index : Nat)
    (arrival : Option Message) (env : Env ω) :
    ∃ cause, g.deliver id index arrival env = g.turnAway id cause env := by
  unfold deliver
  split
  · exact ⟨_, rfl⟩
  · rename_i c hc
    split
    · exact ⟨_, rfl⟩
    · rename_i k hb
      rw [if_neg fun hk => h ⟨c, k, hc, hb, hk⟩]
      exact ⟨_, rfl⟩

/-- An arrival for which there is no sink is refused, and that stands in the journal. -/
theorem deliver_refused {g : Graph κ ω} {id : ComponentId} (h : ¬ g.CanTake id) (index : Nat)
    (arrival : Option Message) (env : Env ω) : ∃ fault,
      (g.deliver id index arrival env).env.journal.refusals g.id =
        env.journal.refusals g.id ++ [fault] := by
  obtain ⟨cause, hdeliver⟩ := deliver_eq_turnAway h index arrival env
  refine ⟨cause, ?_⟩
  rw [hdeliver]
  simp [turnAway, Journal.refusals, Event.refusal?]

/-- Handing an arrival to a sink that is there and can take it meets nothing to refuse. -/
theorem deliver_passes (g : Graph κ ω) (id : ComponentId) (index : Nat)
    (arrival : Option Message) (env : Env ω) :
    g.Passes (g.CanTake id) env true (g.deliver id index arrival env).graph
      (g.deliver id index arrival env).env := by
  by_cases hready : g.CanTake id
  · obtain ⟨c, k, hc, hb, hk⟩ := hready
    obtain ⟨port, result, k', env', hperform, hgraph, henv⟩ :=
      deliver_sink hc hb hk index arrival env
    have hjournal : env'.journal = env.journal := by
      rw [← env.perform_journal (receive port arrival k), hperform]
    have hcall : (Event.call g.id id
        (arrivalCall port arrival (Component.faultOf result))).isWork = true := by
      cases arrival <;> rfl
    rw [hgraph, henv]
    refine ⟨?leads, fun _ => ?restored, fun _ => ?safe⟩
    case leads =>
      have hmodify : (g.count arrival).Leads env
          ((g.count arrival).modify id fun c => { c with behavior := some k' }) env := by
        refine .modify _ env id (fun c => ?_) (fun c => ?_) <;> rfl
      refine (count_leads g env arrival).trans (hmodify.trans (.of_journal ?_))
      rw [Env.record_journal, hjournal]
      exact .record env.journal hcall
    case restored =>
      have hpresent : g.presence[id]? = some true := by simp [presence, hc, hb]
      have hset : ((g.count arrival).modify id fun c => { c with behavior := some k' }).presence =
          (g.count arrival).presence.set id true := by
        refine map_modify_eq_set (fun c => ?_) (g.count arrival).components id
        rfl
      rw [hset, count_presence]
      exact set_eq_self hpresent
    case safe => simp [hjournal, Journal.refusals, Event.refusal?]
  · obtain ⟨cause, hdeliver⟩ := deliver_eq_turnAway hready index arrival env
    rw [hdeliver]
    exact turnAway_passes g id cause env hready

/-- What becomes of a pull that came to its end meets nothing to refuse in a steady graph. -/
theorem afterPull_passes {id : ComponentId} (index : Nat) (pulled : Except Fault Pull)
    (t : Turn κ ω) :
    t.graph.Passes (t.graph.Steady ∧ id ∈ t.graph.sinks) t.env true
      (afterPull id index pulled t).graph (afterPull id index pulled t).env := by
  have hdeliver := fun arrival => (t.graph.deliver_passes id index arrival t.env).mono
    fun h : t.graph.Steady ∧ id ∈ t.graph.sinks => h.1.canTake h.2
  unfold afterPull
  split
  · exact .refl t.graph t.env
  · exact .refl t.graph t.env
  · exact .refl t.graph t.env
  · exact hdeliver _
  · exact hdeliver _

/-- **A pull step** leaves alone what a run leaves alone and puts back what it takes out,
and in a steady graph it meets nothing to refuse. -/
theorem sinkStep_passes {g : Graph κ ω} {id index : Nat} {p : Port}
    (hp : g.portAt? id index = some p) (hd : p.direction = .input) (patience : Nat) (env : Env ω) :
    g.Passes (g.Steady ∧ id ∈ g.sinks) env (g.sinkStep patience id index env).result.isSome
      (g.sinkStep patience id index env).graph (g.sinkStep patience id index env).env := by
  have hpull : g.Passes (g.Steady ∧ id ∈ g.sinks) env
      (pullInput (converse patience) id index ⟨g, env, none⟩).returned
      (pullInput (converse patience) id index ⟨g, env, none⟩).turn.graph
      (pullInput (converse patience) id index ⟨g, env, none⟩).turn.env :=
    (pullInput_passes (t := ⟨g, env, none⟩) (passesReady_pullLaw.converse patience) hp hd).mono
      fun h => h.1.ready h.2
  unfold sinkStep
  generalize pullInput (converse patience) id index ⟨g, env, none⟩ = x at hpull ⊢
  obtain ⟨result, t⟩ := x
  cases result with
  | none => exact hpull
  | some pulled =>
    refine hpull.trans (afterPull_passes index pulled t) fun ⟨hsteady, hsink⟩ => ?_
    refine ⟨hsteady.of_eq hpull.leads.topology (hpull.restored rfl), ?_⟩
    rw [hpull.leads.sinks_eq]
    exact hsink

/-! ## Courses -/

/-- A pull step is due: the graph is running, and there is an input port of a sink. -/
structure CanStep (g : Graph κ ω) (id index : Nat) : Prop where
  running : g.state = .running
  sink : id ∈ g.sinks
  port : ∃ p, g.portAt? id index = some p ∧ p.direction = .input

omit [Behavior κ ω] in
theorem CanStep.of_leads {g g' : Graph κ ω} {env env' : Env ω} {id index : Nat}
    (h : g.CanStep id index) (hleads : g.Leads env g' env') : g'.CanStep id index where
  running := hleads.state.trans h.running
  sink := hleads.sinks_eq ▸ h.sink
  port := by
    obtain ⟨p, hp, hd⟩ := h.port
    obtain ⟨p', hp', hsocket⟩ := portAt?_of_topology_eq hleads.topology hp
    exact ⟨p', hp', (congrArg Socket.direction hsocket).trans hd⟩

theorem CanStep.passes {g : Graph κ ω} {id index : Nat} (h : g.CanStep id index) (patience : Nat)
    (env : Env ω) :
    g.Passes g.Steady env (g.sinkStep patience id index env).result.isSome
      (g.sinkStep patience id index env).graph (g.sinkStep patience id index env).env := by
  obtain ⟨p, hp, hd⟩ := h.port
  exact (sinkStep_passes hp hd patience env).mono fun hsteady => ⟨hsteady, h.sink⟩

/-- What rounds and runs are made of. -/
inductive Advance : Graph κ ω → Env ω → Graph κ ω → Env ω → Prop where
  /-- Something is done that neither changes the graph nor is about it; at most, the policy
  of the graph says how long to wait. -/
  | remark {g : Graph κ ω} {env env' : Env ω}
      (about : env'.journal.about g.id = env.journal.about g.id)
      (waits : env'.shared = env.shared ∨
        ∃ idle, env'.shared = (g.policy.delay idle env.shared).shared) : Advance g env g env'
  | tally {g : Graph κ ω} {env : Env ω} (stats : Stats) : Advance g env { g with stats := stats } env
  | pull {g : Graph κ ω} {env : Env ω} {id index : Nat} (patience : Nat)
      (due : g.CanStep id index)
      (returned : (g.sinkStep patience id index env).result.isSome = true) :
      Advance g env (g.sinkStep patience id index env).graph
        (g.sinkStep patience id index env).env
  | close {g : Graph κ ω} {env : Env ω} {state : GraphState} (running : g.state = .running)
      (ends : state.EndsRun) : Advance g env (g.close state env).graph (g.close state env).env

/-- A sequence of advances. One that does not come to its end breaks off between two of
them or in the middle of a pull step. -/
inductive Course : Graph κ ω → Env ω → Bool → Graph κ ω → Env ω → Prop where
  | done (g : Graph κ ω) (env : Env ω) : Course g env true g env
  | pause {g : Graph κ ω} {env : Env ω} (running : g.state = .running) : Course g env false g env
  | broken {g : Graph κ ω} {env : Env ω} {id index : Nat} (patience : Nat)
      (due : g.CanStep id index) (returned : (g.sinkStep patience id index env).result = none) :
      Course g env false (g.sinkStep patience id index env).graph
        (g.sinkStep patience id index env).env
  | next {g g' g'' : Graph κ ω} {env env' env'' : Env ω} {returned : Bool}
      (step : Advance g env g' env') (rest : Course g' env' returned g'' env'') :
      Course g env returned g'' env''

theorem Course.trans {g g' g'' : Graph κ ω} {env env' env'' : Env ω} {returned : Bool}
    (h : Course g env true g' env') (h' : Course g' env' returned g'' env'') :
    Course g env returned g'' env'' := by
  -- the index has to be a variable for the induction
  generalize hb : true = b at h
  induction h with
  | done => exact h'
  | pause => cases hb
  | broken => cases hb
  | next hstep _ ih => exact .next hstep (ih h' hb)

theorem Advance.note (g : Graph κ ω) (env : Env ω) (notice : Notice) :
    Advance g env g (env.note notice) :=
  .remark (env.about_note notice g.id) (.inl rfl)

theorem Advance.course {g g' : Graph κ ω} {env env' : Env ω} (h : Advance g env g' env') :
    Course g env true g' env' :=
  .next h (.done g' env')

/-! ## Rounds and runs are courses -/

omit [Behavior κ ω] in
/-- A step is due for every port that a sink of a running graph still waits for. -/
theorem canStep_of_mem_pending {g : Graph κ ω} {id index : Nat} (hrunning : g.state = .running)
    (hsink : id ∈ g.sinks) (h : index ∈ (g.components[id]?.map (·.pending)).getD []) :
    g.CanStep id index := by
  cases hc : g.components[id]? with
  | none => simp [hc] at h
  | some c =>
    simp only [hc, Option.map_some, Option.getD_some, Component.pending, List.mem_filterMap,
      Prod.exists] at h
    obtain ⟨p, i, hmem, hpending⟩ := h
    obtain ⟨⟨hd, -⟩, rfl⟩ : (p.direction = .input ∧ p.atEnd = false) ∧ i = index := by
      simpa using hpending
    have hp : c.ports[i]? = some p := List.mem_zipIdx_iff_getElem?.mp hmem
    exact ⟨hrunning, hsink, p, by rw [portAt?, hc]; exact hp, hd⟩

theorem sweepPorts_course (patience : Nat) {id : ComponentId} (indices : List Nat)
    (progressed : Bool) {g : Graph κ ω} (env : Env ω) (h : ∀ index ∈ indices, g.CanStep id index) :
    Course g env (sweepPorts patience id indices progressed g env).result.isSome
        (sweepPorts patience id indices progressed g env).graph
        (sweepPorts patience id indices progressed g env).env ∧
      g.Leads env (sweepPorts patience id indices progressed g env).graph
        (sweepPorts patience id indices progressed g env).env := by
  induction indices generalizing progressed g env with
  | nil => exact ⟨.done g env, .refl g env⟩
  | cons index indices ih =>
    obtain ⟨hdue, hrest⟩ := List.forall_mem_cons.mp h
    have hpasses := hdue.passes patience env
    have hpull : (g.sinkStep patience id index env).result.isSome = true → Advance g env
        (g.sinkStep patience id index env).graph (g.sinkStep patience id index env).env :=
      .pull patience hdue
    have hbroken : (g.sinkStep patience id index env).result = none → Course g env false
        (g.sinkStep patience id index env).graph (g.sinkStep patience id index env).env :=
      .broken patience hdue
    unfold sweepPorts
    split
    · exact ⟨.done g env, .refl g env⟩
    · generalize g.sinkStep patience id index env = x at hpasses hpull hbroken ⊢
      obtain ⟨result, g', env'⟩ := x
      match result with
      | none => exact ⟨hbroken rfl, hpasses.leads⟩
      | some (.error failure) => exact ⟨(hpull rfl).course, hpasses.leads⟩
      | some (.ok moved) =>
        obtain ⟨hcourse, hleads⟩ := ih (progressed || moved) env'
          fun index hindex => (hrest index hindex).of_leads hpasses.leads
        exact ⟨.next (hpull rfl) hcourse, hpasses.leads.trans hleads⟩

theorem sweepSinks_course (patience : Nat) (ids : List ComponentId) (progressed : Bool)
    {g : Graph κ ω} (env : Env ω) (hrunning : g.state = .running) (h : ∀ id ∈ ids, id ∈ g.sinks) :
    Course g env (sweepSinks patience ids progressed g env).result.isSome
        (sweepSinks patience ids progressed g env).graph
        (sweepSinks patience ids progressed g env).env ∧
      g.Leads env (sweepSinks patience ids progressed g env).graph
        (sweepSinks patience ids progressed g env).env := by
  induction ids generalizing progressed g env with
  | nil => exact ⟨.done g env, .refl g env⟩
  | cons id ids ih =>
    obtain ⟨hsink, hrest⟩ := List.forall_mem_cons.mp h
    have hports := sweepPorts_course patience ((g.components[id]?.map (·.pending)).getD [])
      progressed env fun index hindex => canStep_of_mem_pending hrunning hsink hindex
    simp only [sweepSinks]
    generalize sweepPorts patience id _ progressed g env = x at hports ⊢
    obtain ⟨result, g', env'⟩ := x
    match result with
    | none => exact hports
    | some .cancelled => exact hports
    | some (.failed failure) => exact hports
    | some (.completed progressed') =>
      obtain ⟨hcourse, hleads⟩ := hports
      obtain ⟨hcourse', hleads'⟩ := ih progressed' env' (hleads.state.trans hrunning)
        fun id hid => hleads.sinks_eq ▸ hrest id hid
      exact ⟨hcourse.trans hcourse', hleads.trans hleads'⟩

theorem conclude_course {g : Graph κ ω} (hrunning : g.state = .running) {state : GraphState}
    (hends : state.EndsRun) (outcome : Outcome) (notice : Notice) (env : Env ω) :
    Course g env true (g.conclude state outcome notice env).graph
      (g.conclude state outcome notice env).env := by
  have hclose : Course g env true (g.close state env).graph ((g.close state env).env.note notice) :=
    .next (.close hrunning hends) (Advance.note _ _ notice).course
  simp only [conclude]
  split <;> exact hclose

theorem conclude_eq_ok {g : Graph κ ω} {state : GraphState} {outcome outcome' : Outcome}
    {notice : Notice} {env : Env ω}
    (h : (g.conclude state outcome notice env).result = .ok outcome') : outcome' = outcome := by
  simp only [conclude] at h
  split at h
  · exact (Except.ok.inj h).symm
  · cases h

theorem conclude_state (g : Graph κ ω) (state : GraphState) (outcome : Outcome) (notice : Notice)
    (env : Env ω) : (g.conclude state outcome notice env).graph.state = state := by
  simp only [conclude]
  split <;> rfl

theorem fail_course {g : Graph κ ω} (hrunning : g.state = .running) (failure : Failure)
    (env : Env ω) : Course g env true (g.fail failure env).graph (g.fail failure env).env :=
  .next (.note g env _) (Advance.close hrunning (.inr (.inr rfl))).course

/-- A round after which no stream is left ends the run. -/
theorem endRound_finish {g : Graph κ ω} {env : Env ω}
    (huncancelled : env.isCancelled g.id = false) (hdemand : g.hasDemand = false)
    (progressed : Bool) : g.endRound progressed env = g.finish env := by
  simp [endRound, huncancelled, hdemand]

/-- What follows the steps of a round: the run ends, or it goes on and the idle rounds are
counted. -/
inductive SweptTo (g : Graph κ ω) (env : Env ω) :
    Sweep → After κ ω (Except RunError Outcome) → Prop where
  | cancelled {sweep : Sweep} (unfailed : ∀ f, sweep ≠ .failed f) :
      SweptTo g env sweep (g.cancelRun env)
  | finished {progressed : Bool} (uncancelled : env.isCancelled g.id = false)
      (demand : g.hasDemand = false) : SweptTo g env (.completed progressed) (g.finish env)
  | failed (f : Failure) : SweptTo g env (.failed f) (g.fail f env)
  | goesOn (progressed : Bool) (uncancelled : env.isCancelled g.id = false)
      (demand : g.hasDemand = true) :
      SweptTo g env (.completed progressed) ⟨.ok (if progressed then .progress else .again),
        { g with stats := { g.stats with
          idleRounds := if progressed then 0 else g.stats.idleRounds + 1 } },
        env.note (.roundComplete g.name g.stats.rounds progressed)⟩

theorem afterSweep_sweptTo (g : Graph κ ω) (sweep : Sweep) (env : Env ω) :
    g.SweptTo env sweep (g.afterSweep sweep env) := by
  cases sweep with
  | cancelled => exact .cancelled (by simp)
  | failed f => exact .failed f
  | completed progressed =>
    change g.SweptTo env _ (g.endRound progressed env)
    unfold endRound
    split
    · exact .cancelled (by simp)
    · rename_i huncancelled
      split
      · rename_i hdemand
        exact .finished (by simpa using huncancelled) (by simpa using hdemand)
      · rename_i hdemand
        exact .goesOn progressed (by simpa using huncancelled) (by simpa using hdemand)

theorem afterSweep_course {g : Graph κ ω} (hrunning : g.state = .running) (sweep : Sweep)
    (env : Env ω) :
    Course g env true (g.afterSweep sweep env).graph (g.afterSweep sweep env).env := by
  have hswept := g.afterSweep_sweptTo sweep env
  generalize g.afterSweep sweep env = x at hswept ⊢
  cases hswept with
  | cancelled => exact conclude_course hrunning (.inr (.inl rfl)) _ _ env
  | finished => exact conclude_course hrunning (.inl rfl) _ _ env
  | failed f => exact fail_course hrunning f env
  | goesOn => exact .next (.note g env _) (Advance.tally _).course

/-- A round after which the run goes on leaves the graph running. -/
theorem afterSweep_state {g : Graph κ ω} {sweep : Sweep} {env : Env ω} {outcome : Outcome}
    (h : (g.afterSweep sweep env).result = .ok outcome)
    (houtcome : outcome = .progress ∨ outcome = .again) :
    (g.afterSweep sweep env).graph.state = g.state := by
  have hswept := g.afterSweep_sweptTo sweep env
  generalize g.afterSweep sweep env = x at h hswept ⊢
  cases hswept with
  | cancelled | finished =>
    obtain rfl := conclude_eq_ok h
    simp at houtcome
  | failed => cases h
  | goesOn => rfl

omit [Behavior κ ω] in
theorem ensureRunning_running {g : Graph κ ω} (hrunning : g.state = .running) (env : Env ω) :
    g.ensureRunning env = ⟨.ok (), g, env⟩ := by
  simp only [ensureRunning, hrunning]

/-- A round of a running graph makes its steps. If it gets through them, it is still running
and goes on. -/
theorem runOnce_running {g : Graph κ ω} (hrunning : g.state = .running) (patience : Nat)
    (env : Env ω) : ∃ g' env',
      (g.runOnce patience env = ⟨none, g', env'⟩ ∧ Course g env false g' env') ∨
      (∃ sweep, g.runOnce patience env = (g'.afterSweep sweep env').map some ∧
        Course g env true g' env' ∧ g'.state = .running) := by
  have hsweep := sweepSinks_course patience g.sinks false (g := g.nextRound) env hrunning
    fun _ hid => hid
  have htally : Advance g env g.nextRound env := .tally _
  have hensure := ensureRunning_running hrunning env
  simp only [runOnce, hensure]
  generalize sweepSinks patience g.sinks false g.nextRound env = x at hsweep ⊢
  obtain ⟨result, g', env'⟩ := x
  obtain ⟨hcourse, hleads⟩ := hsweep
  refine ⟨g', env', ?_⟩
  cases result with
  | none => exact .inl ⟨rfl, .next htally hcourse⟩
  | some sweep => exact .inr ⟨sweep, rfl, .next htally hcourse, hleads.state.trans hrunning⟩

/-- **A round of a running graph** is a course. -/
theorem runOnce_course {g : Graph κ ω} (hrunning : g.state = .running) (patience : Nat)
    (env : Env ω) :
    Course g env (g.runOnce patience env).result.isSome (g.runOnce patience env).graph
      (g.runOnce patience env).env := by
  obtain ⟨g', env', ⟨heq, hcourse⟩ | ⟨sweep, heq, hcourse, hrunning'⟩⟩ :=
    runOnce_running hrunning patience env
  · rw [heq]
    exact hcourse
  · rw [heq]
    exact hcourse.trans (afterSweep_course hrunning' sweep env')

/-- A round after which the run goes on leaves the graph running. -/
theorem runOnce_state {g : Graph κ ω} (hrunning : g.state = .running) {patience : Nat}
    {env : Env ω} {outcome : Outcome} (h : (g.runOnce patience env).result = some (.ok outcome))
    (houtcome : outcome = .progress ∨ outcome = .again) :
    (g.runOnce patience env).graph.state = .running := by
  obtain ⟨g', env', ⟨heq, -⟩ | ⟨sweep, heq, -, hrunning'⟩⟩ := runOnce_running hrunning patience env
  · rw [heq] at h
    cases h
  · rw [heq] at h ⊢
    exact (afterSweep_state (Option.some.inj h) houtcome).trans hrunning'

omit [Behavior κ ω] in
theorem backOff_about (g : Graph κ ω) (env : Env ω) (graph : GraphId) :
    (g.backOff env).2.journal.about graph = env.journal.about graph := by
  have hjournal := env.perform_journal (g.policy.delay g.stats.idleRounds)
  unfold backOff
  generalize env.perform (g.policy.delay g.stats.idleRounds) = x at hjournal ⊢
  obtain ⟨delay, env'⟩ := x
  cases delay with
  | none => exact congrArg (·.about graph) hjournal
  | some d => exact (env'.about_note _ graph).trans (congrArg (·.about graph) hjournal)

omit [Behavior κ ω] in
theorem backOff_shared (g : Graph κ ω) (env : Env ω) :
    ∃ idle, (g.backOff env).2.shared = (g.policy.delay idle env.shared).shared := by
  refine ⟨g.stats.idleRounds, ?_⟩
  have hshared : (env.perform (g.policy.delay g.stats.idleRounds)).2.shared =
      (g.policy.delay g.stats.idleRounds env.shared).shared := rfl
  unfold backOff
  generalize env.perform (g.policy.delay g.stats.idleRounds) = x at hshared ⊢
  obtain ⟨delay, env'⟩ := x
  cases delay <;> exact hshared

theorem stall_course {g : Graph κ ω} (hrunning : g.state = .running) (env : Env ω) :
    Course g env true (g.stall env).graph (g.stall env).env :=
  .next (.note g env _) (Advance.close hrunning (.inr (.inr rfl))).course

/-- **A run of a running graph** is a course. The induction is on the number of rounds. -/
theorem run_course {g : Graph κ ω} (hrunning : g.state = .running) (patience rounds : Nat)
    (env : Env ω) :
    Course g env (run patience rounds g env).result.isSome (run patience rounds g env).graph
      (run patience rounds g env).env := by
  induction rounds generalizing g env with
  | zero => exact .pause hrunning
  | succ rounds ih =>
    have hround := runOnce_course hrunning patience env
    have hstate : ∀ outcome, (g.runOnce patience env).result = some (.ok outcome) →
        outcome = .progress ∨ outcome = .again → (g.runOnce patience env).graph.state = .running :=
      fun outcome => runOnce_state hrunning
    unfold run
    generalize g.runOnce patience env = x at hround hstate ⊢
    obtain ⟨result, g', env'⟩ := x
    match result with
    | none => exact hround
    | some (.error e) => exact hround
    | some (.ok .finished) => exact hround
    | some (.ok .cancelled) => exact hround
    | some (.ok .progress) => exact hround.trans (ih (hstate _ rfl (.inl rfl)) env')
    | some (.ok .again) =>
      -- nothing moved: the policy says how long to wait, or gives up
      have hrunning' := hstate _ rfl (.inr rfl)
      have hwait := Advance.remark (g'.backOff_about env' g'.id) (.inr (g'.backOff_shared env'))
      refine hround.trans (.next hwait ?_)
      dsimp only
      generalize g'.backOff env' = y
      obtain ⟨goesOn, env''⟩ := y
      cases goesOn with
      | true => exact ih hrunning' env''
      | false => exact stall_course hrunning' env''

/-! ## How a run begins -/

omit [Behavior κ ω] in
/-- What starting a graph that passes the check does to it. -/
theorem start_spec {g : Graph κ ω} (hvalid : g.validate = .ok ()) (env : Env ω) : ∃ g₁ notice,
    g.start env = ⟨.ok (), g₁, env.note notice⟩ ∧ g₁.topology = g.topology ∧
      g₁.components = g.components.map Component.start ∧ g₁.state = .running := by
  let g₁ : Graph κ ω := { g with
    state := .running
    stats := { g.stats with started := true }
    components := g.components.map Component.start }
  have hstart : g.start env =
      ⟨.ok (), g₁, env.note (.started g₁.name g₁.components.length g₁.connections.length)⟩ := by
    simp only [start, hvalid]
    rfl
  have htopology : g₁.topology = g.topology := by simp [topology, g₁, Function.comp_def]
  exact ⟨g₁, _, hstart, htopology, rfl, rfl⟩

omit [Behavior κ ω] in
theorem start_topology {g : Graph κ ω} (hvalid : g.validate = .ok ()) (env : Env ω) :
    (g.start env).graph.topology = g.topology := by
  obtain ⟨g₁, notice, hstart, htopology, -, -⟩ := start_spec hvalid env
  rw [hstart]
  exact htopology

omit [Behavior κ ω] in
theorem start_state {g : Graph κ ω} (hvalid : g.validate = .ok ()) (env : Env ω) :
    (g.start env).graph.state = .running := by
  obtain ⟨g₁, notice, hstart, -, -, hrunning⟩ := start_spec hvalid env
  rw [hstart]
  exact hrunning

/-- A graph that fails the check stays as it is. -/
theorem runOnce_invalid {g : Graph κ ω} (hopen : g.state = .configuring) {e : ValidationError}
    (he : g.validate = .error e) (patience : Nat) (env : Env ω) :
    g.runOnce patience env = ⟨some (.error (.validation e)), g, env⟩ := by
  simp only [runOnce, ensureRunning, hopen, start, he]

/-- A graph that passes the check starts, and then makes its first round. -/
theorem runOnce_start {g : Graph κ ω} (hopen : g.state = .configuring)
    (hvalid : g.validate = .ok ()) (patience : Nat) (env : Env ω) :
    g.runOnce patience env = (g.start env).graph.runOnce patience (g.start env).env := by
  obtain ⟨g₁, notice, hstart, -, -, hrunning⟩ := start_spec hvalid env
  simp only [runOnce, ensureRunning, hopen, hstart, hrunning]

/-- A graph that is over does not run. -/
theorem runOnce_over {g : Graph κ ω} (hover : g.state.isOver = true) (patience : Nat)
    (env : Env ω) : g.runOnce patience env = ⟨some (.error (.notRunnable g.state)), g, env⟩ := by
  have hensure : g.ensureRunning env = ⟨.error (.notRunnable g.state), g, env⟩ := by
    unfold ensureRunning
    cases hstate : g.state with
    | configuring | running =>
      rw [hstate] at hover
      cases hover
    | finished | cancelled | faulted | tornDown => rfl
  simp only [runOnce, hensure]

theorem run_invalid {g : Graph κ ω} (hopen : g.state = .configuring) {e : ValidationError}
    (he : g.validate = .error e) (patience rounds : Nat) (env : Env ω) :
    run patience (rounds + 1) g env = ⟨some (.error (.validation e)), g, env⟩ := by
  simp only [run, runOnce_invalid hopen he]

theorem run_start {g : Graph κ ω} (hopen : g.state = .configuring) (hvalid : g.validate = .ok ())
    (patience rounds : Nat) (env : Env ω) :
    run patience (rounds + 1) g env =
      run patience (rounds + 1) (g.start env).graph (g.start env).env := by
  simp only [run, runOnce_start hopen hvalid]

theorem run_over {g : Graph κ ω} (hover : g.state.isOver = true) (patience rounds : Nat)
    (env : Env ω) :
    run patience (rounds + 1) g env = ⟨some (.error (.notRunnable g.state)), g, env⟩ := by
  simp only [run, runOnce_over hover]

/-- What a round or a run can be: nothing, the course of a running graph, or that of a graph
which passed the check and started. -/
inductive Ran (g : Graph κ ω) (env : Env ω) : Bool → Graph κ ω → Env ω → Prop where
  | unchanged (returned : Bool) : Ran g env returned g env
  | resumed {returned : Bool} {g' : Graph κ ω} {env' : Env ω} (running : g.state = .running)
      (course : Course g env returned g' env') : Ran g env returned g' env'
  | started {returned : Bool} {g' : Graph κ ω} {env' : Env ω} (configuring : g.state = .configuring)
      (valid : g.validate = .ok ())
      (course : Course (g.start env).graph (g.start env).env returned g' env') :
      Ran g env returned g' env'

theorem runOnce_ran (g : Graph κ ω) (patience : Nat) (env : Env ω) :
    Ran g env (g.runOnce patience env).result.isSome (g.runOnce patience env).graph
      (g.runOnce patience env).env := by
  rcases g.state.cases_isOver with hopen | hrunning | hover
  · cases hvalid : g.validate with
    | error e =>
      rw [runOnce_invalid hopen hvalid]
      exact .unchanged true
    | ok u =>
      rw [runOnce_start hopen hvalid]
      exact .started hopen hvalid (runOnce_course (start_state hvalid env) patience _)
  · exact .resumed hrunning (runOnce_course hrunning patience env)
  · rw [runOnce_over hover]
    exact .unchanged true

theorem run_ran (g : Graph κ ω) (patience rounds : Nat) (env : Env ω) :
    Ran g env (run patience rounds g env).result.isSome (run patience rounds g env).graph
      (run patience rounds g env).env := by
  cases rounds with
  | zero => exact .unchanged false
  | succ rounds =>
    rcases g.state.cases_isOver with hopen | hrunning | hover
    · cases hvalid : g.validate with
      | error e =>
        rw [run_invalid hopen hvalid]
        exact .unchanged true
      | ok u =>
        rw [run_start hopen hvalid]
        exact .started hopen hvalid (run_course (start_state hvalid env) patience (rounds + 1) _)
    · exact .resumed hrunning (run_course hrunning patience (rounds + 1) env)
    · rw [run_over hover]
      exact .unchanged true

theorem Advance.policy {g g' : Graph κ ω} {env env' : Env ω}
    (h : Advance g env g' env') : g'.policy = g.policy := by
  cases h with
  | remark about => rfl
  | tally stats => rfl
  | pull patience due returned => exact (due.passes patience env).leads.policy
  | close running ends => rfl

theorem Course.policy {g g' : Graph κ ω} {env env' : Env ω} {returned : Bool}
    (h : Course g env returned g' env') : g'.policy = g.policy := by
  induction h with
  | done g env => rfl
  | pause running => rfl
  | broken patience due returned => exact (due.passes patience _).leads.policy
  | next step rest ih => exact ih.trans step.policy

theorem Ran.policy {g g' : Graph κ ω} {env env' : Env ω} {returned : Bool}
    (h : Ran g env returned g' env') : g'.policy = g.policy := by
  cases h with
  | unchanged => rfl
  | resumed running course => exact course.policy
  | started configuring valid course =>
    refine course.policy.trans ?_
    unfold Graph.start
    split <;> rfl

end Steps
end Graph
end PullGraph
