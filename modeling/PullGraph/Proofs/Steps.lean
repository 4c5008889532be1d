import PullGraph.Proofs.Latches
import PullGraph.Proofs.Lifetime

/-! # The steps of a round, the rounds of a run

A round is a sequence of pull steps, each made in the state in which the one before it left
the graph; it ends when no step is left, when the run has been cancelled, or with a step
that fails. `Graph.steps` lists the steps, and `Sweeps` ties them together. A run is a
sequence of rounds, which `Graph.rounds` lists. Every round of a run starts where a
lifetime could have brought the graph.
-/
namespace PullGraph

variable {κ ω : Type}

/-- The pull step for the port at `index` of a sink, and where things stand when it is made. -/
structure Step (κ ω : Type) where
  graph : Graph κ ω
  env : Env ω
  sink : ComponentId
  index : Nat

/-- A step that a round makes. -/
structure Step.Due (s : Step κ ω) : Prop where
  running : s.graph.state = .running
  sink : s.sink ∈ s.graph.sinks
  port : ∃ p, s.graph.portAt? s.sink s.index = some p ∧ p.direction = .input ∧ p.atEnd = false
  uncancelled : s.env.isCancelled s.graph.id = false

theorem Step.Due.canStep {s : Step κ ω} (h : s.Due) : s.graph.CanStep s.sink s.index := by
  obtain ⟨p, hp, hd, -⟩ := h.port
  exact ⟨h.running, h.sink, p, hp, hd⟩

theorem Component.mem_pending {c : Component κ} {index : Nat} :
    index ∈ c.pending ↔
      ∃ p, c.ports[index]? = some p ∧ p.direction = .input ∧ p.atEnd = false := by
  simp only [pending, List.mem_filterMap, Prod.exists]
  constructor
  · rintro ⟨p, i, hmem, hpending⟩
    obtain ⟨hp, rfl⟩ : (p.direction = .input ∧ p.atEnd = false) ∧ i = index := by
      simpa using hpending
    exact ⟨p, List.mem_zipIdx_iff_getElem?.mp hmem, hp⟩
  · rintro ⟨p, hget, hd, hend⟩
    exact ⟨p, index, List.mem_zipIdx_iff_getElem?.mpr hget, by simp [hd, hend]⟩

theorem Component.nodup_pending (c : Component κ) : c.pending.Nodup := by
  refine List.pairwise_filterMap.mpr ((pairwise_zipIdx c.ports).imp ?_)
  rintro ⟨p, i⟩ ⟨q, j⟩ hlt i' hi' j' hj' rfl
  obtain ⟨-, rfl⟩ : (p.direction = .input ∧ p.atEnd = false) ∧ i = i' := by simpa using hi'
  obtain ⟨-, rfl⟩ : (q.direction = .input ∧ q.atEnd = false) ∧ j = i := by simpa using hj'
  exact Nat.lt_irrefl _ hlt

section Steps

variable [Behavior κ ω]

namespace Step

/-- What the step leaves behind. -/
def after (s : Step κ ω) (patience : Nat) : After κ ω (Option (Except Failure Bool)) :=
  s.graph.sinkStep patience s.sink s.index s.env

/-- What the journal says of the graph after the step and did not say before. -/
def events (s : Step κ ω) (patience : Nat) : List Event :=
  ((s.after patience).env.journal.about s.graph.id).drop (s.env.journal.about s.graph.id).length

theorem events_eq {s : Step κ ω} {patience : Nat} {es : List Event}
    (h : (s.after patience).env.journal.about s.graph.id =
      s.env.journal.about s.graph.id ++ es) : s.events patience = es := by
  rw [events, h, List.drop_left]

theorem Due.passes {s : Step κ ω} (h : s.Due) (patience : Nat) :
    s.graph.Passes s.graph.Steady s.env (s.after patience).result.isSome (s.after patience).graph
      (s.after patience).env :=
  h.canStep.passes patience s.env

theorem Due.latches {s : Step κ ω} (h : s.Due) (patience : Nat) :
    s.graph.Latches (s.graph.topology.Within s.sink s.index) (s.after patience).graph := by
  obtain ⟨p, hp, hd, -⟩ := h.port
  exact Graph.sinkStep_latches hp hd patience s.env

end Step

/-! ## What a step does -/

/-- The turn in which a step begins. -/
def Step.turn (s : Step κ ω) : Turn κ ω := ⟨s.graph, s.env, none⟩

/-- What becomes of a step when the sink has said what it says to an arrival. -/
def sinkVerdict (id : ComponentId) : Except Fault Unit → Except Failure Bool
  | .ok () => .ok true
  | .error cause => .error ⟨id, cause⟩

/-- A sink that can take an arrival is handed it, and what it says to that is the outcome. -/
theorem Graph.deliver_eq {g : Graph κ ω} {id index : Nat} {c : Component κ} {k : κ} {p : Port}
    (hc : g.components[id]? = some c) (hb : c.behavior = some k) (hk : c.kind = .sink)
    (hp : g.portAt? id index = some p) (arrival : Option Message) (env : Env ω) :
    g.deliver id index arrival env =
      ⟨sinkVerdict id (env.perform (receive p.name arrival k)).1.1,
        (g.count arrival).modify id (fun c =>
          { c with behavior := some (env.perform (receive p.name arrival k)).1.2 }),
        (env.perform (receive p.name arrival k)).2.record (.call g.id id (arrivalCall p.name arrival
          (Component.faultOf (env.perform (receive p.name arrival k)).1.1)))⟩ := by
  have hname : c.ports[index]? = some p := by
    rw [portAt?, hc] at hp
    exact hp
  simp only [deliver, hc, hb, hk, hname, if_true, Option.map_some, Option.getD_some]
  generalize env.perform (receive p.name arrival k) = y
  obtain ⟨⟨result, k'⟩, env'⟩ := y
  cases result <;> rfl

omit [Behavior κ ω] in
theorem Graph.count_modify_behaviors (g : Graph κ ω) (arrival : Option Message) (id : ComponentId)
    (k : κ) :
    ((g.count arrival).modify id fun c => { c with behavior := some k }).behaviors =
      g.behaviors.set id (some k) := by
  have hset : ((g.count arrival).modify id fun c => { c with behavior := some k }).behaviors =
      (g.count arrival).behaviors.set id (some k) := by
    refine map_modify_eq_set (fun c => ?_) (g.count arrival).components id
    rfl
  rw [hset]
  cases arrival <;> rfl

namespace Step

/-- What the pull of a step comes to. -/
def pulled (s : Step κ ω) (patience : Nat) : Answer κ ω (Except Fault Pull) :=
  pullInput (converse patience) s.sink s.index s.turn

theorem after_eq (s : Step κ ω) (patience : Nat) : s.after patience =
    match s.pulled patience with
    | ⟨none, t⟩ => ⟨none, t.graph, t.env⟩
    | ⟨some r, t⟩ => (Graph.afterPull s.sink s.index r t).map some := rfl

/-- The pull of a step that comes to its end does so too. -/
theorem pulled_of_returned {s : Step κ ω} {patience : Nat}
    (h : (s.after patience).result.isSome = true) : ∃ r t, s.pulled patience = ⟨some r, t⟩ := by
  rw [s.after_eq] at h
  generalize s.pulled patience = x at h ⊢
  obtain ⟨result, t⟩ := x
  cases result with
  | none => cases h
  | some r => exact ⟨r, t, rfl⟩

theorem Due.pulled_passes {s : Step κ ω} (h : s.Due) (patience : Nat) :
    s.turn.Passes (s.graph.Ready s.sink) (s.pulled patience).returned (s.pulled patience).turn := by
  obtain ⟨p, hp, hd, -⟩ := h.port
  exact pullInput_passes (t := s.turn) (passesReady_pullLaw.converse patience) hp hd

/-- **The pull of a step of a steady graph** asks the component at the other end of the
connection. -/
theorem Due.exchange {s : Step κ ω} (h : s.Due) (hsteady : s.graph.Steady) (patience : Nat) :
    ∃ p out conn c k, s.turn.Asks s.sink s.index p conn c out k ∧ p.direction = .input ∧
      ((∃ t', produce (converse patience) c.kind conn.output.component out.name k
            (s.turn.ask conn.output.component out.name) = ⟨none, t'⟩ ∧
          s.pulled patience = ⟨none, t'⟩) ∨
        ∃ answer k' t', produce (converse patience) c.kind conn.output.component out.name k
            (s.turn.ask conn.output.component out.name) = ⟨some (answer, k'), t'⟩ ∧
          s.pulled patience = ⟨some (handOn answer),
            t'.settle s.sink s.index conn.output.component out.name answer k'⟩) := by
  obtain ⟨p, hp, hd, hopen⟩ := h.port
  have hpasses := h.pulled_passes patience
  have hpulled : Pulled (converse patience) s.sink s.index s.turn (s.pulled patience) :=
    pullInput_pulled (converse patience) s.sink s.index s.turn
  generalize s.pulled patience = x at hpasses hpulled ⊢
  cases hpulled with
  | atEnd hp' hended =>
    obtain rfl := Option.some.inj (hp.symm.trans hp')
    exact nomatch hopen.symm.trans hended
  | refused fault =>
    have hsafe := hpasses.safe (hsteady.ready h.sink)
    have hrefused := s.turn.refuse_refusals fault
    rw [hrefused] at hsafe
    exact absurd hsafe (by simp)
  | @unanswered p' out conn c k t' hasks hproduced =>
    obtain rfl := Option.some.inj (hp.symm.trans hasks.port)
    exact ⟨p, out, conn, c, k, hasks, hd, .inl ⟨t', hproduced, rfl⟩⟩
  | @answered p' out conn c k k' t' answer hasks hproduced =>
    obtain rfl := Option.some.inj (hp.symm.trans hasks.port)
    exact ⟨p, out, conn, c, k, hasks, hd, .inr ⟨answer, k', t', hproduced, rfl⟩⟩

end Step

/-- What a sink is handed of what was pulled: nothing, a message, or the end of a stream. -/
def Pull.arrival? : Pull → Option (Option Message)
  | .message m => some (some m)
  | .again => none
  | .endOfStream => some none

/-- What a step comes to whose pull ended in turn `t` and brought `r`. -/
inductive Step.Outcome (s : Step κ ω) (r : Except Fault Pull) (t : Turn κ ω) :
    After κ ω (Option (Except Failure Bool)) → Prop where
  /-- A component failed on the way. -/
  | failed {f : Failure} (failure : t.failure = some f) :
      Outcome s r t ⟨some (.error f), t.graph, t.env⟩
  | idle (failure : t.failure = none) (pulled : r = .ok .again) :
      Outcome s r t ⟨some (.ok false), t.graph, t.env⟩
  /-- The sink is handed what came. -/
  | delivered {pull : Pull} {arrival : Option Message} {c : Component κ} {k : κ} {p : Port}
      (failure : t.failure = none) (pulled : r = .ok pull) (arrives : pull.arrival? = some arrival)
      (component : t.graph.components[s.sink]? = some c) (inPlace : c.behavior = some k)
      (kind : c.kind = .sink) (port : t.graph.portAt? s.sink s.index = some p) :
      Outcome s r t ((t.graph.deliver s.sink s.index arrival t.env).map some)

/-- **What a step of a steady graph can come to.** -/
theorem Step.Due.outcome {s : Step κ ω} (h : s.Due) (hsteady : s.graph.Steady) {patience : Nat}
    {r : Except Fault Pull} {t : Turn κ ω} (hpulled : s.pulled patience = ⟨some r, t⟩) :
    s.Outcome r t (s.after patience) := by
  have hpasses := h.pulled_passes patience
  rw [hpulled] at hpasses
  have hsink : s.sink ∈ t.graph.sinks := by
    rw [hpasses.leads.sinks_eq]
    exact h.sink
  obtain ⟨c, k, hc, hb, hk⟩ :=
    (hsteady.of_eq hpasses.leads.topology (hpasses.restored rfl)).canTake hsink
  obtain ⟨p, hp, -, -⟩ := h.port
  obtain ⟨p', hp', -⟩ := Graph.portAt?_of_topology_eq hpasses.leads.topology hp
  simp only [s.after_eq, hpulled, Graph.afterPull]
  cases hfailure : t.failure with
  | some f => exact .failed hfailure
  | none =>
    match r with
    | .ok .again => exact .idle hfailure rfl
    | .ok (.message m) => exact .delivered hfailure rfl rfl hc hb hk hp'
    | .ok .endOfStream => exact .delivered hfailure rfl rfl hc hb hk hp'
    | .error cause =>
      -- in a steady graph nothing is refused, so a component answered so and is to blame
      obtain ⟨_, out, conn, c, _, -, -, ⟨t', -, heq⟩ | ⟨answer, k', t', -, heq⟩⟩ :=
        h.exchange hsteady patience
      · exact nomatch (congrArg Answer.result hpulled).symm.trans (congrArg Answer.result heq)
      · rw [hpulled] at heq
        obtain ⟨hresult, rfl⟩ := Answer.mk.inj heq
        rw [t'.settle_failure] at hfailure
        match answer with
        | .ok pulled => cases hresult
        | .error cause => exact nomatch (Option.or_eq_none_iff.mp hfailure).2

namespace Graph

/-- The steps that are made for some input ports of a sink. -/
def portSteps (patience : Nat) (id : ComponentId) :
    List Nat → Graph κ ω → Env ω → List (Step κ ω)
  | [], _, _ => []
  | index :: indices, g, env =>
    if env.isCancelled g.id then []
    else ⟨g, env, id, index⟩ :: match g.sinkStep patience id index env with
      | ⟨some (.ok _), g, env⟩ => portSteps patience id indices g env
      | _ => []

/-- The steps that are made for some sinks. -/
def sinkSteps (patience : Nat) :
    List ComponentId → (progressed : Bool) → Graph κ ω → Env ω → List (Step κ ω)
  | [], _, _, _ => []
  | id :: ids, progressed, g, env =>
    let pending := (g.components[id]?.map (·.pending)).getD []
    portSteps patience id pending g env ++
      match sweepPorts patience id pending progressed g env with
      | ⟨some (.completed progressed), g, env⟩ => sinkSteps patience ids progressed g env
      | _ => []

/-- The steps that a round makes. -/
def steps (g : Graph κ ω) (patience : Nat) (env : Env ω) : List (Step κ ω) :=
  match g.ensureRunning env with
  | ⟨.ok (), g, env⟩ => sinkSteps patience g.sinks false g.nextRound env
  | _ => []

/-- The rounds that a run makes, each as the state in which it starts. -/
def rounds (patience : Nat) : Nat → Graph κ ω → Env ω → List (Graph κ ω × Env ω)
  | 0, _, _ => []
  | n + 1, g, env =>
    (g, env) :: match g.runOnce patience env with
      | ⟨some (.ok .progress), g, env⟩ => rounds patience n g env
      | ⟨some (.ok .again), g, env⟩ =>
        match g.backOff env with
        | (true, env) => rounds patience n g env
        | (false, _) => []
      | _ => []

end Graph

/-- Steps that follow each other, and what comes of them. All but the last go well; there is
no result if the last one ran out of patience. -/
inductive Sweeps (patience : Nat) :
    List (Step κ ω) → Graph κ ω → Env ω → Option Sweep → Graph κ ω → Env ω → Prop where
  | completed (progressed : Bool) (g : Graph κ ω) (env : Env ω) :
      Sweeps patience [] g env (some (.completed progressed)) g env
  | cancelled {g : Graph κ ω} {env : Env ω} (cancelled : env.isCancelled g.id = true) :
      Sweeps patience [] g env (some .cancelled) g env
  | failed (s : Step κ ω) (due : s.Due) {f : Failure}
      (result : (s.after patience).result = some (.error f)) :
      Sweeps patience [s] s.graph s.env (some (.failed f)) (s.after patience).graph
        (s.after patience).env
  | broken (s : Step κ ω) (due : s.Due) (result : (s.after patience).result = none) :
      Sweeps patience [s] s.graph s.env none (s.after patience).graph (s.after patience).env
  | step (s : Step κ ω) (due : s.Due) {moved : Bool}
      (result : (s.after patience).result = some (.ok moved)) {steps : List (Step κ ω)}
      {sweep : Option Sweep} {g' : Graph κ ω} {env' : Env ω}
      (rest : Sweeps patience steps (s.after patience).graph (s.after patience).env sweep g' env') :
      Sweeps patience (s :: steps) s.graph s.env sweep g' env'

namespace Sweeps

variable {patience : Nat} {steps steps' : List (Step κ ω)} {g g' g'' : Graph κ ω}
  {env env' env'' : Env ω} {sweep : Option Sweep}

theorem append {progressed : Bool} (h : Sweeps patience steps g env (some (.completed progressed)) g' env')
    (h' : Sweeps patience steps' g' env' sweep g'' env'') :
    Sweeps patience (steps ++ steps') g env sweep g'' env'' := by
  -- the outcome has to be a variable for the induction
  generalize hsweep : some (Sweep.completed progressed) = first at h
  induction h with
  | completed => exact h'
  | cancelled => cases hsweep
  | failed => cases hsweep
  | broken => cases hsweep
  | step s hdue hresult _ ih => exact .step s hdue hresult (ih h' hsweep)

theorem due (h : Sweeps patience steps g env sweep g' env') : ∀ s ∈ steps, s.Due := by
  induction h with
  | completed => exact fun s hs => nomatch hs
  | cancelled => exact fun s hs => nomatch hs
  | failed s hdue => exact List.forall_mem_singleton.mpr hdue
  | broken s hdue => exact List.forall_mem_singleton.mpr hdue
  | step s hdue _ _ ih => exact List.forall_mem_cons.mpr ⟨hdue, ih⟩

theorem leads (h : Sweeps patience steps g env sweep g' env') : g.Leads env g' env' := by
  induction h with
  | completed => exact .refl _ _
  | cancelled => exact .refl _ _
  | failed s hdue => exact (hdue.passes patience).leads
  | broken s hdue => exact (hdue.passes patience).leads
  | step s hdue _ _ ih => exact (hdue.passes patience).leads.trans ih

/-- A step that fails is what the steps come to. -/
theorem failed_of_mem (h : Sweeps patience steps g env sweep g' env') {s : Step κ ω}
    (hs : s ∈ steps) {f : Failure} (hf : (s.after patience).result = some (.error f)) :
    sweep = some (.failed f) ∧ g' = (s.after patience).graph ∧ env' = (s.after patience).env := by
  induction h with
  | completed => cases hs
  | cancelled => cases hs
  | failed s' _ hresult =>
    obtain rfl := List.mem_singleton.mp hs
    rw [hf] at hresult
    obtain rfl := Except.error.inj (Option.some.inj hresult)
    exact ⟨rfl, rfl, rfl⟩
  | broken s' _ hresult =>
    obtain rfl := List.mem_singleton.mp hs
    exact nomatch hf.symm.trans hresult
  | step s' _ hresult _ ih =>
    rcases List.mem_cons.mp hs with rfl | hs
    · exact nomatch hf.symm.trans hresult
    · exact ih hs

/-- Steps that come to a failure end with one that fails. -/
theorem exists_failed (h : Sweeps patience steps g env sweep g' env') {f : Failure}
    (hf : sweep = some (.failed f)) :
    ∃ s ∈ steps, (s.after patience).result = some (.error f) := by
  induction h with
  | completed => cases hf
  | cancelled => cases hf
  | failed s _ hresult =>
    obtain rfl := Sweep.failed.inj (Option.some.inj hf)
    exact ⟨s, List.mem_singleton_self s, hresult⟩
  | broken => cases hf
  | step s _ _ _ ih =>
    obtain ⟨s', hs', hresult⟩ := ih hf
    exact ⟨s', List.mem_cons_of_mem s hs', hresult⟩

/-- What steps that go well keep holds when each of them is made, and after all of them unless
the last one did not go well. -/
theorem invariant {P : Graph κ ω → Env ω → Prop} (h : Sweeps patience steps g env sweep g' env')
    (hstep : ∀ s : Step κ ω, s.Due → P s.graph s.env → ∀ moved,
      (s.after patience).result = some (.ok moved) →
      P (s.after patience).graph (s.after patience).env) (hP : P g env) :
    (∀ s ∈ steps, P s.graph s.env) ∧
      (sweep = none ∨ (∃ f, sweep = some (.failed f)) ∨ P g' env') := by
  induction h with
  | completed => exact ⟨fun s hs => (nomatch hs), .inr (.inr hP)⟩
  | cancelled => exact ⟨fun s hs => (nomatch hs), .inr (.inr hP)⟩
  | failed s => exact ⟨List.forall_mem_singleton.mpr hP, .inr (.inl ⟨_, rfl⟩)⟩
  | broken s => exact ⟨List.forall_mem_singleton.mpr hP, .inl rfl⟩
  | step s hdue hresult _ ih =>
    obtain ⟨hsteps, hend⟩ := ih (hstep s hdue hP _ hresult)
    exact ⟨List.forall_mem_cons.mpr ⟨hP, hsteps⟩, hend⟩

end Sweeps

namespace Graph

/-! ## Rounds are made of their steps -/

/-- The port at `index` of component `id` is an input port whose stream has not ended. -/
def Awaits (g : Graph κ ω) (id index : Nat) : Prop :=
  ∃ p, g.portAt? id index = some p ∧ p.direction = .input ∧ p.atEnd = false

omit [Behavior κ ω] in
theorem awaits_of_mem_pending {g : Graph κ ω} {id index : Nat}
    (h : index ∈ (g.components[id]?.map (·.pending)).getD []) : g.Awaits id index := by
  cases hc : g.components[id]? with
  | none => simp [hc] at h
  | some c =>
    rw [hc] at h
    obtain ⟨p, hp, hawaits⟩ := Component.mem_pending.mp h
    exact ⟨p, by rw [portAt?, hc]; exact hp, hawaits⟩

omit [Behavior κ ω] in
theorem nodup_pending (g : Graph κ ω) (id : ComponentId) :
    ((g.components[id]?.map (·.pending)).getD []).Nodup := by
  cases g.components[id]? with
  | none => exact List.nodup_nil
  | some c => exact c.nodup_pending

/-- A step for one port of a sink leaves its other ports waiting. -/
theorem Awaits.after {s : Step κ ω} (hs : s.Due) (hw : s.graph.topology.Wired) {index : Nat}
    (hne : index ≠ s.index) (h : s.graph.Awaits s.sink index) (patience : Nat) :
    (s.after patience).graph.Awaits s.sink index := by
  obtain ⟨p, hp, hawaits⟩ := h
  refine ⟨p, (hs.latches patience).portAt?_eq hp ?_, hawaits⟩
  rintro (hsink | ⟨-, heq⟩)
  · exact hsink hw (hw.mem_sinks.mp hs.sink)
  · exact hne heq

theorem sweepPorts_sweeps (patience : Nat) {id : ComponentId} {indices : List Nat}
    (hnodup : indices.Nodup) (progressed : Bool) {g : Graph κ ω} (env : Env ω)
    (hw : g.topology.Wired) (hrunning : g.state = .running) (hsink : id ∈ g.sinks)
    (hawaits : ∀ index ∈ indices, g.Awaits id index) :
    Sweeps patience (portSteps patience id indices g env) g env
      (sweepPorts patience id indices progressed g env).result
      (sweepPorts patience id indices progressed g env).graph
      (sweepPorts patience id indices progressed g env).env := by
  induction indices generalizing progressed g env with
  | nil => exact .completed progressed g env
  | cons index indices ih =>
    obtain ⟨hfresh, hnodup⟩ := List.nodup_cons.mp hnodup
    obtain ⟨hhead, hrest⟩ := List.forall_mem_cons.mp hawaits
    unfold sweepPorts portSteps
    cases hcancelled : env.isCancelled g.id with
    | true => exact .cancelled hcancelled
    | false =>
      rw [if_neg (by decide), if_neg (by decide)]
      have hdue : Step.Due ⟨g, env, id, index⟩ := ⟨hrunning, hsink, hhead, hcancelled⟩
      have hleads := (hdue.passes patience).leads
      have hafter : ∀ i ∈ indices, (g.sinkStep patience id index env).graph.Awaits id i :=
        by
        intro i hi
        refine Awaits.after hdue hw ?_ (hrest i hi) patience
        rintro rfl
        exact hfresh hi
      have hfailed := @Sweeps.failed _ _ _ patience ⟨g, env, id, index⟩ hdue
      have hbroken := @Sweeps.broken _ _ _ patience ⟨g, env, id, index⟩ hdue
      have hstep := @Sweeps.step _ _ _ patience ⟨g, env, id, index⟩ hdue
      simp only [Step.after] at hleads hfailed hbroken hstep
      generalize g.sinkStep patience id index env = x at hleads hafter hfailed hbroken hstep ⊢
      obtain ⟨result, g', env'⟩ := x
      rcases result with _ | f | moved
      · exact hbroken rfl
      · exact hfailed rfl
      · refine hstep rfl (ih hnodup (progressed || moved) env' ?_ ?_ ?_ hafter)
        · exact hleads.topology ▸ hw
        · exact hleads.state.trans hrunning
        · exact hleads.sinks_eq ▸ hsink

theorem sweepSinks_sweeps (patience : Nat) {ids : List ComponentId} (progressed : Bool)
    {g : Graph κ ω} (env : Env ω) (hw : g.topology.Wired) (hrunning : g.state = .running)
    (hsinks : ∀ id ∈ ids, id ∈ g.sinks) :
    Sweeps patience (sinkSteps patience ids progressed g env) g env
      (sweepSinks patience ids progressed g env).result
      (sweepSinks patience ids progressed g env).graph
      (sweepSinks patience ids progressed g env).env := by
  induction ids generalizing progressed g env with
  | nil => exact .completed progressed g env
  | cons id ids ih =>
    obtain ⟨hsink, hrest⟩ := List.forall_mem_cons.mp hsinks
    have hports := sweepPorts_sweeps patience (g.nodup_pending id) progressed env hw hrunning hsink
      fun index hindex => awaits_of_mem_pending hindex
    simp only [sweepSinks, sinkSteps]
    generalize sweepPorts patience id _ progressed g env = x at hports ⊢
    obtain ⟨result, g', env'⟩ := x
    rcases result with _ | progressed' | _ | failure
    · simpa using hports
    · have hleads := hports.leads
      refine hports.append (ih progressed' env' ?_ ?_ fun id hid => ?_)
      · exact hleads.topology ▸ hw
      · exact hleads.state.trans hrunning
      · exact hleads.sinks_eq ▸ hrest id hid
    · simpa using hports
    · simpa using hports

/-- **A round of a running graph** makes its steps, and then does what they call for. -/
theorem runOnce_sweeps {g : Graph κ ω} (hw : g.topology.Wired) (hrunning : g.state = .running)
    (patience : Nat) (env : Env ω) : ∃ sweep g' env',
      Sweeps patience (g.steps patience env) g.nextRound env sweep g' env' ∧
      g.runOnce patience env = match sweep with
        | none => ⟨none, g', env'⟩
        | some sweep => (g'.afterSweep sweep env').map some := by
  have hsweeps := sweepSinks_sweeps patience false (g := g.nextRound) env hw hrunning
    fun (id : ComponentId) (hid : id ∈ g.sinks) => hid
  have hensure := ensureRunning_running hrunning env
  refine ⟨_, _, _, by simpa only [steps, hensure] using hsweeps, ?_⟩
  simp only [runOnce, hensure]
  generalize sweepSinks patience g.sinks false g.nextRound env = x
  obtain ⟨result, g', env'⟩ := x
  cases result <;> rfl

/-- How a graph gets under way when a round is asked for: it is running, or it passes the
check and starts. -/
inductive Begins (g : Graph κ ω) (env : Env ω) : Graph κ ω → Env ω → Prop where
  | running (running : g.state = .running) : Begins g env g env
  | started (configuring : g.state = .configuring) (valid : g.validate = .ok ()) :
      Begins g env (g.start env).graph (g.start env).env

namespace Begins

variable {g g₁ : Graph κ ω} {env env₁ : Env ω}

omit [Behavior κ ω] in
theorem state_eq (h : g.Begins env g₁ env₁) : g₁.state = .running := by
  cases h with
  | running hrunning => exact hrunning
  | started _ hvalid => exact start_state hvalid env

omit [Behavior κ ω] in
theorem topology_eq (h : g.Begins env g₁ env₁) : g₁.topology = g.topology := by
  cases h with
  | running => rfl
  | started _ hvalid => exact start_topology hvalid env

omit [Behavior κ ω] in
theorem sane (h : g.Begins env g₁ env₁) (hsane : g.Sane env) : g₁.Sane env₁ := by
  cases h with
  | running => exact hsane
  | started hopen hvalid => exact (hsane.start hopen hvalid).1

omit [Behavior κ ω] in
theorem ensureRunning_eq (h : g.Begins env g₁ env₁) : g.ensureRunning env = ⟨.ok (), g₁, env₁⟩ := by
  cases h with
  | running hrunning => exact ensureRunning_running hrunning env
  | started hopen hvalid =>
    obtain ⟨g₁, notice, hstart, -⟩ := start_spec hvalid env
    simp only [ensureRunning, hopen, hstart]

omit [Behavior κ ω] in
/-- Getting under way leaves alone what components hold. -/
theorem behaviors_eq (h : g.Begins env g₁ env₁) :
    g₁.behaviors = g.behaviors ∧ g₁.policy = g.policy ∧ env₁.shared = env.shared := by
  cases h with
  | running => exact ⟨rfl, rfl, rfl⟩
  | started _ hvalid =>
    have hstart : ∀ c : Component κ, c.start.behavior = c.behavior := by
      intro c
      unfold Component.start
      split <;> rfl
    unfold start
    rw [hvalid]
    refine ⟨?_, rfl, rfl⟩
    simp [behaviors, Function.comp_def, hstart]

/-- The steps of the round are made once the graph is under way. -/
theorem steps_eq (h : g.Begins env g₁ env₁) (patience : Nat) :
    g.steps patience env = g₁.steps patience env₁ := by
  have hnext : g₁.Begins env₁ g₁ env₁ := .running h.state_eq
  simp only [steps, h.ensureRunning_eq, hnext.ensureRunning_eq]

theorem runOnce_eq (h : g.Begins env g₁ env₁) (patience : Nat) :
    g.runOnce patience env = g₁.runOnce patience env₁ := by
  have hnext : g₁.Begins env₁ g₁ env₁ := .running h.state_eq
  simp only [runOnce, h.ensureRunning_eq, hnext.ensureRunning_eq]

end Begins

/-- A graph gets under way, or a round is refused and makes no steps. -/
theorem begins_or_refused (g : Graph κ ω) (patience : Nat) (env : Env ω) :
    (∃ g₁ env₁, g.Begins env g₁ env₁) ∨
      g.steps patience env = [] ∧ ∃ e, g.runOnce patience env = ⟨some (.error e), g, env⟩ ∧
        ∀ x, e ≠ .execution x := by
  rcases g.state.cases_isOver with hopen | hrunning | hover
  · cases hvalid : g.validate with
    | ok u => exact .inl ⟨_, _, .started hopen hvalid⟩
    | error e =>
      refine .inr ⟨?_, _, runOnce_invalid hopen hvalid patience env, fun x => by simp⟩
      simp only [steps, ensureRunning, hopen, start, hvalid]
  · exact .inl ⟨_, _, .running hrunning⟩
  · refine .inr ⟨?_, _, runOnce_over hover patience env, fun x => by simp⟩
    unfold steps ensureRunning
    cases hstate : g.state with
    | configuring | running =>
      rw [hstate] at hover
      cases hover
    | finished | cancelled | faulted | tornDown => rfl

/-- A round after which the run goes on leaves the graph running. -/
theorem running_of_goesOn {g : Graph κ ω} {patience : Nat} {env : Env ω} {outcome : Outcome}
    (h : (g.runOnce patience env).result = some (.ok outcome))
    (houtcome : outcome = .progress ∨ outcome = .again) :
    (g.runOnce patience env).graph.state = .running := by
  rcases g.begins_or_refused patience env with ⟨g₁, env₁, hbegins⟩ | ⟨-, e, hrefused, -⟩
  · rw [hbegins.runOnce_eq] at h ⊢
    exact runOnce_state hbegins.state_eq h houtcome
  · rw [hrefused] at h
    cases h

/-- A round that makes its steps fails with one of them, or because components failed to
finalize. -/
theorem afterSweep_error {g : Graph κ ω} {sweep : Sweep} {env : Env ω} {e : RunError}
    (h : (g.afterSweep sweep env).result = .error e) :
    (∃ x, e = .execution x ∧ sweep = .failed ⟨x.id, x.cause⟩) ∨ ∃ x, e = .finalize x := by
  have hconclude : ∀ state outcome notice,
      (g.conclude state outcome notice env).result = .error e → ∃ x, e = .finalize x := by
    intro state outcome notice hresult
    simp only [conclude] at hresult
    split at hresult
    · cases hresult
    · exact ⟨_, (Except.error.inj hresult).symm⟩
  have hswept := g.afterSweep_sweptTo sweep env
  generalize g.afterSweep sweep env = x at h hswept
  cases hswept with
  | cancelled | finished => exact .inr (hconclude _ _ _ h)
  | failed f => exact .inl ⟨_, (Except.error.inj h).symm, rfl⟩
  | goesOn => cases h

/-- A component is to blame for a round only if a step says so. -/
theorem afterSweep_execution {g : Graph κ ω} {sweep : Sweep} {env : Env ω} {e : ExecutionError}
    (h : (g.afterSweep sweep env).result = .error (.execution e)) :
    sweep = .failed ⟨e.id, e.cause⟩ := by
  rcases afterSweep_error h with ⟨x, hx, hsweep⟩ | ⟨x, hx⟩
  · obtain rfl := RunError.execution.inj hx
    exact hsweep
  · cases hx

/-- A round after which the run goes on has made all its steps, and then only keeps count. -/
theorem afterSweep_goesOn {g : Graph κ ω} {sweep : Sweep} {env : Env ω} {outcome : Outcome}
    (h : (g.afterSweep sweep env).result = .ok outcome)
    (houtcome : outcome = .progress ∨ outcome = .again) : ∃ progressed stats notice,
      sweep = .completed progressed ∧
      (g.afterSweep sweep env).graph = { g with stats := stats } ∧
      (g.afterSweep sweep env).env = env.note notice := by
  have hswept := g.afterSweep_sweptTo sweep env
  generalize g.afterSweep sweep env = x at h hswept ⊢
  cases hswept with
  | cancelled | finished =>
    obtain rfl := conclude_eq_ok h
    simp at houtcome
  | failed => cases h
  | goesOn progressed => exact ⟨progressed, _, _, rfl, rfl, rfl⟩

section Rounds

variable {g : Graph κ ω} {env : Env ω} {patience : Nat}

omit [Behavior κ ω] in
theorem Sane.tally (h : g.Sane env) (stats : Stats) :
    ({ g with stats := stats } : Graph κ ω).Sane env :=
  ⟨⟨h.wired, h.formed, h.stages, h.ledger⟩, h.inPlace⟩

theorem Sane.step {s : Step κ ω} (h : s.graph.Sane s.env) (hdue : s.Due)
    (hreturned : (s.after patience).result.isSome = true) :
    (s.after patience).graph.Sane (s.after patience).env := by
  have hpasses := hdue.passes patience
  rw [hreturned] at hpasses
  exact h.of_passes hdue.running hpasses

/-- Steps that come to their end leave a sane graph behind. -/
theorem Sane.sweeps (h : g.Sane env) {steps : List (Step κ ω)} {sweep : Sweep} {g' : Graph κ ω}
    {env' : Env ω} (hsweeps : Sweeps patience steps g env (some sweep) g' env') : g'.Sane env' := by
  generalize hsome : some sweep = last at hsweeps
  induction hsweeps with
  | completed => exact h
  | cancelled => exact h
  | failed s hdue hresult => exact h.step hdue (by rw [hresult]; rfl)
  | broken => cases hsome
  | step s hdue hresult _ ih => exact ih (h.step hdue (by rw [hresult]; rfl)) hsome

/-- What the steps of a round keep, as long as they go well. -/
structure StepInvariant (patience : Nat) (P : Graph κ ω → Env ω → Prop) : Prop where
  step : ∀ s : Step κ ω, s.Due → P s.graph s.env → ∀ moved,
    (s.after patience).result = some (.ok moved) → P (s.after patience).graph (s.after patience).env
  count : ∀ g env stats, P g env → P { g with stats := stats } env
  note : ∀ g env notice, P g env → P g (env.note notice)

namespace StepInvariant

variable {P : Graph κ ω → Env ω → Prop}

/-- What steps keep holds whenever a step of a round is made. -/
theorem steps (hP : StepInvariant patience P) (h : g.Sane env)
    (hbegin : ∀ g₁ env₁, g.Begins env g₁ env₁ → P g₁ env₁) :
    ∀ s ∈ g.steps patience env, P s.graph s.env := by
  rcases g.begins_or_refused patience env with ⟨g₁, env₁, hbegins⟩ | ⟨hnone, -⟩
  · obtain ⟨sweep, g', env', hsweeps, -⟩ :=
      runOnce_sweeps (hbegins.sane h).wired hbegins.state_eq patience env₁
    rw [hbegins.steps_eq]
    exact (hsweeps.invariant hP.step (hP.count _ _ _ (hbegin g₁ env₁ hbegins))).1
  · rw [hnone]
    exact fun s hs => nomatch hs

/-- What steps keep holds after a round after which the run goes on. -/
theorem goesOn (hP : StepInvariant patience P) (h : g.Sane env)
    (hbegin : ∀ g₁ env₁, g.Begins env g₁ env₁ → P g₁ env₁) {outcome : Outcome}
    (houtcome : (g.runOnce patience env).result = some (.ok outcome))
    (hgoesOn : outcome = .progress ∨ outcome = .again) :
    P (g.runOnce patience env).graph (g.runOnce patience env).env := by
  rcases g.begins_or_refused patience env with ⟨g₁, env₁, hbegins⟩ | ⟨-, e', hrefused, -⟩
  · obtain ⟨sweep, g', env', hsweeps, hround⟩ :=
      runOnce_sweeps (hbegins.sane h).wired hbegins.state_eq patience env₁
    rw [hbegins.runOnce_eq, hround] at houtcome ⊢
    obtain ⟨-, hend⟩ := hsweeps.invariant hP.step (hP.count _ _ _ (hbegin g₁ env₁ hbegins))
    cases sweep with
    | none => cases houtcome
    | some sweep =>
      obtain ⟨progressed, stats, notice, rfl, hgraph, henv⟩ :=
        afterSweep_goesOn (Option.some.inj houtcome) hgoesOn
      have hlast : P g' env' := by simpa using hend
      refine cast ?_ (hP.note _ _ notice (hP.count _ _ stats hlast))
      rw [← hgraph, ← henv]
      rfl
  · rw [hrefused] at houtcome
    cases houtcome

end StepInvariant

/-- All is in order whenever a step is made. -/
theorem sane_stepInvariant (patience : Nat) (T : Topology κ) :
    StepInvariant patience fun (g : Graph κ ω) env => g.Sane env ∧ g.topology = T where
  step := by
    rintro s hdue ⟨hsane, htopology⟩ moved hmoved
    refine ⟨hsane.step hdue ?_, (hdue.passes patience).leads.topology.trans htopology⟩
    rw [hmoved]
    rfl
  count g env stats h := ⟨h.1.tally stats, h.2⟩
  note g env notice h := ⟨h.1.elsewhere (env.about_note notice g.id), h.2⟩

theorem Sane.mem_steps (h : g.Sane env) {s : Step κ ω} (hs : s ∈ g.steps patience env) :
    s.graph.Sane s.env ∧ s.graph.topology = g.topology :=
  (sane_stepInvariant patience g.topology).steps h
    (fun _ _ hbegins => ⟨hbegins.sane h, hbegins.topology_eq⟩) s hs

/-- The steps of a round are due, and if one fails the round fails with it. -/
theorem Sane.due_of_mem_steps (h : g.Sane env) {s : Step κ ω} (hs : s ∈ g.steps patience env) :
    s.Due ∧ ∀ f, (s.after patience).result = some (.error f) →
      g.runOnce patience env =
        ((s.after patience).graph.fail f (s.after patience).env).map some := by
  rcases g.begins_or_refused patience env with ⟨g₁, env₁, hbegins⟩ | ⟨hnone, -⟩
  · obtain ⟨sweep, g', env', hsweeps, hround⟩ :=
      runOnce_sweeps (hbegins.sane h).wired hbegins.state_eq patience env₁
    rw [← hbegins.steps_eq] at hsweeps
    refine ⟨hsweeps.due s hs, fun f hf => ?_⟩
    obtain ⟨rfl, rfl, rfl⟩ := hsweeps.failed_of_mem hs hf
    exact (hbegins.runOnce_eq patience).trans hround
  · rw [hnone] at hs
    cases hs

/-- A round that a component brought to its end has a step that failed. -/
theorem Sane.exists_failed (h : g.Sane env) {e : ExecutionError}
    (he : (g.runOnce patience env).result = some (.error (.execution e))) :
    ∃ s ∈ g.steps patience env, (s.after patience).result = some (.error ⟨e.id, e.cause⟩) := by
  rcases g.begins_or_refused patience env with ⟨g₁, env₁, hbegins⟩ | ⟨-, e', hrefused, hne⟩
  · obtain ⟨sweep, g', env', hsweeps, hround⟩ :=
      runOnce_sweeps (hbegins.sane h).wired hbegins.state_eq patience env₁
    rw [hbegins.runOnce_eq, hround] at he
    rw [hbegins.steps_eq]
    cases sweep with
    | none => cases he
    | some sweep =>
      obtain rfl := afterSweep_execution (Option.some.inj he)
      exact hsweeps.exists_failed rfl
  · rw [hrefused] at he
    exact absurd (Except.error.inj (Option.some.inj he)) (hne e)

end Rounds

/-! ## Runs are made of their rounds -/

/-- What a round after which the run goes on keeps, and waiting keeps, holds whenever a round
of the run is made. -/
theorem rounds_invariant {P : Graph κ ω → Env ω → Prop} {patience : Nat}
    (hround : ∀ g env, P g env → ∀ outcome,
      (runOnce g patience env).result = some (.ok outcome) →
      outcome = .progress ∨ outcome = .again →
      P (runOnce g patience env).graph (runOnce g patience env).env)
    (hwait : ∀ g env, P g env → P g (backOff g env).2) (n : Nat) {g : Graph κ ω} {env : Env ω}
    (h : P g env) : ∀ x ∈ rounds patience n g env, P x.1 x.2 := by
  induction n generalizing g env with
  | zero => exact fun x hx => nomatch hx
  | succ n ih =>
    have hnext := hround g env h
    unfold rounds
    refine List.forall_mem_cons.mpr ⟨h, ?_⟩
    generalize g.runOnce patience env = y at hnext ⊢
    obtain ⟨result, g', env'⟩ := y
    match result with
    | none => exact fun x hx => nomatch hx
    | some (.error e) => exact fun x hx => nomatch hx
    | some (.ok .finished) => exact fun x hx => nomatch hx
    | some (.ok .cancelled) => exact fun x hx => nomatch hx
    | some (.ok .progress) => exact ih (hnext _ rfl (.inl rfl))
    | some (.ok .again) =>
      have hwaited := hwait g' env' (hnext _ rfl (.inr rfl))
      dsimp only
      generalize g'.backOff env' = z at hwaited ⊢
      obtain ⟨goesOn, env''⟩ := z
      cases goesOn with
      | true => exact ih hwaited
      | false => exact fun x hx => nomatch hx

/-- A round that fails is the last of its run, which fails as it does. -/
theorem run_result_of_mem_rounds {patience n : Nat} {g : Graph κ ω} {env : Env ω}
    {x : Graph κ ω × Env ω} (hx : x ∈ rounds patience n g env) {e : RunError}
    (he : (x.1.runOnce patience x.2).result = some (.error e)) :
    (run patience n g env).result = some (.error e) := by
  induction n generalizing g env with
  | zero => cases hx
  | succ n ih =>
    unfold rounds at hx
    unfold run
    rcases List.mem_cons.mp hx with rfl | hx
    · dsimp only at he ⊢
      generalize g.runOnce patience env = y at he ⊢
      obtain ⟨result, g', env'⟩ := y
      obtain rfl : result = some (.error e) := he
      rfl
    · generalize g.runOnce patience env = y at hx ⊢
      obtain ⟨result, g', env'⟩ := y
      rcases result with _ | e' | outcome
      · cases hx
      · cases hx
      cases outcome with
      | finished | cancelled => cases hx
      | progress => exact ih hx
      | again =>
        dsimp only at hx ⊢
        generalize g'.backOff env' = z at hx ⊢
        obtain ⟨goesOn, env''⟩ := z
        cases goesOn with
        | true => exact ih hx
        | false => cases hx

end Graph

/-- Every round of a run starts where a lifetime can have brought the graph. -/
theorem Lifetime.rounds {added : List ComponentId} {g : Graph κ ω} {env : Env ω}
    (h : Lifetime added g env) (patience n : Nat) :
    ∀ x ∈ Graph.rounds patience n g env, Lifetime added x.1 x.2 := by
  refine Graph.rounds_invariant (P := Lifetime added) ?_ ?_ n h
  · intro g env h outcome houtcome _
    have hcall := h.call (.runOnce patience) trivial (congrArg Option.isSome houtcome)
    rwa [show (Request.runOnce patience).added g env = [] from rfl, List.append_nil] at hcall
  · exact fun g env h => h.elsewhere (g.backOff_about env g.id)

end Steps
end PullGraph
