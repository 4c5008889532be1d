import PullGraph.Proofs.Attribution
import PullGraph.Proofs.Heedless
import PullGraph.Proofs.Performance
import PullGraph.Scripted.Component

/-! # Cancelled runs

A run that has been cancelled, by a component in the middle of a step, while the run waits,
or before it began, goes on to the next safe point: the end of the step that is under way,
or the begin of the next round. There it ends, and the components are finalized. Only a step
that fails comes before that. A step itself takes no notice, so it is handed to its end.
-/
namespace PullGraph

variable {κ ω : Type}

/-! ## Cancellations last -/

theorem Env.isCancelled_perform {α : Type} {env : Env ω} {graph : GraphId}
    (h : env.isCancelled graph = true) (x : Act ω α) :
    (env.perform x).2.isCancelled graph = true := by
  simp only [isCancelled, perform, List.contains_eq_mem, decide_eq_true_eq] at h ⊢
  exact List.mem_append_right _ h

/-- What has been cancelled stays so. -/
def Turn.StaysCancelled (_ : ComponentId) (t t' : Turn κ ω) : Prop :=
  ∀ graph, t.env.isCancelled graph = true → t'.env.isCancelled graph = true

theorem staysCancelled_law :
    ExchangeLaw (Turn.StaysCancelled : ComponentId → Turn κ ω → Turn κ ω → Prop) where
  refl _ _ _ h := h
  trans h h' graph hg := h' graph (h graph hg)
  act _ _ _ x _ h := Env.isCancelled_perform h x
  refuse _ _ _ _ h := h
  unanswered _ _ h graph hg := h graph hg
  answered := by
    intro id index t t' p out conn c k _ _ h answer k' graph hg
    rw [t'.settle_env]
    exact h graph hg

namespace Graph

variable [Behavior κ ω] {g g' : Graph κ ω} {env env' : Env ω} {patience : Nat}

/-! ## The end of a run -/

theorem Sane.closes_running (h : g.Sane env) (hrunning : g.state = .running) (state : GraphState) :
    ({ g with state := state } : Graph κ ω).Closes env (g.close state env).result
      (g.close state env).graph (g.close state env).env :=
  h.closes (by rw [hrunning]; rfl) state

/-- What is said of a cancelled run: that it was cancelled, unless components failed to
finalize. -/
def cancelReport {α : Type} (failures : List FinalizeFailure) (a : α) : Except RunError α :=
  if failures = [] then .ok a else .error (.finalize ⟨failures⟩)

theorem conclude_eq (g : Graph κ ω) (state : GraphState) (outcome : Outcome) (notice : Notice)
    (env : Env ω) : g.conclude state outcome notice env =
      ⟨if (g.close state env).result = [] then .ok outcome
        else .error (.finalize ⟨(g.close state env).result⟩), (g.close state env).graph,
        (g.close state env).env.note notice⟩ := by
  unfold conclude TeardownError.check
  generalize g.close state env = y
  obtain ⟨failures, g', env'⟩ := y
  cases failures <;> rfl

theorem cancelRun_eq (g : Graph κ ω) (env : Env ω) : ∃ notice, g.cancelRun env =
    ⟨cancelReport (g.close .cancelled env).result .cancelled, (g.close .cancelled env).graph,
      (g.close .cancelled env).env.note notice⟩ :=
  ⟨_, g.conclude_eq .cancelled .cancelled _ env⟩

/-! ## The last round of a run -/

end Graph

/-- How a run ended whose last round ended so. -/
def Outcome.status : Outcome → RunStatus
  | .finished => .finished
  | .progress | .again | .cancelled => .cancelled

namespace Graph

variable [Behavior κ ω] {g g' : Graph κ ω} {env env' : Env ω} {patience n : Nat}

/-- A round after which the run does not go on is the last of its run, which ends as it does. -/
theorem run_of_last_round {x : Graph κ ω × Env ω} (hx : x ∈ rounds patience n g env)
    {r : Except RunError Outcome} (hr : (x.1.runOnce patience x.2).result = some r)
    (hends : ∀ outcome, r = .ok outcome → outcome ≠ .progress ∧ outcome ≠ .again) :
    run patience n g env =
      ⟨some (r.map fun outcome => (x.1.runOnce patience x.2).graph.summary outcome.status),
        (x.1.runOnce patience x.2).graph, (x.1.runOnce patience x.2).env⟩ := by
  induction n generalizing g env with
  | zero => cases hx
  | succ n ih =>
    unfold rounds at hx
    unfold run
    rcases List.mem_cons.mp hx with rfl | hx
    · dsimp only at hr ⊢
      generalize g.runOnce patience env = y at hr ⊢
      obtain ⟨result, g', env'⟩ := y
      obtain rfl : result = some r := hr
      rcases r with e | outcome
      · rfl
      · cases outcome with
        | finished | cancelled => rfl
        | progress => exact absurd rfl (hends _ rfl).1
        | again => exact absurd rfl (hends _ rfl).2
    · generalize g.runOnce patience env = y at hx ⊢
      obtain ⟨result, g', env'⟩ := y
      rcases result with _ | e | outcome
      · cases hx
      · cases hx
      cases outcome with
      | finished | cancelled => cases hx
      | progress => exact ih hx
      | again =>
        dsimp only at hx ⊢
        generalize g'.backOff env' = z at hx ⊢
        obtain ⟨goesOn, env''⟩ := z
        cases goesOn with
        | true => exact ih hx
        | false => cases hx

/-- The round that starts at `x` finds at `g'` and `env'` that the run is cancelled and closes
the graph, and so ends the run from `g`. -/
def Cancels (patience n : Nat) (g : Graph κ ω) (env : Env ω) (x : Graph κ ω × Env ω)
    (g' : Graph κ ω) (env' : Env ω) : Prop :=
  ∃ failures, ({ g' with state := .cancelled } : Graph κ ω).Closes env' failures
      (x.1.runOnce patience x.2).graph (x.1.runOnce patience x.2).env ∧
    (x.1.runOnce patience x.2).result = some (cancelReport failures .cancelled) ∧
    run patience n g env =
      ⟨some (cancelReport failures ((x.1.runOnce patience x.2).graph.summary .cancelled)),
        (x.1.runOnce patience x.2).graph, (x.1.runOnce patience x.2).env⟩

/-- The round that starts at `x` closes the graph at `g'` and `env'` because of a failure, and
so ends the run from `g`. -/
def Faults (patience n : Nat) (g : Graph κ ω) (env : Env ω) (x : Graph κ ω × Env ω) (f : Failure)
    (g' : Graph κ ω) (env' : Env ω) : Prop :=
  ∃ c failures, g'.components[f.component]? = some c ∧
    ({ g' with state := .faulted } : Graph κ ω).Closes env' failures
      (x.1.runOnce patience x.2).graph (x.1.runOnce patience x.2).env ∧
    (x.1.runOnce patience x.2).result =
      some (.error (.execution ⟨f.component, c.name, f.cause, failures⟩)) ∧
    run patience n g env =
      ⟨some (.error (.execution ⟨f.component, c.name, f.cause, failures⟩)),
        (x.1.runOnce patience x.2).graph, (x.1.runOnce patience x.2).env⟩

theorem Sane.cancels (h : g'.Sane env') (hrunning : g'.state = .running)
    {x : Graph κ ω × Env ω} (hx : x ∈ rounds patience n g env)
    (hround : x.1.runOnce patience x.2 = (g'.cancelRun env').map some) :
    Cancels patience n g env x g' env' := by
  obtain ⟨notice, hcancel⟩ := g'.cancelRun_eq env'
  have hcloses := (h.closes_running hrunning .cancelled).note notice
  rw [hcancel] at hround
  refine ⟨(g'.close .cancelled env').result, ?_, ?_, ?_⟩
  · rw [hround]
    exact hcloses
  · rw [hround]
    rfl
  · have hresult := congrArg After.result hround
    rw [run_of_last_round hx hresult, cancelReport, cancelReport]
    · split <;> rfl
    · intro outcome houtcome
      unfold cancelReport at houtcome
      split at houtcome
      · obtain rfl := Except.ok.inj houtcome
        exact ⟨nofun, nofun⟩
      · cases houtcome

theorem Sane.faults (h : g'.Sane env') (hrunning : g'.state = .running) {f : Failure}
    (hf : f.component < g'.components.length) {x : Graph κ ω × Env ω}
    (hx : x ∈ rounds patience n g env)
    (hround : x.1.runOnce patience x.2 = (g'.fail f env').map some) :
    Faults patience n g env x f g' env' := by
  obtain ⟨c, hc⟩ : ∃ c, g'.components[f.component]? = some c := ⟨_, List.getElem?_eq_getElem hf⟩
  have hnoted : g'.Sane (env'.note (.failed g'.name c.name f.cause)) :=
    h.elsewhere (env'.about_note _ g'.id)
  have hcloses := (hnoted.closes_running hrunning .faulted).of_note
  have hfail : g'.fail f env' =
      ⟨.error (.execution ⟨f.component, c.name, f.cause,
          (g'.close .faulted (env'.note (.failed g'.name c.name f.cause))).result⟩),
        (g'.close .faulted (env'.note (.failed g'.name c.name f.cause))).graph,
        (g'.close .faulted (env'.note (.failed g'.name c.name f.cause))).env⟩ := by
    simp only [fail, hc, Option.map_some, Option.getD_some]
  rw [hfail] at hround
  have hresult := congrArg After.result hround
  refine ⟨c, _, hc, ?_, hresult, ?_⟩
  · rw [hround]
    exact hcloses
  · rw [run_of_last_round hx hresult (by simp)]
    rfl

end Graph

/-! ## Steps of a cancelled run -/

section Steps

variable [B : Behavior κ ω] {g g' : Graph κ ω} {env env' : Env ω} {patience n : Nat}

/-- No step is made once the run is cancelled. -/
theorem Sweeps.of_cancelled {steps : List (Step κ ω)} {sweep : Option Sweep}
    (h : Sweeps patience steps g env sweep g' env') (hcancelled : env.isCancelled g.id = true) :
    steps = [] ∧ g' = g ∧ env' = env ∧
      (sweep = some .cancelled ∨ ∃ progressed, sweep = some (.completed progressed)) := by
  cases h with
  | completed progressed => exact ⟨rfl, rfl, rfl, .inr ⟨progressed, rfl⟩⟩
  | cancelled => exact ⟨rfl, rfl, rfl, .inl rfl⟩
  | failed s hdue => exact absurd (hdue.uncancelled.symm.trans hcancelled) (by decide)
  | broken s hdue => exact absurd (hdue.uncancelled.symm.trans hcancelled) (by decide)
  | step s hdue => exact absurd (hdue.uncancelled.symm.trans hcancelled) (by decide)

/-- A step that goes well and after which the run is cancelled is the last of its round. -/
theorem Sweeps.last_of_cancelled {steps : List (Step κ ω)} {sweep : Option Sweep}
    (h : Sweeps patience steps g env sweep g' env') {s : Step κ ω} (hs : s ∈ steps) {moved : Bool}
    (hmoved : (s.after patience).result = some (.ok moved))
    (hcancelled : (s.after patience).env.isCancelled (s.after patience).graph.id = true) :
    (∃ before, steps = before ++ [s]) ∧ g' = (s.after patience).graph ∧
      env' = (s.after patience).env ∧
      (sweep = some .cancelled ∨ ∃ progressed, sweep = some (.completed progressed)) := by
  induction h with
  | completed => cases hs
  | cancelled => cases hs
  | failed s' _ hresult =>
    obtain rfl := List.mem_singleton.mp hs
    exact nomatch hmoved.symm.trans hresult
  | broken s' _ hresult =>
    obtain rfl := List.mem_singleton.mp hs
    exact nomatch hmoved.symm.trans hresult
  | step s' _ _ hrest ih =>
    rcases List.mem_cons.mp hs with rfl | hs
    · obtain ⟨rfl, hg, henv, hsweep⟩ := hrest.of_cancelled hcancelled
      exact ⟨⟨[], rfl⟩, hg, henv, hsweep⟩
    · obtain ⟨⟨before, rfl⟩, hlast⟩ := ih hs
      exact ⟨⟨s' :: before, rfl⟩, hlast⟩

/-- A step that fails is the last of its round. -/
theorem Sweeps.last_of_failed {steps : List (Step κ ω)} {sweep : Option Sweep}
    (h : Sweeps patience steps g env sweep g' env') {s : Step κ ω} (hs : s ∈ steps) {f : Failure}
    (hf : (s.after patience).result = some (.error f)) : ∃ before, steps = before ++ [s] := by
  induction h with
  | completed => cases hs
  | cancelled => cases hs
  | failed s' => exact ⟨[], congrArg ([·]) (List.mem_singleton.mp hs).symm⟩
  | broken s' => exact ⟨[], congrArg ([·]) (List.mem_singleton.mp hs).symm⟩
  | step s' _ hresult _ ih =>
    rcases List.mem_cons.mp hs with rfl | hs
    · exact nomatch hf.symm.trans hresult
    · obtain ⟨before, rfl⟩ := ih hs
      exact ⟨s' :: before, rfl⟩

/-- Whatever the steps of a round came to, if it is not a failure and the run is cancelled by
then, the round ends the run so. -/
theorem Graph.afterSweep_cancelled {sweep : Sweep} (hcancelled : env.isCancelled g.id = true)
    (h : sweep = .cancelled ∨ ∃ progressed, sweep = .completed progressed) :
    g.afterSweep sweep env = g.cancelRun env := by
  rcases h with rfl | ⟨progressed, rfl⟩
  · rfl
  · simp only [afterSweep, endRound, hcancelled, if_true]

/-- A step hands to its sink what its pull brings. -/
theorem Step.Due.hands_over {s : Step κ ω} (h : s.Due) (hsteady : s.graph.Steady) {pull : Pull}
    {arrival : Option Message} {t : Turn κ ω} (hpulled : s.pulled patience = ⟨some (.ok pull), t⟩)
    (hfailure : t.failure = none) (harrival : pull.arrival? = some arrival) :
    ∃ port fault es, s.events patience =
      es ++ [.call s.graph.id s.sink (Graph.arrivalCall port arrival fault)] := by
  obtain ⟨htopology, es, habout, -, -⟩ := h.blames hpulled
  have hid : t.graph.id = s.graph.id := congrArg Topology.id htopology
  have houtcome := h.outcome hsteady hpulled
  generalize hafter : s.after patience = x at houtcome
  cases houtcome with
  | failed hf => exact nomatch hfailure.symm.trans hf
  | idle _ hidle =>
    obtain rfl := Except.ok.inj hidle
    cases harrival
  | @delivered pull' arrival' c k p _ hpull harrives hc hb hk hp =>
    obtain rfl := Except.ok.inj hpull
    obtain rfl := Option.some.inj (harrival.symm.trans harrives)
    rw [Graph.deliver_eq hc hb hk hp] at hafter
    refine ⟨p.name, Component.faultOf (t.env.perform (Graph.receive p.name arrival k)).1.1, es,
      s.events_eq ?_⟩
    rw [hafter, ← List.append_assoc, ← habout, ← hid]
    exact Journal.about_record_call t.env.journal s.sink _

/-- A graph can run: it is running, or it passes the check. -/
def Graph.CanRun (g : Graph κ ω) : Prop :=
  g.state = .running ∨ g.state = .configuring ∧ g.validate = .ok ()

omit B in
theorem Graph.CanRun.begins (h : g.CanRun) (env : Env ω) : ∃ g₁ env₁, g.Begins env g₁ env₁ := by
  rcases h with hrunning | ⟨hopen, hvalid⟩
  · exact ⟨g, env, .running hrunning⟩
  · exact ⟨_, _, .started hopen hvalid⟩

/-- A graph that can run can do so in every round of its run. -/
theorem Graph.CanRun.rounds (h : g.CanRun) (env : Env ω) :
    ∀ x ∈ Graph.rounds patience n g env, x.1.CanRun := by
  refine Graph.rounds_invariant (P := fun g _ => g.CanRun) ?_ (fun _ _ hrun => hrun) n h
  intro g env _ outcome houtcome hgoesOn
  exact .inl (Graph.running_of_goesOn houtcome hgoesOn)

omit B in
/-- Getting under way cancels nothing. -/
theorem Graph.Begins.isCancelled_eq {g₁ : Graph κ ω} {env₁ : Env ω} (h : g.Begins env g₁ env₁)
    (graph : GraphId) : env₁.isCancelled graph = env.isCancelled graph := by
  cases h with
  | running => rfl
  | started _ hvalid =>
    obtain ⟨g₁, notice, hstart, -⟩ := start_spec hvalid env
    rw [hstart]
    rfl

/-- **Cancellation waits for the step under way, and no longer.**  In every round of every run
of a graph that can run: if the run is cancelled when the round begins, before the run or
while it waited, no step is made and the round ends the run. Every step that is made goes to
its end as it would if nobody could cancel anything, performs the calls that are written down
for it, and hands its sink what its pull brings, while what is cancelled in a pull, however
deep, stays so. If the run is cancelled after a
step, that is the last one: a step that failed fails the run, and after any other the round
ends the run as cancelled, whatever else it might have come to. From there on components are
finalized, every one of them, and not called otherwise; they do then what they do when they
are finalized, and the faults that are reported are their own. -/
theorem Lifetime.cancelled_at_next_safe_point {added : List ComponentId} (h : Lifetime added g env)
    (hrun : g.CanRun) (patience n : Nat) {x : Graph κ ω × Env ω}
    (hx : x ∈ Graph.rounds patience n g env) :
    (x.2.isCancelled x.1.id = true → x.1.steps patience x.2 = [] ∧
      ∃ g₁ env₁, x.1.Begins x.2 g₁ env₁ ∧ Graph.Cancels patience n g env x g₁.nextRound env₁) ∧
    (∀ (t : Turn κ ω) id index p, t.graph.portAt? id index = some p → p.direction = .input →
      ∀ graph, t.env.isCancelled graph = true →
        (pullInput (converse patience) id index t).turn.env.isCancelled graph = true) ∧
    (∀ s ∈ x.1.steps patience x.2,
      @Step.after κ ω B.hushed s.hush patience = (s.after patience).hush ∧
      s.graph.Enacts s.env (s.after patience).graph (s.after patience).env ∧
      (∀ pull t arrival, s.pulled patience = ⟨some (.ok pull), t⟩ → t.failure = none →
        pull.arrival? = some arrival → ∃ port fault es, s.events patience =
          es ++ [.call x.1.id s.sink (Graph.arrivalCall port arrival fault)]) ∧
      ((s.after patience).env.isCancelled x.1.id = true →
        (∀ f, (s.after patience).result = some (.error f) →
          (∃ before, x.1.steps patience x.2 = before ++ [s]) ∧
          Graph.Faults patience n g env x f (s.after patience).graph (s.after patience).env) ∧
        (∀ moved, (s.after patience).result = some (.ok moved) →
          (∃ before, x.1.steps patience x.2 = before ++ [s]) ∧
          Graph.Cancels patience n g env x (s.after patience).graph (s.after patience).env))) := by
  have hsane := (h.rounds patience n x hx).sane
  obtain ⟨g₁, env₁, hbegins⟩ := (hrun.rounds env x hx).begins x.2
  have hsane₁ : g₁.nextRound.Sane env₁ := (hbegins.sane hsane).tally _
  have hid : g₁.id = x.1.id := congrArg Topology.id hbegins.topology_eq
  obtain ⟨sweep, g', env', hsweeps, hround⟩ :=
    Graph.runOnce_sweeps (hbegins.sane hsane).wired hbegins.state_eq patience env₁
  rw [← hbegins.steps_eq] at hsweeps
  rw [← hbegins.runOnce_eq] at hround
  refine ⟨?before, ?lasting, ?steps⟩
  case before =>
    intro hcancelled
    have hcancelled₁ : env₁.isCancelled g₁.nextRound.id = true := by
      rw [hbegins.isCancelled_eq]
      exact hid ▸ hcancelled
    obtain ⟨hnone, rfl, rfl, hsweep⟩ := hsweeps.of_cancelled hcancelled₁
    refine ⟨hnone, g₁, env', hbegins, hsane₁.cancels hbegins.state_eq hx ?_⟩
    rw [hround]
    rcases hsweep with rfl | ⟨progressed, rfl⟩
    · exact congrArg (After.map some) (Graph.afterSweep_cancelled hcancelled₁ (.inl rfl))
    · exact congrArg (After.map some) (Graph.afterSweep_cancelled hcancelled₁ (.inr ⟨_, rfl⟩))
  case lasting =>
    intro t id index p hp hd graph hcancelled
    exact staysCancelled_law.pullInput (staysCancelled_law.pullLaw.converse patience) hp hd graph
      hcancelled
  case steps =>
    intro s hs
    obtain ⟨hsaneStep, htopology⟩ := hsane.mem_steps hs
    obtain ⟨hdue, hfails⟩ := hsane.due_of_mem_steps hs
    have hsteady := hsaneStep.steady hdue.running
    have hidStep : s.graph.id = x.1.id := congrArg Topology.id htopology
    have hleads := (hdue.passes patience).leads
    have hrunning : (s.after patience).graph.state = .running := hleads.state.trans hdue.running
    refine ⟨s.after_hushed patience, hdue.canStep.enacts hsaneStep.wired patience s.env, ?handed,
      fun hcancelled => ⟨fun f hf => ?_, fun moved hmoved => ?_⟩⟩
    case handed =>
      intro pull t arrival hpulled hfailure harrival
      rw [← hidStep]
      exact hdue.hands_over hsteady hpulled hfailure harrival
    · have hreturned : (s.after patience).result.isSome = true := by rw [hf]; rfl
      refine ⟨hsweeps.last_of_failed hs hf, ?_⟩
      refine (hsaneStep.step hdue hreturned).faults hrunning ?_ hx (hfails f hf)
      rw [Graph.length_eq_of_topology_eq hleads.topology]
      exact (hdue.attributes hsteady hreturned).present f hf
    · have hreturned : (s.after patience).result.isSome = true := by rw [hmoved]; rfl
      have hidAfter : (s.after patience).graph.id = x.1.id := hleads.id_eq.trans hidStep
      rw [← hidAfter] at hcancelled
      obtain ⟨hlast, rfl, rfl, hsweep⟩ := hsweeps.last_of_cancelled hs hmoved hcancelled
      refine ⟨hlast, (hsaneStep.step hdue hreturned).cancels hrunning hx ?_⟩
      rw [hround]
      rcases hsweep with rfl | ⟨progressed, rfl⟩
      · exact congrArg (After.map some) (Graph.afterSweep_cancelled hcancelled (.inl rfl))
      · exact congrArg (After.map some) (Graph.afterSweep_cancelled hcancelled (.inr ⟨_, rfl⟩))

end Steps

/-- A scripted source of two messages, and a sink that cancels the run when it gets one. -/
def hasty : Graph Scripted Bench × Env Bench :=
  Graph.build "hasty" .standard { places := [("g", 1)] }
    [.add { Scripted.componentClass "letters"
        { label := "giver", script := .source [.message (.int 1), .message (.int 2)] .endOfStream 0 }
        with ports := [⟨"out", .output⟩] } "giver" .nil,
    .add { Scripted.componentClass "stop"
        { label := "taker", script := .sink [.cancel] [] 0 }
        with ports := [⟨"in", .input⟩] } "taker" .nil,
    .link "giver" "out" "taker" "in"]

theorem hasty_lifetime : Lifetime [0, 1] hasty.1 hasty.2 := by
  refine .built (rfl : hasty = Graph.build _ _ _ _) ?_
  simp [Request.runs, Request.Fits]

/-- The sink is handed the first message and cancels the run, so the second is never asked
for; a run that is cancelled before it begins asks for none. -/
theorem hasty_cancels :
    Lifetime [0, 1] hasty.1 hasty.2 ∧ hasty.1.CanRun ∧
      (∃ s, hasty.1.steps 5 hasty.2 = [s] ∧ (s.after 5).env.isCancelled hasty.1.id = true ∧
        (s.after 5).result = some (.ok true) ∧
        Graph.Cancels 5 3 hasty.1 hasty.2 hasty (s.after 5).graph (s.after 5).env) ∧
      hasty.1.steps 5 (hasty.2.cancel hasty.1.id) = [] := by
  have hrun : hasty.1.CanRun := .inr ⟨rfl, rfl⟩
  have h := hasty_lifetime.cancelled_at_next_safe_point hrun 5 3 (x := hasty) List.mem_cons_self
  obtain ⟨s, hs⟩ : ∃ s, hasty.1.steps 5 hasty.2 = [s] := ⟨_, rfl⟩
  have hmem : s ∈ hasty.1.steps 5 hasty.2 := by rw [hs]; exact List.mem_singleton_self s
  have hcancelled : ∀ s ∈ hasty.1.steps 5 hasty.2,
      (s.after 5).env.isCancelled hasty.1.id = true ∧ (s.after 5).result = some (.ok true) :=
    List.forall_mem_singleton.mpr ⟨rfl, rfl⟩
  obtain ⟨hafter, hmoved⟩ := hcancelled s hmem
  have hearly : Lifetime [0, 1] hasty.1 (hasty.2.cancel hasty.1.id) := hasty_lifetime.elsewhere rfl
  refine ⟨hasty_lifetime, hrun, ⟨s, hs, hafter, hmoved, ?_⟩, ?_⟩
  · exact (((h.2.2 s hmem).2.2.2 hafter).2 true hmoved).2
  · exact ((hearly.cancelled_at_next_safe_point hrun 5 1
      (x := (hasty.1, hasty.2.cancel hasty.1.id)) List.mem_cons_self).1 rfl).1

end PullGraph
