import Mathlib.Data.List.Basic
import PullGraph.Proofs.Cancellation
import PullGraph.Proofs.Freezing

/-! # Components that fail to finalize

A component may fail when it is finalized, and by then the run may have failed already, or
stalled, or been cancelled. `RunEnd` is how a run came to its end apart from that, and
`RunEnd.answer` what the call says that ended it: the failures to finalize come on top and
never in place of the cause. They are those that the journal knows of, and no call after that
has any to report.
-/
namespace PullGraph

variable {κ ω : Type}

/-! ## What there is to report -/

/-- The component that fails to finalize, and why, if an event is such a failure. -/
def Event.finalizeFault? : Event → Option (ComponentId × Fault)
  | .call _ component (.finalized (some fault)) => some (component, fault)
  | _ => none

theorem Event.finalizeFault?_eq_none {e : Event} (h : e.finalized? = none) :
    e.finalizeFault? = none := by
  cases e with
  | call graph component c => cases c <;> first | rfl | cases h
  | refused | notice => rfl

namespace Graph

/-- The components of a graph that failed to finalize, in the order in which they did. -/
def finalizeFailures (g : Graph κ ω) (env : Env ω) : List FinalizeFailure :=
  (env.journal.about g.id).filterMap fun e => e.finalizeFault?.bind fun x =>
    g.components[x.1]?.map fun c => ⟨x.1, c.name, x.2⟩

/-- All components have been finalized, the last first, and `failures` are those that failed. -/
structure TellsAll (g : Graph κ ω) (env : Env ω) (failures : List FinalizeFailure) : Prop where
  reported : failures = g.finalizeFailures env
  order : failures.Pairwise fun f f' => f'.id < f.id
  finalized : env.journal.finalized g.id = (List.range g.components.length).reverse

variable {g g' : Graph κ ω} {env env' : Env ω} {failures : List FinalizeFailure}

theorem TellsAll.note (h : g.TellsAll env failures) (notice : Notice) :
    g.TellsAll (env.note notice) failures := by
  have habout := env.about_note notice g.id
  refine ⟨?_, h.order, ?_⟩
  · rw [finalizeFailures, habout]
    exact h.reported
  · rw [Journal.finalized, habout]
    exact h.finalized

theorem pairwise_failuresOf {ends : List (Component κ × Option Fault)} {n : Nat}
    (h : ends.map (·.1.id) = List.range n) :
    (failuresOf ends).Pairwise fun f f' => f'.id < f.id := by
  have hids : (ends.map (·.1.id)).Pairwise (· < ·) := h ▸ List.pairwise_lt_range
  have hreversed := List.pairwise_reverse.mpr (List.pairwise_map.mp hids)
  refine List.pairwise_filterMap.mpr (hreversed.imp ?_)
  intro x y hlt f hf f' hf'
  obtain ⟨fault, -, rfl⟩ := Option.map_eq_some_iff.mp hf
  obtain ⟨fault', -, rfl⟩ := Option.map_eq_some_iff.mp hf'
  exact hlt

/-- What closing a graph reports is all there is to report. -/
theorem Closes.tellsAll [Behavior κ ω] {g₀ : Graph κ ω} (h : g₀.Closes env failures g' env')
    (hw : g₀.topology.Wired)
    (hledger : Ledger g₀.components.length false (env.journal.about g₀.id)) :
    g'.TellsAll env' failures := by
  have hid : g'.id = g₀.id := congrArg Topology.id h.topology
  have hafter := (h.ledger hw hledger).finalized
  obtain ⟨ends, hends, habout, rfl⟩ := h.ends
  have hids : ends.map (·.1.id) = List.range g₀.components.length := by
    rw [← map_id_eq_range hw, ← hends, List.map_map]
    rfl
  refine ⟨?reported, pairwise_failuresOf hids, ?finalized⟩
  case finalized =>
    rw [Journal.finalized, hid, hafter, if_pos rfl, length_eq_of_topology_eq h.topology]
  case reported =>
    -- nothing had been finalized before
    have hbefore : ∀ e ∈ env.journal.about g₀.id, (e.finalizeFault?.bind fun x =>
        g'.components[x.1]?.map fun c => (⟨x.1, c.name, x.2⟩ : FinalizeFailure)) = none := by
      intro e he
      rw [Event.finalizeFault?_eq_none (List.filterMap_eq_nil_iff.mp hledger.finalized e he)]
      rfl
    rw [finalizeFailures, hid, habout, List.filterMap_append,
      List.filterMap_eq_nil_iff.mpr hbefore, List.nil_append, farewells, List.filterMap_map,
      failuresOf]
    refine List.filterMap_congr fun x hx => ?_
    have hmem : x.1 ∈ g₀.components := by
      rw [← hends]
      exact List.mem_map_of_mem (List.mem_reverse.mp hx)
    obtain ⟨i, hi⟩ := List.mem_iff_getElem?.mp hmem
    obtain ⟨hx1, -⟩ := hw.positions i x.1.outline (by rw [topology_getElem?, hi]; rfl)
    obtain ⟨c, hc, hname⟩ := component_of_topology_eq h.topology hi
    have hc' : g'.components[x.1.id]? = some c := by rwa [show x.1.id = i from hx1]
    cases hfault : x.2 with
    | none => simp [hfault, Event.finalizeFault?]
    | some fault => simp [hfault, Event.finalizeFault?, hc', hname]

theorem Sane.close_tellsAll [Behavior κ ω] (h : g.Sane env) (hopen : g.state.isOver = false)
    (state : GraphState) :
    (g.close state env).graph.TellsAll (g.close state env).env (g.close state env).result ∧
      (g.close state env).graph.state = state := by
  have hcloses := h.closes hopen state
  exact ⟨hcloses.tellsAll h.wired (hopen ▸ h.ledger), congrArg Graph.state hcloses.rest⟩

end Graph

/-! ## What is reported -/

/-- The failures to finalize that an error of a run reports. -/
def RunError.failures : RunError → List FinalizeFailure
  | .execution e => e.failures
  | .finalize e => e.failures
  | .stalled _ failures => failures
  | .validation _ | .notRunnable _ => []

/-- The failures to finalize that the answer of a round or a run reports. -/
def reportedBy {α : Type} : Except RunError α → List FinalizeFailure
  | .ok _ => []
  | .error e => e.failures

theorem reportedBy_map {α β : Type} (f : α → β) (r : Except RunError α) :
    reportedBy (r.map f) = reportedBy r := by
  cases r <;> rfl

/-- How a run came to its end, failures to finalize apart. -/
inductive RunEnd where
  /-- Every stream has ended, or the run was cancelled. -/
  | done (status : RunStatus)
  | failed (id : ComponentId) (component : String) (cause : Fault)
  | stalled (idleRounds : UInt32)

namespace RunEnd

/-- The state in which a graph is left. -/
def state : RunEnd → GraphState
  | .done .finished => .finished
  | .done .cancelled => .cancelled
  | .failed _ _ _ | .stalled _ => .faulted

/-- What is answered, with the failures to finalize that came on top. -/
def answer {α : Type} (done : RunStatus → α) (failures : List FinalizeFailure) :
    RunEnd → Except RunError α
  | .done status => if failures = [] then .ok (done status) else .error (.finalize ⟨failures⟩)
  | .failed id component cause => .error (.execution ⟨id, component, cause, failures⟩)
  | .stalled idleRounds => .error (.stalled idleRounds failures)

variable {α β : Type} {failures : List FinalizeFailure}

theorem state_isOver (ending : RunEnd) : ending.state.isOver = true := by
  cases ending with
  | done status => cases status <;> rfl
  | failed | stalled => rfl

theorem reportedBy_answer (done : RunStatus → α) (ending : RunEnd) :
    reportedBy (ending.answer done failures) = failures := by
  cases ending with
  | done status =>
    by_cases h : failures = []
    · simp [answer, h, reportedBy]
    · simp [answer, h, reportedBy, RunError.failures]
  | failed | stalled => rfl

theorem map_answer (done : RunStatus → α) (f : α → β) (ending : RunEnd) :
    (ending.answer done failures).map f =
      ending.answer (fun status => f (done status)) failures := by
  cases ending with
  | done status => by_cases h : failures = [] <;> simp [answer, h, Except.map]
  | failed | stalled => rfl

end RunEnd

/-- The outcome of the last round of a run that ended so. -/
def RunStatus.outcome : RunStatus → Outcome
  | .finished => .finished
  | .cancelled => .cancelled

@[simp] theorem RunStatus.status_outcome (status : RunStatus) : status.outcome.status = status := by
  cases status <;> rfl

/-- A call has ended its graph so, and answers with the failures to finalize on top. -/
structure RunEnd.Reached {α : Type} (ending : RunEnd) (done : RunStatus → α)
    (failures : List FinalizeFailure) (x : After κ ω (Option (Except RunError α))) : Prop where
  tells : x.graph.TellsAll x.env failures
  state : x.graph.state = ending.state
  answer : x.result = some (ending.answer done failures)

theorem RunEnd.Reached.isOver {α : Type} {ending : RunEnd} {done : RunStatus → α}
    {failures : List FinalizeFailure} {x : After κ ω (Option (Except RunError α))}
    (h : ending.Reached done failures x) : x.graph.state.isOver = true := by
  rw [h.state]
  exact ending.state_isOver

section

variable [Behavior κ ω] {g g' : Graph κ ω} {env env' : Env ω} {patience n : Nat}

/-- Where the end of a run comes from: a step of its last round, which starts at `x`, that
failed, or idle rounds after which the policy gave up. -/
def RunEnd.StemsFrom (patience : Nat) (x : Graph κ ω × Env ω) : RunEnd → Prop
  | .done _ => True
  | .failed id component cause =>
    (∃ c, x.1.components[id]? = some c ∧ c.name = component) ∧
      ∃ s ∈ x.1.steps patience x.2, (s.after patience).result = some (.error ⟨id, cause⟩)
  | .stalled idleRounds =>
    (x.1.runOnce patience x.2).result = some (.ok .again) ∧
      idleRounds = (x.1.runOnce patience x.2).graph.stats.idleRounds

namespace Graph

theorem Sane.conclude_reached (h : g.Sane env) (hrunning : g.state = .running)
    (status : RunStatus) (notice : Notice) :
    ∃ failures, (RunEnd.done status).Reached RunStatus.outcome failures
      ((g.conclude (RunEnd.done status).state status.outcome notice env).map some) := by
  have hopen : g.state.isOver = false := by rw [hrunning]; rfl
  obtain ⟨htells, hstate⟩ := h.close_tellsAll hopen (RunEnd.done status).state
  rw [conclude_eq]
  exact ⟨_, htells.note notice, hstate, rfl⟩

theorem Sane.fail_reached (h : g.Sane env) (hrunning : g.state = .running) {f : Failure}
    {c : Component κ} (hc : g.components[f.component]? = some c) :
    ∃ failures, (RunEnd.failed f.component c.name f.cause).Reached RunStatus.outcome failures
      ((g.fail f env).map some) := by
  have hopen : g.state.isOver = false := by rw [hrunning]; rfl
  have hnoted : g.Sane (env.note (.failed g.name c.name f.cause)) :=
    h.elsewhere (env.about_note _ g.id)
  obtain ⟨htells, hstate⟩ := hnoted.close_tellsAll hopen .faulted
  simp only [fail, hc, Option.map_some, Option.getD_some]
  exact ⟨_, htells, hstate, rfl⟩

theorem Sane.stall_reached (h : g.Sane env) (hrunning : g.state = .running) {α : Type}
    (done : RunStatus → α) :
    ∃ failures, (RunEnd.stalled g.stats.idleRounds).Reached done failures
      ((g.stall env).map (some ∘ .error)) := by
  have hopen : g.state.isOver = false := by rw [hrunning]; rfl
  have hnoted : g.Sane (env.note (.gaveUp g.name g.stats.idleRounds)) :=
    h.elsewhere (env.about_note _ g.id)
  obtain ⟨htells, hstate⟩ := hnoted.close_tellsAll hopen .faulted
  exact ⟨_, htells, hstate, rfl⟩

/-- After its steps a round keeps the run going, or ends it. -/
theorem Sane.afterSweep_reached (h : g.Sane env) (hrunning : g.state = .running) (sweep : Sweep)
    (hpresent : ∀ f, sweep = .failed f → f.component < g.components.length) :
    (g.afterSweep sweep env).graph.state = .running ∧
        reportedBy (g.afterSweep sweep env).result = [] ∨
      ∃ (ending : RunEnd) (failures : List FinalizeFailure),
        ending.Reached RunStatus.outcome failures ((g.afterSweep sweep env).map some) ∧
        ((∃ status, ending = .done status) ∨ ∃ f c, sweep = .failed f ∧
          g.components[f.component]? = some c ∧ ending = .failed f.component c.name f.cause) := by
  have hswept := g.afterSweep_sweptTo sweep env
  generalize g.afterSweep sweep env = x at hswept ⊢
  cases hswept with
  | cancelled =>
    obtain ⟨failures, hreached⟩ := h.conclude_reached hrunning .cancelled
      (.cancelled g.name g.stats.rounds)
    exact .inr ⟨.done .cancelled, failures, hreached, .inl ⟨_, rfl⟩⟩
  | finished =>
    obtain ⟨failures, hreached⟩ := h.conclude_reached hrunning .finished
      (.finished g.name g.stats.rounds g.stats.messages)
    exact .inr ⟨.done .finished, failures, hreached, .inl ⟨_, rfl⟩⟩
  | failed f =>
    obtain ⟨c, hc⟩ : ∃ c, g.components[f.component]? = some c :=
      ⟨_, List.getElem?_eq_getElem (hpresent f rfl)⟩
    obtain ⟨failures, hreached⟩ := h.fail_reached hrunning hc
    exact .inr ⟨_, failures, hreached, .inr ⟨f, c, rfl, hc, rfl⟩⟩
  | goesOn => exact .inl ⟨hrunning, rfl⟩

/-- A round that starts ends its graph and says all there is to say, or it reports nothing. -/
theorem Begins.reached {g₁ : Graph κ ω} {env₁ : Env ω} (h : g.Begins env g₁ env₁)
    (hsane : g.Sane env) {r : Except RunError Outcome}
    (hr : (g.runOnce patience env).result = some r) :
    (g.runOnce patience env).graph.state = .running ∧ reportedBy r = [] ∨
      ∃ ending failures, RunEnd.StemsFrom patience (g, env) ending ∧
        ending.Reached RunStatus.outcome failures (g.runOnce patience env) := by
  have hsane₁ := h.sane hsane
  obtain ⟨sweep, g', env', hsweeps, hround⟩ :=
    runOnce_sweeps hsane₁.wired h.state_eq patience env₁
  rw [← h.steps_eq] at hsweeps
  rw [← h.runOnce_eq] at hround
  cases sweep with
  | none =>
    rw [hround] at hr
    cases hr
  | some sweep =>
    have hleads := hsweeps.leads
    have htopology : g'.topology = g.topology := hleads.topology.trans h.topology_eq
    have hfailed : ∀ f, sweep = .failed f → f.component < g'.components.length ∧
        ∃ s ∈ g.steps patience env, (s.after patience).result = some (.error f) := by
      rintro f rfl
      obtain ⟨s, hs, hf⟩ := hsweeps.exists_failed rfl
      obtain ⟨hsaneStep, htopologyStep⟩ := hsane.mem_steps hs
      obtain ⟨hdue, -⟩ := hsane.due_of_mem_steps hs
      have hattributes := hdue.attributes (hsaneStep.steady hdue.running) (by rw [hf]; rfl)
      refine ⟨?_, s, hs, hf⟩
      rw [length_eq_of_topology_eq (htopology.trans htopologyStep.symm)]
      exact hattributes.present f hf
    have hsane' : g'.Sane env' := Sane.sweeps (hsane₁.tally _) hsweeps
    rw [hround] at hr ⊢
    rcases hsane'.afterSweep_reached (hleads.state.trans h.state_eq) sweep
      (fun f hf => (hfailed f hf).1) with ⟨hrunning, hnone⟩ | ⟨ending, failures, hreached, hstems⟩
    · refine .inl ⟨hrunning, ?_⟩
      rwa [Option.some.inj hr] at hnone
    · refine .inr ⟨ending, failures, ?_, hreached⟩
      rcases hstems with ⟨status, rfl⟩ | ⟨f, c, hsweep, hc, rfl⟩
      · trivial
      · exact ⟨component_of_topology_eq htopology.symm hc, (hfailed f hsweep).2⟩

/-- A round ends its graph and says all there is to say, or it reports nothing. -/
theorem Sane.runOnce_reached (h : g.Sane env) {r : Except RunError Outcome}
    (hr : (g.runOnce patience env).result = some r) :
    (g.runOnce patience env).graph.state.isOver = g.state.isOver ∧ reportedBy r = [] ∨
      g.state.isOver = false ∧ ∃ ending failures, RunEnd.StemsFrom patience (g, env) ending ∧
        ending.Reached RunStatus.outcome failures (g.runOnce patience env) := by
  have of_begins : ∀ {g₁ env₁}, g.Begins env g₁ env₁ → g.state.isOver = false →
      (g.runOnce patience env).graph.state.isOver = g.state.isOver ∧ reportedBy r = [] ∨
      g.state.isOver = false ∧ ∃ ending failures, RunEnd.StemsFrom patience (g, env) ending ∧
        ending.Reached RunStatus.outcome failures (g.runOnce patience env) := by
    intro g₁ env₁ hbegins hopen
    rcases hbegins.reached h hr with ⟨hrunning, hnone⟩ | hreached
    · exact .inl ⟨by rw [hrunning, hopen]; rfl, hnone⟩
    · exact .inr ⟨hopen, hreached⟩
  rcases g.state.cases_isOver with hopen | hrunning | hover
  · cases hvalid : g.validate with
    | error e =>
      rw [runOnce_invalid hopen hvalid] at hr ⊢
      obtain rfl := Option.some.inj hr
      exact .inl ⟨rfl, rfl⟩
    | ok u => exact of_begins (.started hopen hvalid) (by rw [hopen]; rfl)
  · exact of_begins (.running hrunning) (by rw [hrunning]; rfl)
  · rw [runOnce_over hover] at hr ⊢
    obtain rfl := Option.some.inj hr
    exact .inl ⟨rfl, rfl⟩

/-- A run that comes to its end does so in one of its rounds, or because the policy gives up
after one of them. -/
theorem run_last {r : Except RunError Summary}
    (hr : (run patience n g env).result = some r) : ∃ x ∈ rounds patience n g env,
      (∃ r', (x.1.runOnce patience x.2).result = some r' ∧
        ∀ outcome, r' = .ok outcome → outcome ≠ .progress ∧ outcome ≠ .again) ∨
      ((x.1.runOnce patience x.2).result = some (.ok .again) ∧
        ∃ env', (x.1.runOnce patience x.2).graph.backOff (x.1.runOnce patience x.2).env =
            (false, env') ∧
          run patience n g env =
            ((x.1.runOnce patience x.2).graph.stall env').map (some ∘ .error)) := by
  induction n generalizing g env with
  | zero => cases hr
  | succ n ih =>
    unfold run at hr ⊢
    unfold rounds
    cases hround : g.runOnce patience env with
    | mk result g' env' =>
      rw [hround] at hr
      have hhere : (g.runOnce patience env).result = result := by rw [hround]
      rcases result with _ | e | outcome
      · cases hr
      · exact ⟨(g, env), List.mem_cons_self, .inl ⟨_, hhere, by simp⟩⟩
      cases outcome with
      | finished | cancelled =>
        exact ⟨(g, env), List.mem_cons_self, .inl ⟨_, hhere, by simp⟩⟩
      | progress =>
        obtain ⟨x, hx, hlast⟩ := ih hr
        exact ⟨x, List.mem_cons_of_mem _ hx, hlast⟩
      | again =>
        dsimp only at hr ⊢
        cases hwait : g'.backOff env' with
        | mk goesOn env'' =>
          rw [hwait] at hr
          cases goesOn with
          | true =>
            obtain ⟨x, hx, hlast⟩ := ih hr
            exact ⟨x, List.mem_cons_of_mem _ hx, hlast⟩
          | false =>
            refine ⟨(g, env), List.mem_cons_self, .inr ⟨hhere, env'', ?_, ?_⟩⟩
            · rw [hround, hwait]
            · rw [hround]

/-- No round is made of a graph that is over, apart from a first one that is refused. -/
theorem isOver_of_mem_rounds {x : Graph κ ω × Env ω} (hx : x ∈ rounds patience n g env) :
    x.1.state.isOver = g.state.isOver := by
  refine rounds_invariant (P := fun g' _ => g'.state.isOver = g.state.isOver) ?_
    (fun _ _ h => h) n rfl x hx
  intro g' env' hsame outcome houtcome hgoesOn
  rw [← hsame, running_of_goesOn houtcome hgoesOn]
  cases hover : g'.state.isOver with
  | false => rfl
  | true =>
    rw [runOnce_over hover] at houtcome
    cases houtcome

end Graph

variable {added : List ComponentId}

/-- A run ends its graph and says all there is to say, or it reports nothing. -/
theorem Lifetime.run_reached (h : Lifetime added g env) {r : Except RunError Summary}
    (hr : (Graph.run patience n g env).result = some r) :
    (Graph.run patience n g env).graph.state.isOver = g.state.isOver ∧ reportedBy r = [] ∨
      g.state.isOver = false ∧ ∃ x ∈ Graph.rounds patience n g env, ∃ ending failures,
        RunEnd.StemsFrom patience x ending ∧
        ending.Reached (Graph.run patience n g env).graph.summary failures
          (Graph.run patience n g env) := by
  obtain ⟨x, hx, hlast⟩ := Graph.run_last hr
  have hlife := h.rounds patience n x hx
  have hsame := Graph.isOver_of_mem_rounds hx
  rcases hlast with ⟨r', hr', hends⟩ | ⟨hidle, env', hwait, hrun⟩
  · -- the last round says how the run ends
    have hrun := Graph.run_of_last_round hx hr' hends
    rw [hrun] at hr ⊢
    obtain rfl := Option.some.inj hr
    rcases hlife.sane.runOnce_reached hr' with
      ⟨hkept, hnone⟩ | ⟨hopen, ending, failures, hstems, hreached⟩
    · exact .inl ⟨hkept.trans hsame, (reportedBy_map _ r').trans hnone⟩
    · refine .inr
        ⟨hsame ▸ hopen, x, hx, ending, failures, hstems, hreached.tells, hreached.state, ?_⟩
      obtain rfl := Option.some.inj (hr'.symm.trans hreached.answer)
      rw [ending.map_answer]
      simp only [RunStatus.status_outcome]
  · have hrunning := Graph.running_of_goesOn hidle (.inr rfl)
    have hsane := (hlife.call (.runOnce patience) trivial (congrArg Option.isSome hidle)).sane
    have hwaited : (x.1.runOnce patience x.2).graph.Sane env' := by
      refine hsane.elsewhere ?_
      have habout := (x.1.runOnce patience x.2).graph.backOff_about (x.1.runOnce patience x.2).env
        (x.1.runOnce patience x.2).graph.id
      rwa [hwait] at habout
    obtain ⟨failures, hreached⟩ :=
      hwaited.stall_reached hrunning (Graph.run patience n g env).graph.summary
    refine .inr ⟨?_, x, hx, .stalled _, failures, ⟨hidle, rfl⟩, hrun ▸ hreached⟩
    cases hover : g.state.isOver with
    | false => rfl
    | true =>
      rw [Graph.runOnce_over (hsame.trans hover)] at hidle
      cases hidle

/-! ## Requests -/

namespace Request

/-- The failures to finalize that the answer to a request reports. -/
def reports (g : Graph κ ω) (env : Env ω) : Request κ ω → List FinalizeFailure
  | .runOnce patience => ((g.runOnce patience env).result.map reportedBy).getD []
  | .run patience rounds => ((Graph.run patience rounds g env).result.map reportedBy).getD []
  | .teardown =>
    match (g.teardown env).result with
    | .ok () => []
    | .error e => e.failures
  | .add _ _ _ | .connect _ _ | .link _ _ _ _ | .follow _ | .cancel => []

/-- How a request is answered that ends its graph: by what brought the run to its end, with
the failures to finalize on top, or by these alone. -/
def AnswersEnd (g : Graph κ ω) (env : Env ω) (failures : List FinalizeFailure) :
    Request κ ω → Prop
  | .runOnce patience =>
    ∃ ending, RunEnd.StemsFrom patience (g, env) ending ∧
      ending.Reached RunStatus.outcome failures (g.runOnce patience env)
  | .run patience n =>
    ∃ x ∈ Graph.rounds patience n g env, ∃ ending, RunEnd.StemsFrom patience x ending ∧
      ending.Reached (Graph.run patience n g env).graph.summary failures
        (Graph.run patience n g env)
  | .teardown =>
    (g.teardown env).graph.TellsAll (g.teardown env).env failures ∧
      (g.teardown env).graph.state = .tornDown ∧
      (g.teardown env).result = TeardownError.check failures
  | .add _ _ _ | .connect _ _ | .link _ _ _ _ | .follow _ | .cancel => False

theorem reports_teardown {failures : List FinalizeFailure}
    (h : (g.teardown env).result = TeardownError.check failures) :
    Request.teardown.reports g env = failures := by
  rw [reports, h, TeardownError.check]
  cases failures <;> rfl

/-- A request ends its graph and reports all there is to report, or it reports nothing. -/
theorem reports_cases (h : Lifetime added g env) (r : Request κ ω)
    (hreturned : (r.perform g env).result = true) :
    (r.perform g env).graph.state.isOver = g.state.isOver ∧ r.reports g env = [] ∨
      (g.state.isOver = false ∧ (r.perform g env).graph.state.isOver = true) ∧
        r.AnswersEnd g env (r.reports g env) := by
  cases r with
  | add cls name settings => exact .inl ⟨congrArg _ (g.add_builds cls name settings env).state, rfl⟩
  | connect a b => exact .inl ⟨congrArg _ (g.connect_builds a b env).state, rfl⟩
  | link giver output taker input =>
    exact .inl ⟨congrArg _ (g.link_builds giver output taker input env).state, rfl⟩
  | follow | cancel => exact .inl ⟨rfl, rfl⟩
  | runOnce patience =>
    obtain ⟨r, hr⟩ := Option.isSome_iff_exists.mp hreturned
    have hreports : (Request.runOnce patience).reports g env = reportedBy r := by simp [reports, hr]
    rcases h.sane.runOnce_reached hr with
      ⟨hkept, hnone⟩ | ⟨hopen, ending, failures, hstems, hreached⟩
    · exact .inl ⟨hkept, hreports.trans hnone⟩
    · obtain rfl := Option.some.inj (hr.symm.trans hreached.answer)
      rw [hreports, RunEnd.reportedBy_answer]
      exact .inr ⟨⟨hopen, hreached.isOver⟩, ending, hstems, hreached⟩
  | run patience n =>
    obtain ⟨r, hr⟩ := Option.isSome_iff_exists.mp hreturned
    have hreports : (Request.run patience n).reports g env = reportedBy r := by simp [reports, hr]
    rcases h.run_reached hr with ⟨hkept, hnone⟩ | ⟨hopen, x, hx, ending, failures, hstems, hreached⟩
    · exact .inl ⟨hkept, hreports.trans hnone⟩
    · have hanswer := Option.some.inj (hr.symm.trans hreached.answer)
      rw [hreports, hanswer, RunEnd.reportedBy_answer]
      exact .inr ⟨⟨hopen, hreached.isOver⟩, x, hx, ending, hstems, hreached⟩
  | teardown =>
    have hnoted : g.Sane (env.note (.tearingDown g.name)) := h.sane.elsewhere (Env.about_note _ _ _)
    cases hover : g.state.isOver with
    | true =>
      have hteardown := Graph.teardown_over hover (h.sane.finalized_of_isOver hover) env
      refine .inl ⟨?_, reports_teardown (congrArg After.result hteardown)⟩
      exact (congrArg (·.graph.state.isOver) hteardown).trans hover
    | false =>
      have hteardown := Graph.teardown_open hover env
      obtain ⟨htells, hstate⟩ := hnoted.close_tellsAll hover .tornDown
      rw [reports_teardown (congrArg After.result hteardown)]
      refine .inr ⟨⟨rfl, ?_⟩, ?_⟩
      · change (g.teardown env).graph.state.isOver = true
        rw [hteardown]
        exact congrArg GraphState.isOver hstate
      · rw [AnswersEnd, hteardown]
        exact ⟨htells, hstate, rfl⟩

end Request

/-! ## Afterwards -/

/-- All components of a graph that is over have been finalized. -/
def Graph.IsClosed (g : Graph κ ω) : Prop :=
  g.state.isOver = true ∧ ∀ c ∈ g.components, c.state = .finalized

/-- Nothing that is asked of a closed graph changes it, or has failures to report. -/
theorem Request.closed (h : g.IsClosed) (env : Env ω) (r : Request κ ω) :
    (r.perform g env).graph.IsClosed ∧ r.reports g env = [] := by
  have hfrozen : g.state ≠ .configuring := by
    intro hopen
    have hover := h.1
    rw [hopen] at hover
    cases hover
  cases r with
  | add cls name settings =>
    refine ⟨?_, rfl⟩
    change (g.add cls name settings env).graph.IsClosed
    rw [Graph.add_frozen hfrozen]
    exact h
  | connect a b =>
    refine ⟨?_, rfl⟩
    change (g.connect a b env).graph.IsClosed
    rw [Graph.connect_frozen hfrozen]
    exact h
  | link giver output taker input =>
    refine ⟨?_, rfl⟩
    change (g.link giver output taker input env).graph.IsClosed
    obtain ⟨e, env', hlink, -⟩ := Graph.link_frozen hfrozen giver output taker input env
    rw [hlink]
    exact h
  | follow policy => exact ⟨h, rfl⟩
  | runOnce patience =>
    simp only [perform, reports, Graph.runOnce_over h.1]
    exact ⟨h, rfl⟩
  | run patience n =>
    cases n with
    | zero => exact ⟨h, rfl⟩
    | succ n =>
      simp only [perform, reports, Graph.run_over h.1]
      exact ⟨h, rfl⟩
  | cancel => exact ⟨h, rfl⟩
  | teardown =>
    have hteardown := Graph.teardown_over h.1 h.2 env
    refine ⟨?_, reports_teardown (congrArg After.result hteardown)⟩
    change (g.teardown env).graph.IsClosed
    rw [hteardown]
    exact h

theorem Graph.Later.closed (h : g.Later env g' env') (hclosed : g.IsClosed) : g'.IsClosed := by
  induction h with
  | here => exact hclosed
  | elsewhere _ _ ih => exact ih
  | call _ r ih => exact (r.closed ih _).1

/-- **Failures to finalize are all reported, once, and never hide the cause.**  The request that
ends a graph reports the components that failed to finalize, each with its fault, the last
created first: with the failure that brought the run to its end and the component that is to
blame for it, with the number of idle rounds of a run that stalled, or for themselves after a
run that finished or was cancelled and after a teardown, if there are any. No other request
reports such a failure, and none that follows. -/
theorem Lifetime.failures_reported_once (h : Lifetime added g env) {r : Request κ ω}
    (hfits : r.Fits g) (hreturned : (r.perform g env).result = true) :
    (g.state.isOver = false → (r.perform g env).graph.state.isOver = true →
        r.AnswersEnd g env (r.reports g env)) ∧
      ((r.perform g env).graph.state.isOver = g.state.isOver → r.reports g env = []) ∧
      ((r.perform g env).graph.state.isOver = true → ∀ g' env',
        (r.perform g env).graph.Later (r.perform g env).env g' env' →
        ∀ r' : Request κ ω, r'.reports g' env' = []) := by
  have hcases := r.reports_cases h hreturned
  refine ⟨fun hopen hover => ?ends, fun hkept => ?others, fun hover => ?later⟩
  case ends =>
    rcases hcases with ⟨hkept, -⟩ | ⟨-, hends⟩
    · exact absurd (hkept.symm.trans hover) (by rw [hopen]; decide)
    · exact hends
  case others =>
    rcases hcases with ⟨-, hnone⟩ | ⟨⟨hopen, hover⟩, -⟩
    · exact hnone
    · exact absurd (hkept.symm.trans hover) (by rw [hopen]; decide)
  case later =>
    have hsane := (h.call r hfits hreturned).sane
    intro g' env' hlater r'
    exact (r'.closed (hlater.closed ⟨hover, hsane.finalized_of_isOver hover⟩) env').2

end

/-- A source that fails, and fails to finalize, and a sink that fails to finalize. -/
def frail : Graph Scripted Bench × Env Bench :=
  Graph.build "frail" .standard { places := [("g", 1)] }
    [.add { Scripted.componentClass "letters"
        { label := "giver", failFinalize := some "leak", script := .source [.fail "dry"] .again 0 }
        with ports := [⟨"out", .output⟩] } "giver" .nil,
    .add { Scripted.componentClass "keep"
        { label := "taker", failFinalize := some "stuck", script := .sink [] [] 0 }
        with ports := [⟨"in", .input⟩] } "taker" .nil,
    .link "giver" "out" "taker" "in"]

theorem frail_lifetime : Lifetime [0, 1] frail.1 frail.2 := by
  refine .built (rfl : frail = Graph.build _ _ _ _) ?_
  simp [Request.runs, Request.Fits]

/-- The run fails because of the source, and both components fail to finalize after that. Ending
the graph once more has nothing to add. -/
theorem frail_reports :
    let r : Request Scripted Bench := .run 5 3
    let failures : List FinalizeFailure := [⟨1, "taker", .own "stuck"⟩, ⟨0, "giver", .own "leak"⟩]
    Lifetime [0, 1] frail.1 frail.2 ∧ r.Fits frail.1 ∧ (r.perform frail.1 frail.2).result = true ∧
      (Graph.run 5 3 frail.1 frail.2).result =
        some (.error (.execution ⟨0, "giver", .own "dry", failures⟩)) ∧
      r.AnswersEnd frail.1 frail.2 failures ∧
      Request.teardown.reports (r.perform frail.1 frail.2).graph
        (r.perform frail.1 frail.2).env = [] := by
  have h := frail_lifetime.failures_reported_once (r := .run 5 3) trivial rfl
  exact ⟨frail_lifetime, trivial, rfl, rfl, h.1 rfl rfl, h.2.2 rfl _ _ .here .teardown⟩

end PullGraph
