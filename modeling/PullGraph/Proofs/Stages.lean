import PullGraph.Proofs.Lifetime

/-! # How far a graph has come

The state of a graph and the states of its components are kept apart but go together:
components are initialized while the graph is configured, run while it runs, and are
finalized when it is over. The state changes in few ways, each in its own kind of request,
and a graph that is over has come to rest.
-/
namespace PullGraph

open Relation

variable {κ ω : Type}

/-- The changes of state that a request can make. `valid` says whether the graph passes the
check. -/
inductive Request.Moves (r : Request κ ω) (valid : Prop) : GraphState → GraphState → Prop where
  | start (runs : r.runs = true) (passed : valid) : Moves r valid .configuring .running
  | endRun {state : GraphState} (runs : r.runs = true) (ends : state.EndsRun) :
      Moves r valid .running state
  | tearDown {state : GraphState} (tears : r = .teardown)
      (live : state = .configuring ∨ state = .running) : Moves r valid state .tornDown

variable [Behavior κ ω] {g g' : Graph κ ω} {env env' : Env ω} {added : List ComponentId}

namespace Graph

theorem Advance.state_eq_or_endsRun (h : Advance g env g' env') :
    g'.state = g.state ∨ g.state = .running ∧ g'.state.EndsRun := by
  cases h with
  | remark => exact .inl rfl
  | tally => exact .inl rfl
  | pull patience hdue _ => exact .inl (hdue.passes patience env).leads.state
  | close hrunning hends => exact .inr ⟨hrunning, hends⟩

/-- In the course of a run the state changes only to say how the run ended. -/
theorem Course.moves {r : Request κ ω} {valid : Prop} (hr : r.runs = true) {returned : Bool}
    (h : Course g env returned g' env') : ReflTransGen (r.Moves valid) g.state g'.state := by
  induction h with
  | done => exact .refl
  | pause => exact .refl
  | @broken g env id index patience hdue _ =>
    rw [(hdue.passes patience env).leads.state]
  | next hstep _ ih =>
    rcases hstep.state_eq_or_endsRun with hsame | ⟨hrunning, hends⟩
    · rw [← hsame]
      exact ih
    · rw [hrunning]
      exact .head (.endRun hr hends) ih

theorem Ran.moves {r : Request κ ω} (hr : r.runs = true) {returned : Bool}
    (h : Ran g env returned g' env') :
    ReflTransGen (r.Moves (g.validate = .ok ())) g.state g'.state := by
  cases h with
  | unchanged => exact .refl
  | resumed _ hcourse => exact hcourse.moves hr
  | started hopen hvalid hcourse =>
    rw [hopen]
    refine .head (.start hr hvalid) ?_
    rw [← start_state hvalid env]
    exact hcourse.moves hr

theorem teardown_state (g : Graph κ ω) (env : Env ω) :
    (g.teardown env).graph.state = if g.state.isOver then g.state else .tornDown := by
  unfold teardown
  cases hstate : g.state with
  | configuring | running => rfl
  | finished | cancelled | faulted | tornDown => exact hstate

end Graph

/-- A request moves the state of a graph as `Moves` says, and in no other way. -/
theorem Request.moves (g : Graph κ ω) (env : Env ω) (r : Request κ ω) :
    ReflTransGen (r.Moves (g.validate = .ok ())) g.state (r.perform g env).graph.state := by
  have of_eq : ∀ {state : GraphState}, state = g.state →
      ReflTransGen (r.Moves (g.validate = .ok ())) g.state state := by
    rintro state rfl
    exact .refl
  cases r with
  | add cls name settings => exact of_eq (g.add_builds cls name settings env).state
  | connect a b => exact of_eq (g.connect_builds a b env).state
  | link giver output taker input => exact of_eq (g.link_builds giver output taker input env).state
  | follow policy => exact .refl
  | runOnce patience => exact (g.runOnce_ran patience env).moves rfl
  | run patience rounds => exact (g.run_ran patience rounds env).moves rfl
  | cancel => exact .refl
  | teardown =>
    change ReflTransGen _ g.state (g.teardown env).graph.state
    rw [g.teardown_state]
    rcases g.state.cases_isOver with hopen | hrunning | hover
    · rw [hopen]
      exact .single (.tearDown rfl (.inl rfl))
    · rw [hrunning]
      exact .single (.tearDown rfl (.inr rfl))
    · rw [if_pos hover]

/-- **A graph and its components come equally far.**  Components are initialized, running or
finalized as the state of the graph says, also where a request does not come to its end. The
state changes only from configuring to running, in a round or a run of a graph that passes
the check, from there to how the run ended, and from both when the graph is ended. A graph
that fails the check, and one that is over, stay as they are: they do not run, and a graph
that is over is not ended twice. -/
theorem Lifetime.stages_and_moves (h : Lifetime added g env) :
    (∀ c ∈ g.components, c.state = g.state.stage) ∧
      (∀ r : Request κ ω, r.Fits g →
        ReflTransGen (r.Moves (g.validate = .ok ())) g.state (r.perform g env).graph.state ∧
        ∀ c ∈ (r.perform g env).graph.components,
          c.state = (r.perform g env).graph.state.stage) ∧
      (∀ e, g.state = .configuring → g.validate = .error e → ∀ patience rounds,
        g.runOnce patience env = ⟨some (.error (.validation e)), g, env⟩ ∧
        Graph.run patience (rounds + 1) g env = ⟨some (.error (.validation e)), g, env⟩) ∧
      (g.state.isOver = true → ∀ patience rounds,
        g.runOnce patience env = ⟨some (.error (.notRunnable g.state)), g, env⟩ ∧
        Graph.run patience (rounds + 1) g env = ⟨some (.error (.notRunnable g.state)), g, env⟩ ∧
        g.teardown env = ⟨.ok (), g, env.note (.tearingDown g.name)⟩) := by
  refine ⟨h.sane.stages, ?moves, ?invalid, ?atRest⟩
  case moves =>
    intro r hfits
    exact ⟨r.moves g env, (r.lawful h.sane hfits).1.stages⟩
  case invalid =>
    intro e hopen hvalid patience rounds
    exact ⟨Graph.runOnce_invalid hopen hvalid patience env,
      Graph.run_invalid hopen hvalid patience rounds env⟩
  case atRest =>
    intro hover patience rounds
    exact ⟨Graph.runOnce_over hover patience env, Graph.run_over hover patience rounds env,
      Graph.teardown_over hover (h.sane.finalized_of_isOver hover) env⟩

/-- The pipeline is over after its run: its components are finalized, and it does not run
again. -/
theorem pipeline_over :
    let x := (Request.run 5 9).perform pipeline.1 pipeline.2
    Lifetime [0, 1, 2] x.graph x.env ∧ x.graph.state = .finished ∧
      (∀ c ∈ x.graph.components, c.state = .finalized) ∧
      x.graph.runOnce 5 x.env = ⟨some (.error (.notRunnable .finished)), x.graph, x.env⟩ :=
  have h : Lifetime [0, 1, 2] _ _ := pipeline_lifetime.call (.run 5 9) trivial rfl
  ⟨h, by decide, h.stages_and_moves.1, (h.stages_and_moves.2.2.2 (by decide) 5 0).1⟩

end PullGraph
