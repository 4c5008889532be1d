import PullGraph.Run.Round

/-! # Running to the end

A run repeats rounds. After a round in which nothing moved it asks the policy of the
graph how long to wait, and gives up if the policy does. A run need not end: `rounds`
bounds how many of them are made, and there is no result if more are needed, or if
`patience` ran out in one of them.
-/
namespace PullGraph

/-- How a run ended. -/
inductive RunStatus where
  | finished
  | cancelled
  deriving DecidableEq, Repr

/-- What a run that came to its end did. -/
structure Summary where
  status : RunStatus
  rounds : UInt64
  messages : UInt64
  deriving DecidableEq, Repr

namespace Graph

variable {κ ω : Type} [Behavior κ ω]

/-- The summary of a run. -/
def summary (g : Graph κ ω) (status : RunStatus) : Summary :=
  ⟨status, g.stats.rounds, g.stats.messages⟩

/-- Ends a run in which nothing moved for too long. -/
def stall (g : Graph κ ω) (env : Env ω) : After κ ω RunError :=
  let env := env.note (.gaveUp g.name g.stats.idleRounds)
  let after := g.close .faulted env
  ⟨.stalled g.stats.idleRounds after.result, after.graph, after.env⟩

/-- Waits as long as the policy says; `false` if it gives up. -/
def backOff (g : Graph κ ω) (env : Env ω) : Bool × Env ω :=
  match env.perform (g.policy.delay g.stats.idleRounds) with
  | (none, env) => (false, env)
  | (some delay, env) => (true, env.note (.backingOff g.name g.stats.idleRounds delay))

/-- Runs a graph until it ends. -/
def run (patience : Nat) :
    (rounds : Nat) → Graph κ ω → Env ω → After κ ω (Option (Except RunError Summary))
  | 0, g, env => ⟨none, g, env⟩
  | rounds + 1, g, env =>
    match g.runOnce patience env with
    | ⟨none, g, env⟩ => ⟨none, g, env⟩
    | ⟨some (.error e), g, env⟩ => ⟨some (.error e), g, env⟩
    | ⟨some (.ok .finished), g, env⟩ => ⟨some (.ok (g.summary .finished)), g, env⟩
    | ⟨some (.ok .cancelled), g, env⟩ => ⟨some (.ok (g.summary .cancelled)), g, env⟩
    | ⟨some (.ok .progress), g, env⟩ => run patience rounds g env
    | ⟨some (.ok .again), g, env⟩ =>
      match g.backOff env with
      | (true, env) => run patience rounds g env
      | (false, env) => (g.stall env).map (some ∘ .error)

end Graph
end PullGraph
