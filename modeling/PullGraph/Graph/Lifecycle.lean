import PullGraph.Graph.Basic

/-! # The end of a graph

When a graph ends, in whatever way, its components are finalized in reverse order of
creation, each once. One that fails does not keep the others from it; all failures are
reported.
-/
namespace PullGraph

/-- A component that failed to finalize. -/
structure FinalizeFailure where
  id : ComponentId
  component : String
  cause : Fault
  deriving DecidableEq, Repr

/-- The wording of a failure to finalize. -/
def FinalizeFailure.message (f : FinalizeFailure) : String :=
  s!"{f.component}: {f.cause.message}"

/-- Components that failed to finalize, in the order in which they did. -/
structure TeardownError where
  failures : List FinalizeFailure
  deriving DecidableEq, Repr

namespace TeardownError

/-- The wording for components that failed to finalize. -/
def message (e : TeardownError) : String :=
  s!"{e.failures.length} component(s) failed to finalize"

/-- Fails with the given failures, if there are any. -/
def check (failures : List FinalizeFailure) : Except TeardownError Unit :=
  if failures.isEmpty then .ok () else .error ⟨failures⟩

end TeardownError

namespace Graph

variable {κ ω : Type} [Behavior κ ω]

/-- Finalizes a list of components from its end. -/
def finalizeList (graph : String) :
    List (Component κ) → Env ω → List FinalizeFailure × List (Component κ) × Env ω
  | [], env => ([], [], env)
  | c :: cs, env =>
    let (failures, cs, env) := finalizeList graph cs env
    let (fault, c, env) := c.finalize env
    match fault with
    | none => (failures, c :: cs, env)
    | some fault =>
      (failures ++ [⟨c.id, c.name, fault⟩], c :: cs, env.note (.finalizeFailed graph c.name fault))

/-- Finalizes every component that has not been finalized. -/
def finalizeAll (g : Graph κ ω) (env : Env ω) : After κ ω (List FinalizeFailure) :=
  let (failures, components, env) := finalizeList g.name g.components env
  ⟨failures, { g with components := components }, env⟩

/-- Ends a graph. It cannot run afterwards; ending it again does nothing. -/
def teardown (g : Graph κ ω) (env : Env ω) : After κ ω (Except TeardownError Unit) :=
  let env := env.note (.tearingDown g.name)
  let g := match g.state with
    | .configuring | .running => { g with state := .tornDown }
    | _ => g
  let after := g.finalizeAll env
  ⟨TeardownError.check after.result, after.graph, after.env⟩

/-- The environment once a graph is given up. What is left of it is finalized. -/
def discard (g : Graph κ ω) (env : Env ω) : Env ω := (g.finalizeAll env).env

end Graph
end PullGraph
