import PullGraph.Proofs.Abreast
import PullGraph.Proofs.Steps

/-! # Steps take no notice of cancellations

A pull step is never cut short: nothing that happens in it depends on which runs have been
cancelled, before it or in the middle of it. To say so, take the components of a graph as
they would be if they could not cancel anything (`Behavior.hushed`), in an environment where
nothing has been cancelled. They go through the same step, call by call, and it comes to the
same (`Graph.sinkStep_hushed`): the two sides are abreast, each environment tied to what it would
be without its cancellations.
-/
namespace PullGraph

variable {κ ω α : Type}

/-- An act without the cancellations that it asks for. -/
def Act.hush (x : Act ω α) : Act ω α := fun w => ⟨(x w).value, (x w).shared, []⟩

/-- A dialogue without the cancellations that it asks for. -/
def Dialogue.hush : Dialogue κ ω → Dialogue κ ω
  | .reply answer k => .reply answer k
  | .retry k => .retry k
  | .pull port next => .pull port fun r => (next r).hush
  | .batch port max next => .batch port max fun r => (next r).hush
  | .atEnd port next => .atEnd port fun b => (next b).hush
  | .inputs next => .inputs fun id names => (next id names).hush
  | .look next => .look fun w => (next w).hush
  | .act step next => .act step.hush next.hush

/-- Components as they would be if they could not cancel anything. -/
abbrev Behavior.hushed (B : Behavior κ ω) : Behavior κ ω where
  setUp settings k := (B.setUp settings k).hush
  emit port k := (B.emit port k).hush
  answer port k := (B.answer port k).hush
  consume port m k := (B.consume port m k).hush
  endOfStream port k := (B.endOfStream port k).hush
  finalize k := (B.finalize k).hush

/-- The environment if nothing had been cancelled. -/
def Env.hush (env : Env ω) : Env ω := { env with cancelled := [] }

/-- What a call would leave behind if nothing had been cancelled. -/
def After.hush (x : After κ ω α) : After κ ω α := ⟨x.result, x.graph, x.env.hush⟩

theorem Act.abreast_hush (x : Act ω α) : x.Abreast (fun env env' => env' = env.hush) x.hush := by
  rintro env _ rfl
  exact ⟨rfl, rfl⟩

theorem Dialogue.abreast_hush (d : Dialogue κ ω) :
    d.Abreast (fun env env' => env' = env.hush) d.hush := by
  induction d with
  | reply answer k => exact .reply answer k
  | retry k => exact .retry k
  | pull port next ih => exact .pull port ih
  | batch port max next ih => exact .batch port max ih
  | atEnd port next ih => exact .atEnd port ih
  | inputs next ih => exact .inputs ih
  | look next ih =>
    refine .look ?_
    rintro env _ rfl
    exact ih env.shared
  | act step next ih => exact .act step.abreast_hush ih

/-- Components do the same without their cancellations, where nothing has been cancelled. -/
theorem Behavior.abreast_hushed (B : Behavior κ ω) :
    B.Abreast (fun env env' => env' = env.hush) B.hushed where
  record := by
    rintro env _ e rfl
    rfl
  emit port k := (B.emit port k).abreast_hush
  answer port k := (B.answer port k).abreast_hush
  consume port m k := (B.consume port m k).abreast_hush
  endOfStream port k := (B.endOfStream port k).abreast_hush
  finalize k := (B.finalize k).abreast_hush

variable [B : Behavior κ ω]

/-- **A pull step takes no notice of cancellations**, whoever asks for them and when. -/
theorem Graph.sinkStep_hushed (g : Graph κ ω) (patience : Nat) (id : ComponentId) (index : Nat)
    (env : Env ω) :
    @Graph.sinkStep κ ω B.hushed g patience id index env.hush =
      (g.sinkStep patience id index env).hush := by
  have hstep := g.sinkStep_abreast B.abreast_hushed patience id index (rfl : env.hush = _)
  generalize g.sinkStep patience id index env = x,
    @Graph.sinkStep κ ω B.hushed g patience id index env.hush = x' at hstep ⊢
  obtain ⟨result, g', rfl⟩ := hstep
  rfl

/-- The step if nothing had been cancelled before it. -/
def Step.hush (s : Step κ ω) : Step κ ω := { s with env := s.env.hush }

theorem Step.after_hushed (s : Step κ ω) (patience : Nat) :
    @Step.after κ ω B.hushed s.hush patience = (s.after patience).hush :=
  s.graph.sinkStep_hushed patience s.sink s.index s.env

end PullGraph
