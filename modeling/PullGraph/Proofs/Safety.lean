import PullGraph.Proofs.Lifetime

/-! # Graphs do not go wrong

Whoever builds a graph may build any graph. The check tells those that can run from those
that cannot, by paths of connections alone, and a graph that passed it never comes to a
point where the executor has to refuse what a component asks for. That is so for all
components: the argument is about where pulls can go, not about what is done there.
-/
namespace PullGraph

variable {κ ω : Type} [Behavior κ ω] {g : Graph κ ω} {env : Env ω} {added : List ComponentId}

/-- **The check is right.**  It passes iff the graph has a sink, everything that a sink
depends on is connected and without cycles, and every input port of a sink has a source
upstream. The bound on the depth of its walk has no part in that. -/
theorem Lifetime.validate_passes_iff_wellFormed (h : Lifetime added g env) :
    (g.validate = .ok () ↔ g.topology.WellFormed) ∧
      ∀ depth id marks, marks.length = g.components.length → g.components.length ≤ depth →
        g.visit depth id marks = g.visit g.components.length id marks := by
  refine ⟨g.validate_iff h.sane.wired, fun depth id marks hlen hdepth => ?_⟩
  have hcount : marks.count .unvisited ≤ g.components.length := hlen ▸ List.count_le_length
  exact Graph.visit_depth_irrelevant hlen (Nat.le_trans hcount hdepth) hcount

/-- The pipeline passes the check, so it is well formed. -/
theorem pipeline_wellFormed :
    Lifetime [0, 1, 2] pipeline.1 pipeline.2 ∧ pipeline.1.validate = .ok () ∧
      pipeline.1.topology.WellFormed :=
  ⟨pipeline_lifetime, rfl, pipeline_lifetime.validate_passes_iff_wellFormed.1.mp rfl⟩

/-- **Graphs do not go wrong.**  Whatever a graph has been through and whatever is asked of
it next, the executor refuses nothing, and when the request comes to its end all inner states
are in place. What it would refuse are the pulls that cannot go through, of a port that is
missing or unconnected, from a component that is being called, or from a sink, and arrivals
without a sink that can take them. It lets none of these pass in silence, so none was met. -/
theorem Lifetime.refusals_eq_nil_and_inPlace (h : Lifetime added g env) (r : Request κ ω)
    (hfits : r.Fits g) :
    (r.perform g env).env.journal.refusals g.id = [] ∧
      ((r.perform g env).result = true → (r.perform g env).graph.InPlace) ∧
      (∀ (converse : Converse κ ω) (t : Turn κ ω) id index, ¬ t.graph.CanPull id index →
        ∃ fault, (pullInput converse id index t).turn.env.journal.refusals t.graph.id =
          t.env.journal.refusals t.graph.id ++ [fault]) ∧
      (∀ (g' : Graph κ ω) env' id index arrival, ¬ g'.CanTake id →
        ∃ fault, (g'.deliver id index arrival env').env.journal.refusals g'.id =
          env'.journal.refusals g'.id ++ [fault]) := by
  obtain ⟨hlawful, hinPlace⟩ := r.lawful h.sane hfits
  have hrefusals := hlawful.ledger.refusals
  rw [r.perform_id g env] at hrefusals
  refine ⟨hrefusals, hinPlace, ?pull, ?arrival⟩
  case pull =>
    intro converse t id index hblocked
    exact pullInput_refused converse hblocked
  case arrival =>
    intro g' env' id index arrival hblocked
    exact Graph.deliver_refused hblocked index arrival env'

/-- The pipeline runs to its end and meets nothing to refuse. -/
theorem pipeline_run_refusals :
    Lifetime [0, 1, 2] pipeline.1 pipeline.2 ∧
      ((Request.run 5 9).perform pipeline.1 pipeline.2).result = true ∧
      ((Request.run 5 9).perform pipeline.1 pipeline.2).env.journal.refusals pipeline.1.id = [] ∧
      ((Request.run 5 9).perform pipeline.1 pipeline.2).graph.InPlace :=
  have h := pipeline_lifetime.refusals_eq_nil_and_inPlace (.run 5 9) trivial
  ⟨pipeline_lifetime, rfl, h.1, h.2.1 rfl⟩

end PullGraph
