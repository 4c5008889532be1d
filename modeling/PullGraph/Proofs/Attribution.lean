import PullGraph.Proofs.Blame

/-! # Who is to blame

A component that fails takes the run down with it, and the run names that component and
gives its own words. Filters in between cannot change that, for the first failure of a step
is looked at before the sink is handed anything. If there is none, the step can only fail
at the sink itself.
-/
namespace PullGraph

variable {κ ω : Type}

section

variable [Behavior κ ω]

/-- The first failure that a component's own pull came to in a step. -/
def Step.firstFailure? (s : Step κ ω) (patience : Nat) : Option Failure :=
  (s.events patience).findSome? Event.failure?

/-- Who is to blame for a step that fails. -/
structure Step.Attributes (s : Step κ ω) (patience : Nat) : Prop where
  /-- The first failure of a component is that of the step, and the sink is handed nothing. -/
  first : ∀ f, s.firstFailure? patience = some f →
    (s.after patience).result = some (.error f) ∧ ∀ e ∈ s.events patience, e.isArrival = false
  /-- Without one, the step fails only if the sink does with what it is handed. -/
  last : s.firstFailure? patience = none → ∀ f, (s.after patience).result = some (.error f) →
    f.component = s.sink ∧ ∃ port arrival, .call s.graph.id s.sink
      (Graph.arrivalCall port arrival (some f.cause)) ∈ s.events patience
  present : ∀ f, (s.after patience).result = some (.error f) →
    f.component < s.graph.components.length

/-- What a step writes down. To the entries of its pull it adds what the sink is handed, if it
is handed anything. -/
theorem Step.Due.report {s : Step κ ω} (h : s.Due) (hsteady : s.graph.Steady) {patience : Nat}
    {r : Except Fault Pull} {t : Turn κ ω} (hpulled : s.pulled patience = ⟨some r, t⟩) :
    ∃ es, t.failure = es.findSome? Event.failure? ∧
      (∀ e ∈ es, e.isArrival = false ∧
        ∀ f, e.failure? = some f → f.component < s.graph.components.length) ∧
      ((∃ f, t.failure = some f ∧ s.events patience = es ∧
          (s.after patience).result = some (.error f)) ∨
        (t.failure = none ∧ s.events patience = es ∧ (s.after patience).result = some (.ok false)) ∨
        (t.failure = none ∧ ∃ port arrival verdict, s.events patience = es ++
            [.call s.graph.id s.sink (Graph.arrivalCall port arrival (Component.faultOf verdict))] ∧
          (s.after patience).result = some (sinkVerdict s.sink verdict))) := by
  obtain ⟨htopology, es, habout, hfailure, hes⟩ := h.blames hpulled
  refine ⟨es, hfailure, hes, ?_⟩
  have houtcome := h.outcome hsteady hpulled
  generalize hafter : s.after patience = x at houtcome
  cases houtcome with
  | @failed f hf => exact .inl ⟨f, hf, s.events_eq (by rw [hafter]; exact habout), rfl⟩
  | idle hnone => exact .inr (.inl ⟨hnone, s.events_eq (by rw [hafter]; exact habout), rfl⟩)
  | @delivered pull arrival c k p hnone _ _ hc hb hk hp =>
    have hid : t.graph.id = s.graph.id := congrArg Topology.id htopology
    rw [Graph.deliver_eq hc hb hk hp] at hafter ⊢
    refine .inr (.inr ⟨hnone, p.name, arrival, _, s.events_eq ?_, rfl⟩)
    have hrecorded := @Journal.about_record_call s.graph.id t.env.journal s.sink
      (Graph.arrivalCall p.name arrival
        (Component.faultOf (t.env.perform (Graph.receive p.name arrival k)).1.1))
    rw [habout, List.append_assoc] at hrecorded
    rw [hafter, ← hrecorded, ← hid]
    rfl

/-- The failure that a step keeps is the first that it writes down. -/
theorem Step.Due.firstFailure?_eq {s : Step κ ω} (h : s.Due) (hsteady : s.graph.Steady)
    {patience : Nat} {r : Except Fault Pull} {t : Turn κ ω}
    (hpulled : s.pulled patience = ⟨some r, t⟩) : s.firstFailure? patience = t.failure := by
  obtain ⟨es, hfailure, -, hreport⟩ := h.report hsteady hpulled
  rw [Step.firstFailure?, hfailure]
  rcases hreport with ⟨f, -, hevents, -⟩ | ⟨-, hevents, -⟩ | ⟨-, port, arrival, verdict, hevents, -⟩
  · rw [hevents]
  · rw [hevents]
  · have harrival : (Event.call s.graph.id s.sink
        (Graph.arrivalCall port arrival (Component.faultOf verdict))).failure? = none := by
      cases arrival <;> rfl
    simp [hevents, List.findSome?_append, harrival]

theorem Step.Due.attributes {s : Step κ ω} (h : s.Due) (hsteady : s.graph.Steady) {patience : Nat}
    (hreturned : (s.after patience).result.isSome = true) : s.Attributes patience := by
  obtain ⟨r, t, hpulled⟩ := s.pulled_of_returned hreturned
  have hfirst := h.firstFailure?_eq hsteady hpulled
  obtain ⟨es, hfailure, hes, hreport⟩ := h.report hsteady hpulled
  rcases hreport with ⟨f, hf, hevents, hresult⟩ | ⟨hnone, -, hresult⟩ |
    ⟨hnone, port, arrival, verdict, hevents, hresult⟩
  · have hsame : ∀ f', (s.after patience).result = some (.error f') → f' = f := by
      intro f' hf'
      rw [hresult] at hf'
      exact (Except.error.inj (Option.some.inj hf')).symm
    refine ⟨fun f' hf' => ?_, fun hnone => ?_, fun f' hf' => ?_⟩
    · obtain rfl : f' = f := Option.some.inj (hf'.symm.trans (hfirst.trans hf))
      rw [hevents]
      exact ⟨hresult, fun e he => (hes e he).1⟩
    · exact nomatch hf.symm.trans (hfirst.symm.trans hnone)
    · obtain rfl := hsame f' hf'
      obtain ⟨e, he, heq⟩ := List.exists_of_findSome?_eq_some (hfailure.symm.trans hf)
      exact (hes e he).2 f' heq
  · refine ⟨fun f hf => ?_, fun _ f hf => ?_, fun f hf => ?_⟩
    · exact nomatch hf.symm.trans (hfirst.trans hnone)
    · exact nomatch hf.symm.trans hresult
    · exact nomatch hf.symm.trans hresult
  · have hfailed : ∀ f, (s.after patience).result = some (.error f) →
        verdict = .error f.cause ∧ f.component = s.sink := by
      intro f hf
      rw [hresult] at hf
      cases verdict with
      | ok u => cases hf
      | error cause =>
        obtain rfl := Except.error.inj (Option.some.inj hf)
        exact ⟨rfl, rfl⟩
    refine ⟨fun f hf => ?_, fun _ f hf => ?_, fun f hf => ?_⟩
    · exact nomatch hf.symm.trans (hfirst.trans hnone)
    · obtain ⟨rfl, hsink⟩ := hfailed f hf
      refine ⟨hsink, port, arrival, ?_⟩
      rw [hevents]
      exact List.mem_append_right es (List.mem_singleton_self _)
    · obtain ⟨c, hc, -⟩ := s.graph.topology_kind?_eq_some.mp (hsteady.wired.mem_sinks.mp h.sink)
      rw [(hfailed f hf).2]
      exact (List.getElem?_eq_some_iff.mp hc).1

omit [Behavior κ ω] in
/-- A component of a graph has its name in every graph of the same topology. -/
theorem Graph.component_of_topology_eq {g g' : Graph κ ω} (h : g'.topology = g.topology) {i : Nat}
    {c : Component κ} (hc : g.components[i]? = some c) :
    ∃ c', g'.components[i]? = some c' ∧ c'.name = c.name := by
  have houtline : g.topology.components[i]? = some c.outline := by
    rw [topology_getElem?, hc]
    rfl
  rw [← h, topology_getElem?, Option.map_eq_some_iff] at houtline
  obtain ⟨c', hc', heq⟩ := houtline
  exact ⟨c', hc', congrArg Outline.name heq⟩

/-- A round names the component that is to blame. -/
theorem Graph.fail_result {g : Graph κ ω} {f : Failure} {c : Component κ}
    (hc : g.components[f.component]? = some c) (env : Env ω) :
    ∃ failures, (g.fail f env).result =
      .error (.execution ⟨f.component, c.name, f.cause, failures⟩) := by
  simp only [fail, hc]
  exact ⟨_, rfl⟩

/-- **The first failure wins.**  In every step of every run, the first failure of a component's
own pull fails the step, whatever those downstream made of it, and the sink is handed nothing.
Without one, only the sink can fail the step. What fails a step fails the round and the run:
they name the component and give its fault, which is its own if no component makes up the
executor's. Nothing else makes a round blame a component. -/
theorem Lifetime.first_failure_wins {added : List ComponentId} {g : Graph κ ω} {env : Env ω}
    (h : Lifetime added g env) (patience n : Nat) {x : Graph κ ω × Env ω}
    (hx : x ∈ Graph.rounds patience n g env) :
    (∀ s ∈ x.1.steps patience x.2, (s.after patience).result.isSome = true →
      s.Attributes patience ∧
      (∀ f, (s.after patience).result = some (.error f) → ∃ c failures,
        x.1.components[f.component]? = some c ∧
        (x.1.runOnce patience x.2).result =
          some (.error (.execution ⟨f.component, c.name, f.cause, failures⟩)) ∧
        (Graph.run patience n g env).result =
          some (.error (.execution ⟨f.component, c.name, f.cause, failures⟩))) ∧
      (∀ good fine, Candid good fine → g.Clean good fine env → g.policy.Keeps fine →
        ∀ f, s.firstFailure? patience = some f → f.cause ≠ .feederFailed)) ∧
    (∀ e, (x.1.runOnce patience x.2).result = some (.error (.execution e)) →
      ∃ s ∈ x.1.steps patience x.2, (s.after patience).result = some (.error ⟨e.id, e.cause⟩)) := by
  have hsane := (h.rounds patience n x hx).sane
  refine ⟨fun s hs hreturned => ?_, fun e he => hsane.exists_failed he⟩
  obtain ⟨hsaneStep, htopology⟩ := hsane.mem_steps hs
  obtain ⟨hdue, hround⟩ := hsane.due_of_mem_steps hs
  have hsteady := hsaneStep.steady hdue.running
  have hattributes := hdue.attributes hsteady hreturned
  refine ⟨hattributes, ?fails, ?own⟩
  case fails =>
    intro f hf
    have hlength := hattributes.present f hf
    have hafter := (hdue.passes patience).leads.topology
    rw [Graph.length_eq_of_topology_eq htopology] at hlength
    obtain ⟨c, hc⟩ : ∃ c, x.1.components[f.component]? = some c :=
      ⟨_, List.getElem?_eq_getElem hlength⟩
    obtain ⟨c', hc', hname⟩ := Graph.component_of_topology_eq (hafter.trans htopology) hc
    obtain ⟨failures, hfail⟩ := Graph.fail_result hc' (s.after patience).env
    have hfailed : (x.1.runOnce patience x.2).result =
        some (.error (.execution ⟨f.component, c.name, f.cause, failures⟩)) := by
      rw [hround f hf, ← hname]
      exact congrArg some hfail
    exact ⟨c, failures, hc, hfailed, Graph.run_result_of_mem_rounds hx hfailed⟩
  case own =>
    intro good fine hcandid hclean hpolicy f hf
    obtain ⟨r, t, hpulled⟩ := s.pulled_of_returned hreturned
    have hupright := hcandid.rounds ⟨h.sane, hclean, hpolicy⟩ patience n x hx
    have hstep := (hcandid.stepInvariant patience).steps hsane (fun _ _ => hupright.begins) s hs
    exact (hcandid.step hdue hsteady hstep.clean hpulled).1 f
      ((hdue.firstFailure?_eq hsteady hpulled).symm.trans hf)

end

/-- Standard components do not make up the executor's fault. -/
theorem Standard.candid : Candid (fun _ : Standard ω => True) (fun _ : ω => True) where
  emit port k w _ _ := ⟨(fun h => by cases h), trivial, trivial⟩
  answer port k _ := by
    cases k with
    | transform f =>
      intro r hr
      rcases r with fault | m | _ | _
      · exact ⟨hr, trivial⟩
      · dsimp only
        rcases f m with text | _ | m'
        · exact ⟨by simp, trivial⟩
        · trivial
        · exact ⟨by simp, trivial⟩
      · exact ⟨hr, trivial⟩
      · exact ⟨hr, trivial⟩
    | counter | items | passthrough | discard | collect => exact fun r hr => ⟨hr, trivial⟩
  receive _ _ _ _ _ _ := ⟨trivial, trivial⟩

/-- A filter that finds fault with every message, and a filter and a sink downstream. -/
def brittle : Graph (Standard (List Message)) (List Message) × Env (List Message) :=
  Graph.build "brittle" .standard []
    [.add (Standard.itemsClass "letters" [.int 1]) "giver" .nil,
    .add (Standard.transformClass "strict" fun _ => .error "odd") "checker" .nil,
    .add Standard.passthroughClass "middle" .nil,
    .add (Standard.collectClass "keep" fun m kept => kept ++ [m]) "taker" .nil,
    .link "giver" "out" "checker" "in",
    .link "checker" "out" "middle" "in",
    .link "middle" "out" "taker" "in"]

theorem brittle_lifetime : Lifetime [0, 1, 2, 3] brittle.1 brittle.2 := by
  refine .built (rfl : brittle = Graph.build _ _ _ _) ?_
  simp [Request.runs, Request.Fits]

/-- The filter in the middle fails too, but only because the checker did. -/
theorem brittle_first_failure :
    Lifetime [0, 1, 2, 3] brittle.1 brittle.2 ∧
      (brittle.1.steps 9 brittle.2).map (fun s => (s.events 9).filterMap Event.failure?) =
        [[⟨1, .own "odd"⟩, ⟨2, .feederFailed⟩]] ∧
      (∀ s ∈ brittle.1.steps 9 brittle.2, (s.after 9).result.isSome = true →
        ∀ f, s.firstFailure? 9 = some f → f.cause ≠ .feederFailed) ∧
      (brittle.1.runOnce 9 brittle.2).result =
        some (.error (.execution ⟨1, "checker", .own "odd", []⟩)) ∧
      ∃ s ∈ brittle.1.steps 9 brittle.2, (s.after 9).result = some (.error ⟨1, .own "odd"⟩) := by
  have h := brittle_lifetime.first_failure_wins 9 1 (x := brittle) List.mem_cons_self
  refine ⟨brittle_lifetime, rfl, fun s hs hreturned => ?_, rfl, h.2 _ rfl⟩
  exact (h.1 s hs hreturned).2.2 _ _ Standard.candid ⟨trivial, fun _ _ => trivial⟩
    fun _ _ _ => trivial

end PullGraph
