import PullGraph.Proofs.Tandem

/-! # Rounds in lockstep

A graph and a part of it that stands in a graph of its own make their rounds side by side. A
step for a sink of the part is made in both graphs and comes to the same; a step for another
sink is made in the one graph only. So as long as the rounds of the whole go well those of the
part do, and the part has come equally far in both.

The part may have nothing left to do while the rest goes on. Then it is finalized in its own
graph and not in the whole, which is the one thing that the two do not have in common. It is
left out by `Graph.unclosed`: what rounds lead to, up to the end of the run if there is one.
-/
namespace PullGraph

variable {κ ω σ : Type}

/-! ## Steps -/

namespace Border

variable {b : Border κ ω σ} {place : Placement} {g g' : Graph κ ω} {env env' : Env ω}

theorem Tied.tally_left (h : b.Tied place g env g' env') (stats : Stats) :
    b.Tied place { g with stats := stats } env g' env' :=
  ⟨h.mirrors, h.parts, h.ours, h.theirs, h.shared, h.cancelled, h.calls⟩

theorem Tied.tally_right (h : b.Tied place g env g' env') (stats : Stats) :
    b.Tied place g env { g' with stats := stats } env' :=
  ⟨h.mirrors, h.parts, h.ours, h.theirs, h.shared, h.cancelled, h.calls⟩

theorem Tied.count_left (h : b.Tied place g env g' env') (arrival : Option Message) :
    b.Tied place (g.count arrival) env g' env' := by
  cases arrival with
  | none => exact h
  | some m => exact h.tally_left _

theorem Tied.count_right (h : b.Tied place g env g' env') (arrival : Option Message) :
    b.Tied place g env (g'.count arrival) env' := by
  cases arrival with
  | none => exact h
  | some m => exact h.tally_right _

theorem Tied.note_left (h : b.Tied place g env g' env') (n : Notice) :
    b.Tied place g (env.note n) g' env' :=
  ⟨h.mirrors, h.parts, h.ours, h.theirs, h.shared, h.cancelled, by simpa [Env.note] using h.calls⟩

theorem Tied.note_right (h : b.Tied place g env g' env') (n : Notice) :
    b.Tied place g env g' (env'.note n) :=
  ⟨h.mirrors, h.parts, h.ours, h.theirs, h.shared, h.cancelled, by simpa [Env.note] using h.calls⟩

variable [Behavior κ ω]

/-- A sink of the part is handed the same in both graphs, and says the same to it. -/
theorem Private.deliver (h : b.Private) (ht : b.Tied place g env g' env') {a i : Nat}
    (ha : place a = some i) (index : Nat) (arrival : Option Message) {moved : Bool}
    (hmoved : (g.deliver a index arrival env).result = .ok moved) :
    (g'.deliver i index arrival env').result = .ok moved ∧
      b.Tied place (g.deliver a index arrival env).graph (g.deliver a index arrival env).env
        (g'.deliver i index arrival env').graph (g'.deliver i index arrival env').env := by
  by_cases hcan : g.CanTake a
  · obtain ⟨c, k, hc, hb, hk⟩ := hcan
    have hours : b.ours k := ht.ours ha (Graph.behaviors_eq_some.mpr ⟨c, hc, hb⟩)
    have hbare := ht.parts ha
    rw [Graph.bare?, Graph.bare?, hc] at hbare
    obtain ⟨c', hc', hsame⟩ := Option.map_eq_some_iff.mp hbare.symm
    obtain ⟨-, hcls, hbehavior⟩ := Component.eq_of_bare_eq hsame
    have hb' : c'.behavior = some k := hbehavior.trans hb
    have hk' : c'.kind = .sink := (congrArg ComponentClass.kind hcls).trans hk
    have hname : c'.ports[index]?.map (·.name) = c.ports[index]?.map (·.name) := by
      have hports := congrArg (·.ports[index]?.map (·.name)) hsame
      simp only [Component.bare_ports_getElem?, Option.map_map] at hports
      exact hports
    simp only [Graph.deliver, hc, hb, hk, hc', hb', hk', hname, if_true] at hmoved ⊢
    generalize (c.ports[index]?.map (·.name)).getD "" = port at hmoved ⊢
    obtain ⟨hvalue, hfair, htied⟩ := ht.perform (h.receive port arrival k hours)
    generalize env.perform (Graph.receive port arrival k) = y at hmoved hvalue hfair htied ⊢
    generalize env'.perform (Graph.receive port arrival k) = y' at hmoved hvalue htied ⊢
    obtain ⟨⟨result, k₁⟩, env₁⟩ := y
    obtain ⟨⟨result', k₁'⟩, env₁'⟩ := y'
    obtain ⟨rfl, rfl⟩ := Prod.mk.inj hvalue
    cases result with
    | error cause => cases hmoved
    | ok u =>
      have hcall := htied.record ha (Graph.arrivalCall port arrival none)
      have hcounted := (hcall.count_left arrival).count_right arrival
      exact ⟨hmoved, hcounted.setBehavior (k := some k₁) ha (by rintro _ ⟨⟩; exact hfair)⟩
  · obtain ⟨cause, hdeliver⟩ := Graph.deliver_eq_turnAway hcan index arrival env
    rw [hdeliver] at hmoved
    cases hmoved

/-- Another sink is handed something, and the part does not notice. -/
theorem Aloof.deliver (h : b.Aloof) (ht : b.Tied place g env g' env') {a : Nat}
    (ha : place a = none) (index : Nat) (arrival : Option Message) :
    b.Tied place (g.deliver a index arrival env).graph (g.deliver a index arrival env).env g'
      env' := by
  by_cases hcan : g.CanTake a
  · obtain ⟨c, k, hc, hb, hk⟩ := hcan
    have htheirs : b.theirs k := ht.theirs ha (Graph.behaviors_eq_some.mpr ⟨c, hc, hb⟩)
    simp only [Graph.deliver, hc, hb, hk, if_true]
    generalize (c.ports[index]?.map (·.name)).getD "" = port
    obtain ⟨hfair, htied⟩ := ht.perform_left (h.receive port arrival k htheirs)
    generalize env.perform (Graph.receive port arrival k) = y at hfair htied ⊢
    obtain ⟨⟨result, k₁⟩, env₁⟩ := y
    have hcall := (htied.record_left ha
      (Graph.arrivalCall port arrival (Component.faultOf result))).count_left arrival
    have hback := hcall.setBehavior_left (k := some k₁) ha (by rintro _ ⟨⟩; exact hfair)
    cases result with
    | error cause => exact hback
    | ok u => exact hback
  · obtain ⟨cause, hdeliver⟩ := Graph.deliver_eq_turnAway hcan index arrival env
    rw [hdeliver]
    exact ht.refuse_left cause

/-- **A step for a sink of the part** that goes well in the whole goes well in the part, and
comes to the same. -/
theorem Private.sinkStep (h : b.Private) (hplaceless : b.Placeless place)
    (ht : b.Tied place g env g' env') {a i : Nat} (ha : place a = some i) (patience index : Nat)
    {moved : Bool}
    (hmoved : (g.sinkStep patience a index env).result = some (.ok moved)) :
    (g'.sinkStep patience i index env').result = some (.ok moved) ∧
      b.Tied place (g.sinkStep patience a index env).graph (g.sinkStep patience a index env).env
        (g'.sinkStep patience i index env').graph (g'.sinkStep patience i index env').env := by
  have hpull : b.Answers place (fun _ => True)
      (PullGraph.pullInput (converse patience) a index ⟨g, env, none⟩)
      (PullGraph.pullInput (converse patience) i index ⟨g', env', none⟩) :=
    h.pullInput (h.converses hplaceless patience) ha index ⟨ht, rfl⟩
  simp only [Graph.sinkStep] at hmoved ⊢
  generalize PullGraph.pullInput (converse patience) a index ⟨g, env, none⟩ = x at hmoved hpull ⊢
  generalize PullGraph.pullInput (converse patience) i index ⟨g', env', none⟩ = x' at hpull ⊢
  obtain ⟨result, t⟩ := x
  obtain ⟨result', t'⟩ := x'
  obtain ⟨hresult, -, htied, hfailure⟩ := hpull
  obtain rfl : result = result' := hresult
  cases result with
  | none => cases hmoved
  | some pulled =>
    have hmoved : (Graph.afterPull a index pulled t).result = .ok moved := Option.some.inj hmoved
    suffices hafter : (Graph.afterPull i index pulled t').result = .ok moved ∧
        b.Tied place (Graph.afterPull a index pulled t).graph (Graph.afterPull a index pulled t).env
          (Graph.afterPull i index pulled t').graph (Graph.afterPull i index pulled t').env from
      ⟨congrArg some hafter.1, hafter.2⟩
    simp only [Graph.afterPull] at hmoved ⊢
    cases hnone : t.failure with
    | some failure =>
      rw [hnone] at hmoved
      cases hmoved
    | none =>
      rw [hnone] at hmoved hfailure
      have hnone' : t'.failure = none :=
        Option.isNone_iff_eq_none.mp (Option.isSome_eq_false_iff.mp hfailure.symm)
      rw [hnone']
      rcases pulled with cause | m | _ | _
      · cases hmoved
      · exact h.deliver htied ha index (some m) hmoved
      · exact ⟨hmoved, htied⟩
      · exact h.deliver htied ha index none hmoved

/-- A step for another sink does not concern the part. -/
theorem Aloof.sinkStep (h : b.Aloof) (ht : b.Tied place g env g' env') {a : Nat}
    (ha : place a = none) (patience index : Nat) :
    b.Tied place (g.sinkStep patience a index env).graph (g.sinkStep patience a index env).env g'
      env' := by
  have hpull : b.Spares place g' env' (fun _ => True)
      (PullGraph.pullInput (converse patience) a index ⟨g, env, none⟩) :=
    h.pullInput (h.sidesteps patience) ha index ht
  simp only [Graph.sinkStep]
  generalize PullGraph.pullInput (converse patience) a index ⟨g, env, none⟩ = x at hpull ⊢
  obtain ⟨result, t⟩ := x
  cases result with
  | none => exact hpull.tied
  | some pulled =>
    change b.Tied place (Graph.afterPull a index pulled t).graph
      (Graph.afterPull a index pulled t).env g' env'
    unfold Graph.afterPull
    split
    · exact hpull.tied
    · exact hpull.tied
    · exact hpull.tied
    · exact h.deliver hpull.tied ha index _
    · exact h.deliver hpull.tied ha index _

/-! ## Sweeps -/

theorem Private.sweepPorts (h : b.Private) (hplaceless : b.Placeless place)
    (ht : b.Tied place g env g' env') {a i : Nat} (ha : place a = some i) (patience : Nat)
    (indices : List Nat) {progressed last : Bool} (progressed' : Bool)
    (hlast : (Graph.sweepPorts patience a indices progressed g env).result =
      some (.completed last)) :
    ∃ last', (Graph.sweepPorts patience i indices progressed' g' env').result =
        some (.completed last') ∧
      b.Tied place (Graph.sweepPorts patience a indices progressed g env).graph
        (Graph.sweepPorts patience a indices progressed g env).env
        (Graph.sweepPorts patience i indices progressed' g' env').graph
        (Graph.sweepPorts patience i indices progressed' g' env').env := by
  induction indices generalizing g env g' env' progressed progressed' with
  | nil => exact ⟨progressed', rfl, ht⟩
  | cons index indices ih =>
    have hstep := fun moved (hmoved : (g.sinkStep patience a index env).result = some (.ok moved)) =>
      h.sinkStep hplaceless ht ha patience index hmoved
    unfold Graph.sweepPorts at hlast ⊢
    by_cases hcancelled : env.isCancelled g.id = true
    · rw [if_pos hcancelled] at hlast
      cases hlast
    · have hcancelled' : ¬ env'.isCancelled g'.id = true := fun h' => hcancelled (ht.cancelled h')
      rw [if_neg hcancelled] at hlast
      rw [if_neg hcancelled, if_neg hcancelled']
      generalize g.sinkStep patience a index env = x at hlast hstep ⊢
      generalize g'.sinkStep patience i index env' = x' at hstep ⊢
      obtain ⟨result, g₁, env₁⟩ := x
      obtain ⟨result', g₁', env₁'⟩ := x'
      rcases result with _ | failure | moved
      · cases hlast
      · cases hlast
      · obtain ⟨hresult, htied⟩ := hstep moved rfl
        obtain rfl : result' = some (.ok moved) := hresult
        exact ih htied _ hlast

theorem Aloof.sweepPorts (h : b.Aloof) (ht : b.Tied place g env g' env') {a : Nat}
    (ha : place a = none) (patience : Nat) (indices : List Nat) (progressed : Bool) :
    b.Tied place (Graph.sweepPorts patience a indices progressed g env).graph
      (Graph.sweepPorts patience a indices progressed g env).env g' env' := by
  induction indices generalizing g env progressed with
  | nil => exact ht
  | cons index indices ih =>
    have hstep := h.sinkStep ht ha patience index
    unfold Graph.sweepPorts
    by_cases hcancelled : env.isCancelled g.id = true
    · rw [if_pos hcancelled]
      exact ht
    · rw [if_neg hcancelled]
      generalize g.sinkStep patience a index env = x at hstep ⊢
      obtain ⟨result, g₁, env₁⟩ := x
      rcases result with _ | failure | moved
      · exact hstep
      · exact hstep
      · exact ih hstep (progressed || moved)

/-- **The steps of a round** that are all made in the whole are all made in the part, and come
to the same for the part. -/
theorem Private.sweepSinks (h : b.Private) (hplaceless : b.Placeless place) (haloof : b.Aloof)
    (ht : b.Tied place g env g' env') (patience : Nat) (ids : List ComponentId)
    {progressed last : Bool} (progressed' : Bool)
    (hlast : (Graph.sweepSinks patience ids progressed g env).result = some (.completed last)) :
    ∃ last', (Graph.sweepSinks patience (ids.filterMap place) progressed' g' env').result =
        some (.completed last') ∧
      b.Tied place (Graph.sweepSinks patience ids progressed g env).graph
        (Graph.sweepSinks patience ids progressed g env).env
        (Graph.sweepSinks patience (ids.filterMap place) progressed' g' env').graph
        (Graph.sweepSinks patience (ids.filterMap place) progressed' g' env').env := by
  induction ids generalizing g env g' env' progressed progressed' with
  | nil => exact ⟨progressed', rfl, ht⟩
  | cons a ids ih =>
    cases ha : place a with
    | none =>
      have hports := haloof.sweepPorts ht ha patience ((g.components[a]?.map (·.pending)).getD [])
        progressed
      rw [List.filterMap_cons_none ha]
      simp only [Graph.sweepSinks] at hlast ⊢
      generalize Graph.sweepPorts patience a _ progressed g env = x at hlast hports ⊢
      obtain ⟨result, g₁, env₁⟩ := x
      rcases result with _ | progressed₁ | _ | failure
      · cases hlast
      · exact ih hports progressed' hlast
      · cases hlast
      · cases hlast
    | some i =>
      have hports := fun last (hlast : (Graph.sweepPorts patience a
          ((g.components[a]?.map (·.pending)).getD []) progressed g env).result =
            some (.completed last)) => h.sweepPorts hplaceless ht ha patience _ progressed' hlast
      rw [List.filterMap_cons_some ha]
      simp only [Graph.sweepSinks, ← Graph.pending_of_bare? (ht.parts ha)] at hlast ⊢
      generalize Graph.sweepPorts patience a _ progressed g env = x at hlast hports ⊢
      generalize Graph.sweepPorts patience i _ progressed' g' env' = x' at hports ⊢
      obtain ⟨result, g₁, env₁⟩ := x
      obtain ⟨result', g₁', env₁'⟩ := x'
      rcases result with _ | progressed₁ | _ | failure
      · cases hlast
      · obtain ⟨last', hresult, htied⟩ := hports progressed₁ rfl
        obtain rfl : result' = some (.completed last') := hresult
        exact ih htied last' hlast
      · cases hlast
      · cases hlast

/-- Once no sink of the part waits for anything, the steps of a round do not concern it. -/
theorem Aloof.sweepSinks (h : b.Aloof) (ht : b.Tied place g env g' env') (patience : Nat)
    {ids : List ComponentId} (progressed : Bool)
    (hidle : ∀ a ∈ ids, ∀ i, place a = some i →
      (g'.components[i]?.map (·.pending)).getD [] = []) :
    b.Tied place (Graph.sweepSinks patience ids progressed g env).graph
      (Graph.sweepSinks patience ids progressed g env).env g' env' := by
  induction ids generalizing g env progressed with
  | nil => exact ht
  | cons a ids ih =>
    obtain ⟨hfirst, hrest⟩ := List.forall_mem_cons.mp hidle
    have hports : b.Tied place
        (Graph.sweepPorts patience a ((g.components[a]?.map (·.pending)).getD []) progressed g
          env).graph
        (Graph.sweepPorts patience a ((g.components[a]?.map (·.pending)).getD []) progressed g
          env).env g' env' := by
      cases ha : place a with
      | none => exact h.sweepPorts ht ha patience _ progressed
      | some i =>
        rw [Graph.pending_of_bare? (ht.parts ha), hfirst i ha]
        exact ht
    simp only [Graph.sweepSinks]
    generalize Graph.sweepPorts patience a _ progressed g env = x at hports ⊢
    obtain ⟨result, g₁, env₁⟩ := x
    rcases result with _ | progressed₁ | _ | failure
    · exact hports
    · exact ih hports progressed₁ hrest
    · exact hports
    · exact hports

end Border

/-! ## Rounds -/

namespace Graph

section Rounds

variable [Behavior κ ω]

/-- Where a number of rounds bring a graph. -/
def played (patience : Nat) : Nat → Graph κ ω → Env ω → Graph κ ω × Env ω
  | 0, g, env => (g, env)
  | n + 1, g, env => played patience n (g.runOnce patience env).graph (g.runOnce patience env).env

/-- Where the steps of a round bring a graph, before the round ends the run if it does. -/
def swept (patience : Nat) (g : Graph κ ω) (env : Env ω) : Graph κ ω × Env ω :=
  match g.ensureRunning env with
  | ⟨.error _, g, env⟩ => (g, env)
  | ⟨.ok (), g, env⟩ =>
    let after := sweepSinks patience g.sinks false g.nextRound env
    (after.graph, after.env)

/-- Where a number of rounds bring a graph, before one of them ends the run if one does. -/
def unclosed (patience : Nat) : Nat → Graph κ ω → Env ω → Graph κ ω × Env ω
  | 0, g, env => (g, env)
  | n + 1, g, env =>
    if (g.runOnce patience env).graph.state = .running then
      unclosed patience n (g.runOnce patience env).graph (g.runOnce patience env).env
    else g.swept patience env

/-- A number of rounds all come to their ends, and neither does a component fail in one of them
nor is one of them cancelled: the graph goes on, or finishes. -/
def RunsWell (patience : Nat) : Nat → Graph κ ω → Env ω → Prop
  | 0, _, _ => True
  | n + 1, g, env =>
    (g.runOnce patience env).result.isSome = true ∧
      ((g.runOnce patience env).graph.state = .running ∨
        (g.runOnce patience env).graph.state = .finished) ∧
      RunsWell patience n (g.runOnce patience env).graph (g.runOnce patience env).env

variable {g g₁ : Graph κ ω} {env env₁ : Env ω} {patience : Nat}

theorem endRound_demand (hcancelled : env.isCancelled g.id = false) (hdemand : g.hasDemand = true)
    (progressed : Bool) : ∃ outcome stats notice,
      g.endRound progressed env = ⟨.ok outcome, { g with stats := stats }, env.note notice⟩ := by
  simp only [endRound, hcancelled, hdemand]
  exact ⟨_, _, _, rfl⟩

/-- A round that goes well makes all its steps, and then ends the run if no stream is left. -/
theorem Begins.goesWell (hbegins : g.Begins env g₁ env₁)
    (hreturned : (g.runOnce patience env).result.isSome = true)
    (hstate : (g.runOnce patience env).graph.state = .running ∨
      (g.runOnce patience env).graph.state = .finished) : ∃ progressed g₂ env₂,
      sweepSinks patience g₁.sinks false g₁.nextRound env₁ =
        ⟨some (.completed progressed), g₂, env₂⟩ ∧
      env₂.isCancelled g₂.id = false := by
  simp only [runOnce, hbegins.ensureRunning_eq] at hreturned hstate
  generalize sweepSinks patience g₁.sinks false g₁.nextRound env₁ = x at hreturned hstate ⊢
  obtain ⟨result, g₂, env₂⟩ := x
  -- a round that is cancelled or fails leaves the graph neither running nor finished
  have hclosed : ∀ {state : GraphState}, state = .cancelled ∨ state = .faulted →
      ¬(state = .running ∨ state = .finished) := by
    rintro state (rfl | rfl) (hstate | hstate) <;> cases hstate
  rcases result with _ | progressed | _ | failure
  · cases hreturned
  · refine ⟨progressed, g₂, env₂, rfl, ?_⟩
    by_contra hcancelled
    have hcancelled : env₂.isCancelled g₂.id = true := by simpa using hcancelled
    have hend : (g₂.endRound progressed env₂).graph.state = .cancelled := by
      rw [endRound, if_pos hcancelled]
      exact g₂.conclude_state _ _ _ env₂
    exact hclosed (.inl hend) hstate
  · exact absurd hstate (hclosed (.inl (g₂.conclude_state _ _ _ env₂)))
  · have hend : (g₂.fail failure env₂).graph.state = .faulted := rfl
    exact absurd hstate (hclosed (.inr hend))

/-- What becomes of a graph whose round makes all its steps. -/
theorem Begins.runOnce_completed (hbegins : g.Begins env g₁ env₁) {progressed : Bool}
    {g₂ : Graph κ ω} {env₂ : Env ω}
    (hsweep : sweepSinks patience g₁.sinks false g₁.nextRound env₁ =
      ⟨some (.completed progressed), g₂, env₂⟩) :
    g.swept patience env = (g₂, env₂) ∧ g₂.state = .running ∧
      g.runOnce patience env = (g₂.endRound progressed env₂).map some := by
  have hrunning : g₁.nextRound.state = .running := hbegins.state_eq
  obtain ⟨-, hleads⟩ := sweepSinks_course patience g₁.sinks false env₁ hrunning fun _ hid => hid
  rw [hsweep] at hleads
  refine ⟨?_, hleads.state.trans hrunning, ?_⟩
  · simp only [swept, hbegins.ensureRunning_eq, hsweep]
  · simp only [runOnce, hbegins.ensureRunning_eq, hsweep]
    rfl

/-- A graph that has finished stays as it is. -/
theorem finished_stays (h : g.state = .finished) (patience : Nat) (env : Env ω) (n : Nat) :
    g.RunsWell patience n env ∧ played patience n g env = (g, env) := by
  have hover : g.runOnce patience env = ⟨some (.error (.notRunnable g.state)), g, env⟩ :=
    runOnce_over (by rw [h]; rfl) patience env
  induction n with
  | zero => exact ⟨trivial, rfl⟩
  | succ n ih =>
    simp only [RunsWell, played, hover]
    exact ⟨⟨rfl, .inr h, ih.1⟩, ih.2⟩

/-- Rounds of which the first makes all its steps go on from there, or the run ends. -/
theorem Begins.rounds (hbegins : g.Begins env g₁ env₁) {progressed : Bool} {g₂ : Graph κ ω}
    {env₂ : Env ω}
    (hsweep : sweepSinks patience g₁.sinks false g₁.nextRound env₁ =
      ⟨some (.completed progressed), g₂, env₂⟩)
    (hcancelled : env₂.isCancelled g₂.id = false) (n : Nat) :
    (g₂.hasDemand = true ∧ g₂.state = .running ∧ ∃ stats notice,
      played patience (n + 1) g env = played patience n { g₂ with stats := stats } (env₂.note notice) ∧
      unclosed patience (n + 1) g env =
        unclosed patience n { g₂ with stats := stats } (env₂.note notice) ∧
      (RunsWell patience (n + 1) g env ↔
        RunsWell patience n { g₂ with stats := stats } (env₂.note notice))) ∨
    (g₂.hasDemand = false ∧ RunsWell patience (n + 1) g env ∧
      played patience (n + 1) g env = ((g₂.finish env₂).graph, (g₂.finish env₂).env) ∧
      unclosed patience (n + 1) g env = (g₂, env₂)) := by
  obtain ⟨hswept, hrunning, hround⟩ := hbegins.runOnce_completed hsweep
  cases hdemand : g₂.hasDemand with
  | true =>
    obtain ⟨outcome, stats, notice, hend⟩ := endRound_demand hcancelled hdemand progressed
    rw [hend] at hround
    have hgoesOn : (g.runOnce patience env).graph.state = .running := by
      rw [hround]
      exact hrunning
    refine .inl ⟨rfl, hrunning, stats, notice, ?_, ?_, ?_⟩
    · simp only [played, hround]
      rfl
    · rw [unclosed, if_pos hgoesOn, hround]
      rfl
    · constructor
      · rintro ⟨-, -, hrest⟩
        rwa [hround] at hrest
      · intro hrest
        refine ⟨?_, .inl hgoesOn, ?_⟩
        · rw [hround]
          rfl
        · rwa [hround]
  | false =>
    rw [endRound_finish hcancelled hdemand] at hround
    have hfinished : (g.runOnce patience env).graph.state = .finished := by
      rw [hround]
      exact g₂.conclude_state _ _ _ env₂
    obtain ⟨hwell, hstays⟩ := finished_stays hfinished patience (g.runOnce patience env).env n
    refine .inr ⟨rfl, ⟨?_, .inr hfinished, hwell⟩, ?_, ?_⟩
    · rw [hround]
      rfl
    · rw [played, hstays, hround]
      rfl
    · rw [unclosed, if_neg (by rw [hfinished]; decide), hswept]

end Rounds
end Graph

/-! ## Rounds of a graph and of a part of it -/

section

variable {g g₁ : Graph κ ω} {env env₁ : Env ω}

/-- Getting under way leaves components as they are, apart from how far they have come. -/
theorem Graph.Begins.bare?_eq (h : g.Begins env g₁ env₁) (a : Nat) : g₁.bare? a = g.bare? a := by
  cases h with
  | running => rfl
  | started _ hvalid =>
    obtain ⟨g₁, notice, hstart, -, hcomponents, -⟩ := start_spec hvalid env
    rw [hstart]
    change g₁.bare? a = g.bare? a
    rw [bare?, bare?, hcomponents, List.getElem?_map, Option.map_map]
    exact congrArg (Option.map · g.components[a]?) (funext Component.bare_start)

theorem Graph.Begins.env_cases (h : g.Begins env g₁ env₁) :
    env₁ = env ∨ ∃ notice, env₁ = env.note notice := by
  cases h with
  | running => exact .inl rfl
  | started _ hvalid =>
    obtain ⟨g₁, notice, hstart, -⟩ := start_spec hvalid env
    rw [hstart]
    exact .inr ⟨notice, rfl⟩

end

namespace Border

variable {b : Border κ ω σ} {place : Placement} {g g₁ g' g₁' : Graph κ ω} {env env₁ env' env₁' : Env ω}

theorem Tied.begins_left (h : b.Tied place g env g' env') (hbegins : g.Begins env g₁ env₁) :
    b.Tied place g₁ env₁ g' env' := by
  obtain ⟨hbehaviors, -, -⟩ := hbegins.behaviors_eq
  have hid : g₁.id = g.id := congrArg Topology.id hbegins.topology_eq
  have hgraph : b.Tied place g₁ env g' env' := by
    refine ⟨hbegins.topology_eq ▸ h.mirrors, fun ha => ?_, ?_, ?_, h.shared, ?_, ?_⟩
    · rw [hbegins.bare?_eq]
      exact h.parts ha
    · rw [hbehaviors]
      exact h.ours
    · rw [hbehaviors]
      exact h.theirs
    · rw [hid]
      exact h.cancelled
    · rw [hid]
      exact h.calls
  rcases hbegins.env_cases with rfl | ⟨notice, rfl⟩
  · exact hgraph
  · exact hgraph.note_left notice

theorem Tied.begins_right (h : b.Tied place g env g' env') (hbegins : g'.Begins env' g₁' env₁') :
    b.Tied place g env g₁' env₁' := by
  have hid : g₁'.id = g'.id := congrArg Topology.id hbegins.topology_eq
  have hgraph : b.Tied place g env g₁' env' := by
    refine ⟨hbegins.topology_eq ▸ h.mirrors, fun ha => ?_, h.ours, h.theirs, h.shared, ?_, ?_⟩
    · rw [hbegins.bare?_eq]
      exact h.parts ha
    · rw [hid]
      exact h.cancelled
    · rw [hid]
      exact h.calls
  rcases hbegins.env_cases with rfl | ⟨notice, rfl⟩
  · exact hgraph
  · exact hgraph.note_right notice

/-- Where a sink of the part waits, it does so in both graphs. -/
theorem Tied.hasDemand (h : b.Tied place g env g' env') (hdemand : g'.hasDemand = true) :
    g.hasDemand = true := by
  obtain ⟨i, hi, hwaits⟩ := List.any_eq_true.mp hdemand
  have hsinks : g.sinks.filterMap place = g'.sinks := h.mirrors.sinks
  rw [← hsinks] at hi
  obtain ⟨a, hmem, ha⟩ := List.mem_filterMap.mp hi
  refine List.any_eq_true.mpr ⟨a, hmem, ?_⟩
  have hpending := Graph.pending_of_bare? (h.parts ha)
  cases hc : g.components[a]? with
  | none =>
    rw [hc] at hpending
    rw [Option.map_eq_none_iff.mp hpending.symm] at hwaits
    cases hwaits
  | some c =>
    rw [hc] at hpending
    obtain ⟨c', hc', hsame⟩ := Option.map_eq_some_iff.mp hpending.symm
    rw [hc'] at hwaits
    rw [Option.any_some, hsame] at hwaits
    exact hwaits

theorem Tied.idle (h : b.Tied place g env g' env') (hdemand : g'.hasDemand = false) :
    ∀ a ∈ g.sinks, ∀ i, place a = some i → (g'.components[i]?.map (·.pending)).getD [] = [] := by
  intro a hmem i ha
  have hsinks : g.sinks.filterMap place = g'.sinks := h.mirrors.sinks
  have hi : i ∈ g'.sinks := by
    rw [← hsinks]
    exact List.mem_filterMap.mpr ⟨a, hmem, ha⟩
  have hnone := List.any_eq_false.mp hdemand i hi
  cases hc : g'.components[i]? with
  | none => rfl
  | some c =>
    rw [hc] at hnone
    simpa using hnone

variable [Behavior κ ω] {patience : Nat}

/-- When the part has nothing left to do, the rounds of the whole do not concern it any more. -/
theorem Aloof.unclosed (h : b.Aloof) (ht : b.Tied place g env g' env')
    (hdemand : g'.hasDemand = false) (hbegins : g.Begins env g₁ env₁) (n : Nat)
    (hwell : g.RunsWell patience n env) :
    b.Tied place (g.unclosed patience n env).1 (g.unclosed patience n env).2 g' env' := by
  induction n generalizing g env g₁ env₁ with
  | zero => exact ht
  | succ n ih =>
    obtain ⟨progressed, g₂, env₂, hsweep, hcancelled⟩ := hbegins.goesWell hwell.1 hwell.2.1
    have hbegun := (ht.begins_left hbegins).tally_left g₁.nextRound.stats
    have hswept := h.sweepSinks hbegun patience false (hbegun.idle hdemand)
    have hswept : b.Tied place g₂ env₂ g' env' := by
      change b.Tied place (Graph.sweepSinks patience g₁.sinks false g₁.nextRound env₁).graph
        (Graph.sweepSinks patience g₁.sinks false g₁.nextRound env₁).env g' env' at hswept
      rwa [hsweep] at hswept
    rcases hbegins.rounds hsweep hcancelled n with
      ⟨-, hrunning, stats, notice, -, hunclosed, hiff⟩ | ⟨-, -, -, hunclosed⟩
    · rw [hunclosed]
      exact ih ((hswept.tally_left stats).note_left notice) (.running hrunning) (hiff.mp hwell)
    · rw [hunclosed]
      exact hswept

/-- **Rounds in lockstep.** If the rounds of the whole go well, so do those of the part, and
they lead to the same for the part. The induction is on the number of rounds; if the part has
nothing left to do after one of them, the others are rounds of the whole alone. -/
theorem Private.unclosed (h : b.Private) (hplaceless : b.Placeless place) (haloof : b.Aloof)
    (ht : b.Tied place g env g' env') (hbegins : g.Begins env g₁ env₁)
    (hbegins' : g'.Begins env' g₁' env₁') (n : Nat) (hwell : g.RunsWell patience n env) :
    g'.RunsWell patience n env' ∧
      b.Tied place (g.unclosed patience n env).1 (g.unclosed patience n env).2
        (g'.unclosed patience n env').1 (g'.unclosed patience n env').2 := by
  induction n generalizing g env g' env' g₁ env₁ g₁' env₁' with
  | zero => exact ⟨trivial, ht⟩
  | succ n ih =>
    obtain ⟨progressed, g₂, env₂, hsweep, hcancelled⟩ := hbegins.goesWell hwell.1 hwell.2.1
    have hbegun := (((ht.begins_left hbegins).begins_right hbegins').tally_left
      g₁.nextRound.stats).tally_right g₁'.nextRound.stats
    have hsinks : g₁.sinks.filterMap place = g₁'.sinks := hbegun.mirrors.sinks
    have hswept := h.sweepSinks hplaceless haloof hbegun patience g₁.sinks false
      (congrArg After.result hsweep)
    rw [hsinks] at hswept
    obtain ⟨progressed', hresult', hswept⟩ := hswept
    change (Graph.sweepSinks patience g₁'.sinks false g₁'.nextRound env₁').result = _ at hresult'
    change b.Tied place (Graph.sweepSinks patience g₁.sinks false g₁.nextRound env₁).graph
      (Graph.sweepSinks patience g₁.sinks false g₁.nextRound env₁).env
      (Graph.sweepSinks patience g₁'.sinks false g₁'.nextRound env₁').graph
      (Graph.sweepSinks patience g₁'.sinks false g₁'.nextRound env₁').env at hswept
    rw [hsweep] at hswept
    -- the steps of the part were all made too
    generalize hsweep' : Graph.sweepSinks patience g₁'.sinks false g₁'.nextRound env₁' = x
      at hresult' hswept
    obtain ⟨result', g₂', env₂'⟩ := x
    obtain rfl : result' = some (.completed progressed') := hresult'
    have hcancelled' : env₂'.isCancelled g₂'.id = false := by
      rw [← Bool.not_eq_true]
      intro htrue
      exact nomatch hcancelled.symm.trans (hswept.cancelled htrue)
    rcases hbegins.rounds hsweep hcancelled n with
      ⟨hdemand, hrunning, stats, notice, -, hunclosed, hiff⟩ | ⟨hdemand, -, -, hunclosed⟩
    · have hnext := (hswept.tally_left stats).note_left notice
      rcases hbegins'.rounds hsweep' hcancelled' n with
        ⟨-, hrunning', stats', notice', -, hunclosed', hiff'⟩ | ⟨hdemand', hwell', -, hunclosed'⟩
      · rw [hunclosed, hunclosed', hiff']
        exact ih ((hnext.tally_right stats').note_right notice') (.running hrunning)
          (.running hrunning') (hiff.mp hwell)
      · rw [hunclosed, hunclosed']
        exact ⟨hwell', haloof.unclosed hnext hdemand' (.running hrunning) n (hiff.mp hwell)⟩
    · rcases hbegins'.rounds hsweep' hcancelled' n with
        ⟨hdemand', -⟩ | ⟨-, hwell', -, hunclosed'⟩
      · exact nomatch hdemand.symm.trans (hswept.hasDemand hdemand')
      · rw [hunclosed, hunclosed']
        exact ⟨hwell', hswept⟩

end Border

/-! ## What ending a run leaves alone -/

namespace Graph

variable [Behavior κ ω]

/-- The flags that say of which ports of a component the streams have ended. -/
def flags? (g : Graph κ ω) (a : ComponentId) : Option (List Bool) :=
  g.components[a]?.map fun c => c.ports.map (·.atEnd)

/-- What finalizing components writes down is no service. -/
theorem finalizeList_services (name : String) (cs : List (Component κ)) (env : Env ω)
    (graph : GraphId) :
    (finalizeList name cs env).2.2.journal.services graph = env.journal.services graph := by
  have hcall : ∀ (c : Component κ) (env : Env ω),
      (c.finalize env).2.2.journal.services graph = env.journal.services graph := by
    intro c env
    unfold Component.finalize
    split
    · rfl
    · split
      · exact Journal.services_record_notice _ _ _
      · exact (Journal.services_record_of_not_isService rfl _ _ _ _).trans
          (Journal.services_record_notice env.journal graph (.finalizing c.name))
  induction cs generalizing env with
  | nil => rfl
  | cons c cs ih =>
    have hcs := ih env
    unfold finalizeList
    generalize finalizeList name cs env = x at hcs ⊢
    obtain ⟨failures, cs', env'⟩ := x
    have hc := hcall c env'
    dsimp only at hcs ⊢
    generalize c.finalize env' = y at hc ⊢
    obtain ⟨fault, c', env''⟩ := y
    cases fault with
    | none => exact hc.trans hcs
    | some fault => simpa [Env.note] using hc.trans hcs

/-- Finishing a run changes neither the flags nor the services. -/
theorem finish_keeps (g : Graph κ ω) (env : Env ω) :
    (∀ a, (g.finish env).graph.flags? a = g.flags? a) ∧
      ∀ graph, (g.finish env).env.journal.services graph = env.journal.services graph := by
  have hports : ∀ (c : Component κ) (env : Env ω),
      (c.finalize env).2.1.ports.map (·.atEnd) = c.ports.map (·.atEnd) := by
    intro c env
    unfold Component.finalize
    split
    · rfl
    · split <;> rfl
  have hflags : ∀ a, (g.close .finished env).graph.flags? a = g.flags? a := by
    intro a
    have hmap := finalizeList_map (f := fun c => c.ports.map (·.atEnd)) hports g.name g.components env
    simp only [flags?, ← List.getElem?_map]
    exact congrArg (·[a]?) hmap
  have hservices : ∀ graph notice, ((g.close .finished env).env.note notice).journal.services graph =
      env.journal.services graph := by
    intro graph notice
    exact (Journal.services_record_notice _ _ _).trans
      (finalizeList_services g.name g.components env graph)
  unfold finish conclude
  dsimp only
  constructor
  · intro a
    split <;> exact hflags a
  · intro graph
    split <;> exact hservices graph _

/-- **What rounds that go well lead to**, up to the end of the run and with it. If the run has
not ended there is no difference; if it has, its end is all the difference. -/
theorem RunsWell.played_eq {patience n : Nat} {g g₁ : Graph κ ω} {env env₁ : Env ω}
    (h : g.RunsWell patience n env) (hbegins : g.Begins env g₁ env₁) :
    played patience n g env = unclosed patience n g env ∧
        (played patience n g env).1.state ≠ .finished ∨
      played patience n g env =
          (((unclosed patience n g env).1.finish (unclosed patience n g env).2).graph,
            ((unclosed patience n g env).1.finish (unclosed patience n g env).2).env) ∧
        (played patience n g env).1.state = .finished := by
  induction n generalizing g env g₁ env₁ with
  | zero =>
    refine .inl ⟨rfl, ?_⟩
    intro hfinished
    change g.state = .finished at hfinished
    cases hbegins with
    | running hrunning => exact nomatch hrunning.symm.trans hfinished
    | started hopen => exact nomatch hopen.symm.trans hfinished
  | succ n ih =>
    obtain ⟨progressed, g₂, env₂, hsweep, hcancelled⟩ := hbegins.goesWell h.1 h.2.1
    rcases hbegins.rounds hsweep hcancelled n with
      ⟨-, hrunning, stats, notice, hplayed, hunclosed, hiff⟩ | ⟨-, -, hplayed, hunclosed⟩
    · rw [hplayed, hunclosed]
      exact ih (hiff.mp h) (.running hrunning)
    · rw [hplayed, hunclosed]
      exact .inr ⟨rfl, g₂.conclude_state _ _ _ env₂⟩

/-- Up to the end of the run, the flags and the services are what they are with it. -/
theorem RunsWell.played_keeps {patience n : Nat} {g g₁ : Graph κ ω} {env env₁ : Env ω}
    (h : g.RunsWell patience n env) (hbegins : g.Begins env g₁ env₁) :
    (∀ a, (played patience n g env).1.flags? a = (unclosed patience n g env).1.flags? a) ∧
      ∀ graph, (played patience n g env).2.journal.services graph =
        (unclosed patience n g env).2.journal.services graph := by
  rcases h.played_eq hbegins with ⟨heq, -⟩ | ⟨heq, -⟩
  · rw [heq]
    exact ⟨fun _ => rfl, fun _ => rfl⟩
  · rw [heq]
    exact finish_keeps _ _

/-- Rounds do not change which graph it is. -/
theorem RunsWell.unclosed_id {patience n : Nat} {g g₁ : Graph κ ω} {env env₁ : Env ω}
    (h : g.RunsWell patience n env) (hbegins : g.Begins env g₁ env₁) :
    (unclosed patience n g env).1.id = g.id := by
  induction n generalizing g env g₁ env₁ with
  | zero => rfl
  | succ n ih =>
    obtain ⟨progressed, g₂, env₂, hsweep, hcancelled⟩ := hbegins.goesWell h.1 h.2.1
    have hrunning₁ : g₁.nextRound.state = .running := hbegins.state_eq
    have htopology := (sweepSinks_course patience g₁.sinks false env₁ hrunning₁
      fun _ hs => hs).1.topology_eq
    rw [hsweep] at htopology
    have hid : g₂.id = g.id := congrArg Topology.id (htopology.trans hbegins.topology_eq)
    rcases hbegins.rounds hsweep hcancelled n with
      ⟨-, hrunning, stats, notice, -, hunclosed, hiff⟩ | ⟨-, -, -, hunclosed⟩
    · rw [hunclosed]
      exact (ih (hiff.mp h) (.running hrunning)).trans hid
    · rw [hunclosed]
      exact hid

/-- Once a run has finished, further rounds are refused and change nothing. -/
theorem RunsWell.settled {patience j n : Nat} {g : Graph κ ω} {env : Env ω}
    (h : g.RunsWell patience n env) (hle : j ≤ n) (hstate : g.state ≠ .finished)
    (hfinished : (played patience j g env).1.state = .finished) :
    played patience n g env = played patience j g env ∧
      unclosed patience n g env = unclosed patience j g env := by
  induction j generalizing n g env with
  | zero => exact absurd hfinished hstate
  | succ j ih =>
    obtain ⟨n, rfl⟩ : ∃ m, n = m + 1 := ⟨n - 1, by omega⟩
    obtain ⟨-, hgoes, hrest⟩ := h
    by_cases hrunning : (g.runOnce patience env).graph.state = .running
    · simp only [played, unclosed, if_pos hrunning]
      apply ih hrest (by omega) _ hfinished
      rw [hrunning]
      exact nofun
    · have hover := hgoes.resolve_left hrunning
      simp only [played, unclosed, if_neg hrunning]
      exact ⟨(finished_stays hover patience _ n).2.trans (finished_stays hover patience _ j).2.symm,
        trivial⟩

end Graph

end PullGraph
