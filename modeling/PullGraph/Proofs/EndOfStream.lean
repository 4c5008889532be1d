import PullGraph.Proofs.Streams

/-! # The end of a stream

What `Graph.Streams` says holds all the life of a graph. Before a graph starts, nobody has
been asked anything and no stream has ended (`Graph.Fresh`). From then on the steps of its
rounds keep it, also where a step fails or does not come to its end. A graph finishes only
when no stream is left, and by then every sink has been told of every end.
-/
namespace PullGraph

variable {κ ω : Type}

namespace Graph

variable {g g' : Graph κ ω} {env env' : Env ω} {l : List (ComponentId × Call)}

theorem portAt?_of_ports_eq (h : g'.components.map (·.ports) = g.components.map (·.ports))
    (i j : Nat) : g'.portAt? i j = g.portAt? i j := by
  have hports : ∀ g : Graph κ ω, g.portAt? i j = (g.components.map (·.ports))[i]?.bind (·[j]?) := by
    intro g
    rw [portAt?, List.getElem?_map, Option.bind_map]
    rfl
  rw [hports, hports, h]

/-! ## Before a graph starts -/

/-- Nobody has been asked or handed anything, and no stream has ended. -/
structure Fresh (g : Graph κ ω) (l : List (ComponentId × Call)) : Prop where
  idle : ∀ x ∈ l, x.2.isPull = false ∧ x.2.isArrival = false
  unended : ∀ i j p, g.portAt? i j = some p → p.atEnd = false

namespace Fresh

theorem streams (h : g.Fresh l) : g.Streams l where
  noted := fun conn _ out _ hended => (nomatch (h.idle _ hended).1)
  silent := by
    refine .of_forall ?_
    rintro before x hx - a port rfl
    exact nomatch (h.idle _ hx).1
  outputs := fun i j p hp _ => h.unended i j p hp
  taken := fun s port fault hended => (nomatch (h.idle _ hended).2)
  order := by
    refine .of_forall ?_
    rintro before x hx - s port arrival fault rfl
    exact nomatch (isArrival_arrivalCall port arrival fault).symm.trans (h.idle _ hx).2

theorem served (h : g.Fresh l) : g.Served l :=
  fun s _ j p hp _ hend => (nomatch (h.unended s j p hp).symm.trans hend)

/-- The attempt to set up a component makes no difference. -/
theorem setUp (h : g.Fresh l) (id : ComponentId) (fault : Option Fault) :
    g.Fresh (l ++ [(id, .setUp fault)]) :=
  ⟨List.forall_mem_append.mpr ⟨h.idle, List.forall_mem_singleton.mpr ⟨rfl, rfl⟩⟩, h.unended⟩

theorem push (h : g.Fresh l) (id : ComponentId) (name : String) (cls : ComponentClass κ) (k : κ) :
    (g.push (.fresh g.id id name cls k)).Fresh l where
  idle := h.idle
  unended := by
    intro i j p hp
    obtain ⟨c, hc, hj⟩ := Option.bind_eq_some_iff.mp hp
    rcases getElem?_concat_eq_some hc with hold | ⟨-, rfl⟩
    · refine h.unended i j p ?_
      rw [portAt?, hold]
      exact hj
    · obtain ⟨spec, -, rfl⟩ := List.mem_map.mp (List.mem_of_getElem? hj)
      rfl

theorem join (h : g.Fresh l) (c : Connection) : (g.join c).Fresh l where
  idle := h.idle
  unended := by
    have hattach : ∀ (g : Graph κ ω) (p : PortHandle) (k : Nat),
        (∀ i j q, g.portAt? i j = some q → q.atEnd = false) →
        ∀ i j q, (g.attach p k).portAt? i j = some q → q.atEnd = false := by
      intro g p k hg i j q hq
      rw [attach, portAt?_modifyPort] at hq
      split at hq
      · obtain ⟨q', hq', rfl⟩ := Option.map_eq_some_iff.mp hq
        exact hg i j q' hq'
      · exact hg i j q hq
    exact hattach _ c.input c.id (hattach g c.output c.id h.unended)

end Fresh

/-! ## All the life of a graph -/

/-- Every sink has been told of the end of each of its streams. -/
def Complete (g : Graph κ ω) (l : List (ComponentId × Call)) : Prop :=
  ∀ s ∈ g.sinks, ∀ j p, g.portAt? s j = some p → p.direction = .input →
    (s, Call.ended p.name none) ∈ l

/-- What holds of a graph and its streams at any time. -/
structure Orderly (g : Graph κ ω) (env : Env ω) : Prop where
  streams : g.Streams (env.journal.calls g.id)
  finished : g.state = .finished → g.Complete (env.journal.calls g.id)

/-- What holds of a graph and its streams between requests. -/
structure Prompt (g : Graph κ ω) (env : Env ω) : Prop extends Orderly g env where
  fresh : g.state = .configuring → g.Fresh (env.journal.calls g.id)
  served : g.state = .running → g.Served (env.journal.calls g.id)

namespace Prompt

/-- What is not about the graph does not matter. -/
theorem elsewhere (h : g.Prompt env) (habout : env'.journal.about g.id = env.journal.about g.id) :
    g.Prompt env' := by
  have hcalls := Journal.calls_of_about_eq habout
  exact ⟨⟨hcalls ▸ h.streams, hcalls ▸ h.finished⟩, hcalls ▸ h.fresh, hcalls ▸ h.served⟩

theorem of_fresh (hopen : g.state = .configuring) (h : g.Fresh (env.journal.calls g.id)) :
    g.Prompt env where
  streams := h.streams
  finished := fun hstate => (nomatch hopen.symm.trans hstate)
  fresh := fun _ => h
  served := fun hstate => (nomatch hopen.symm.trans hstate)

theorem of_running (hrunning : g.state = .running) (hstreams : g.Streams (env.journal.calls g.id))
    (hserved : g.Served (env.journal.calls g.id)) : g.Prompt env where
  streams := hstreams
  finished := fun hstate => (nomatch hrunning.symm.trans hstate)
  fresh := fun hstate => (nomatch hrunning.symm.trans hstate)
  served := fun _ => hserved

/-! ### Building -/

theorem add [Behavior κ ω] (h : g.Prompt env) (cls : ComponentClass κ) (name : String)
    (settings : Settings) :
    (g.add cls name settings env).graph.Prompt (g.add cls name settings env).env := by
  rcases g.add_cases cls name settings env with
    ⟨e, env', hadd, hrefused | ⟨hmay, fault, hbotched⟩⟩ | ⟨hmay, k, env', hadd, hadded⟩
  · rw [hadd]
    exact h.elsewhere hrefused
  · obtain ⟨hopen, -⟩ := mayAdd_eq_ok hmay
    rw [hadd]
    refine of_fresh hopen ?_
    rw [Journal.calls_of_about hbotched]
    exact (h.fresh hopen).setUp _ _
  · obtain ⟨hopen, -⟩ := mayAdd_eq_ok hmay
    rw [hadd]
    refine of_fresh hopen ?_
    change Fresh _ (env'.journal.calls g.id)
    rw [Journal.calls_of_about hadded]
    exact ((h.fresh hopen).setUp _ _).push _ name cls k

theorem connect (h : g.Prompt env) (a b : PortHandle) :
    (g.connect a b env).graph.Prompt (g.connect a b env).env := by
  rcases g.connect_cases a b env with ⟨e, env', hconnect, habout⟩ | ⟨c, env', hplans, hconnect, habout⟩
  · rw [hconnect]
    exact h.elsewhere habout
  · rw [hconnect]
    refine of_fresh hplans.open_ ?_
    change Fresh _ (env'.journal.calls g.id)
    rw [Journal.calls_of_about_eq habout]
    exact (h.fresh hplans.open_).join c

theorem link (h : g.Prompt env) (giver output taker input : String) :
    (g.link giver output taker input env).graph.Prompt (g.link giver output taker input env).env := by
  rcases g.link_cases giver output taker input env with ⟨e, hlink⟩ | ⟨a, b, -, -, hlink⟩
  · rw [hlink]
    exact h
  · rw [hlink]
    exact h.connect a b

end Prompt

/-! ### Running -/

section Running

variable [Behavior κ ω] {patience : Nat}

theorem finalizeAll_portAt? (g : Graph κ ω) (env : Env ω) (i j : Nat) :
    (g.finalizeAll env).graph.portAt? i j = g.portAt? i j := by
  refine portAt?_of_ports_eq ?_ i j
  refine finalizeList_map (fun c env => ?_) g.name g.components env
  unfold Component.finalize
  split
  · rfl
  · split <;> rfl

/-- Closing a graph hands nothing to anybody. -/
theorem Prompt.close (hsane : g.Sane env) (hopen : g.state.isOver = false)
    (hs : g.Streams (env.journal.calls g.id)) {state : GraphState} (hover : state.isOver = true)
    (hcomplete : state = .finished → g.Complete (env.journal.calls g.id)) :
    (g.close state env).graph.Prompt (g.close state env).env := by
  obtain ⟨-, hstate⟩ := hsane.close hopen hover
  have hcloses := hsane.closes hopen state
  have hports : ∀ i j, (g.close state env).graph.portAt? i j = g.portAt? i j :=
    finalizeAll_portAt? { g with state := state } env
  obtain ⟨-, htopology, -, -, ⟨ends, -, habout, -⟩, -⟩ := hcloses
  have hid : (g.close state env).graph.id = g.id := congrArg Topology.id htopology
  have hcalls : (g.close state env).env.journal.calls g.id =
      env.journal.calls g.id ++ (farewells g.id ends).filterMap Event.call? :=
    Journal.calls_of_about habout
  have hfarewells : ∀ x ∈ (farewells g.id ends).filterMap Event.call?,
      x.2.isPull = false ∧ x.2.isArrival = false := by
    intro x hx
    obtain ⟨e, he, hcall⟩ := List.mem_filterMap.mp hx
    obtain ⟨y, -, rfl⟩ := List.mem_map.mp he
    obtain rfl := Option.some.inj hcall
    exact ⟨rfl, rfl⟩
  refine ⟨⟨?streams, fun hfinished => ?finished⟩, fun h => ?fresh, fun h => ?served⟩
  case streams =>
    rw [hid, hcalls]
    exact hs.keep htopology (.of_eq (S := fun _ _ => True) hports) hfarewells
  case finished =>
    intro s hsink j p hp hd
    rw [hports] at hp
    rw [show (g.close state env).graph.sinks = g.sinks from
      congrArg Topology.sinks htopology] at hsink
    rw [hid, hcalls]
    exact List.mem_append_left _ (hcomplete (hstate.symm.trans hfinished) s hsink j p hp hd)
  case fresh =>
    rw [hstate] at h
    exact nomatch (congrArg GraphState.isOver h).symm.trans hover
  case served =>
    rw [hstate] at h
    exact nomatch (congrArg GraphState.isOver h).symm.trans hover

/-- Steps that follow each other keep the streams in order, whatever they come to. -/
theorem streams_of_sweeps {steps : List (Step κ ω)} {sweep : Option Sweep}
    (h : Sweeps patience steps g env sweep g' env') (hsane : g.Sane env)
    (hs : g.Streams (env.journal.calls g.id)) : g'.Streams (env'.journal.calls g'.id) := by
  induction h with
  | completed => exact hs
  | cancelled => exact hs
  | failed s hdue => exact hdue.streams (hsane.steady hdue.running) hs
  | broken s hdue => exact hdue.streams (hsane.steady hdue.running) hs
  | step s hdue hresult _ ih =>
    refine ih (hsane.step hdue ?_) (hdue.streams (hsane.steady hdue.running) hs)
    rw [hresult]
    rfl

/-- Steps that go well leave every sink told of what has ended. -/
theorem served_stepInvariant (patience : Nat) : StepInvariant patience
    fun (g : Graph κ ω) env => g.Sane env ∧ g.Served (env.journal.calls g.id) where
  step := by
    rintro s hdue ⟨hsane, hserved⟩ moved hmoved
    refine ⟨hsane.step hdue ?_, hdue.served (hsane.steady hdue.running) hserved hmoved⟩
    rw [hmoved]
    rfl
  count g env stats h := ⟨h.1.tally stats, h.2⟩
  note g env notice h := by
    refine ⟨h.1.elsewhere (env.about_note notice g.id), ?_⟩
    rw [Journal.calls_of_about_eq (env.about_note notice g.id)]
    exact h.2

omit [Behavior κ ω] in
/-- Where no stream is left, every input port of a sink has noted the end of its stream. -/
theorem complete_of_served (h : g.Served l) (hdemand : g.hasDemand = false) : g.Complete l := by
  intro s hs j p hp hd
  refine h s hs j p hp hd ?_
  obtain ⟨c, hc, hj⟩ := Option.bind_eq_some_iff.mp hp
  have hpending : c.pending = [] := by
    have hnone := List.any_eq_false.mp hdemand s hs
    rw [hc] at hnone
    simpa using hnone
  cases hend : p.atEnd with
  | true => rfl
  | false =>
    have hmem : j ∈ c.pending := Component.mem_pending.mpr ⟨p, hj, hd, hend⟩
    rw [hpending] at hmem
    cases hmem

theorem Prompt.conclude (hsane : g.Sane env) (hrunning : g.state = .running)
    (hs : g.Streams (env.journal.calls g.id)) {state : GraphState} (hends : state.EndsRun)
    (hcomplete : state = .finished → g.Complete (env.journal.calls g.id)) (outcome : Outcome)
    (notice : Notice) :
    (g.conclude state outcome notice env).graph.Prompt (g.conclude state outcome notice env).env := by
  have hopen : g.state.isOver = false := by
    rw [hrunning]
    rfl
  have hclose := (Prompt.close hsane hopen hs hends.isOver hcomplete).elsewhere
    (Env.about_note _ notice _)
  simp only [Graph.conclude]
  split <;> exact hclose

/-- What follows the steps of a round. A graph finishes when no stream is left. -/
theorem Prompt.afterSweep (hsane : g.Sane env) (hrunning : g.state = .running)
    (hs : g.Streams (env.journal.calls g.id)) {sweep : Sweep}
    (hserved : (∀ f, sweep ≠ .failed f) → g.Served (env.journal.calls g.id)) :
    (g.afterSweep sweep env).graph.Prompt (g.afterSweep sweep env).env := by
  have hswept := g.afterSweep_sweptTo sweep env
  generalize g.afterSweep sweep env = x at hswept ⊢
  cases hswept with
  | cancelled => exact Prompt.conclude hsane hrunning hs (.inr (.inl rfl)) (by simp) _ _
  | finished _ hdemand =>
    have hserved := hserved (by simp)
    exact Prompt.conclude hsane hrunning hs (.inl rfl)
      (fun _ => complete_of_served hserved hdemand) _ _
  | failed f =>
    have hnote : ∀ notice : Notice, (env.note notice).journal.about g.id = env.journal.about g.id :=
      fun notice => env.about_note notice g.id
    refine Prompt.close (hsane.elsewhere (hnote _)) ?_ ?_ rfl nofun
    · rw [hrunning]
      rfl
    · rw [Journal.calls_of_about_eq (hnote _)]
      exact hs
  | goesOn progressed =>
    have hgoesOn : g.Prompt env := .of_running hrunning hs (hserved (by simp))
    have hnoted := hgoesOn.elsewhere
      (env.about_note (.roundComplete g.name g.stats.rounds progressed) g.id)
    exact .of_running hrunning (hnoted.streams.congr rfl fun _ _ => rfl) (hnoted.served hrunning)

omit [Behavior κ ω] in
theorem start_portAt? (hvalid : g.validate = .ok ()) (env : Env ω) (i j : Nat) :
    (g.start env).graph.portAt? i j = g.portAt? i j := by
  obtain ⟨g₁, notice, hstart, -, hcomponents, -⟩ := start_spec hvalid env
  rw [hstart]
  refine portAt?_of_ports_eq ?_ i j
  rw [hcomponents, List.map_map]
  refine List.map_congr_left fun c _ => ?_
  simp only [Function.comp_apply, Component.start]
  split <;> rfl

omit [Behavior κ ω] in
/-- Getting under way. -/
theorem Prompt.begins {g₁ : Graph κ ω} {env₁ : Env ω} (h : g.Prompt env)
    (hbegins : g.Begins env g₁ env₁) : g₁.Prompt env₁ := by
  cases hbegins with
  | running => exact h
  | started hopen hvalid =>
    have hports := start_portAt? hvalid env
    obtain ⟨g₁, notice, hstart, htopology, -, hrunning⟩ := start_spec hvalid env
    rw [hstart] at hports
    have hid : g₁.id = g.id := congrArg Topology.id htopology
    have hcalls : (env.note notice).journal.calls g₁.id = env.journal.calls g.id := by
      rw [hid, Journal.calls_of_about_eq (env.about_note notice g.id)]
    have hfresh := h.fresh hopen
    have hfresh' : g₁.Fresh ((env.note notice).journal.calls g₁.id) := by
      rw [hcalls]
      exact ⟨hfresh.idle, fun i j p hp => hfresh.unended i j p (hports i j ▸ hp)⟩
    rw [hstart]
    exact .of_running hrunning hfresh'.streams hfresh'.served

/-- **A round keeps the streams in order**, and if it comes to its end, every sink has been
told of what has ended. -/
theorem Prompt.runOnce (h : g.Prompt env) (hsane : g.Sane env) (patience : Nat) :
    (g.runOnce patience env).graph.Orderly (g.runOnce patience env).env ∧
      ((g.runOnce patience env).result.isSome = true →
        (g.runOnce patience env).graph.Prompt (g.runOnce patience env).env) := by
  rcases g.begins_or_refused patience env with ⟨g₁, env₁, hbegins⟩ | ⟨-, e, hrefused, -⟩
  · have hsane₁ := hbegins.sane hsane
    have hprompt := h.begins hbegins
    have hrunning := hbegins.state_eq
    obtain ⟨sweep, g', env', hsweeps, hround⟩ := runOnce_sweeps hsane₁.wired hrunning patience env₁
    have hnext : g₁.nextRound.Sane env₁ := hsane₁.tally _
    have hstreams := streams_of_sweeps hsweeps hnext (hprompt.streams.congr rfl fun _ _ => rfl)
    obtain ⟨-, hend⟩ := hsweeps.invariant
      (P := fun g env => g.Sane env ∧ g.Served (env.journal.calls g.id))
      (served_stepInvariant patience).step ⟨hnext, hprompt.served hrunning⟩
    have hstate : g'.state = .running := hsweeps.leads.state.trans hrunning
    rw [hbegins.runOnce_eq, hround]
    cases sweep with
    | none =>
      refine ⟨⟨hstreams, fun hfinished => ?_⟩, (nomatch ·)⟩
      exact nomatch hstate.symm.trans hfinished
    | some sweep =>
      have hserved : (∀ f, sweep ≠ .failed f) → g'.Served (env'.journal.calls g'.id) := by
        intro hnone
        rcases hend with hbroken | ⟨f, hfailed⟩ | ⟨-, hserved⟩
        · cases hbroken
        · exact absurd (Option.some.inj hfailed) (hnone f)
        · exact hserved
      have hafter := Prompt.afterSweep (hnext.sweeps hsweeps) hstate hstreams hserved
      exact ⟨hafter.toOrderly, fun _ => hafter⟩
  · rw [hrefused]
    exact ⟨h.toOrderly, fun _ => h⟩

/-- **A run keeps the streams in order.** The induction is on the number of rounds. -/
theorem Prompt.run (h : g.Prompt env) (hsane : g.Sane env) (patience rounds : Nat) :
    (Graph.run patience rounds g env).graph.Orderly (Graph.run patience rounds g env).env ∧
      ((Graph.run patience rounds g env).result.isSome = true →
        (Graph.run patience rounds g env).graph.Prompt (Graph.run patience rounds g env).env) := by
  induction rounds generalizing g env with
  | zero => exact ⟨h.toOrderly, fun _ => h⟩
  | succ rounds ih =>
    have hround := h.runOnce hsane patience
    have hlawful := hsane.ran (g.runOnce_ran patience env)
    have hgoesOn : ∀ outcome, (g.runOnce patience env).result = some (.ok outcome) →
        outcome = .progress ∨ outcome = .again → (g.runOnce patience env).graph.state = .running :=
      fun outcome => running_of_goesOn
    unfold Graph.run
    generalize g.runOnce patience env = x at hround hlawful hgoesOn ⊢
    obtain ⟨result, g', env'⟩ := x
    obtain ⟨horderly, hprompt⟩ := hround
    rcases result with _ | e | outcome
    · exact ⟨horderly, fun hreturned => by cases hreturned⟩
    · exact ⟨horderly, fun _ => hprompt rfl⟩
    cases outcome with
    | finished | cancelled => exact ⟨horderly, fun _ => hprompt rfl⟩
    | progress => exact ih (hprompt rfl) ⟨hlawful.1, hlawful.2 rfl⟩
    | again =>
      have hwait := g'.backOff_about env' g'.id
      have hprompt' := (hprompt rfl).elsewhere hwait
      have hsane' : g'.Sane (g'.backOff env').2 := Sane.elsewhere ⟨hlawful.1, hlawful.2 rfl⟩ hwait
      dsimp only
      generalize g'.backOff env' = y at hprompt' hsane' ⊢
      obtain ⟨goesOn, env''⟩ := y
      cases goesOn with
      | true => exact ih hprompt' hsane'
      | false =>
        -- the policy gives up, and the graph is closed
        have hrunning := hgoesOn _ rfl (.inr rfl)
        have hnote : ∀ notice : Notice,
            (env''.note notice).journal.about g'.id = env''.journal.about g'.id :=
          fun notice => env''.about_note notice g'.id
        let env₁ := env''.note (.gaveUp g'.name g'.stats.idleRounds)
        have hclose : (g'.close .faulted env₁).graph.Prompt (g'.close .faulted env₁).env := by
          refine Prompt.close (hsane'.elsewhere (hnote _)) ?_ (hprompt'.elsewhere (hnote _)).streams
            rfl (fun hfinished => by cases hfinished)
          rw [hrunning]
          rfl
        exact ⟨hclose.toOrderly, fun _ => hclose⟩

theorem Prompt.teardown (h : g.Prompt env) (hsane : g.Sane env) :
    (g.teardown env).graph.Prompt (g.teardown env).env := by
  have hnote : (env.note (.tearingDown g.name)).journal.about g.id = env.journal.about g.id :=
    env.about_note _ g.id
  cases hover : g.state.isOver with
  | true =>
    rw [teardown_over hover (hsane.finalized_of_isOver hover)]
    exact h.elsewhere hnote
  | false =>
    rw [teardown_open hover]
    exact Prompt.close (hsane.elsewhere hnote) hover (h.elsewhere hnote).streams rfl nofun

/-! ## Ends are kept -/

/-- Ports stay where they are, and a stream that has ended stays ended. -/
def KeepsEnds (g g' : Graph κ ω) : Prop :=
  ∀ i j p, g.portAt? i j = some p →
    ∃ p', g'.portAt? i j = some p' ∧ (p.atEnd = true → p'.atEnd = true)

omit [Behavior κ ω] in
theorem Latches.keepsEnds {S : Nat → Nat → Prop} (h : g.Latches S g') : g.KeepsEnds g' := by
  intro i j p hp
  obtain ⟨p', hp', rfl | ⟨rfl, -, -⟩⟩ := h i j p hp
  · exact ⟨p', hp', fun hend => hend⟩
  · exact ⟨_, hp', fun _ => rfl⟩

theorem Advance.latches (h : Advance g env g' env') : g.Latches (fun _ _ => True) g' := by
  cases h with
  | remark => exact .refl g
  | tally => exact .of_eq fun _ _ => rfl
  | pull patience hdue _ =>
    obtain ⟨p, hp, hd⟩ := hdue.port
    exact (sinkStep_latches hp hd patience env).mono fun _ _ _ => trivial
  | close => exact .of_eq (finalizeAll_portAt? _ env)

theorem Course.latches {returned : Bool} (h : Course g env returned g' env') :
    g.Latches (fun _ _ => True) g' := by
  induction h with
  | done => exact .refl _
  | pause => exact .refl _
  | @broken g env id index patience hdue _ =>
    obtain ⟨p, hp, hd⟩ := hdue.port
    exact (sinkStep_latches hp hd patience env).mono fun _ _ _ => trivial
  | next hstep _ ih => exact hstep.latches.trans ih

theorem Ran.latches {returned : Bool} (h : Ran g env returned g' env') :
    g.Latches (fun _ _ => True) g' := by
  cases h with
  | unchanged => exact .refl g
  | resumed _ hcourse => exact hcourse.latches
  | started hopen hvalid hcourse =>
    exact (Latches.of_eq (start_portAt? hvalid env)).trans hcourse.latches

omit [Behavior κ ω] in
theorem KeepsEnds.push (g : Graph κ ω) (c : Component κ) : g.KeepsEnds (g.push c) := by
  intro i j p hp
  obtain ⟨c', hc', hj⟩ := Option.bind_eq_some_iff.mp hp
  have hlt : i < g.components.length := (List.getElem?_eq_some_iff.mp hc').1
  refine ⟨p, ?_, fun hend => hend⟩
  rw [portAt?, Graph.push, List.getElem?_append_left hlt, hc']
  exact hj

omit [Behavior κ ω] in
theorem KeepsEnds.join (g : Graph κ ω) (c : Connection) : g.KeepsEnds (g.join c) := by
  have hattach : ∀ (g : Graph κ ω) (q : PortHandle) (k : Nat), g.KeepsEnds (g.attach q k) := by
    intro g q k i j p hp
    rw [attach, portAt?_modifyPort]
    split
    · exact ⟨{ p with connection := some k }, by rw [hp]; rfl, fun hend => hend⟩
    · exact ⟨p, hp, fun hend => hend⟩
  intro i j p hp
  obtain ⟨p', hp', hend⟩ := hattach g c.output c.id i j p hp
  obtain ⟨p'', hp'', hend'⟩ := hattach _ c.input c.id i j p' hp'
  exact ⟨p'', hp'', fun h => hend' (hend h)⟩

end Running
end Graph

section Requests

variable [Behavior κ ω] {g : Graph κ ω} {env : Env ω}

/-- No request takes back the end of a stream. -/
theorem Request.keepsEnds (g : Graph κ ω) (env : Env ω) (r : Request κ ω) :
    g.KeepsEnds (r.perform g env).graph := by
  have hrefl : g.KeepsEnds g := (Graph.Latches.refl (S := fun _ _ => True) g).keepsEnds
  have hconnect : ∀ a b, g.KeepsEnds (g.connect a b env).graph := by
    intro a b
    rcases g.connect_cases a b env with ⟨e, env', hconnect, -⟩ | ⟨c, env', -, hconnect, -⟩
    · rw [hconnect]
      exact hrefl
    · rw [hconnect]
      exact .join g c
  cases r with
  | add cls name settings =>
    change g.KeepsEnds (g.add cls name settings env).graph
    rcases g.add_cases cls name settings env with ⟨e, env', hadd, -⟩ | ⟨-, k, env', hadd, -⟩
    · rw [hadd]
      exact hrefl
    · rw [hadd]
      exact .push g _
  | connect a b => exact hconnect a b
  | link giver output taker input =>
    change g.KeepsEnds (g.link giver output taker input env).graph
    rcases g.link_cases giver output taker input env with ⟨e, hlink⟩ | ⟨a, b, -, -, hlink⟩
    · rw [hlink]
      exact hrefl
    · rw [hlink]
      exact hconnect a b
  | follow policy => exact hrefl
  | runOnce patience => exact (g.runOnce_ran patience env).latches.keepsEnds
  | run patience rounds => exact (g.run_ran patience rounds env).latches.keepsEnds
  | cancel => exact hrefl
  | teardown =>
    change g.KeepsEnds (g.teardown env).graph
    have hports := Graph.finalizeAll_portAt? (κ := κ) (ω := ω)
    unfold Graph.teardown
    refine (Graph.Latches.of_eq (S := fun _ _ => True) fun i j => (hports _ _ i j).trans ?_).keepsEnds
    cases g.state <;> rfl

/-- A request keeps the streams in order, and if it comes to its end, every sink has been told
of what has ended. -/
theorem Request.prompt (hsane : g.Sane env) (h : g.Prompt env) (r : Request κ ω) :
    (r.perform g env).graph.Orderly (r.perform g env).env ∧
      ((r.perform g env).result = true → (r.perform g env).graph.Prompt (r.perform g env).env) := by
  have of_prompt : ∀ {x : After κ ω Bool}, x.graph.Prompt x.env →
      x.graph.Orderly x.env ∧ (x.result = true → x.graph.Prompt x.env) :=
    fun hprompt => ⟨hprompt.toOrderly, fun _ => hprompt⟩
  cases r with
  | add cls name settings => exact of_prompt (h.add cls name settings)
  | connect a b => exact of_prompt (h.connect a b)
  | link giver output taker input => exact of_prompt (h.link giver output taker input)
  | follow policy =>
    have hsame : ({ g with policy := policy } : Graph κ ω).Streams (env.journal.calls g.id) :=
      h.streams.congr rfl fun _ _ => rfl
    exact of_prompt ⟨⟨hsame, h.finished⟩, fun hopen => ⟨(h.fresh hopen).idle, (h.fresh hopen).unended⟩,
      h.served⟩
  | runOnce patience => exact h.runOnce hsane patience
  | run patience rounds => exact h.run hsane patience rounds
  | cancel => exact of_prompt (h.elsewhere rfl)
  | teardown => exact of_prompt (h.teardown hsane)

/-- **Streams are in order all the life of a graph.** -/
theorem Lifetime.prompt {added : List ComponentId} (h : Lifetime added g env) : g.Prompt env := by
  induction h with
  | @create name config env hunheard =>
    refine .of_fresh rfl ⟨fun x hx => ?_, fun i j p hp => nomatch hp⟩
    have hcalls : (Graph.create name config env : Graph κ ω × Env ω).2.journal.calls env.nextGraph =
        env.journal.calls env.nextGraph :=
      Journal.calls_of_about_eq (env.about_note (.creating name config) env.nextGraph)
    have hnone : env.journal.calls env.nextGraph = [] := by
      rw [Journal.calls_eq, hunheard]
      rfl
    change x ∈ (Graph.create name config env : Graph κ ω × Env ω).2.journal.calls env.nextGraph at hx
    rw [hcalls, hnone] at hx
    cases hx
  | elsewhere _ habout ih => exact ih.elsewhere habout
  | call hlife r _ hreturned ih => exact (r.prompt hlife.sane ih).2 hreturned

/-- An input port that answers that the stream has ended has noted it. -/
theorem pullInput_ends (patience : Nat) {t : Turn κ ω} {id index : Nat}
    (hended : (pullInput (converse patience) id index t).result = some (.ok .endOfStream)) :
    ∃ p', (pullInput (converse patience) id index t).turn.graph.portAt? id index = some p' ∧
      p'.atEnd = true := by
  have hlaw : ExchangeLaw (LatchesAbove : ComponentId → Turn κ ω → Turn κ ω → Prop) :=
    latchesAbove_law
  have hpulled := pullInput_pulled (converse patience) id index t
  generalize pullInput (converse patience) id index t = x at hpulled hended ⊢
  cases hpulled with
  | atEnd hp' hend => exact ⟨_, hp', hend⟩
  | refused => cases hended
  | unanswered => cases hended
  | @answered p' out conn c k k' t' answer hasks hproduced =>
    have hq := hlaw.produce (hlaw.pullLaw.converse patience) c.kind conn.output.component out.name k
      (t.ask conn.output.component out.name)
    rw [hproduced] at hq
    obtain ⟨p'', hp'', -⟩ :=
      Graph.portAt?_of_topology_eq (LatchesAbove.of_asked hasks hq).1 hasks.port
    rw [t'.settle_portAt?, hp'']
    match answer with
    | .ok .endOfStream =>
      rw [if_pos ⟨rfl, rfl, rfl⟩]
      exact ⟨_, rfl, rfl⟩
    | .ok .again | .ok (.message m) | .error cause => cases hended

end Requests

/-! ## What a sink is told -/

/-- What a call hands to a sink at a port: a message, or the end of the stream. -/
def Call.arrival? (port : String) : Call → Option (Option Message)
  | .consumed p m _ => if p = port then some (some m) else none
  | .ended p _ => if p = port then some none else none
  | _ => none

theorem Call.arrival?_eq_some_iff {port : String} {c : Call} {arrival : Option Message} :
    c.arrival? port = some arrival ↔ ∃ fault, c = Graph.arrivalCall port arrival fault := by
  constructor
  · intro h
    cases c with
    | consumed p m fault =>
      obtain ⟨rfl, rfl⟩ : p = port ∧ some m = arrival := by simpa [arrival?] using h
      exact ⟨fault, rfl⟩
    | ended p fault =>
      obtain ⟨rfl, rfl⟩ : p = port ∧ none = arrival := by simpa [arrival?] using h
      exact ⟨fault, rfl⟩
    | setUp | asked | answered | finalized => cases h
  · rintro ⟨fault, rfl⟩
    cases arrival <;> simp [Graph.arrivalCall, arrival?]

/-- What a sink has been handed at a port, in order. -/
def arrivals (l : List (ComponentId × Call)) (s : ComponentId) (port : String) :
    List (Option Message) :=
  l.filterMap fun x => if x.1 = s then x.2.arrival? port else none

theorem arrival_eq_some_iff {x : ComponentId × Call} {s : ComponentId} {port : String}
    {arrival : Option Message} :
    (if x.1 = s then x.2.arrival? port else none) = some arrival ↔
      ∃ fault, x = (s, Graph.arrivalCall port arrival fault) := by
  obtain ⟨i, c⟩ := x
  by_cases hi : i = s
  · simp [hi, Call.arrival?_eq_some_iff]
  · simp [hi]

theorem none_mem_arrivals {l : List (ComponentId × Call)} {s : ComponentId} {port : String} :
    none ∈ arrivals l s port ↔ ∃ fault, (s, Call.ended port fault) ∈ l := by
  simp only [arrivals, List.mem_filterMap, arrival_eq_some_iff]
  constructor
  · rintro ⟨x, hx, fault, rfl⟩
    exact ⟨fault, hx⟩
  · rintro ⟨fault, hx⟩
    exact ⟨_, hx, fault, rfl⟩

/-- A list with nothing after the end is one of messages, with the end or without it. -/
theorem messages_of_follows {α : Type} {l : List (Option α)}
    (h : Follows (fun before _ => none ∉ before) l) :
    ∃ ms : List α, l = ms.map some ∨ l = ms.map some ++ [none] := by
  induction l with
  | nil => exact ⟨[], .inl rfl⟩
  | cons a l ih =>
    have hrest : Follows (fun before _ => none ∉ before) l := by
      intro before b after heq hmem
      exact h (a :: before) b after (by rw [heq]; rfl) (List.mem_cons_of_mem a hmem)
    cases a with
    | none =>
      cases l with
      | nil => exact ⟨[], .inr rfl⟩
      | cons b l => exact absurd List.mem_cons_self (h [none] b l rfl)
    | some m =>
      obtain ⟨ms, rfl | rfl⟩ := ih hrest
      · exact ⟨m :: ms, .inl rfl⟩
      · exact ⟨m :: ms, .inr rfl⟩

theorem Graph.Streams.arrivals {g : Graph κ ω} {l : List (ComponentId × Call)} (h : g.Streams l)
    (s : ComponentId) (port : String) :
    Follows (fun before _ => none ∉ before) (arrivals l s port) := by
  refine h.order.filterMap ?_
  intro before x arrival hx horder hmem
  obtain ⟨fault, rfl⟩ := arrival_eq_some_iff.mp hx
  obtain ⟨fault', hended⟩ := none_mem_arrivals.mp hmem
  exact horder s port arrival fault rfl fault' hended

section Protocol

variable [Behavior κ ω] {g : Graph κ ω} {env : Env ω}

/-- **Streams end once.**  Whatever a graph has been through and whatever is asked of it next:
(1) a component that has said that the stream from a port has ended is not asked for that port
again; (2) a port whose stream has ended answers so by itself, with nothing done, and an input
port that answers so has noted it; (3) no request and no pull takes back the end of a stream,
and output ports do not note any; (4) what a sink is handed at a port are messages and then,
at most once, the end of the stream; (5) if the graph has finished, each input port of each
sink has been handed it; (6) the calls of the request are performed on the inner states of the
components and the state they share, in this order and with the outcomes that are written down
for them, and so were those before. -/
theorem Lifetime.streams_end_once {added : List ComponentId} (h : Lifetime added g env)
    (r : Request κ ω) :
    Follows (fun before call => ∀ a port, call = (a, Call.asked port) →
        (a, Call.answered port (.ok .endOfStream)) ∉ before)
      ((r.perform g env).env.journal.calls g.id) ∧
    (∀ patience (t : Turn κ ω) id index p, t.graph.portAt? id index = some p →
      p.direction = .input →
      (p.atEnd = true →
        pullInput (converse patience) id index t = ⟨some (.ok .endOfStream), t⟩) ∧
      ((pullInput (converse patience) id index t).result = some (.ok .endOfStream) →
        ∃ p', (pullInput (converse patience) id index t).turn.graph.portAt? id index = some p' ∧
          p'.atEnd = true) ∧
      t.graph.KeepsEnds (pullInput (converse patience) id index t).turn.graph) ∧
    g.KeepsEnds (r.perform g env).graph ∧
    (∀ i j p, (r.perform g env).graph.portAt? i j = some p → p.direction = .output →
      p.atEnd = false) ∧
    (∀ s port, ∃ ms : List Message,
      arrivals ((r.perform g env).env.journal.calls g.id) s port = ms.map some ∨
      arrivals ((r.perform g env).env.journal.calls g.id) s port = ms.map some ++ [none]) ∧
    ((r.perform g env).graph.state = .finished → ∀ s ∈ (r.perform g env).graph.sinks, ∀ j p,
      (r.perform g env).graph.portAt? s j = some p → p.direction = .input →
      ∃ ms : List Message,
        arrivals ((r.perform g env).env.journal.calls g.id) s p.name = ms.map some ++ [none]) ∧
    g.Enacts env (r.perform g env).graph (r.perform g env).env ∧
    Enacted ((r.perform g env).env.journal.calls g.id) (r.perform g env).graph
      (r.perform g env).env := by
  have horderly := (r.prompt h.sane h.prompt).1
  obtain ⟨hstreams, hfinished⟩ := horderly
  rw [r.perform_id g env] at hstreams hfinished
  have hshape := fun s port => messages_of_follows (hstreams.arrivals s port)
  refine ⟨hstreams.silent, ?pulls, r.keepsEnds g env, hstreams.outputs, hshape, ?complete,
    r.enacts h.sane.wired, h.enacted_request r⟩
  case pulls =>
    intro patience t id index p hp hd
    refine ⟨pullInput_atEnd hp, pullInput_ends patience, ?_⟩
    exact (pullInput_latches patience hp hd).keepsEnds
  case complete =>
    intro hstate s hs j p hp hd
    have hend : none ∈ arrivals ((r.perform g env).env.journal.calls g.id) s p.name :=
      none_mem_arrivals.mpr ⟨none, hfinished hstate s hs j p hp hd⟩
    obtain ⟨ms, hmessages | hmessages⟩ := hshape s p.name
    · rw [hmessages] at hend
      simp at hend
    · exact ⟨ms, hmessages⟩

/-- The pipeline runs to its end, and its sink is handed two messages and the end. -/
theorem pipeline_arrivals :
    Lifetime [0, 1, 2] pipeline.1 pipeline.2 ∧
      ((Request.run 5 9).perform pipeline.1 pipeline.2).graph.state = .finished ∧
      arrivals (((Request.run 5 9).perform pipeline.1 pipeline.2).env.journal.calls pipeline.1.id)
        2 "in" = [some (.int 1), some (.int 2), none] ∧
      ∃ ms : List Message, arrivals
        (((Request.run 5 9).perform pipeline.1 pipeline.2).env.journal.calls pipeline.1.id)
          2 "in" = ms.map some ++ [none] := by
  have h := pipeline_lifetime.streams_end_once (.run 5 9)
  exact ⟨pipeline_lifetime, rfl, rfl, h.2.2.2.2.2.1 rfl 2 List.mem_cons_self 0 _ rfl rfl⟩

end Protocol
end PullGraph
