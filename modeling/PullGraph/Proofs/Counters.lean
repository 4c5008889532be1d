import PullGraph.Proofs.Schedule

/-! # The counters of a graph

A graph counts its rounds, the messages that its sinks were handed, and the rounds in a row in
which nothing moved. `Chronicle` follows the life of a graph together with the rounds that were
asked for, and `Tallied` says what the counters are by then: how many of these rounds got past
the check, how many messages the journal tells of, and how many of the latest rounds were idle.
-/
namespace PullGraph

variable {κ ω : Type}

/-- A round that is asked for: where things stand then, and how much patience there is. -/
structure Round (κ ω : Type) where
  graph : Graph κ ω
  env : Env ω
  patience : Nat

namespace Round

/-- Whether a round gets past the check: the graph runs, or it can start. -/
def starts (r : Round κ ω) : Bool := (r.graph.ensureRunning r.env).result.isOk

variable [Behavior κ ω]

/-- What a round leaves behind. -/
def after (r : Round κ ω) : After κ ω (Option (Except RunError Outcome)) :=
  r.graph.runOnce r.patience r.env

/-- Whether nothing moved in a round. -/
def isIdle (r : Round κ ω) : Bool :=
  match r.after.result with
  | some (.ok .again) => true
  | _ => false

/-- How many rounds at the end of a list were idle. -/
def idleStreak (rounds : List (Round κ ω)) : Nat := (rounds.reverse.takeWhile isIdle).length

theorem idleStreak_concat (rounds : List (Round κ ω)) (r : Round κ ω) :
    idleStreak (rounds ++ [r]) = if r.isIdle then idleStreak rounds + 1 else 0 := by
  rw [idleStreak, List.reverse_append, List.reverse_singleton, List.singleton_append,
    List.takeWhile_cons]
  split <;> rfl

/-- A round gets under way, or it is refused and changes nothing. -/
theorem starts_or_refused (r : Round κ ω) :
    (r.starts = true ∧ ∃ g₁ env₁, r.graph.Begins r.env g₁ env₁) ∨
      (r.starts = false ∧ r.graph.state ≠ .running ∧
        ∃ e, r.after = ⟨some (.error e), r.graph, r.env⟩) := by
  have hbegins : ∀ {g₁ env₁}, r.graph.Begins r.env g₁ env₁ → r.starts = true := by
    intro g₁ env₁ h
    rw [starts, h.ensureRunning_eq]
    rfl
  rcases r.graph.state.cases_isOver with hopen | hrunning | hover
  · cases hvalid : r.graph.validate with
    | ok u => exact .inl ⟨hbegins (.started hopen hvalid), _, _, .started hopen hvalid⟩
    | error e =>
      refine .inr ⟨?_, by simp [hopen], _, Graph.runOnce_invalid hopen hvalid r.patience r.env⟩
      simp [starts, Graph.ensureRunning, hopen, Graph.start, hvalid, Except.isOk, Except.toBool]
  · exact .inl ⟨hbegins (.running hrunning), _, _, .running hrunning⟩
  · refine .inr ⟨?_, ?_, _, Graph.runOnce_over hover r.patience r.env⟩
    · unfold starts Graph.ensureRunning
      cases hstate : r.graph.state with
      | configuring | running =>
        rw [hstate] at hover
        cases hover
      | finished | cancelled | faulted | tornDown => rfl
    · intro hrunning
      rw [hrunning] at hover
      cases hover

end Round

/-! ## Messages -/

namespace Graph

variable {g g' g'' : Graph κ ω} {env env' env'' : Env ω}

/-- The counter of messages agrees with the journal, and only sinks were handed any. -/
structure Reckons (g : Graph κ ω) (env : Env ω) : Prop where
  messages : g.stats.messages = UInt64.ofNat (g.delivered env)
  takers : ∀ id port m fault,
    .call g.id id (.consumed port m fault) ∈ env.journal.about g.id → id ∈ g.sinks

/-- More is written down, and the messages in it are counted. -/
theorem Reckons.grow (h : g.Reckons env) (hid : g'.id = g.id) (hsinks : g.sinks ⊆ g'.sinks)
    {es : List Event} (habout : env'.journal.about g.id = env.journal.about g.id ++ es)
    (hmessages : g'.stats.messages = g.stats.messages + UInt64.ofNat (es.countP Event.isDelivery))
    (htakers : ∀ id port m fault, .call g.id id (.consumed port m fault) ∈ es → id ∈ g.sinks) :
    g'.Reckons env' where
  messages := by
    rw [hmessages, h.messages, delivered, delivered, hid, habout, List.countP_append,
      UInt64.ofNat_add]
  takers := by
    intro id port m fault hmem
    rw [hid, habout] at hmem
    rcases List.mem_append.mp hmem with hold | hnew
    · exact hsinks (h.takers id port m fault hold)
    · exact hsinks (htakers id port m fault hnew)

/-- Nothing is written down. -/
theorem Reckons.congr (h : g.Reckons env) (hid : g'.id = g.id) (hsinks : g'.sinks = g.sinks)
    (hmessages : g'.stats.messages = g.stats.messages)
    (habout : env'.journal.about g.id = env.journal.about g.id) : g'.Reckons env' :=
  h.grow hid (hsinks ▸ List.Subset.refl _) (habout.trans (List.append_nil _).symm)
    (hmessages.trans (UInt64.add_zero _).symm) (by simp)

/-- Between two moments, messages were counted as they were handed over, and nothing else was. -/
structure Counts (g : Graph κ ω) (env : Env ω) (g' : Graph κ ω) (env' : Env ω) : Prop where
  rounds : g'.stats.rounds = g.stats.rounds
  idleRounds : g'.stats.idleRounds = g.stats.idleRounds
  reckons : g.Reckons env → g'.Reckons env'

namespace Counts

theorem trans (h : g.Counts env g' env') (h' : g'.Counts env' g'' env'') :
    g.Counts env g'' env'' where
  rounds := h'.rounds.trans h.rounds
  idleRounds := h'.idleRounds.trans h.idleRounds
  reckons hr := h'.reckons (h.reckons hr)

/-- No messages are handed over. -/
theorem quiet (hid : g'.id = g.id) (hsinks : g.sinks ⊆ g'.sinks)
    (hrounds : g'.stats.rounds = g.stats.rounds)
    (hidle : g'.stats.idleRounds = g.stats.idleRounds)
    (hmessages : g'.stats.messages = g.stats.messages) {es : List Event}
    (habout : env'.journal.about g.id = env.journal.about g.id ++ es)
    (hes : ∀ e ∈ es, e.isDelivery = false) : g.Counts env g' env' where
  rounds := hrounds
  idleRounds := hidle
  reckons hr := by
    have hnone : es.countP Event.isDelivery = 0 :=
      List.countP_eq_zero.mpr fun e he => by simp [hes e he]
    refine hr.grow hid hsinks habout ?_ fun id port m fault hmem => ?_
    · rw [hnone, hmessages]
      exact (UInt64.add_zero _).symm
    · exact nomatch hes _ hmem

/-- What is not about the graph does not matter. -/
theorem elsewhere (habout : env'.journal.about g.id = env.journal.about g.id) :
    g.Counts env g env' :=
  quiet rfl (List.Subset.refl _) rfl rfl rfl (habout.trans (List.append_nil _).symm) (by simp)

end Counts

theorem Begins.counts {g₁ : Graph κ ω} {env₁ : Env ω} (h : g.Begins env g₁ env₁) :
    g.Counts env g₁ env₁ := by
  have habout := h.about_eq
  have htopology := h.topology_eq
  have hid : g₁.id = g.id := congrArg Topology.id htopology
  have hsinks : g₁.sinks = g.sinks := congrArg Topology.sinks htopology
  have hstats : g₁.stats.rounds = g.stats.rounds ∧ g₁.stats.idleRounds = g.stats.idleRounds ∧
      g₁.stats.messages = g.stats.messages := by
    cases h with
    | running => exact ⟨rfl, rfl, rfl⟩
    | started _ hvalid => simp [start, hvalid]
  obtain ⟨hrounds, hidle, hmessages⟩ := hstats
  exact .quiet hid (hsinks ▸ List.Subset.refl _) hrounds hidle hmessages
    (habout.trans (List.append_nil _).symm) (by simp)

end Graph

/-! ## Steps -/

section Steps

variable [Behavior κ ω] {patience : Nat}

omit [Behavior κ ω] in
/-- Pulling counts nothing. -/
theorem stats_law : ExchangeLaw fun (_ : ComponentId) (t t' : Turn κ ω) =>
    t'.graph.stats = t.graph.stats where
  refl _ _ := rfl
  trans h h' := h'.trans h
  act _ _ _ _ := rfl
  refuse _ _ _ := rfl
  unanswered _ _ h := h
  answered := by
    intro id index t t' p out conn c k _ _ h answer k'
    refine Eq.trans ?_ h
    rcases answer with cause | pull
    · rfl
    · cases pull <;> rfl

theorem Step.Due.pulled_stats {s : Step κ ω} (h : s.Due) (patience : Nat) :
    (s.pulled patience).turn.graph.stats = s.graph.stats := by
  obtain ⟨p, hp, hd, -⟩ := h.port
  exact stats_law.pullInput (t := s.turn) (stats_law.pullLaw.converse patience) hp hd

/-- A step counts the message that it hands to its sink, if it does. -/
theorem Step.Due.counts {s : Step κ ω} (h : s.Due) (hsteady : s.graph.Steady)
    (hreturned : (s.after patience).result.isSome = true) :
    s.graph.Counts s.env (s.after patience).graph (s.after patience).env := by
  obtain ⟨r, t, hpulled⟩ := s.pulled_of_returned hreturned
  obtain ⟨htopology, es, habout, -, hes⟩ := h.blames hpulled
  have hstats := h.pulled_stats patience
  rw [hpulled] at hstats
  have hid : t.graph.id = s.graph.id := congrArg Topology.id htopology
  have hsinks : t.graph.sinks = s.graph.sinks := congrArg Topology.sinks htopology
  have hpull : s.graph.Counts s.env t.graph t.env :=
    .quiet hid (hsinks ▸ List.Subset.refl _) (congrArg Stats.rounds hstats)
      (congrArg Stats.idleRounds hstats) (congrArg Stats.messages hstats) habout
      fun e he => Event.isDelivery_eq_false (hes e he).1
  have houtcome := h.outcome hsteady hpulled
  generalize s.after patience = x at houtcome ⊢
  cases houtcome with
  | failed => exact hpull
  | idle => exact hpull
  | @delivered pull arrival c k p _ _ _ hc hb hk hp =>
    refine hpull.trans ?_
    rw [Graph.deliver_eq hc hb hk hp]
    have hcall := @Journal.about_record_call t.graph.id t.env.journal s.sink
      (Graph.arrivalCall p.name arrival
        (Component.faultOf (t.env.perform (Graph.receive p.name arrival k)).1.1))
    cases arrival with
    | none =>
      refine .quiet rfl (List.Subset.refl _) rfl rfl rfl hcall ?_
      exact List.forall_mem_singleton.mpr rfl
    | some m =>
      refine ⟨rfl, rfl, fun hr => hr.grow rfl (List.Subset.refl _) hcall rfl ?_⟩
      intro id port m' fault hmem
      obtain ⟨-, rfl, -⟩ := Event.call.inj (List.mem_singleton.mp hmem)
      exact hsinks ▸ h.sink

theorem Sweeps.counts {steps : List (Step κ ω)} {g g' : Graph κ ω} {env env' : Env ω}
    {sweep : Sweep} (h : Sweeps patience steps g env (some sweep) g' env') (hsane : g.Sane env) :
    g.Counts env g' env' := by
  generalize hsome : some sweep = last at h
  induction h with
  | completed => exact .elsewhere rfl
  | cancelled => exact .elsewhere rfl
  | failed s hdue hresult =>
    exact hdue.counts (hsane.steady hdue.running) (congrArg Option.isSome hresult)
  | broken => cases hsome
  | step s hdue hresult _ ih =>
    have hreturned := congrArg Option.isSome hresult
    exact (hdue.counts (hsane.steady hdue.running) hreturned).trans
      (ih (hsane.step hdue hreturned) hsome)

/-! ## Rounds -/

namespace Graph

variable {g g' : Graph κ ω} {env env' : Env ω}

/-- Ending a graph counts nothing. -/
theorem Sane.close_counts (h : g.Sane env) (hopen : g.state.isOver = false) (state : GraphState) :
    g.Counts env (g.close state env).graph (g.close state env).env := by
  obtain ⟨ends, -, habout, -⟩ := (h.closes hopen state).ends
  refine .quiet rfl (List.Subset.refl _) rfl rfl rfl habout fun e he => ?_
  obtain ⟨x, -, rfl⟩ := List.mem_map.mp he
  rfl

theorem Sane.conclude_counts (h : g.Sane env) (hrunning : g.state = .running) (state : GraphState)
    (outcome : Outcome) (notice : Notice) :
    g.Counts env (g.conclude state outcome notice env).graph
      (g.conclude state outcome notice env).env := by
  have hopen : g.state.isOver = false := by rw [hrunning]; rfl
  have hclose := (h.close_counts hopen state).trans
    (.elsewhere (Env.about_note (g.close state env).env notice (g.close state env).graph.id))
  simp only [conclude]
  split <;> exact hclose

/-- What follows the steps of a round: the run ends, or it goes on and the idle rounds are
counted. -/
theorem Sane.afterSweep_counts (h : g.Sane env) (hrunning : g.state = .running) (sweep : Sweep) :
    (g.Counts env (g.afterSweep sweep env).graph (g.afterSweep sweep env).env ∧
      (g.afterSweep sweep env).graph.state.isOver = true) ∨
    ∃ progressed : Bool,
      (g.afterSweep sweep env).result = .ok (if progressed then .progress else .again) ∧
      (g.afterSweep sweep env).graph = { g with stats := { g.stats with
        idleRounds := if progressed then 0 else g.stats.idleRounds + 1 } } ∧
      (g.afterSweep sweep env).env.journal.about g.id = env.journal.about g.id := by
  have hconclude : ∀ state outcome notice, state.isOver = true →
      g.Counts env (g.conclude state outcome notice env).graph
        (g.conclude state outcome notice env).env ∧
      (g.conclude state outcome notice env).graph.state.isOver = true := by
    intro state outcome notice hover
    refine ⟨h.conclude_counts hrunning state outcome notice, ?_⟩
    rw [conclude_state]
    exact hover
  have hswept := g.afterSweep_sweptTo sweep env
  generalize g.afterSweep sweep env = x at hswept ⊢
  cases hswept with
  | cancelled | finished => exact .inl (hconclude _ _ _ rfl)
  | failed f =>
    have hnoted := fun notice : Notice => env.about_note notice g.id
    have hopen : g.state.isOver = false := by rw [hrunning]; rfl
    exact .inl ⟨(Counts.elsewhere (hnoted _)).trans
      ((h.elsewhere (hnoted _)).close_counts hopen .faulted), rfl⟩
  | goesOn progressed => exact .inr ⟨progressed, rfl, rfl, Env.about_note _ _ _⟩

end Graph

/-- What the counters of a graph are after some rounds. -/
structure Tallied (rounds : List (Round κ ω)) (g : Graph κ ω) (env : Env ω) : Prop where
  reckons : g.Reckons env
  count : g.stats.rounds = UInt64.ofNat (rounds.countP Round.starts)
  idle : g.state.isOver = false → g.stats.idleRounds = UInt32.ofNat (Round.idleStreak rounds)
  /-- Before a graph starts, no round of it is idle. -/
  fresh : g.state = .configuring → Round.idleStreak rounds = 0

namespace Tallied

variable {rounds : List (Round κ ω)} {g g' : Graph κ ω} {env env' : Env ω}

theorem of_counts (h : Tallied rounds g env) (hcounts : g.Counts env g' env')
    (hstate : g'.state = g.state ∨ g'.state.isOver = true) : Tallied rounds g' env' := by
  refine ⟨hcounts.reckons h.reckons, hcounts.rounds.trans h.count, ?_, ?_⟩
  · intro hopen
    rcases hstate with hsame | hover
    · exact hcounts.idleRounds.trans (h.idle (hsame ▸ hopen))
    · exact nomatch hopen.symm.trans hover
  · intro hconfiguring
    rcases hstate with hsame | hover
    · exact h.fresh (hsame.symm.trans hconfiguring)
    · rw [hconfiguring] at hover
      cases hover

/-- Nothing is asked for. -/
theorem append_nil (h : Tallied rounds g env) : Tallied (rounds ++ []) g env :=
  (List.append_nil rounds).symm ▸ h

/-- A round that is refused is not counted. -/
theorem refused {r : Round κ ω} (h : Tallied rounds r.graph r.env) (hstarts : r.starts = false)
    (hne : r.graph.state ≠ .running) {e : RunError}
    (hrefused : r.after = ⟨some (.error e), r.graph, r.env⟩) :
    Tallied (rounds ++ [r]) r.after.graph r.after.env := by
  have hidle : r.isIdle = false := by simp only [Round.isIdle, hrefused]
  have hstreak : Round.idleStreak (rounds ++ [r]) = 0 := by
    rw [Round.idleStreak_concat, hidle]
    rfl
  rw [hrefused]
  refine ⟨h.reckons, ?_, fun hopen => ?_, fun _ => hstreak⟩
  · rw [List.countP_append, List.countP_singleton, hstarts]
    exact h.count
  · -- a graph that is refused before its end has not started
    have hconfiguring : r.graph.state = .configuring := by
      rcases r.graph.state.cases_isOver with hconfiguring | hrunning | hover
      · exact hconfiguring
      · exact absurd hrunning hne
      · exact nomatch hopen.symm.trans hover
    rw [hstreak, ← h.fresh hconfiguring]
    exact h.idle hopen

/-- The steps of a round have been made, and what follows them is done. -/
theorem ends {r : Round κ ω} {sweep : Sweep} (hsane : g.Sane env) (hrunning : g.state = .running)
    (hreckons : g.Reckons env)
    (hcount : g.stats.rounds = UInt64.ofNat ((rounds ++ [r]).countP Round.starts))
    (hidle : g.stats.idleRounds = UInt32.ofNat (Round.idleStreak rounds))
    (hafter : r.after = (g.afterSweep sweep env).map some) :
    Tallied (rounds ++ [r]) r.after.graph r.after.env := by
  rcases hsane.afterSweep_counts hrunning sweep with
    ⟨hend, hover⟩ | ⟨progressed, hresult, hgraph, habout⟩
  · rw [hafter]
    refine ⟨hend.reckons hreckons, hend.rounds.trans hcount, ?_, ?_⟩
    · intro hopen
      cases hopen.symm.trans hover
    · intro hconfiguring
      cases (congrArg GraphState.isOver hconfiguring).symm.trans hover
  · have hstreak : Round.idleStreak (rounds ++ [r]) =
        if progressed then 0 else Round.idleStreak rounds + 1 := by
      rw [Round.idleStreak_concat, Round.isIdle, hafter, After.map, hresult]
      cases progressed <;> rfl
    rw [hafter, After.map, hgraph]
    refine ⟨hreckons.congr rfl rfl rfl habout, hcount, fun _ => ?_, ?_⟩
    · rw [hstreak]
      cases progressed with
      | true => rfl
      | false => exact (congrArg (· + 1) hidle).trans (UInt32.ofNat_add _ 1).symm
    · intro hconfiguring
      cases hrunning.symm.trans hconfiguring

/-- One more round that comes to its end is counted if it got past the check, and if nothing
moved in it then as idle. -/
theorem round {r : Round κ ω} (h : Tallied rounds r.graph r.env) (hsane : r.graph.Sane r.env)
    (hreturned : r.after.result.isSome = true) :
    Tallied (rounds ++ [r]) r.after.graph r.after.env := by
  rcases r.starts_or_refused with ⟨hstarts, g₁, env₁, hbegins⟩ | ⟨hstarts, hne, e, hrefused⟩
  · have hidle : g₁.stats.idleRounds = UInt32.ofNat (Round.idleStreak rounds) := by
      rw [hbegins.counts.idleRounds]
      cases hbegins with
      | running hrunning => exact h.idle (by rw [hrunning]; rfl)
      | started hopen => exact h.idle (by rw [hopen]; rfl)
    have hsane₁ : g₁.nextRound.Sane env₁ := (hbegins.sane hsane).tally _
    have hreckons₁ : g₁.nextRound.Reckons env₁ :=
      (hbegins.counts.reckons h.reckons).congr rfl rfl rfl rfl
    obtain ⟨sweep, g', env', hsweeps, hround⟩ :=
      Graph.runOnce_sweeps (hbegins.sane hsane).wired hbegins.state_eq r.patience env₁
    rw [← hbegins.runOnce_eq] at hround
    change r.after = _ at hround
    cases sweep with
    | none =>
      rw [hround] at hreturned
      cases hreturned
    | some sweep =>
      have hswept := hsweeps.counts hsane₁
      refine ends (hsane₁.sweeps hsweeps) (hsweeps.leads.state.trans hbegins.state_eq)
        (hswept.reckons hreckons₁) ?_ (hswept.idleRounds.trans hidle) hround
      rw [List.countP_append, List.countP_singleton, hstarts, if_pos rfl, UInt64.ofNat_add,
        ← h.count, ← hbegins.counts.rounds]
      exact hswept.rounds
  · exact h.refused hstarts hne hrefused

/-- The rounds of a run that comes to its end. The induction is on how many it may make. -/
theorem run (h : Tallied rounds g env) (hsane : g.Sane env) (n : Nat)
    (hreturned : (Graph.run patience n g env).result.isSome = true) :
    Tallied (rounds ++ (Graph.rounds patience n g env).map fun x => ⟨x.1, x.2, patience⟩)
      (Graph.run patience n g env).graph (Graph.run patience n g env).env := by
  induction n generalizing rounds g env with
  | zero => cases hreturned
  | succ n ih =>
    have hround := @Tallied.round _ _ _ rounds ⟨g, env, patience⟩ h hsane
    have hran := hsane.ran (g.runOnce_ran patience env)
    have hgoesOn := @Graph.running_of_goesOn _ _ _ g patience env
    unfold Graph.run at hreturned ⊢
    unfold Graph.rounds
    rw [List.map_cons, List.append_cons]
    simp only [Round.after] at hround
    generalize g.runOnce patience env = x at hround hran hgoesOn hreturned ⊢
    obtain ⟨result, g', env'⟩ := x
    rcases result with _ | e | outcome
    · cases hreturned
    · exact (hround rfl).append_nil
    have hsane' : g'.Sane env' := ⟨hran.1, hran.2 rfl⟩
    cases outcome with
    | finished | cancelled => exact (hround rfl).append_nil
    | progress => exact ih (hround rfl) hsane' hreturned
    | again =>
      have hwaited := g'.backOff_about env' g'.id
      have hrunning : g'.state = .running := hgoesOn rfl (.inr rfl)
      dsimp only at hreturned ⊢
      generalize g'.backOff env' = z at hwaited hreturned ⊢
      obtain ⟨goesOn, env''⟩ := z
      have htallied := (hround rfl).of_counts (.elsewhere hwaited) (.inl rfl)
      have hsane'' := hsane'.elsewhere hwaited
      cases goesOn with
      | true => exact ih htallied hsane'' hreturned
      | false =>
        have hnoted := env''.about_note (.gaveUp g'.name g'.stats.idleRounds) g'.id
        have hopen : g'.state.isOver = false := by rw [hrunning]; rfl
        exact (htallied.of_counts ((Graph.Counts.elsewhere hnoted).trans
          ((hsane''.elsewhere hnoted).close_counts hopen .faulted)) (.inr rfl)).append_nil

end Tallied

/-! ## Lives -/

/-- The rounds that a request asks for. A run asks for one after the other. -/
def Request.rounds (g : Graph κ ω) (env : Env ω) : Request κ ω → List (Round κ ω)
  | .runOnce patience => [⟨g, env, patience⟩]
  | .run patience n => (Graph.rounds patience n g env).map fun x => ⟨x.1, x.2, patience⟩
  | _ => []

/-- The lives that a graph can have had, with the rounds that were asked for. -/
inductive Chronicle : List (Round κ ω) → Graph κ ω → Env ω → Prop where
  | create (name : String) (config : RunConfig) {env : Env ω}
      (unheard : env.journal.about env.nextGraph = []) :
      Chronicle [] (Graph.create name config env : Graph κ ω × Env ω).1
        (Graph.create name config env : Graph κ ω × Env ω).2
  | elsewhere {rounds : List (Round κ ω)} {g : Graph κ ω} {env env' : Env ω}
      (life : Chronicle rounds g env)
      (about : env'.journal.about g.id = env.journal.about g.id) : Chronicle rounds g env'
  | call {rounds : List (Round κ ω)} {g : Graph κ ω} {env : Env ω} (life : Chronicle rounds g env)
      (r : Request κ ω) (fits : r.Fits g) (returned : (r.perform g env).result = true) :
      Chronicle (rounds ++ r.rounds g env) (r.perform g env).graph (r.perform g env).env

variable {rounds : List (Round κ ω)} {g : Graph κ ω} {env : Env ω}

theorem Chronicle.lifetime (h : Chronicle rounds g env) : ∃ added, Lifetime added g env := by
  induction h with
  | create name config hunheard => exact ⟨_, .create name config hunheard⟩
  | elsewhere _ habout ih =>
    obtain ⟨added, hlife⟩ := ih
    exact ⟨added, hlife.elsewhere habout⟩
  | call _ r hfits hreturned ih =>
    obtain ⟨added, hlife⟩ := ih
    exact ⟨_, hlife.call r hfits hreturned⟩

namespace Graph

theorem add_counts (g : Graph κ ω) (cls : ComponentClass κ) (name : String) (settings : Settings)
    (env : Env ω) :
    g.Counts env (g.add cls name settings env).graph (g.add cls name settings env).env := by
  rcases g.add_cases cls name settings env with ⟨e, env', hadd, habout⟩ | ⟨-, k, env', hadd, habout⟩
  · rw [hadd]
    rcases habout with habout | ⟨-, f, habout⟩
    · exact .elsewhere habout
    · exact .quiet rfl (List.Subset.refl _) rfl rfl rfl habout (List.forall_mem_singleton.mpr rfl)
  · rw [hadd]
    refine .quiet rfl ?_ rfl rfl rfl habout (List.forall_mem_singleton.mpr rfl)
    change g.sinks ⊆ if _ then _ else _
    split
    · exact List.subset_append_left _ _
    · exact List.Subset.refl _

omit [Behavior κ ω] in
theorem connect_counts (g : Graph κ ω) (a b : PortHandle) (env : Env ω) :
    g.Counts env (g.connect a b env).graph (g.connect a b env).env := by
  rcases g.connect_cases a b env with ⟨e, env', hconnect, habout⟩ | ⟨c, env', -, hconnect, habout⟩
  · rw [hconnect]
    exact .elsewhere habout
  · rw [hconnect]
    exact .quiet rfl (List.Subset.refl _) rfl rfl rfl (habout.trans (List.append_nil _).symm)
      (by simp)

omit [Behavior κ ω] in
theorem link_counts (g : Graph κ ω) (giver output taker input : String) (env : Env ω) :
    g.Counts env (g.link giver output taker input env).graph
      (g.link giver output taker input env).env := by
  rcases g.link_cases giver output taker input env with ⟨e, hlink⟩ | ⟨a, b, -, -, hlink⟩
  · rw [hlink]
    exact .elsewhere rfl
  · rw [hlink]
    exact g.connect_counts a b env

theorem Sane.teardown_counts (h : g.Sane env) :
    g.Counts env (g.teardown env).graph (g.teardown env).env ∧
      ((g.teardown env).graph.state = g.state ∨ (g.teardown env).graph.state.isOver = true) := by
  have hnoted := env.about_note (.tearingDown g.name) g.id
  cases hover : g.state.isOver with
  | true =>
    rw [teardown_over hover (h.finalized_of_isOver hover)]
    exact ⟨.elsewhere hnoted, .inl rfl⟩
  | false =>
    rw [teardown_open hover]
    exact ⟨(Counts.elsewhere hnoted).trans ((h.elsewhere hnoted).close_counts hover .tornDown),
      .inr rfl⟩

end Graph

theorem Request.tallied (h : Tallied rounds g env) (hsane : g.Sane env) (r : Request κ ω)
    (hreturned : (r.perform g env).result = true) :
    Tallied (rounds ++ r.rounds g env) (r.perform g env).graph (r.perform g env).env := by
  cases r with
  | runOnce patience => exact h.round hsane hreturned
  | run patience n => exact h.run hsane n hreturned
  | add cls name settings =>
    exact (h.of_counts (g.add_counts cls name settings env)
      (.inl (g.add_builds cls name settings env).state)).append_nil
  | connect a b =>
    exact (h.of_counts (g.connect_counts a b env)
      (.inl (g.connect_builds a b env).state)).append_nil
  | link giver output taker input =>
    exact (h.of_counts (g.link_counts giver output taker input env)
      (.inl (g.link_builds giver output taker input env).state)).append_nil
  | follow policy =>
    exact Tallied.append_nil ⟨h.reckons.congr rfl rfl rfl rfl, h.count, h.idle, h.fresh⟩
  | cancel =>
    have hcancelled : g.Counts env g (env.cancel g.id) := .elsewhere rfl
    exact (h.of_counts hcancelled (.inl rfl)).append_nil
  | teardown =>
    obtain ⟨hcounts, hstate⟩ := hsane.teardown_counts
    exact (h.of_counts hcounts hstate).append_nil

/-- Requests that are not for rounds or runs add no rounds. -/
theorem Chronicle.performAll (h : Chronicle rounds g env) {requests : List (Request κ ω)}
    (hrequests : ∀ r ∈ requests, r.runs = false ∧ ∀ g : Graph κ ω, r.Fits g) :
    Chronicle rounds (Request.performAll requests (g, env)).1
      (Request.performAll requests (g, env)).2 := by
  induction requests generalizing g env with
  | nil => exact h
  | cons r requests ih =>
    obtain ⟨⟨hruns, hfits⟩, hrest⟩ := List.forall_mem_cons.mp hrequests
    refine ih ?_ hrest
    have hcall := h.call r (hfits g)
    cases r with
    | runOnce | run => cases hruns
    | add | connect | link | follow | cancel | teardown =>
      rw [← List.append_nil rounds]
      exact hcall rfl

/-- **The counters agree with what happened**, all the life of a graph. -/
theorem Chronicle.tallied (h : Chronicle rounds g env) : Tallied rounds g env := by
  induction h with
  | @create name config env hunheard =>
    have habout : ((env.note (.creating name config)).journal.about env.nextGraph) = [] :=
      (env.about_note _ _).trans hunheard
    refine ⟨⟨?_, ?_⟩, rfl, fun _ => rfl, fun _ => rfl⟩
    · change 0 = UInt64.ofNat
        (((env.note (.creating name config)).journal.about env.nextGraph).countP Event.isDelivery)
      rw [habout]
      rfl
    · intro id port m fault hmem
      change _ ∈ (env.note (.creating name config)).journal.about env.nextGraph at hmem
      rw [habout] at hmem
      cases hmem
  | elsewhere _ habout ih => exact ih.of_counts (.elsewhere habout) (.inl rfl)
  | call hlife r _ hreturned ih =>
    obtain ⟨added, hlife⟩ := hlife.lifetime
    exact r.tallied ih hlife.sane hreturned

/-- **One round does what it promises, and the counters agree with all of them.**  A round of a
graph that can run makes pull steps for the input ports of sinks whose streams have not ended
when it begins, each once, in the order in which the sinks were added and their ports declared,
up to where it breaks off; each performs the calls that are written down for it. If nothing
disturbs it, it is made of one step for each of them, and then says that every stream has ended,
or else whether a step delivered something.

Of all rounds that were asked for, one by one or in runs, those are counted that got past the
check; the messages that are counted are those that sinks were handed, by calls that have been
performed. As long as the graph runs, the rounds that count as idle are the latest ones in a
row in which nothing moved. -/
theorem Chronicle.schedule_and_counters (h : Chronicle rounds g env) :
    (g.CanRun → ∀ patience,
      (∀ id index, (id, index) ∈ g.awaited ↔ id ∈ g.sinks ∧ g.Awaits id index) ∧
      g.awaited.Pairwise PlacedBefore ∧
      (g.steps patience env).map Step.place <+: g.awaited ∧
      (∀ s ∈ g.steps patience env,
        s.graph.Enacts s.env (s.after patience).graph (s.after patience).env) ∧
      (g.Undisturbed patience env →
        Graph.MadeOf (g.steps patience env) g patience env ∧
        (g.steps patience env).map Step.place = g.awaited ∧
        ∃ outcome, (g.runOnce patience env).result = some (.ok outcome) ∧
          outcome.Tells
            (∀ id ∈ (g.runOnce patience env).graph.sinks, ∀ index,
              ¬ (g.runOnce patience env).graph.Awaits id index)
            (∃ s ∈ g.steps patience env, s.Delivers patience))) ∧
    g.stats.rounds.toNat = rounds.countP Round.starts % UInt64.size ∧
    g.stats.messages.toNat = g.delivered env % UInt64.size ∧
    (∀ id port m fault,
      .call g.id id (.consumed port m fault) ∈ env.journal.about g.id → id ∈ g.sinks) ∧
    Enacted (env.journal.calls g.id) g env ∧
    (g.state = .running → g.stats.idleRounds.toNat = Round.idleStreak rounds % UInt32.size) := by
  obtain ⟨added, hlife⟩ := h.lifetime
  have hsane := hlife.sane
  have htallied := h.tallied
  refine ⟨fun hrun patience => ⟨fun id index => Graph.mem_awaited,
    Graph.pairwise_awaited hsane.wired, ?_, fun s hs => ?_, fun hu => ?_⟩, ?_, ?_,
    htallied.reckons.takers, hlife.enacted, fun hrunning => ?_⟩
  · obtain ⟨g₁, env₁, hbegins⟩ := hrun.begins env
    exact (hbegins.keeps hsane.wired patience).inOrder
  · obtain ⟨hsaneStep, -⟩ := hsane.mem_steps hs
    exact (hsane.due_of_mem_steps hs).1.canStep.enacts hsaneStep.wired patience s.env
  · obtain ⟨hmade, hplaces, outcome, hresult, htells⟩ := hsane.undisturbed_round hrun hu
    rw [propext Graph.awaited_eq_nil_iff] at htells
    exact ⟨hmade, hplaces, outcome, hresult, htells⟩
  · rw [htallied.count]
    exact UInt64.toNat_ofNat'
  · rw [htallied.reckons.messages]
    exact UInt64.toNat_ofNat'
  · rw [htallied.idle (by rw [hrunning]; rfl)]
    exact UInt32.toNat_ofNat'

end Steps

/-! ## A source that is not ready at once -/

/-- A scripted source that has nothing at first and then a message, and a sink. -/
def sleepy : Graph Scripted Bench × Env Bench :=
  Graph.build "sleepy" .standard { places := [("g", 1)] }
    [.add { Scripted.componentClass "letters"
        { label := "giver", script := .source [.again, .message (.int 1)] .endOfStream 0 }
        with ports := [⟨"out", .output⟩] } "giver" .nil,
    .add { Scripted.componentClass "keep" { label := "taker", script := .sink [] [] 0 }
        with ports := [⟨"in", .input⟩] } "taker" .nil,
    .link "giver" "out" "taker" "in"]

/-- Its first round. -/
def sleepyRound : Round Scripted Bench := ⟨sleepy.1, sleepy.2, 5⟩

theorem sleepy_chronicle :
    Chronicle [sleepyRound] sleepyRound.after.graph sleepyRound.after.env := by
  have hbuilt : Chronicle [] sleepy.1 sleepy.2 := by
    refine (Chronicle.create "sleepy" .standard rfl).performAll ?_
    simp [Request.runs, Request.Fits]
  exact hbuilt.call (.runOnce 5) trivial rfl

/-- Nothing moves in the first round, which is counted as idle; the second one delivers the
message. -/
theorem sleepy_counted :
    Chronicle [sleepyRound] sleepyRound.after.graph sleepyRound.after.env ∧
      sleepyRound.after.graph.CanRun ∧
      sleepyRound.after.graph.Undisturbed 5 sleepyRound.after.env ∧
      sleepyRound.after.graph.stats.rounds.toNat = 1 ∧
      sleepyRound.after.graph.stats.messages.toNat = 0 ∧
      sleepyRound.after.graph.state = .running ∧
      sleepyRound.after.graph.stats.idleRounds.toNat = 1 ∧
      (sleepyRound.after.graph.steps 5 sleepyRound.after.env).map Step.place = [(1, 0)] ∧
      (sleepyRound.after.graph.runOnce 5 sleepyRound.after.env).result = some (.ok .progress) := by
  have hrun : sleepyRound.after.graph.CanRun := .inl rfl
  have hsound : (sleepyRound.after.graph.roundEvents 5 sleepyRound.after.env).all
      (·.fault?.isNone) = true := rfl
  have hu : sleepyRound.after.graph.Undisturbed 5 sleepyRound.after.env :=
    ⟨rfl, by simpa using List.all_eq_true.mp hsound, rfl⟩
  obtain ⟨hround, hrounds, hmessages, -, -, hidle⟩ := sleepy_chronicle.schedule_and_counters
  obtain ⟨-, -, -, -, hdone⟩ := hround hrun 5
  obtain ⟨-, hplaces, -⟩ := hdone hu
  exact ⟨sleepy_chronicle, hrun, hu, hrounds, hmessages, rfl, hidle rfl, hplaces, rfl⟩

end PullGraph
