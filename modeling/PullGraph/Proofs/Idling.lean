import PullGraph.Proofs.Stalling

/-! # Idling without a limit

Under a backoff without a limit, a graph goes on as long as nothing moves. A pull that brings
nothing leaves the port open for which it is made, so a round of such pulls ends where it
began, apart from the count of idle rounds (`Waiting.round`). What holds of one round holds of
any number of them in a row, made one by one (`Idled`) or by a run (`Waiting.run`), and the
wait after each is at least as long as the one before. That is so as long as there is room for
their count, which starts over after that.
-/
namespace PullGraph

variable {κ ω : Type}

section

variable [Behavior κ ω] {patience : Nat}

/-! ## Pulls that bring nothing -/

namespace Step.Due

variable {s : Step κ ω}

/-- A step whose pull brings nothing leaves the ports of all sinks open that were open, the one
that it is made for included. -/
theorem isOpen_of_again (h : s.Due) (hsteady : s.graph.Steady)
    (hagain : (s.pulled patience).result = some (.ok .again)) {x : ComponentId × Nat}
    (hsink : x.1 ∈ s.graph.sinks) : (s.after patience).graph.isOpen x = s.graph.isOpen x := by
  by_cases hplace : s.place = x
  · obtain ⟨p, hp, -, hopen⟩ := h.port
    cases hpulled : s.pulled patience with
    | mk result t =>
    rw [hpulled] at hagain
    obtain rfl : result = some (.ok .again) := hagain
    -- the end of a stream is noted only if that is what was pulled
    obtain ⟨p', hp', -, hended⟩ := h.ended_iff hsteady hpulled
    have hopen' : p'.atEnd = false := by simpa using hended
    have hafter : (s.after patience).graph.portAt? s.sink s.index = some p' := by
      rw [s.after_eq, hpulled]
      exact (Graph.afterPull_portAt? s.sink s.index _ t s.sink s.index).trans hp'
    rw [← hplace]
    simp [Graph.isOpen, place, hafter, hp, hopen, hopen']
  · exact h.isOpen_eq hsteady.wired hsink hplace patience

theorem awaited_of_again (h : s.Due) (hsteady : s.graph.Steady)
    (hagain : (s.pulled patience).result = some (.ok .again)) :
    (s.after patience).graph.awaited = s.graph.awaited := by
  rw [Graph.awaited, (h.passes patience).leads.topology]
  refine List.filter_congr fun x hx => h.isOpen_of_again hsteady hagain ?_
  exact (Topology.mem_inlets.mp hx).1

end Step.Due

/-- Steps that bring nothing end no stream into a sink. -/
theorem Sweeps.awaited_of_again {steps : List (Step κ ω)} {g g' : Graph κ ω} {env env' : Env ω}
    {sweep : Option Sweep} (h : Sweeps patience steps g env sweep g' env')
    (hsteady : ∀ s ∈ steps, s.graph.Steady)
    (hagain : ∀ s ∈ steps, (s.pulled patience).result = some (.ok .again)) :
    g'.awaited = g.awaited := by
  induction h with
  | completed => rfl
  | cancelled => rfl
  | failed s hdue =>
    exact hdue.awaited_of_again (hsteady s List.mem_cons_self) (hagain s List.mem_cons_self)
  | broken s hdue =>
    exact hdue.awaited_of_again (hsteady s List.mem_cons_self) (hagain s List.mem_cons_self)
  | step s hdue _ _ ih =>
    obtain ⟨hsteadyFirst, hsteadyRest⟩ := List.forall_mem_cons.mp hsteady
    obtain ⟨hfirst, hrest⟩ := List.forall_mem_cons.mp hagain
    exact (ih hsteadyRest hrest).trans (hdue.awaited_of_again hsteadyFirst hfirst)

/-- In a run that is under way, a call that failed is one of a component that was pulled or of a
sink that was handed something. -/
theorem Event.fault?_eq_none {e : Event} (hwork : e.isWork = true) (harrival : e.isArrival = false)
    (hfailure : e.failure? = none) : e.fault? = none := by
  cases e with
  | refused | notice => rfl
  | call graph i c =>
    cases c with
    | asked => rfl
    | setUp | finalized => cases hwork
    | consumed | ended => cases harrival
    | answered port answer =>
      cases answer with
      | ok => rfl
      | error => cases hfailure

/-- A step that goes well writes down no fault. -/
theorem Step.Due.sound {s : Step κ ω} (h : s.Due) (hsteady : s.graph.Steady) {moved : Bool}
    (hmoved : (s.after patience).result = some (.ok moved)) :
    ∀ e ∈ s.events patience, e.fault? = none := by
  obtain ⟨r, t, hpulled⟩ := s.pulled_of_returned (congrArg Option.isSome hmoved)
  obtain ⟨es, hfailure, hes, hreport⟩ := h.report hsteady hpulled
  obtain ⟨ws, habout, hwork⟩ := (h.passes patience).leads.journal
  rw [← s.events_eq habout] at hwork
  have hpull (hnone : t.failure = none) (hwork : ∀ e ∈ es, e.isWork = true) :
      ∀ e ∈ es, e.fault? = none := by
    intro e he
    have hkept := List.findSome?_eq_none_iff.mp (hfailure.symm.trans hnone) e he
    exact Event.fault?_eq_none (hwork e he) (hes e he).1 hkept
  rcases hreport with ⟨f, -, -, hresult⟩ | ⟨hnone, hevents, -⟩ |
    ⟨hnone, port, arrival, verdict, hevents, hresult⟩
  · cases hmoved.symm.trans hresult
  · rw [hevents] at hwork ⊢
    exact hpull hnone hwork
  · rw [hevents] at hwork ⊢
    obtain ⟨hbefore, -⟩ := List.forall_mem_append.mp hwork
    refine List.forall_mem_append.mpr ⟨hpull hnone hbefore, List.forall_mem_singleton.mpr ?_⟩
    cases verdict with
    | error cause => cases hmoved.symm.trans hresult
    | ok u => cases arrival <;> rfl

/-! ## Rounds that bring nothing -/

namespace Graph

variable {g : Graph κ ω} {env : Env ω}

/-- Nothing disturbs the round that starts at `x`; it makes pulls, and every one of them brings
nothing. -/
structure Barren (patience : Nat) (x : Graph κ ω × Env ω) : Prop
    extends Undisturbed x.1 patience x.2 where
  pulls : x.1.steps patience x.2 ≠ []
  again : ∀ s ∈ x.1.steps patience x.2, (s.pulled patience).result = some (.ok .again)

theorem Barren.of_steps_eq {x : Graph κ ω × Env ω} (h : x.1.Undisturbed patience x.2)
    {s : Step κ ω} (hsteps : x.1.steps patience x.2 = [s])
    (hagain : (s.pulled patience).result = some (.ok .again)) : Barren patience x := by
  refine ⟨h, ?_, ?_⟩
  · simp [hsteps]
  · rw [hsteps]
    exact List.forall_mem_singleton.mpr hagain

/-- **A round that brings nothing** says so. -/
theorem Sane.barren_round (h : g.Sane env) (hrun : g.CanRun) (hbarren : Barren patience (g, env)) :
    (g.runOnce patience env).result = some (.ok .again) := by
  obtain ⟨g₁, env₁, hbegins⟩ := hrun.begins env
  -- there is something to wait for, or no pull would have been made
  have hawaits : g.awaited ≠ [] := by
    rw [← (h.undisturbed_round hrun hbarren.toUndisturbed).2.1]
    simpa using hbarren.pulls
  obtain ⟨progressed, g', env', -, hsweeps, hround, huncancelled, -⟩ :=
    h.undisturbed_sweep hbarren.toUndisturbed hbegins
  have hsame : g'.awaited = g.awaited := by
    refine (hsweeps.awaited_of_again (fun s hs => ?_) hbarren.again).trans hbegins.awaited_eq
    exact (h.mem_steps hs).1.steady (hsweeps.due s hs).running
  have hdemand : g'.hasDemand = true := by
    rw [← Bool.not_eq_false, hasDemand_eq_false_iff, hsame]
    exact hawaits
  -- with streams left to wait for, the round does not end the run
  have hrunning : (g.runOnce patience env).graph.state = .running := by
    rw [hround]
    simp only [endRound, huncancelled, hdemand]
    exact hsweeps.leads.state.trans hbegins.state_eq
  exact (hbegins.idles_iff h).mp ⟨hbarren.returned, hrunning, hbarren.again⟩

/-- Nothing disturbs an idle round, and there is something to wait for in it. -/
theorem Begins.undisturbed_of_idles {g₁ : Graph κ ω} {env₁ : Env ω} (h : g.Begins env g₁ env₁)
    (hsane : g.Sane env) (hidles : Idles patience (g, env)) :
    g.Undisturbed patience env ∧ g.awaited ≠ [] := by
  have hresult := (h.idles_iff hsane).mp hidles
  obtain ⟨sweep, g', env', -, hsweeps, hround⟩ :=
    h.sweep_of_returned hsane.wired (congrArg Option.isSome hresult)
  have hsteady : ∀ s ∈ g.steps patience env, s.graph.Steady :=
    fun s hs => (hsane.mem_steps hs).1.steady (hsweeps.due s hs).running
  have hid₁ : g₁.nextRound.id = g.id := congrArg Topology.id h.topology_eq
  have hid : g'.id = g.id := hsweeps.leads.id_eq.trans hid₁
  have habout := hsweeps.about_eq
  rw [hid₁, h.about_eq] at habout
  rw [hround] at hresult
  have hswept := g'.afterSweep_sweptTo sweep env'
  generalize g'.afterSweep sweep env' = x at hresult hround hswept
  cases hswept with
  | cancelled | finished => cases conclude_eq_ok (Option.some.inj hresult)
  | failed => cases hresult
  | goesOn progressed huncancelled hdemand =>
    refine ⟨⟨congrArg (Option.isSome ·.result) hround, fun e he => ?sound, ?uncancelled⟩, ?awaits⟩
    case sound =>
      -- what the round writes down is what its steps do
      have hevents : g.roundEvents patience env =
          (g.steps patience env).flatMap (·.events patience) := by
        rw [roundEvents, hround]
        refine (congrArg (List.drop _) ((env'.about_note _ g.id).trans habout)).trans ?_
        exact List.drop_left
      rw [hevents] at he
      obtain ⟨s, hs, he⟩ := List.mem_flatMap.mp he
      obtain ⟨moved, hmoved⟩ := hsweeps.goes_well s hs
      exact (hsweeps.due s hs).sound (hsteady s hs) hmoved e he
    case uncancelled =>
      rw [hround, ← hid]
      exact huncancelled
    case awaits =>
      rw [← h.awaited_eq]
      refine fun hnone => ?_
      have hsame := hsweeps.awaited_of_again hsteady hidles.again
      have hdemand' : g'.hasDemand = false := hasDemand_eq_false_iff.mpr (hsame.trans hnone)
      cases hdemand.symm.trans hdemand'

/-- **A round brings nothing exactly if it is idle**: that nothing disturbs it, that it makes
pulls and that these bring nothing comes to the same as that they bring nothing and the run
goes on after it. -/
theorem Sane.barren_iff_idles (h : g.Sane env) (hrun : g.CanRun) :
    Barren patience (g, env) ↔ Idles patience (g, env) := by
  obtain ⟨g₁, env₁, hbegins⟩ := hrun.begins env
  refine ⟨fun hbarren => (hbegins.idles_iff h).mpr (h.barren_round hrun hbarren), fun hidles => ?_⟩
  obtain ⟨hundisturbed, hawaits⟩ := hbegins.undisturbed_of_idles h hidles
  refine ⟨hundisturbed, ?_, hidles.again⟩
  rw [← (h.undisturbed_round hrun hundisturbed).2.1] at hawaits
  simpa using hawaits

end Graph

/-! ## Rounds in a row -/

/-- A graph that follows a backoff and has made `n` idle rounds in a row. -/
structure Waiting (added : List ComponentId) (b : Backoff) (n : Nat) (g : Graph κ ω)
    (env : Env ω) : Prop where
  life : Lifetime added g env
  canRun : g.CanRun
  follows : g.policy.Follows b
  count : g.stats.idleRounds = UInt32.ofNat n

/-- Where a graph can be after `n` rounds in a row that bring nothing, from `g` on. Each round has
its own patience, and between them anything may happen elsewhere. -/
inductive Graph.Idled (g : Graph κ ω) (env : Env ω) : Nat → Graph κ ω → Env ω → Prop where
  | begins : Idled g env 0 g env
  | elsewhere {n : Nat} {g' : Graph κ ω} {env' env'' : Env ω} (before : Idled g env n g' env')
      (about : env''.journal.about g'.id = env'.journal.about g'.id) : Idled g env n g' env''
  | round {n : Nat} {g' : Graph κ ω} {env' : Env ω} (before : Idled g env n g' env')
      {patience : Nat} (barren : Barren patience (g', env')) :
      Idled g env (n + 1) (g'.runOnce patience env').graph (g'.runOnce patience env').env

namespace Waiting

variable {added : List ComponentId} {b : Backoff} {n : Nat} {g g' : Graph κ ω}
  {env env' : Env ω}

theorem toNat_count (h : Waiting added b n g env) (hn : n < UInt32.size) :
    g.stats.idleRounds.toNat = n := by
  rw [h.count]
  exact Nat.mod_eq_of_lt hn

theorem elsewhere (h : Waiting added b n g env)
    (habout : env'.journal.about g.id = env.journal.about g.id) : Waiting added b n g env' :=
  { h with life := h.life.elsewhere habout }

/-- One more round that brings nothing. -/
theorem round (h : Waiting added b n g env) (hbarren : Graph.Barren patience (g, env)) :
    (g.runOnce patience env).result = some (.ok .again) ∧
      Waiting added b (n + 1) (g.runOnce patience env).graph (g.runOnce patience env).env := by
  have hresult := h.life.sane.barren_round h.canRun hbarren
  obtain ⟨hlife, hrun, hpolicy, hcount⟩ := h.life.next_round h.canRun patience false hresult
  refine ⟨hresult, hlife, hrun, hpolicy ▸ h.follows, ?_⟩
  rw [hcount, h.count, UInt32.ofNat_add]
  rfl

theorem idled (h : Waiting added b 0 g env) (hidled : g.Idled env n g' env') :
    Waiting added b n g' env' := by
  induction hidled with
  | begins => exact h
  | elsewhere _ habout ih => exact ih.elsewhere habout
  | round _ hbarren ih => exact (ih.round hbarren).2

/-- Without a limit there is always a wait. -/
theorem backOff_eq (h : Waiting added b n g env) (hlimit : b.limit = none) :
    ∃ d env', b.delay g.stats.idleRounds = some d ∧ g.backOff env = (true, env') ∧
      env' = (env.perform (g.policy.delay g.stats.idleRounds)).2.note
        (.backingOff g.name g.stats.idleRounds d) ∧
      Waiting added b n g env' := by
  obtain ⟨d, hd, -⟩ := Backoff.exists_delay (b := b) (n := g.stats.idleRounds) (by simp [hlimit])
  rcases Graph.backOff_eq_of_follows h.follows env with ⟨hnone, -⟩ | ⟨d, hd, hwait⟩
  · cases hnone.symm.trans hd
  · have hlater := h.elsewhere (g.backOff_about env g.id)
    rw [hwait] at hlater
    exact ⟨d, _, hd, hwait, rfl, hlater⟩

end Waiting

/-- A run that waits after a round goes on with the next one. -/
theorem Graph.rounds_of_again {g : Graph κ ω} {env env' : Env ω}
    (hresult : (g.runOnce patience env).result = some (.ok .again))
    (hbackOff : (g.runOnce patience env).graph.backOff (g.runOnce patience env).env = (true, env'))
    (n : Nat) : rounds patience (n + 1) g env =
      (g, env) :: rounds patience n (g.runOnce patience env).graph env' := by
  rw [rounds]
  generalize g.runOnce patience env = x at hresult hbackOff ⊢
  obtain ⟨result, g', env''⟩ := x
  obtain rfl : result = some (.ok .again) := hresult
  simp only [hbackOff]

/-- The first rounds of a run are those of `block`, and idle like `n` rounds before them: the run
waits after each of them before it makes the next one. -/
structure Graph.WaitsThrough (patience : Nat) (b : Backoff) (n : Nat)
    (block rest : List (Graph κ ω × Env ω)) : Prop where
  again : ∀ x ∈ block, (x.1.runOnce patience x.2).result = some (.ok .again)
  waits : ∀ i x y, block[i]? = some x → (block ++ rest)[i + 1]? = some y →
    WaitsBetween patience b (n + (i + 1)) x y

/-- **A run without a limit** waits through rounds that bring nothing, and goes on after them. -/
theorem Waiting.run {added : List ComponentId} {b : Backoff} {n : Nat} {g : Graph κ ω}
    {env : Env ω} (h : Waiting added b n g env) (hlimit : b.limit = none) {rounds : Nat}
    {block rest : List (Graph κ ω × Env ω)}
    (hrounds : Graph.rounds patience rounds g env = block ++ rest)
    (hbarren : ∀ x ∈ block, Graph.Barren patience x) (hbound : n + block.length < UInt32.size) :
    (block.length < rounds → rest ≠ []) ∧ Graph.WaitsThrough patience b n block rest := by
  induction block generalizing n g env rounds with
  | nil =>
    refine ⟨fun hlt hrest => ?_, by simp, by simp⟩
    obtain ⟨rounds, rfl⟩ := Nat.exists_eq_add_of_lt hlt
    subst hrest
    simp [Graph.rounds] at hrounds
  | cons x block ih =>
    -- each idle round uses up one of those that the run may make, and adds one to the count
    cases rounds with
    | zero => cases hrounds
    | succ rounds =>
    obtain rfl : (g, env) = x := (List.cons.inj hrounds).1
    obtain ⟨hfirst, hothers⟩ := List.forall_mem_cons.mp hbarren
    obtain ⟨hresult, hnext⟩ := h.round hfirst
    obtain ⟨d, env', hd, hbackOff, henv', hlater⟩ := hnext.backOff_eq hlimit
    rw [Graph.rounds_of_again hresult hbackOff] at hrounds
    have hrounds := (List.cons.inj hrounds).2
    rw [List.length_cons] at hbound
    obtain ⟨hgoesOn, hagain, hwaits⟩ := ih hlater hrounds hothers (by omega)
    refine ⟨fun hlt => hgoesOn (Nat.lt_of_succ_lt_succ hlt),
      List.forall_mem_cons.mpr ⟨hresult, hagain⟩, ?_⟩
    rintro (_ | i) x y hx hy
    · obtain rfl := Option.some.inj hx
      have hhead : y ∈ (block.append rest).head? := List.head?_eq_getElem?.trans hy
      rw [← hrounds] at hhead
      obtain rfl := Graph.rounds_head hhead
      exact ⟨rfl, hnext.toNat_count (by omega), d, hd, henv'⟩
    · rw [show n + (i + 1 + 1) = n + 1 + (i + 1) by omega]
      exact hwaits i x y hx hy

theorem Lifetime.waiting {added : List ComponentId} {g : Graph κ ω} {env : Env ω}
    (h : Lifetime added g env) (hopen : g.state = .configuring) (hvalid : g.validate = .ok ())
    {b : Backoff} (hfollows : g.policy.Follows b) : Waiting added b 0 g env where
  life := h
  canRun := .inr ⟨hopen, hvalid⟩
  follows := hfollows
  count := by
    rw [(h.untouched hopen).stats]
    rfl

/-- **Waiting has no end without a limit**, as long as the rounds can be counted. Take a graph
that passes the check and whose policy follows a backoff without a limit. After any number of
rounds that bring nothing, one more of them says so and is counted, as long as the count has
room for it. A run goes on after such rounds, whether they are its own or were made before. It
waits between them as the backoff says, and never less long than before. -/
theorem Lifetime.waits_without_end {added : List ComponentId} {g : Graph κ ω} {env : Env ω}
    (h : Lifetime added g env) (hopen : g.state = .configuring) (hvalid : g.validate = .ok ())
    {b : Backoff} (hfollows : g.policy.Follows b) (hlimit : b.limit = none) :
    (∀ n g' env' patience, g.Idled env n g' env' → Graph.Barren patience (g', env') →
      n + 1 < UInt32.size → (g'.runOnce patience env').result = some (.ok .again) ∧
        (g'.runOnce patience env').graph.stats.idleRounds.toNat = n + 1) ∧
    ∃ wait : Nat → Duration,
      (∀ m n, m ≤ n → n < UInt32.size → (wait m).nanos ≤ (wait n).nanos) ∧
      ∀ n g' env' patience rounds block rest, g.Idled env n g' env' →
        Graph.rounds patience rounds g' env' = block ++ rest →
        (∀ x ∈ block, Graph.Barren patience x) → n + block.length < UInt32.size →
          (block.length < rounds → rest ≠ []) ∧ Graph.WaitsThrough patience b n block rest ∧
          ∀ i y, i < block.length → (block ++ rest)[i + 1]? = some y →
            b.delay y.1.stats.idleRounds = some (wait (n + (i + 1))) := by
  have hwaiting := h.waiting hopen hvalid hfollows
  have hdelays : ∀ n : Nat, ∃ d, b.delay (UInt32.ofNat n) = some d :=
    fun n => (Backoff.exists_delay (by simp [hlimit])).imp fun _ => And.left
  choose wait hwait using hdelays
  refine ⟨fun n g' env' patience hidled hbarren hn => ?_, wait, fun m n hle hn => ?_, ?_⟩
  · obtain ⟨hresult, hnext⟩ := (hwaiting.idled hidled).round hbarren
    exact ⟨hresult, hnext.toNat_count hn⟩
  · have hle' : UInt32.ofNat m ≤ UInt32.ofNat n := by
      rw [UInt32.le_iff_toNat_le, UInt32.toNat_ofNat_of_lt' (hle.trans_lt hn),
        UInt32.toNat_ofNat_of_lt' hn]
      exact hle
    obtain ⟨d, hd, hnanos⟩ := Backoff.delay_mono hle' (hwait n)
    rwa [Option.some.inj ((hwait m).symm.trans hd)]
  · intro n g' env' patience rounds block rest hidled hrounds hbarren hbound
    obtain ⟨hgoesOn, hthrough⟩ := (hwaiting.idled hidled).run hlimit hrounds hbarren hbound
    refine ⟨hgoesOn, hthrough, fun i y hi hy => ?_⟩
    have hcount := (hthrough.waits i _ y (List.getElem?_eq_getElem hi) hy).count
    rw [← hwait, ← hcount, UInt32.ofNat_toNat]

end

/-! ## A source that never wakes up -/

/-- A scripted source that never has anything to give, and a sink, under a backoff without a
limit. -/
def dormant : Graph Scripted Bench × Env Bench :=
  Graph.build "dormant" ⟨1, 100, none⟩ { places := [("g", 1)] }
    [.add { Scripted.componentClass "silence" { label := "giver", script := .source [] .again 0 }
        with ports := [⟨"out", .output⟩] } "giver" .nil,
    .add { Scripted.componentClass "keep" { label := "taker", script := .sink [] [] 0 }
        with ports := [⟨"in", .input⟩] } "taker" .nil,
    .link "giver" "out" "taker" "in"]

theorem dormant_lifetime : Lifetime [0, 1] dormant.1 dormant.2 := by
  refine .built (rfl : dormant = Graph.build _ _ _ _) ?_
  simp [Request.runs, Request.Fits]

theorem dormant_barren : Graph.Barren 5 dormant := by
  refine .of_steps_eq ⟨rfl, ?_, rfl⟩ rfl rfl
  rw [show dormant.1.roundEvents 5 dormant.2 =
    [.call 1 0 (.asked "out"), .call 1 0 (.answered "out" (.ok .again))] from rfl]
  simp [Event.fault?, Component.faultOf]

/-- The graph in the course of its rounds, when the source has been asked so many times. -/
def dormantAt (pulls : Nat) (stats : Stats) : Graph Scripted Bench :=
  { (dormant.1.runOnce 5 dormant.2).graph.modify 0 fun c =>
      { c with behavior := some { label := "giver", script := .source [] .again pulls } }
    with stats := stats }

theorem dormantAt_round (pulls : Nat) (stats : Stats) (w : Bench) (next : GraphId) (j : Journal) :
    ∃ w', (dormantAt pulls stats).runOnce 5 ⟨w, [], next, j⟩ = ⟨some (.ok .again),
      dormantAt (pulls + 1)
        { stats with rounds := stats.rounds + 1, idleRounds := stats.idleRounds + 1 },
      ⟨w', [], next, ((j.record (.call 1 0 (.asked "out"))).record
        (.call 1 0 (.answered "out" (.ok .again)))).record
          (.notice (.roundComplete "dormant" (stats.rounds + 1) false))⟩⟩ :=
  ⟨_, rfl⟩

theorem dormantAt_barren (pulls : Nat) (stats : Stats) (w : Bench) (next : GraphId) (j : Journal) :
    Graph.Barren 5 (dormantAt pulls stats, ⟨w, [], next, j⟩) := by
  obtain ⟨w', hround⟩ := dormantAt_round pulls stats w next j
  refine .of_steps_eq ⟨rfl, ?_, rfl⟩ rfl rfl
  rw [Graph.roundEvents, hround, show (dormantAt pulls stats).id = 1 from rfl]
  simp [Event.fault?, Component.faultOf]

/-- It can idle any number of times. -/
theorem dormant_idled (n : Nat) : ∃ pulls stats env,
    dormant.1.Idled dormant.2 (n + 1) (dormantAt pulls stats) env ∧ env.cancelled = [] := by
  induction n with
  | zero =>
    have hbegins : dormant.1.Idled dormant.2 0 dormant.1 dormant.2 := .begins
    have hnext := hbegins.round dormant_barren
    rw [show (dormant.1.runOnce 5 dormant.2).graph =
      dormantAt 1 { rounds := 1, idleRounds := 1, started := true } from rfl] at hnext
    exact ⟨_, _, _, hnext, rfl⟩
  | succ n ih =>
    obtain ⟨pulls, stats, ⟨w, cancelled, next, j⟩, hidled, hcancelled⟩ := ih
    obtain rfl : cancelled = [] := hcancelled
    obtain ⟨w', hround⟩ := dormantAt_round pulls stats w next j
    have hnext := hidled.round (dormantAt_barren pulls stats w next j)
    rw [hround] at hnext
    exact ⟨_, _, _, hnext, rfl⟩

/-- Its third idle round is like those before, and so is the fourth, which a run makes. -/
theorem dormant_waits :
    let b : Backoff := ⟨.ofMillis 1, .ofMillis 100, none⟩
    Lifetime [0, 1] dormant.1 dormant.2 ∧ dormant.1.state = .configuring ∧
      dormant.1.validate = .ok () ∧ dormant.1.policy.Follows b ∧ b.limit = none ∧
      ∃ g env, dormant.1.Idled dormant.2 2 g env ∧ Graph.Barren 5 (g, env) ∧
        (g.runOnce 5 env).result = some (.ok .again) ∧
        (g.runOnce 5 env).graph.stats.idleRounds.toNat = 3 ∧
        ∃ rest, Graph.rounds 5 2 g env = [(g, env)] ++ rest ∧ rest ≠ [] ∧
          Graph.WaitsThrough 5 b 2 [(g, env)] rest := by
  intro b
  have hfollows : dormant.1.policy.Follows b := b.policy_follows
  obtain ⟨hround, wait, -, hrun⟩ := dormant_lifetime.waits_without_end rfl rfl hfollows rfl
  obtain ⟨pulls, stats, ⟨w, cancelled, next, j⟩, hidled, hcancelled⟩ := dormant_idled 1
  obtain rfl : cancelled = [] := hcancelled
  have hbarren := dormantAt_barren pulls stats w next j
  obtain ⟨hresult, hcount⟩ := hround 2 _ _ 5 hidled hbarren (by decide)
  obtain ⟨hgoesOn, hthrough, -⟩ := hrun 2 _ _ 5 2 [_] _ hidled rfl
    (List.forall_mem_singleton.mpr hbarren) (show 2 + 1 < UInt32.size by decide)
  exact ⟨dormant_lifetime, rfl, rfl, hfollows, rfl, _, _, hidled, hbarren, hresult, hcount,
    _, rfl, hgoesOn Nat.one_lt_two, hthrough⟩

/-- A count of idle rounds that has no room for one more starts over: after `2 ^ 32` of them it
is back at nought, and the wait, which was the longest, is the first one again. -/
theorem dormant_starts_over :
    let b : Backoff := ⟨.ofMillis 1, .ofMillis 100, none⟩
    b.limit = none ∧ Lifetime [0, 1] dormant.1 dormant.2 ∧ dormant.1.state = .configuring ∧
      dormant.1.validate = .ok () ∧ dormant.1.policy.Follows b ∧
      ∃ g env, dormant.1.Idled dormant.2 (UInt32.size - 1) g env ∧ Graph.Barren 5 (g, env) ∧
        g.stats.idleRounds.toNat = UInt32.size - 1 ∧
        b.delay g.stats.idleRounds = some (.ofMillis 100) ∧
        (g.runOnce 5 env).result = some (.ok .again) ∧
        (g.runOnce 5 env).graph.stats.idleRounds = 0 ∧
        b.delay (g.runOnce 5 env).graph.stats.idleRounds = some (.ofMillis 1) := by
  intro b
  obtain ⟨pulls, stats, ⟨w, cancelled, next, j⟩, hidled, hcancelled⟩ :=
    dormant_idled (UInt32.size - 2)
  obtain rfl : cancelled = [] := hcancelled
  have hbarren := dormantAt_barren pulls stats w next j
  have hwaiting := (dormant_lifetime.waiting rfl rfl b.policy_follows).idled hidled
  obtain ⟨hresult, hnext⟩ := hwaiting.round hbarren
  have hcount := hwaiting.count
  have hcount' : ((dormantAt pulls stats).runOnce 5 ⟨w, [], next, j⟩).graph.stats.idleRounds = 0 :=
    hnext.count
  refine ⟨rfl, dormant_lifetime, rfl, rfl, b.policy_follows, _, _, hidled, hbarren, ?_, ?_, hresult,
    hcount', ?_⟩
  · rw [hcount]
    exact UInt32.toNat_ofNat_of_lt' (by decide)
  · rw [hcount]
    decide
  · rw [hcount']
    decide

end PullGraph
