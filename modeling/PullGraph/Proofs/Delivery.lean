import PullGraph.Proofs.Attribution
import PullGraph.Proofs.Chain

/-! # Delivery

What goes into a chain comes out of it. Each round draws one message through the filters and
hands it to the sink, in the order of the source, until there are no more or one of them meets
a fault; `deliveries` says what that comes to. `Graph.Flowing` is what holds between the
rounds: the line is in place, and the source has the rest of the messages.
-/
namespace PullGraph

variable {κ ω : Type}

/-! ## What comes out -/

/-- What becomes of a message that meets no fault; nothing, if it is dropped. -/
def survivor (Fs : List Stage) (m : Message) : Option Message :=
  match pushThrough Fs m with
  | .ok o => o
  | .error _ => none

/-- The messages that come out before the first fault, and the fault if there is one. -/
def deliveries (Fs : List Stage) : List Message → List Message × Option (Nat × String)
  | [] => ([], none)
  | m :: ms =>
    match pushThrough Fs m with
    | .error e => ([], some e)
    | .ok none => deliveries Fs ms
    | .ok (some m) => (m :: (deliveries Fs ms).1, (deliveries Fs ms).2)

theorem deliveries_drain (Fs : List Stage) (ms : List Message) :
    deliveries Fs ms =
      match drain Fs ms with
      | .ended => ([], none)
      | .failed i text => ([], some (i, text))
      | .message m rest => (m :: (deliveries Fs rest).1, (deliveries Fs rest).2) := by
  induction ms with
  | nil => rfl
  | cons m ms ih =>
    rw [deliveries, drain]
    rcases pushThrough Fs m with ⟨i, text⟩ | _ | m'
    · rfl
    · exact ih
    · rfl

theorem deliveries_append {Fs : List Stage} {before : List Message}
    (h : ∀ m ∈ before, ∃ o, pushThrough Fs m = .ok o) (ms : List Message) :
    deliveries Fs (before ++ ms) =
      (before.filterMap (survivor Fs) ++ (deliveries Fs ms).1, (deliveries Fs ms).2) := by
  induction before with
  | nil => rfl
  | cons m before ih =>
    obtain ⟨⟨o, ho⟩, hrest⟩ := List.forall_mem_cons.mp h
    have hm : survivor Fs m = o := by rw [survivor, ho]
    rw [List.cons_append, deliveries, ho, List.filterMap_cons, hm, ih hrest]
    cases o <;> rfl

/-- The shared state once a sink that keeps messages with `store` has been handed some. -/
def keepAll (store : Message → ω → ω) (ms : List Message) (w : ω) : ω :=
  ms.foldl (fun w m => store m w) w

/-- A sink that keeps messages with `store` has been handed `ms`, and the shared state has not
changed otherwise. A list of what the sink keeps is longer by `ms`. -/
def Collects (store : Message → ω → ω) (ms : List Message) (w w' : ω) : Prop :=
  w' = keepAll store ms w ∧ ∀ kept : ω → List Message,
    (∀ m w, kept (store m w) = kept w ++ [m]) → kept w' = kept w ++ ms

theorem collects_keepAll (store : Message → ω → ω) (ms : List Message) (w : ω) :
    Collects store ms w (keepAll store ms w) := by
  refine ⟨rfl, fun kept hkept => ?_⟩
  induction ms generalizing w with
  | nil => exact (List.append_nil _).symm
  | cons m ms ih =>
    change kept (keepAll store ms (store m w)) = kept w ++ m :: ms
    rw [ih, hkept, List.append_assoc]
    rfl

namespace Graph

/-! ## Rounds of one step -/

section Single

variable [Behavior κ ω] {g : Graph κ ω} {env : Env ω}

/-- What a round comes to whose only step came to `r`. -/
def sweepOf : Except Failure Bool → Sweep
  | .ok moved => .completed moved
  | .error f => .failed f

/-- A round of a graph with one sink that waits at one port makes one step. -/
theorem runOnce_single (hrunning : g.state = .running) {s index : Nat} (hsinks : g.sinks = [s])
    {c : Component κ} (hc : g.components[s]? = some c) (hpending : c.pending = [index])
    (huncancelled : env.isCancelled g.id = false) {patience : Nat} {r : Except Failure Bool}
    {g' : Graph κ ω} {env' : Env ω}
    (hstep : g.nextRound.sinkStep patience s index env = ⟨some r, g', env'⟩) :
    g.runOnce patience env = (g'.afterSweep (sweepOf r) env').map some := by
  have hports : sweepPorts patience s [index] false g.nextRound env =
      ⟨some (sweepOf r), g', env'⟩ := by
    rw [sweepPorts, if_neg (by simpa [nextRound] using huncancelled), hstep]
    cases r <;> rfl
  have hsweep : sweepSinks patience g.sinks false g.nextRound env =
      ⟨some (sweepOf r), g', env'⟩ := by
    have hwaiting : (g.nextRound.components[s]?.map (·.pending)).getD [] = [index] := by
      change (g.components[s]?.map (·.pending)).getD [] = [index]
      rw [hc, Option.map_some, Option.getD_some, hpending]
    rw [hsinks, sweepSinks, hwaiting, hports]
    cases r <;> rfl
  simp only [runOnce, ensureRunning_running hrunning, hsweep]

theorem endRound_progress (huncancelled : env.isCancelled g.id = false)
    (hdemand : g.hasDemand = true) :
    g.endRound true env = ⟨.ok .progress, { g with stats := { g.stats with idleRounds := 0 } },
      env.note (.roundComplete g.name g.stats.rounds true)⟩ := by
  simp [endRound, huncancelled, hdemand]

end Single

/-! ## The end of standard components -/

variable {g g' : Graph (Standard ω) ω} {env env' : Env ω}

/-- Standard components end well and leave the shared state alone. -/
theorem finalizeList_standard (name : String) (cs : List (Component (Standard ω))) (env : Env ω) :
    (finalizeList name cs env).1 = [] ∧ (finalizeList name cs env).2.2.shared = env.shared := by
  induction cs with
  | nil => exact ⟨rfl, rfl⟩
  | cons c cs ih =>
    unfold finalizeList
    generalize finalizeList name cs env = x at ih ⊢
    obtain ⟨failures, cs', env'⟩ := x
    obtain ⟨rfl, hshared⟩ := ih
    have hc : (c.finalize env').1 = none ∧ (c.finalize env').2.2.shared = env'.shared := by
      unfold Component.finalize
      split
      · exact ⟨rfl, rfl⟩
      · split <;> exact ⟨rfl, rfl⟩
    dsimp only
    generalize c.finalize env' = y at hc ⊢
    obtain ⟨fault, c', env''⟩ := y
    obtain ⟨rfl, hshared'⟩ := hc
    exact ⟨rfl, hshared'.trans hshared⟩

theorem close_standard (g : Graph (Standard ω) ω) (state : GraphState) (env : Env ω) :
    (g.close state env).result = [] ∧ (g.close state env).env.shared = env.shared :=
  finalizeList_standard g.name g.components env

theorem finish_standard (g : Graph (Standard ω) ω) (env : Env ω) :
    ∃ g' env', g.finish env = ⟨.ok .finished, g', env'⟩ ∧ g'.state = .finished ∧
      g'.stats = g.stats ∧ env'.shared = env.shared := by
  obtain ⟨hwell, hshared⟩ := close_standard g .finished env
  refine ⟨(g.close .finished env).graph, (g.close .finished env).env.note
    (.finished g.name g.stats.rounds g.stats.messages), ?_, rfl, rfl, hshared⟩
  simp only [finish, conclude, hwell]
  rfl

theorem fail_standard {f : Failure} {c : Component (Standard ω)}
    (hc : g.components[f.component]? = some c) (env : Env ω) :
    ∃ g' env', g.fail f env = ⟨.error (.execution ⟨f.component, c.name, f.cause, []⟩), g', env'⟩ ∧
      g'.state = .faulted ∧ env'.shared = env.shared := by
  let env₁ := env.note (.failed g.name c.name f.cause)
  obtain ⟨hwell, hshared⟩ := close_standard g .faulted env₁
  refine ⟨(g.close .faulted env₁).graph, (g.close .faulted env₁).env, ?_, rfl, hshared⟩
  simp only [fail, hc, Option.map_some, Option.getD_some, ← hwell, env₁]

/-! ## What a sink keeps -/

/-- A sink that keeps messages takes every arrival, and stays as it is. -/
theorem deliver_collect {id : ComponentId} {store : Message → ω → ω} {p : Port}
    (hkind : g.topology.kind? id = some .sink)
    (hk : g.behaviors[id]? = some (some (.collect store))) (hp : g.portAt? id 0 = some p)
    (arrival : Option Message) (env : Env ω) :
    ∃ env', g.deliver id 0 arrival env = ⟨.ok true, g.count arrival, env'⟩ ∧
      env'.shared = (arrival.elim env.shared fun m => store m env.shared) ∧
      env'.cancelled = env.cancelled := by
  obtain ⟨c, hc, hsink⟩ := g.topology_kind?_eq_some.mp hkind
  obtain ⟨c', hc', hb⟩ := behaviors_eq_some.mp hk
  obtain rfl : c = c' := Option.some.inj (hc.symm.trans hc')
  -- what the sink is put back as is what it was
  have hsame : (g.count arrival).modify id (fun c => { c with behavior := some (.collect store) }) =
      g.count arrival := by
    have hcount : (g.count arrival).components = g.components := by cases arrival <;> rfl
    have hcomponents : g.components.modify id (fun c => { c with behavior := some (.collect store) }) =
        g.components := by
      rw [List.modify_eq_set_getElem?, hc]
      have hself : { c with behavior := some (.collect store) } = c := by rw [← hb]
      exact (congrArg (g.components.set id) hself).trans (set_eq_self hc)
    rw [Graph.modify, hcount, hcomponents, ← hcount]
  rw [deliver_eq hc hb hsink hp]
  cases arrival with
  | none => exact ⟨_, congrArg (After.mk _ · _) hsame, rfl, rfl⟩
  | some m => exact ⟨_, congrArg (After.mk _ · _) hsame, rfl, rfl⟩

theorem hasDemand_eq {taker : ComponentId} (hsinks : g.sinks = [taker])
    (hkind : g.topology.kind? taker = some .sink) (hinlet : g.OneInlet taker) {p : Port}
    (hp : g.portAt? taker 0 = some p) (hd : p.direction = .input) : g.hasDemand = !p.atEnd := by
  obtain ⟨c, hc, -⟩ := g.topology_kind?_eq_some.mp hkind
  have hpending := hinlet.pending_eq hc hp hd
  cases hend : p.atEnd <;> simp [hasDemand, hsinks, hc, hpending, hend]

/-! ## Rounds of a line -/

/-- What holds between the rounds of a chain: the line is in place, and the source has the
messages `ms` left. -/
structure Flowing (g : Graph (Standard ω) ω) (env : Env ω) (giver : ComponentId) (ms : List Message)
    (path : List (ComponentId × Stage)) (taker : ComponentId) (store : Message → ω → ω) : Prop where
  sane : g.Sane env
  running : g.state = .running
  uncancelled : env.isCancelled g.id = false
  line : g.Line giver path
  fed : g.FedBy taker (lineEnd giver path)
  sinks : g.sinks = [taker]
  inlet : g.OneInlet taker
  distinct : (giver :: (path.map Prod.fst ++ [taker])).Nodup
  items : g.behaviors[giver]? = some (some (.items ms))
  keeper : g.behaviors[taker]? = some (some (.collect store))

/-- The step that the next round makes for a sink with one way in. -/
def nextStep (g : Graph (Standard ω) ω) (env : Env ω) (taker : ComponentId) : Step (Standard ω) ω :=
  ⟨g.nextRound, env, taker, 0⟩

namespace Flowing

variable {giver taker : ComponentId} {ms : List Message} {path : List (ComponentId × Stage)}
  {store : Message → ω → ω} {patience : Nat}

theorem kind_taker (h : g.Flowing env giver ms path taker store) :
    g.topology.kind? taker = some .sink := by
  refine h.sane.wired.mem_sinks.mp ?_
  rw [topology_sinks, h.sinks]
  exact List.mem_singleton_self taker

/-- Counting makes no difference. -/
theorem tally (h : g.Flowing env giver ms path taker store) (stats : Stats) :
    ({ g with stats := stats } : Graph (Standard ω) ω).Flowing env giver ms path taker store where
  sane := h.sane.tally stats
  running := h.running
  uncancelled := h.uncancelled
  line := h.line.congr rfl (fun _ _ => rfl) fun _ _ => rfl
  fed := h.fed
  sinks := h.sinks
  inlet := h.inlet
  distinct := h.distinct
  items := h.items
  keeper := h.keeper

theorem due (h : g.Flowing env giver ms path taker store) : (g.nextStep env taker).Due := by
  obtain ⟨p, conn, out, hp, hd, -, hopen, -⟩ := h.fed
  refine ⟨h.running, ?_, ⟨p, hp, hd, hopen⟩, h.uncancelled⟩
  change taker ∈ g.sinks
  rw [h.sinks]
  exact List.mem_singleton_self taker

/-- The step draws messages through the line. -/
theorem pulled (h : g.Flowing env giver ms path taker store)
    (hpatience : path.length + ms.length ≤ patience) :
    ∃ r t, (g.nextStep env taker).pulled patience = ⟨some r, t⟩ ∧ (g.nextStep env taker).turn.Draws t ∧
      Yields giver (path.reverse.map Prod.fst) (g.nextStep env taker).turn t r t.failure
        (drain (path.reverse.map Prod.snd) ms) := by
  have hdistinct : (giver :: path.map Prod.fst).Nodup :=
    h.distinct.sublist (List.Sublist.cons_cons giver (List.sublist_append_left _ _))
  have hnext := h.tally { g.stats with rounds := g.stats.rounds + 1 }
  exact Line.pull hdistinct (g.nextStep env taker).turn taker ms patience hnext.line hnext.fed h.items
    rfl hpatience

/-- A step that comes to `r` makes a round that does. -/
theorem runOnce_eq (h : g.Flowing env giver ms path taker store) {r : Except Failure Bool}
    (hafter : (g.nextStep env taker).after patience = ⟨some r, g', env'⟩) :
    g.runOnce patience env = (g'.afterSweep (sweepOf r) env').map some ∧ g'.Sane env' := by
  obtain ⟨c, hc, -⟩ := g.topology_kind?_eq_some.mp h.kind_taker
  obtain ⟨p, conn, out, hp, hd, -, hopen, -⟩ := h.fed
  have hpending := h.inlet.pending_eq hc hp hd
  rw [hopen, if_neg (by decide)] at hpending
  refine ⟨runOnce_single h.running h.sinks hc hpending h.uncancelled hafter, ?_⟩
  have hsane : (g.nextStep env taker).graph.Sane (g.nextStep env taker).env := h.sane.tally _
  have hreturned : ((g.nextStep env taker).after patience).result.isSome = true := by
    rw [hafter]
    rfl
  have hnext := hsane.step h.due hreturned
  rw [hafter] at hnext
  exact hnext

theorem taker_ne_giver (h : g.Flowing env giver ms path taker store) : giver ≠ taker := by
  obtain ⟨hgiver, -⟩ := List.nodup_cons.mp h.distinct
  rintro rfl
  exact hgiver (List.mem_append_right _ (List.mem_singleton_self giver))

/-- What came is handed to the sink, which keeps it. -/
theorem after_arrival (h : g.Flowing env giver ms path taker store) {pull : Pull}
    {t : Turn (Standard ω) ω} {arrival : Option Message} {k : Standard ω}
    (hpulled : (g.nextStep env taker).pulled patience = ⟨some (.ok pull), t⟩)
    (hdraws : (g.nextStep env taker).turn.Draws t) (hnone : t.failure = none)
    (hbehaviors : t.graph.behaviors = g.behaviors.set giver (some k))
    (harrives : pull.arrival? = some arrival) :
    ∃ env', (g.nextStep env taker).after patience = ⟨some (.ok true), t.graph.count arrival, env'⟩ ∧
      env'.shared = (arrival.elim env.shared fun m => store m env.shared) ∧
      env'.isCancelled t.graph.id = false := by
  have htopology : t.graph.topology = g.topology := hdraws.topology
  have hshared : t.env.shared = env.shared := hdraws.shared
  have hkind : t.graph.topology.kind? taker = some .sink := htopology ▸ h.kind_taker
  have hkeeper : t.graph.behaviors[taker]? = some (some (.collect store)) := by
    rw [hbehaviors, List.getElem?_set_ne h.taker_ne_giver, h.keeper]
  obtain ⟨p, conn, out, hp, -⟩ := h.fed
  obtain ⟨p', hp', -⟩ := portAt?_of_topology_eq htopology hp
  obtain ⟨env', hdeliver, hkept, hcancelled⟩ := deliver_collect hkind hkeeper hp' arrival t.env
  rw [hshared] at hkept
  refine ⟨env', ?after, hkept, ?uncancelled⟩
  case after =>
    simp only [Step.after_eq, hpulled, afterPull, hnone]
    cases pull with
    | again => cases harrives
    | message m =>
      obtain rfl := Option.some.inj harrives
      exact congrArg (After.map some) hdeliver
    | endOfStream =>
      obtain rfl := Option.some.inj harrives
      exact congrArg (After.map some) hdeliver
  case uncancelled =>
    have hid : t.graph.id = g.id := congrArg Topology.id htopology
    rw [Env.isCancelled, hcancelled, hdraws.cancelled, hid]
    exact h.uncancelled

/-- What is told to people makes no difference. -/
theorem note (h : g.Flowing env giver ms path taker store) (notice : Notice) :
    g.Flowing (env.note notice) giver ms path taker store :=
  { h with
    sane := h.sane.elsewhere (env.about_note notice g.id)
    uncancelled := h.uncancelled }

/-- The line is in place again after messages were drawn through it. -/
theorem drawn (h : g.Flowing env giver ms path taker store) {t : Turn (Standard ω) ω}
    {rest : List Message} (hdraws : (g.nextStep env taker).turn.Draws t)
    (hports : ∀ i j, t.graph.portAt? i j = g.portAt? i j)
    (hbehaviors : t.graph.behaviors = g.behaviors.set giver (some (.items rest)))
    (hsane : t.graph.Sane env') (huncancelled : env'.isCancelled t.graph.id = false) :
    t.graph.Flowing env' giver rest path taker store := by
  have htopology : t.graph.topology = g.topology := hdraws.topology
  obtain ⟨hgiver, -⟩ := List.nodup_cons.mp h.distinct
  have hlt : giver < g.behaviors.length := (List.getElem?_eq_some_iff.mp h.items).1
  refine ⟨hsane, hdraws.state.trans h.running, huncancelled, ?line, h.fed.congr htopology hports,
    (congrArg Topology.sinks htopology).trans h.sinks, h.inlet.congr htopology, h.distinct,
    ?items, ?keeper⟩
  case line =>
    refine h.line.congr htopology hports fun a ha => ?_
    rw [hbehaviors, List.getElem?_set_ne]
    rintro rfl
    exact hgiver (List.mem_append_left _ ha)
  case items => rw [hbehaviors, List.getElem?_set_self hlt]
  case keeper => rw [hbehaviors, List.getElem?_set_ne h.taker_ne_giver, h.keeper]

/-- While messages come out, rounds make progress: each hands one to the sink. -/
theorem round_message (h : g.Flowing env giver ms path taker store)
    (hpatience : path.length + ms.length ≤ patience) {m : Message} {rest : List Message}
    (hdrain : drain (path.reverse.map Prod.snd) ms = .message m rest) :
    ∃ g' env', g.runOnce patience env = ⟨some (.ok .progress), g', env'⟩ ∧
      g'.Flowing env' giver rest path taker store ∧ g'.topology = g.topology ∧
      env'.shared = store m env.shared ∧ g'.stats.rounds = g.stats.rounds + 1 ∧
      g'.stats.messages = g.stats.messages + 1 := by
  obtain ⟨r, t, hpulled, hdraws, hyields⟩ := h.pulled hpatience
  rw [hdrain] at hyields
  obtain ⟨rfl, hnone, hports, hbehaviors⟩ := hyields
  obtain ⟨env₁, hafter, hshared, huncancelled⟩ :=
    h.after_arrival hpulled hdraws hnone hbehaviors rfl
  obtain ⟨hround, hsane⟩ := h.runOnce_eq hafter
  have hstats : t.graph.stats = g.nextRound.stats := hdraws.stats
  have hflowing := h.drawn hdraws hports hbehaviors (hsane.tally t.graph.stats) huncancelled
  obtain ⟨p, conn, out, hp, hd, -, hopen, -⟩ := hflowing.fed
  have hdemand : t.graph.hasDemand = true := by
    rw [hasDemand_eq hflowing.sinks hflowing.kind_taker hflowing.inlet hp hd, hopen]
    rfl
  have hend : (t.graph.count (some m)).endRound true env₁ = _ :=
    endRound_progress huncancelled hdemand
  rw [hround, show (t.graph.count (some m)).afterSweep (sweepOf (.ok true)) env₁ = _ from hend]
  refine ⟨_, _, rfl, (hflowing.tally _).note _, hdraws.topology, hshared, ?_, ?_⟩
  · exact congrArg Stats.rounds hstats
  · change t.graph.stats.messages + 1 = g.stats.messages + 1
    rw [hstats]
    rfl

/-- Once the end of the stream has come, the sink waits for nothing. -/
theorem not_hasDemand (h : g.Flowing env giver ms path taker store) {t : Turn (Standard ω) ω}
    (hpulled : (g.nextStep env taker).pulled patience = ⟨some (.ok .endOfStream), t⟩)
    (htopology : t.graph.topology = g.topology) : t.graph.hasDemand = false := by
  obtain ⟨p, conn, out, hp, hd, -⟩ := h.fed
  obtain ⟨p', hp', hsocket⟩ := portAt?_of_topology_eq htopology hp
  have hd' : p'.direction = .input := (congrArg Socket.direction hsocket).trans hd
  have hended : p'.atEnd = true := by
    have hresult : ((g.nextStep env taker).pulled patience).result = some (.ok .endOfStream) := by
      rw [hpulled]
    obtain ⟨p'', hp'', hended⟩ := pullInput_ends patience hresult
    change ((g.nextStep env taker).pulled patience).turn.graph.portAt? taker 0 = some p'' at hp''
    rw [hpulled] at hp''
    obtain rfl := Option.some.inj (hp'.symm.trans hp'')
    exact hended
  have hkind : t.graph.topology.kind? taker = some .sink := htopology ▸ h.kind_taker
  have hsinks : t.graph.sinks = [taker] := (congrArg Topology.sinks htopology).trans h.sinks
  rw [hasDemand_eq hsinks hkind (h.inlet.congr htopology) hp' hd', hended]
  rfl

/-- When no message is left, a round finishes the run. -/
theorem round_ended (h : g.Flowing env giver ms path taker store)
    (hpatience : path.length + ms.length ≤ patience)
    (hdrain : drain (path.reverse.map Prod.snd) ms = .ended) :
    ∃ g' env', g.runOnce patience env = ⟨some (.ok .finished), g', env'⟩ ∧
      g'.state = .finished ∧ env'.shared = env.shared ∧ g'.stats.rounds = g.stats.rounds + 1 ∧
      g'.stats.messages = g.stats.messages := by
  obtain ⟨r, t, hpulled, hdraws, hyields⟩ := h.pulled hpatience
  rw [hdrain] at hyields
  obtain ⟨rfl, hnone, hbehaviors⟩ := hyields
  obtain ⟨env₁, hafter, hshared, huncancelled⟩ :=
    h.after_arrival hpulled hdraws hnone hbehaviors rfl
  obtain ⟨hround, -⟩ := h.runOnce_eq hafter
  have hstats : t.graph.stats = g.nextRound.stats := hdraws.stats
  have hend : t.graph.endRound true env₁ = t.graph.finish env₁ :=
    endRound_finish huncancelled (h.not_hasDemand hpulled hdraws.topology) true
  obtain ⟨g', env', hfinish, hstate, hkept, hshared'⟩ := finish_standard t.graph env₁
  refine ⟨g', env', ?round, hstate, hshared'.trans hshared, ?_, ?_⟩
  case round =>
    rw [hround, show (t.graph.count none).afterSweep (sweepOf (.ok true)) env₁ = _ from hend, hfinish]
    rfl
  · rw [hkept, hstats]
    rfl
  · rw [hkept, hstats]
    rfl

/-- Where a message meets a fault, a round fails and names the filter. -/
theorem round_failed (h : g.Flowing env giver ms path taker store)
    (hpatience : path.length + ms.length ≤ patience) {i : Nat} {text : String}
    (hdrain : drain (path.reverse.map Prod.snd) ms = .failed i text) :
    ∃ id c g' env', (path.reverse.map Prod.fst)[i]? = some id ∧ g.components[id]? = some c ∧
      g.runOnce patience env = ⟨some (.error (.execution ⟨id, c.name, .own text, []⟩)), g', env'⟩ ∧
      g'.state = .faulted ∧ env'.shared = env.shared := by
  obtain ⟨r, t, hpulled, hdraws, hyields⟩ := h.pulled hpatience
  rw [hdrain] at hyields
  obtain ⟨⟨cause, rfl⟩, id, hid, hblamed⟩ := hyields
  have htopology : t.graph.topology = g.topology := hdraws.topology
  have hafter : (g.nextStep env taker).after patience =
      ⟨some (.error ⟨id, .own text⟩), t.graph, t.env⟩ := by
    simp only [Step.after_eq, hpulled, afterPull, hblamed]
    rfl
  obtain ⟨hround, -⟩ := h.runOnce_eq hafter
  have hmem : id ∈ path.map Prod.fst := by
    have hmem := List.mem_of_getElem? hid
    rwa [List.map_reverse, List.mem_reverse] at hmem
  obtain ⟨c, hc, -⟩ := g.topology_kind?_eq_some.mp (h.line.kind_of_mem hmem)
  obtain ⟨c', hc', hname⟩ := component_of_topology_eq htopology hc
  obtain ⟨g', env', hfail, hstate, hshared⟩ :=
    fail_standard (f := ⟨id, .own text⟩) hc' t.env
  refine ⟨id, c, g', env', hid, hc, ?_, hstate, hshared.trans hdraws.shared⟩
  rw [hround, show t.graph.afterSweep (sweepOf (.error ⟨id, .own text⟩)) t.env = _ from hfail, hname]
  rfl

end Flowing

/-- How a run ends that has delivered messages: it finishes and has counted them, or it fails and
names the filter where one met a fault. The filters are given in order from the source. -/
def Concludes (g : Graph (Standard ω) ω) (ids : List ComponentId) (delivered : List Message)
    (r : Except RunError Summary) (state : GraphState) : Option (Nat × String) → Prop
  | none => state = .finished ∧
      r = .ok ⟨.finished, g.stats.rounds + .ofNat (delivered.length + 1),
        g.stats.messages + .ofNat delivered.length⟩
  | some (i, text) => state = .faulted ∧ ∃ id c, ids[i]? = some id ∧ g.components[id]? = some c ∧
      r = .error (.execution ⟨id, c.name, .own text, []⟩)

/-- **A chain delivers what comes out of its line**, one message in each round. The induction
is on the rounds; each has fewer messages before it. -/
theorem Flowing.run {giver taker : ComponentId} {path : List (ComponentId × Stage)}
    {store : Message → ω → ω} {patience n : Nat} {ms : List Message}
    (h : g.Flowing env giver ms path taker store) (hpatience : path.length + ms.length ≤ patience)
    (hn : ms.length < n) :
    ∃ r g' env', Graph.run patience n g env = ⟨some r, g', env'⟩ ∧
      env'.shared = keepAll store (deliveries (path.reverse.map Prod.snd) ms).1 env.shared ∧
      g.Concludes (path.reverse.map Prod.fst) (deliveries (path.reverse.map Prod.snd) ms).1 r
        g'.state (deliveries (path.reverse.map Prod.snd) ms).2 := by
  induction n generalizing g env ms with
  | zero => omega
  | succ n ih =>
    rw [deliveries_drain, Graph.run]
    cases hdrain : drain (path.reverse.map Prod.snd) ms with
    | ended =>
      obtain ⟨g', env', hround, hstate, hshared, hrounds, hmessages⟩ := h.round_ended hpatience hdrain
      rw [hround]
      refine ⟨_, g', env', rfl, hshared, hstate, ?_⟩
      rw [summary, hrounds, hmessages]
      simp
    | failed i text =>
      obtain ⟨id, c, g', env', hid, hc, hround, hstate, hshared⟩ := h.round_failed hpatience hdrain
      rw [hround]
      exact ⟨_, g', env', rfl, hshared, hstate, id, c, hid, hc, rfl⟩
    | message m rest =>
      obtain ⟨g₁, env₁, hround, hflowing, htopology, hshared, hrounds, hmessages⟩ :=
        h.round_message hpatience hdrain
      have hrest := length_lt_of_drain hdrain
      obtain ⟨r, g', env', hrun, hkept, hconcludes⟩ := ih hflowing (by omega) (by omega)
      rw [hround]
      -- the rest of the run counts from one more, and its graph has the same names
      refine ⟨r, g', env', hrun, ?_, ?_⟩
      · rw [hkept, hshared]
        rfl
      · dsimp only at hconcludes ⊢
        generalize (deliveries (path.reverse.map Prod.snd) rest).1 = out at hconcludes ⊢
        generalize (deliveries (path.reverse.map Prod.snd) rest).2 = fault at hconcludes ⊢
        rcases fault with _ | ⟨i, text⟩
        · obtain ⟨hstate, rfl⟩ := hconcludes
          have hcount : ∀ (x : UInt64) (k : Nat), x + 1 + .ofNat k = x + .ofNat (k + 1) := by
            intro x k
            rw [UInt64.ofNat_add, UInt64.add_comm (.ofNat k), UInt64.add_assoc]
            rfl
          refine ⟨hstate, ?_⟩
          rw [hrounds, hmessages, List.length_cons, hcount, hcount]
        · obtain ⟨hstate, id, c, hid, hc, rfl⟩ := hconcludes
          obtain ⟨c', hc', hname⟩ := component_of_topology_eq htopology.symm hc
          exact ⟨hstate, id, c', hid, hc', by rw [hname]⟩

/-- A chain that starts is a line in place, with all the messages before it. -/
theorem Chain.flowing {giver taker : ComponentId} {items : List Message}
    {path : List (ComponentId × Stage)} {store : Message → ω → ω}
    (h : g.Chain giver items path taker store) (hsane : g.Sane env) (hopen : g.state = .configuring)
    (huncancelled : env.isCancelled g.id = false) (huntouched : g.Untouched)
    (hunended : ∀ i j p, g.portAt? i j = some p → p.atEnd = false) :
    (g.start env).graph.Flowing (g.start env).env giver items path.reverse taker store ∧
      (g.start env).graph.stats = { started := true } ∧ (g.start env).env.shared = env.shared := by
  have hw := hsane.wired
  have hvalid := h.validate_eq_ok hw hunended huntouched
  obtain ⟨name, hsink⟩ := h.sink
  obtain ⟨hsource, -, hkeeper⟩ := h.behaviors_eq huntouched
  obtain ⟨hline, -, hfeeds⟩ := h.line hw hunended huntouched
  have hinlet := oneInlet_of_collect hw hsink
  have hfed := hinlet.fedBy hw hunended hfeeds
  have hbegins : g.Begins env (g.start env).graph (g.start env).env := .started hopen hvalid
  have htopology := hbegins.topology_eq
  obtain ⟨hbehaviors, -, hshared⟩ := hbegins.behaviors_eq
  have hports := start_portAt? hvalid env
  refine ⟨⟨hbegins.sane hsane, hbegins.state_eq, ?uncancelled, ?line, hfed.congr htopology hports,
    ?sinks, hinlet.congr htopology, ?distinct, ?items, ?keeper⟩, ?stats, hshared⟩
  case uncancelled =>
    obtain ⟨g₁, notice, hstart, htopology₁, -⟩ := start_spec hvalid env
    rw [hstart]
    have hid : g₁.id = g.id := congrArg Topology.id htopology₁
    change env.isCancelled g₁.id = false
    rw [hid, huncancelled]
  case line =>
    refine hline.congr htopology hports fun a _ => ?_
    rw [hbehaviors]
  case sinks => exact (congrArg Topology.sinks htopology).trans (h.sinks_eq hw)
  case distinct =>
    have hperm := ((List.reverse_perm (path.map Prod.fst)).append_right [taker]).cons giver
    rw [List.map_reverse]
    exact hperm.nodup_iff.mpr h.nodup
  case items => rw [hbehaviors, hsource]
  case keeper => rw [hbehaviors, hkeeper]
  case stats =>
    have hstats := huntouched.stats
    unfold start
    rw [hvalid]
    simp [hstats]

end Graph

/-- **What goes into a chain comes out of it.**  Whoever built the chain, and in whatever order,
a run of it that is not cancelled takes the items through the filters one by one. If none of
them meets a fault, the run finishes: the sink has been handed what became of them, in their
order, and the counts say how many there are. Otherwise the run fails at the first item that
meets a fault and names the filter, and the sink has been handed what became of the items
before. -/
theorem Lifetime.chain_delivers {added : List ComponentId} {g : Graph (Standard ω) ω} {env : Env ω}
    (h : Lifetime added g env) (hopen : g.state = .configuring)
    (huncancelled : env.isCancelled g.id = false) {giver taker : ComponentId}
    {items : List Message} {path : List (ComponentId × Stage)} {store : Message → ω → ω}
    (hchain : g.Chain giver items path taker store) {patience rounds : Nat}
    (hpatience : path.length + items.length ≤ patience) (hrounds : items.length < rounds) :
    let stages := path.map Prod.snd
    let x := Graph.run patience rounds g env
    ((∀ m ∈ items, ∃ o, pushThrough stages m = .ok o) →
      x.result = some (.ok ⟨.finished, .ofNat ((items.filterMap (survivor stages)).length + 1),
        .ofNat (items.filterMap (survivor stages)).length⟩) ∧
      x.graph.state = .finished ∧
      Collects store (items.filterMap (survivor stages)) env.shared x.env.shared) ∧
    ∀ before m after i text, items = before ++ m :: after →
      (∀ m ∈ before, ∃ o, pushThrough stages m = .ok o) →
      pushThrough stages m = .error (i, text) →
      ∃ id c, (path.map Prod.fst)[i]? = some id ∧ g.components[id]? = some c ∧
        x.result = some (.error (.execution ⟨id, c.name, .own text, []⟩)) ∧
        x.graph.state = .faulted ∧
        Collects store (before.filterMap (survivor stages)) env.shared x.env.shared := by
  intro stages x
  have hunended := (h.prompt.fresh hopen).unended
  have huntouched := h.untouched hopen
  have hvalid := hchain.validate_eq_ok h.sane.wired hunended huntouched
  obtain ⟨hflowing, hstats, hshared⟩ :=
    hchain.flowing h.sane hopen huncancelled huntouched hunended
  obtain ⟨r, g', env', hrun, hkept, hconcludes⟩ :=
    hflowing.run (n := rounds) (by simpa using hpatience) hrounds
  rw [List.reverse_reverse, hshared] at hkept
  rw [List.reverse_reverse] at hconcludes
  -- the run starts the graph and then is that of a line in place
  have hx : x = ⟨some r, g', env'⟩ := by
    obtain ⟨n, rfl⟩ := Nat.exists_eq_add_one.mpr (Nat.lt_of_le_of_lt (Nat.zero_le _) hrounds)
    exact (Graph.run_start hopen hvalid patience n env).trans hrun
  rw [hx]
  refine ⟨fun hall => ?finishes, fun before m after i text heq hbefore hfault => ?fails⟩
  case finishes =>
    have hdeliveries : deliveries stages items = (items.filterMap (survivor stages), none) := by
      simpa [deliveries] using deliveries_append hall []
    rw [hdeliveries] at hkept hconcludes
    obtain ⟨hstate, rfl⟩ := hconcludes
    refine ⟨?_, hstate, hkept ▸ collects_keepAll store _ env.shared⟩
    rw [hstats, UInt64.zero_add, UInt64.zero_add]
  case fails =>
    have hdeliveries : deliveries stages items =
        (before.filterMap (survivor stages), some (i, text)) := by
      simpa [deliveries, hfault, heq] using deliveries_append hbefore (m :: after)
    rw [hdeliveries] at hkept hconcludes
    obtain ⟨hstate, id, c₁, hid, hc₁, rfl⟩ := hconcludes
    obtain ⟨c, hc, hname⟩ :=
      Graph.component_of_topology_eq (Graph.start_topology hvalid env).symm hc₁
    refine ⟨id, c, hid, hc, ?_, hstate, hkept ▸ collects_keepAll store _ env.shared⟩
    rw [hname]

/-! ## A chain

Its sink was added first, and the source after the filters. -/

/-- Doubles integers, drops zero and finds fault with what is below. -/
def sift : Message → Except String (Option Message)
  | .int n => if n < 0 then .error "negative" else .ok (if n = 0 then none else some (.int (n + n)))
  | m => .ok (some m)

/-- What is put into the chain; the filters find fault with one item if it is spoiled. -/
def sieveItems (spoiled : Bool) : List Message :=
  [.int 1, .int 0, .int 3] ++ if spoiled then [.int (-4), .int 5] else []

/-- The chain once it is built, and its environment. -/
def sieve (spoiled : Bool) : Graph (Standard (List Message)) (List Message) × Env (List Message) :=
  Graph.build "sieve" .standard []
    [.add (Standard.collectClass "keep" fun m kept => kept ++ [m]) "taker" .nil,
    .add (Standard.transformClass "sift" sift) "sieve" .nil,
    .add Standard.passthroughClass "pipe" .nil,
    .add (Standard.itemsClass "letters" (sieveItems spoiled)) "giver" .nil,
    .link "sieve" "out" "taker" "in",
    .link "giver" "out" "pipe" "in",
    .link "pipe" "out" "sieve" "in"]

theorem Graph.feeds_of_mem {κ : Type} (g : Graph κ ω) :
    ∀ x ∈ g.connections.map (fun c => (c.output.component, c.input.component)),
      g.topology.Feeds x.1 x.2 :=
  List.forall_mem_map.mpr fun c hc => ⟨c, hc, rfl, rfl⟩

theorem sieve_length (spoiled : Bool) : (sieve spoiled).1.components.length = 4 := by
  cases spoiled <;> rfl

theorem sieve_lifetime (spoiled : Bool) :
    Lifetime (List.range 4) (sieve spoiled).1 (sieve spoiled).2 := by
  rw [← sieve_length spoiled]
  refine .built (rfl : sieve spoiled = Graph.build _ _ _ _) ?_
  simp [Request.runs, Request.Fits]

theorem sieve_chain (spoiled : Bool) :
    (sieve spoiled).1.Chain 3 (sieveItems spoiled) [(2, .passthrough), (1, .transform "sift" sift)] 0
      fun m kept => kept ++ [m] := by
  have hlinks : (sieve spoiled).1.connections.map
      (fun c => (c.output.component, c.input.component)) = [(1, 0), (3, 2), (2, 1)] := by
    cases spoiled <;> rfl
  have hfeeds := (sieve spoiled).1.feeds_of_mem
  rw [hlinks] at hfeeds
  refine ⟨?members, ?links, ⟨"letters", ?source⟩, ?filters, ⟨"keep", ?sink⟩⟩
  case members =>
    rw [sieve_length]
    decide
  case links =>
    exact .cons_cons (hfeeds (3, 2) (by decide)) (.cons_cons (hfeeds (2, 1) (by decide))
      (.cons_cons (hfeeds (1, 0) (by decide)) (.singleton 0)))
  case source => cases spoiled <;> rfl
  case filters =>
    refine List.forall_mem_cons.mpr ⟨?_, List.forall_mem_singleton.mpr ?_⟩
    · cases spoiled <;> rfl
    · cases spoiled <;> rfl
  case sink => cases spoiled <;> rfl

/-- The chain delivers what is left of its items when zero is dropped, and names the filter that
finds fault. -/
theorem sieve_delivers :
    (∀ spoiled, Lifetime (List.range 4) (sieve spoiled).1 (sieve spoiled).2) ∧
      (Graph.run 7 6 (sieve false).1 (sieve false).2).result = some (.ok ⟨.finished, 3, 2⟩) ∧
      (Graph.run 7 6 (sieve false).1 (sieve false).2).graph.state = .finished ∧
      (Graph.run 7 6 (sieve false).1 (sieve false).2).env.shared = [.int 2, .int 6] ∧
      (Graph.run 7 6 (sieve true).1 (sieve true).2).result =
        some (.error (.execution ⟨1, "sieve", .own "negative", []⟩)) ∧
      (Graph.run 7 6 (sieve true).1 (sieve true).2).graph.state = .faulted ∧
      (Graph.run 7 6 (sieve true).1 (sieve true).2).env.shared = [.int 2, .int 6] := by
  have hclean := (sieve_lifetime false).chain_delivers rfl rfl (sieve_chain false)
    (show 2 + 3 ≤ 7 by decide) (show 3 < 6 by decide)
  have hspoiled := (sieve_lifetime true).chain_delivers rfl rfl (sieve_chain true)
    (show 2 + 5 ≤ 7 by decide) (show 5 < 6 by decide)
  have hfine : ∀ m ∈ sieveItems false,
      ∃ o, pushThrough [.passthrough, .transform "sift" sift] m = .ok o :=
    List.forall_mem_cons.mpr ⟨⟨_, rfl⟩, List.forall_mem_cons.mpr ⟨⟨_, rfl⟩,
      List.forall_mem_singleton.mpr ⟨_, rfl⟩⟩⟩
  obtain ⟨hresult, hstate, -, hkept⟩ := hclean.1 hfine
  obtain ⟨id, c, hid, hc, hresult', hstate', -, hkept'⟩ :=
    hspoiled.2 (sieveItems false) (.int (-4)) [.int 5] 1 "negative" rfl hfine rfl
  obtain rfl : 1 = id := Option.some.inj hid
  have hname : "sieve" = c.name := by
    have hsieve : (sieve true).1.components[1]?.map (·.name) = some "sieve" := rfl
    rw [hc] at hsieve
    exact (Option.some.inj hsieve).symm
  refine ⟨sieve_lifetime, hresult, hstate, ?_, ?_, hstate', ?_⟩
  · exact hkept (fun w => w) fun _ _ => rfl
  · rw [hresult', hname]
  · exact hkept' (fun w => w) fun _ _ => rfl

end PullGraph
