import PullGraph.Proofs.Cancellation
import PullGraph.Proofs.Delivery
import PullGraph.Proofs.Supply

/-! # Runs of standard components end

A step of a graph of standard components always moves something: a message, which some source
then no longer has, or the end of a stream, after which a sink waits at one port less. What
the sources have left and the ports at which sinks wait are therefore a measure that every
step makes smaller, unless it fails. So no round is idle, and a run comes to its end after at
most as many rounds.
-/
namespace PullGraph

variable {κ ω : Type}

/-! ## Rounds in which nothing moves -/

namespace Graph

section Idle

variable [Behavior κ ω] {patience : Nat}

theorem sweepPorts_idle {id : ComponentId} {indices : List Nat} {progressed : Bool} {g : Graph κ ω}
    {env : Env ω}
    (h : (sweepPorts patience id indices progressed g env).result = some (.completed false)) :
    progressed = false ∧
      ∀ s ∈ portSteps patience id indices g env, (s.after patience).result = some (.ok false) := by
  induction indices generalizing progressed g env with
  | nil => exact ⟨Sweep.completed.inj (Option.some.inj h), fun s hs => nomatch hs⟩
  | cons index indices ih =>
    unfold sweepPorts at h
    unfold portSteps
    by_cases hcancelled : env.isCancelled g.id = true
    · rw [if_pos hcancelled] at h
      cases h
    · rw [if_neg hcancelled] at h ⊢
      have hafter : (⟨g, env, id, index⟩ : Step κ ω).after patience =
        g.sinkStep patience id index env := rfl
      generalize g.sinkStep patience id index env = x at h hafter ⊢
      obtain ⟨result, g', env'⟩ := x
      rcases result with _ | f | moved
      · cases h
      · cases h
      · obtain ⟨hnone, hrest⟩ := ih h
        obtain ⟨hprogressed, rfl⟩ := Bool.or_eq_false_iff.mp hnone
        exact ⟨hprogressed, List.forall_mem_cons.mpr ⟨congrArg After.result hafter, hrest⟩⟩

theorem sweepSinks_idle {ids : List ComponentId} {progressed : Bool} {g : Graph κ ω} {env : Env ω}
    (h : (sweepSinks patience ids progressed g env).result = some (.completed false)) :
    progressed = false ∧
      ∀ s ∈ sinkSteps patience ids progressed g env, (s.after patience).result = some (.ok false) := by
  induction ids generalizing progressed g env with
  | nil => exact ⟨Sweep.completed.inj (Option.some.inj h), fun s hs => nomatch hs⟩
  | cons id ids ih =>
    have hports := @sweepPorts_idle κ ω _ patience id ((g.components[id]?.map (·.pending)).getD [])
      progressed g env
    simp only [sweepSinks, sinkSteps] at h ⊢
    generalize sweepPorts patience id _ progressed g env = x at h hports ⊢
    obtain ⟨result, g', env'⟩ := x
    rcases result with _ | progressed' | _ | failure
    · cases h
    · obtain ⟨rfl, hrest⟩ := ih h
      obtain ⟨hprogressed, hfirst⟩ := hports rfl
      exact ⟨hprogressed, List.forall_mem_append.mpr ⟨hfirst, hrest⟩⟩
    · cases h
    · cases h

/-- If all steps were made and there were none, no sink waits anywhere. -/
theorem sweepSinks_nil {ids : List ComponentId} {progressed progressed' : Bool} {g : Graph κ ω}
    {env : Env ω} (hnone : sinkSteps patience ids progressed g env = [])
    (h : (sweepSinks patience ids progressed g env).result = some (.completed progressed')) :
    (sweepSinks patience ids progressed g env).graph = g ∧
      ∀ id ∈ ids, (g.components[id]?.map (·.pending)).getD [] = [] := by
  induction ids with
  | nil => exact ⟨rfl, fun id hid => nomatch hid⟩
  | cons id ids ih =>
    simp only [sweepSinks, sinkSteps] at h hnone ⊢
    obtain ⟨hports, hsinks⟩ := List.append_eq_nil_iff.mp hnone
    cases hpending : (g.components[id]?.map (·.pending)).getD [] with
    | nil =>
      rw [hpending] at h hsinks
      obtain ⟨hgraph, hrest⟩ := ih hsinks h
      exact ⟨hgraph, List.forall_mem_cons.mpr ⟨hpending, hrest⟩⟩
    | cons index indices =>
      rw [hpending] at h hports
      unfold portSteps at hports
      by_cases hcancelled : env.isCancelled g.id = true
      · simp only [sweepPorts, hcancelled, if_true] at h
        cases h
      · rw [if_neg hcancelled] at hports
        cases hports

omit [Behavior κ ω] in
theorem hasDemand_eq_false {g : Graph κ ω}
    (h : ∀ id ∈ g.sinks, (g.components[id]?.map (·.pending)).getD [] = []) :
    g.hasDemand = false := by
  refine List.any_eq_false.mpr fun id hid => ?_
  have hnone := h id hid
  cases hc : g.components[id]? with
  | none => simp
  | some c =>
    rw [hc] at hnone
    simp only [Option.map_some, Option.getD_some] at hnone
    simp [hnone]

/-- A round after which the run goes on leaves a sink waiting, and tells whether anything
moved. -/
theorem afterSweep_demand {g : Graph κ ω} {sweep : Sweep} {env : Env ω} {outcome : Outcome}
    (h : (g.afterSweep sweep env).result = .ok outcome)
    (hgoesOn : outcome = .progress ∨ outcome = .again) : ∃ progressed,
      sweep = .completed progressed ∧ g.hasDemand = true ∧
      outcome = if progressed then .progress else .again := by
  have hswept := g.afterSweep_sweptTo sweep env
  generalize g.afterSweep sweep env = x at h hswept
  cases hswept with
  | cancelled | finished =>
    obtain rfl := conclude_eq_ok h
    simp at hgoesOn
  | failed => cases h
  | goesOn progressed _ hdemand => exact ⟨progressed, rfl, hdemand, (Except.ok.inj h).symm⟩

/-- **A round after which the run goes on** made steps, and if nothing moved in it, none of them
moved anything. -/
theorem Begins.goesOn {g g₁ : Graph κ ω} {env env₁ : Env ω} (hbegins : g.Begins env g₁ env₁)
    {outcome : Outcome} (h : (g.runOnce patience env).result = some (.ok outcome))
    (hgoesOn : outcome = .progress ∨ outcome = .again) :
    g.steps patience env ≠ [] ∧ (outcome = .again →
      ∀ s ∈ g.steps patience env, (s.after patience).result = some (.ok false)) := by
  have hsteps : g.steps patience env = sinkSteps patience g₁.sinks false g₁.nextRound env₁ := by
    simp only [steps, hbegins.ensureRunning_eq]
  simp only [runOnce, hbegins.ensureRunning_eq] at h
  have hidle := @sweepSinks_idle κ ω _ patience g₁.sinks false g₁.nextRound env₁
  have hnil := @sweepSinks_nil κ ω _ patience g₁.sinks false
  rw [hsteps]
  generalize hsweep : sweepSinks patience g₁.sinks false g₁.nextRound env₁ = x at h hidle
  obtain ⟨result, g', env'⟩ := x
  cases result with
  | none => cases h
  | some sweep =>
    obtain ⟨progressed, rfl, hdemand, rfl⟩ := afterSweep_demand (Option.some.inj h) hgoesOn
    refine ⟨fun hnone => ?_, fun hagain => ?_⟩
    · obtain ⟨hgraph, hpending⟩ := hnil hnone (congrArg After.result hsweep)
      have hnobody : g₁.nextRound.hasDemand = false := hasDemand_eq_false hpending
      rw [← hgraph, hsweep] at hnobody
      cases hnobody.symm.trans hdemand
    · cases progressed with
      | false => exact (hidle rfl).2
      | true => cases hagain

end Idle
end Graph

/-! ## Ports at which sinks wait -/

/-- The input ports of the sinks. -/
def Topology.inlets (T : Topology κ) : List (ComponentId × Nat) :=
  T.sinks.flatMap fun id => ((T.components[id]?.map (·.sockets)).getD []).zipIdx.filterMap
    fun (s, index) => if s.direction = .input then some (id, index) else none

theorem Topology.mem_inlets {T : Topology κ} {id index : Nat} :
    (id, index) ∈ T.inlets ↔
      id ∈ T.sinks ∧ ∃ s, T.socket? id index = some s ∧ s.direction = .input := by
  simp only [inlets, List.mem_flatMap, List.mem_filterMap, Prod.exists, socket?,
    List.mem_zipIdx_iff_getElem?]
  constructor
  · rintro ⟨i, hi, s, j, hs, heq⟩
    split at heq
    · rename_i hd
      obtain ⟨rfl, rfl⟩ := Prod.mk.inj (Option.some.inj heq)
      refine ⟨hi, s, ?_, hd⟩
      cases ho : T.components[i]? with
      | none => simp [ho] at hs
      | some o => simpa [ho] using hs
    · cases heq
  · rintro ⟨hid, s, hs, hd⟩
    obtain ⟨o, ho, hj⟩ := Option.bind_eq_some_iff.mp hs
    exact ⟨id, hid, s, index, by simpa [ho] using hj, by rw [if_pos hd]⟩

namespace Graph

variable {g g' : Graph κ ω}

/-- Whether a port is one whose stream has not ended. -/
def isOpen (g : Graph κ ω) (x : ComponentId × Nat) : Bool := (g.portAt? x.1 x.2).any (!·.atEnd)

/-- At how many ports sinks wait. -/
def waiting (g : Graph κ ω) : Nat := g.topology.inlets.countP g.isOpen

theorem waiting_le (g : Graph κ ω) : g.waiting ≤ g.topology.inlets.length := List.countP_le_length

theorem waiting_congr (htopology : g'.topology = g.topology)
    (hports : ∀ i j, g'.portAt? i j = g.portAt? i j) : g'.waiting = g.waiting := by
  rw [waiting, waiting, htopology]
  congr 1
  funext x
  rw [isOpen, isOpen, hports]

theorem isOpen_eq_true {i j : Nat} :
    g.isOpen (i, j) = true ↔ ∃ p, g.portAt? i j = some p ∧ p.atEnd = false := by
  unfold isOpen
  cases g.portAt? i j with
  | none => simp
  | some p => simp

theorem Latches.isOpen {S : Nat → Nat → Prop} (h : g.Latches S g')
    (htopology : g'.topology = g.topology) {x : ComponentId × Nat} (hx : g'.isOpen x = true) :
    g.isOpen x = true := by
  obtain ⟨p', hp', hopen⟩ := isOpen_eq_true.mp hx
  obtain ⟨p, hp, rfl | ⟨rfl, -, -⟩⟩ := h.back htopology hp'
  · exact isOpen_eq_true.mpr ⟨_, hp, hopen⟩
  · cases hopen

theorem Latches.waiting_le {S : Nat → Nat → Prop} (h : g.Latches S g')
    (htopology : g'.topology = g.topology) : g'.waiting ≤ g.waiting := by
  rw [waiting, htopology]
  exact List.countP_mono_left fun x _ hx => h.isOpen htopology hx

/-- A count is smaller of what is rarer, if one that counted before does not. -/
theorem countP_lt {α : Type} {p q : α → Bool} (h : ∀ a, q a = true → p a = true) {l : List α}
    {a : α} (ha : a ∈ l) (hp : p a = true) (hq : q a = false) : l.countP q < l.countP p := by
  induction l with
  | nil => cases ha
  | cons b l ih =>
    have hle : l.countP q ≤ l.countP p := List.countP_mono_left fun a _ => h a
    rcases List.mem_cons.mp ha with rfl | ha
    · rw [List.countP_cons_of_pos hp, List.countP_cons_of_neg (by simp [hq])]
      omega
    · have hrest := ih ha
      by_cases hb : q b = true
      · rw [List.countP_cons_of_pos hb, List.countP_cons_of_pos (h b hb)]
        omega
      · rw [List.countP_cons_of_neg hb, List.countP_cons]
        omega

/-- A sink waits at one port less if the stream there has ended. -/
theorem Latches.waiting_lt {S : Nat → Nat → Prop} (h : g.Latches S g')
    (htopology : g'.topology = g.topology) {id index : Nat} (hsink : id ∈ g.sinks)
    (hawaits : g.Awaits id index) {p' : Port} (hp' : g'.portAt? id index = some p')
    (hended : p'.atEnd = true) : g'.waiting < g.waiting := by
  obtain ⟨p, hp, hd, hopen⟩ := hawaits
  have hmem : (id, index) ∈ g.topology.inlets :=
    Topology.mem_inlets.mpr ⟨hsink, p.socket, g.topology_socket?_eq_some.mpr ⟨p, hp, rfl⟩, hd⟩
  have hclosed : g'.isOpen (id, index) = false := by simp [Graph.isOpen, hp', hended]
  rw [waiting, htopology]
  exact countP_lt (fun x hx => h.isOpen htopology hx) hmem (isOpen_eq_true.mpr ⟨p, hp, hopen⟩) hclosed

theorem waiting_pos (h : g.hasDemand = true) : 0 < g.waiting := by
  obtain ⟨id, hid, hany⟩ := List.any_eq_true.mp h
  cases hc : g.components[id]? with
  | none => simp [hc] at hany
  | some c =>
    obtain ⟨index, hindex⟩ : ∃ index, index ∈ c.pending := by
      refine List.exists_mem_of_ne_nil _ fun hnone => ?_
      simp [hc, hnone] at hany
    obtain ⟨p, hp, hd, hopen⟩ := Component.mem_pending.mp hindex
    have hat : g.portAt? id index = some p := by
      rw [portAt?, hc]
      exact hp
    refine List.countP_pos_iff.mpr ⟨(id, index), ?_, isOpen_eq_true.mpr ⟨p, hat, hopen⟩⟩
    exact Topology.mem_inlets.mpr ⟨hid, p.socket, g.topology_socket?_eq_some.mpr ⟨p, hat, rfl⟩, hd⟩

end Graph

/-! ## Messages on their way -/

/-- Whether an event hands a message to a sink. -/
def Event.isDelivery : Event → Bool
  | .call _ _ (.consumed ..) => true
  | _ => false

theorem Event.isDelivery_eq_false {e : Event} (h : e.isArrival = false) : e.isDelivery = false := by
  unfold isDelivery
  split
  · cases h
  · rfl

/-- How many messages have been handed to the sinks of a graph. -/
def Graph.delivered (g : Graph κ ω) (env : Env ω) : Nat :=
  (env.journal.about g.id).countP Event.isDelivery

theorem Graph.delivered_of_about {g g' : Graph κ ω} {env env' : Env ω}
    (htopology : g'.topology = g.topology) {es : List Event}
    (habout : env'.journal.about g.id = env.journal.about g.id ++ es) :
    g'.delivered env' = g.delivered env + es.countP Event.isDelivery := by
  have hid : g'.id = g.id := congrArg Topology.id htopology
  rw [delivered, delivered, hid, habout, List.countP_append]

/-- Between two moments `count` messages were handed to sinks. Each of them was given by a
source in between, which has one less left. -/
structure Graph.Spends (count : Nat) (g : Graph (Standard ω) ω) (env : Env ω)
    (g' : Graph (Standard ω) ω) (env' : Env ω) : Prop where
  topology : g'.topology = g.topology
  delivered : g'.delivered env' = g.delivered env + count
  messages : g'.stats.messages = g.stats.messages + UInt64.ofNat count
  supply : g'.supply + count ≤ g.supply
  stock : g'.supply + g'.given env' = g.supply + g.given env

namespace Graph.Spends

variable {g g' g'' : Graph (Standard ω) ω} {env env' env'' : Env ω} {count count' : Nat}

theorem none (htopology : g'.topology = g.topology) (hbehaviors : g'.behaviors = g.behaviors)
    (hmessages : g'.stats.messages = g.stats.messages) {es : List Event}
    (habout : env'.journal.about g.id = env.journal.about g.id ++ es)
    (hnone : es.countP Event.isDelivery = 0) (hnone' : es.countP g.topology.supplies = 0) :
    g.Spends 0 env g' env' where
  topology := htopology
  delivered := by rw [delivered_of_about htopology habout, hnone]
  messages := hmessages.trans (UInt64.add_zero _).symm
  supply := by rw [Graph.supply, Graph.supply, hbehaviors]; exact Nat.le_refl _
  stock := by rw [given_of_about htopology habout, hnone', Graph.supply, Graph.supply, hbehaviors]; rfl

/-- Nothing was said about the graph and nothing about it that matters has changed. -/
theorem quiet (htopology : g'.topology = g.topology) (hbehaviors : g'.behaviors = g.behaviors)
    (hmessages : g'.stats.messages = g.stats.messages)
    (habout : env'.journal.about g.id = env.journal.about g.id) : g.Spends 0 env g' env' :=
  none htopology hbehaviors hmessages (habout.trans (List.append_nil _).symm) rfl rfl

theorem trans (h : g.Spends count env g' env') (h' : g'.Spends count' env' g'' env'') :
    g.Spends (count + count') env g'' env'' where
  topology := h'.topology.trans h.topology
  delivered := by
    have hd := h.delivered
    have hd' := h'.delivered
    omega
  messages := by rw [h'.messages, h.messages, UInt64.ofNat_add, UInt64.add_assoc]
  supply := by
    have hs := h.supply
    have hs' := h'.supply
    omega
  stock := h'.stock.trans h.stock

end Graph.Spends

/-! ## Steps of standard components -/

section Standard

variable {g g' : Graph (Standard ω) ω} {env env' : Env ω} {patience : Nat}

/-- Standard sinks take every arrival, stay as they are and cancel nothing. -/
theorem Standard.receive_eq (port : String) (arrival : Option Message) (k : Standard ω) (w : ω) :
    (Graph.receive port arrival k w).value = (.ok (), k) ∧
      (Graph.receive port arrival k w).cancels = [] := by
  cases arrival with
  | none => exact ⟨rfl, rfl⟩
  | some m => cases k <;> exact ⟨rfl, rfl⟩

theorem Graph.deliver_standard {id index : Nat} {c : Component (Standard ω)} {k : Standard ω}
    {p : Port} (hc : g.components[id]? = some c) (hb : c.behavior = some k) (hk : c.kind = .sink)
    (hp : g.portAt? id index = some p) (arrival : Option Message) (env : Env ω) :
    (g.deliver id index arrival env).result = .ok true ∧
      (g.deliver id index arrival env).graph.behaviors = g.behaviors ∧
      (g.deliver id index arrival env).graph.stats = (g.count arrival).stats ∧
      (g.deliver id index arrival env).env.cancelled = env.cancelled ∧
      (g.deliver id index arrival env).env.journal.about g.id =
        env.journal.about g.id ++ [.call g.id id (arrivalCall p.name arrival none)] := by
  obtain ⟨hvalue, hcancels⟩ := Standard.receive_eq p.name arrival k env.shared
  have hperform : (env.perform (receive p.name arrival k)).1 = (.ok (), k) := hvalue
  rw [deliver_eq hc hb hk hp arrival env, hperform]
  refine ⟨rfl, ?_, rfl, congrArg (· ++ env.cancelled) hcancels, ?_⟩
  · rw [count_modify_behaviors]
    exact set_eq_self (behaviors_eq_some.mpr ⟨c, hc, hb⟩)
  · exact Journal.about_record_call env.journal id _

/-- What a step of a graph of standard components comes to. It fails, or it moves something and
leaves less to move. -/
structure Step.Drains (s : Step (Standard ω) ω)
    (x : After (Standard ω) ω (Option (Except Failure Bool))) : Prop where
  spends : ∃ count, count ≤ 1 ∧ s.graph.Spends count s.env x.graph x.env
  cancelled : x.env.cancelled = s.env.cancelled
  rounds : x.graph.stats.rounds = s.graph.stats.rounds
  result : x.result = some (.ok true) ∧
      x.graph.supply + x.graph.waiting < s.graph.supply + s.graph.waiting ∨
    ∃ f, x.result = some (.error f)

/-- The pull of a step comes to its end, and hands nothing to a sink. -/
theorem Step.Due.gives {s : Step (Standard ω) ω} (h : s.Due)
    (hpatience : s.graph.components.length + s.graph.supply ≤ patience) :
    ∃ r t, s.pulled patience = ⟨some r, t⟩ ∧ s.turn.Gives r t ∧
      t.graph.delivered t.env = s.graph.delivered s.env := by
  have hbound : s.graph.supply + s.graph.present ≤ patience := by
    have hpresent := s.graph.present_le
    omega
  obtain ⟨r, t, hpulled, hgives⟩ : ∃ r t, s.pulled patience = ⟨some r, t⟩ ∧ s.turn.Gives r t :=
    pullInput_gives (converse_decides patience) s.sink s.index s.turn hbound
  refine ⟨r, t, hpulled, hgives, ?_⟩
  obtain ⟨htopology, es, habout, -, hes⟩ := h.blames hpulled
  rw [Graph.delivered_of_about htopology habout, List.countP_eq_zero.mpr, Nat.add_zero]
  intro e he
  simp [Event.isDelivery_eq_false (hes e he).1]

theorem Step.Due.drains {s : Step (Standard ω) ω} (h : s.Due) (hsteady : s.graph.Steady)
    (hpatience : s.graph.components.length + s.graph.supply ≤ patience) :
    s.Drains (s.after patience) := by
  obtain ⟨r, t, hpulled, hgives, hdelivered⟩ := h.gives hpatience
  have hstock : t.graph.supply + t.graph.given t.env = s.graph.supply + s.graph.given s.env :=
    hgives.stock
  have hsupply : t.graph.supply ≤ s.graph.supply := hgives.supply
  have hstats : t.graph.stats = s.graph.stats := hgives.draws.stats
  have hcancelled : t.env.cancelled = s.env.cancelled := hgives.draws.cancelled
  have hlatches := h.latches patience
  have htopology := (h.passes patience).leads.topology
  have houtcome := h.outcome hsteady hpulled
  generalize s.after patience = x at houtcome hlatches htopology ⊢
  cases houtcome with
  | @failed f hf =>
    refine ⟨⟨0, Nat.zero_le _, htopology, hdelivered, ?_, hsupply, hstock⟩, hcancelled, ?_, .inr ⟨f, rfl⟩⟩
    · rw [hstats]
      exact (UInt64.add_zero _).symm
    · rw [hstats]
  | idle _ hidle => exact absurd hidle hgives.decisive
  | @delivered pull arrival c k p hf hpull harrives hc hb hk hp =>
    have htopology' : (t.graph.deliver s.sink s.index arrival t.env).graph.topology =
      t.graph.topology := htopology.trans hgives.draws.topology.symm
    obtain ⟨hresult, hbehaviors, hcount, hcancelled', habout⟩ :=
      Graph.deliver_standard hc hb hk hp arrival t.env
    have hports := t.graph.deliver_portAt? s.sink s.index arrival t.env
    generalize t.graph.deliver s.sink s.index arrival t.env = y at *
    obtain ⟨verdict, g', env'⟩ := y
    dsimp only [After.map] at *
    have hsupply' : g'.supply = t.graph.supply := congrArg Standard.supplyOf hbehaviors
    have hdelivered' := Graph.delivered_of_about htopology' habout
    have hgiven' := Graph.given_of_about htopology' habout
    cases pull with
    | message m =>
      obtain rfl : some m = arrival := Option.some.inj harrives
      have hused : t.graph.supply < s.graph.supply := hgives.used m hpull
      have hone : g'.delivered env' = t.graph.delivered t.env + 1 := hdelivered'
      have hsame : g'.given env' = t.graph.given t.env := hgiven'
      have hwaiting := hlatches.waiting_le htopology
      have hspends : s.graph.Spends 1 s.env g' env' := by
        refine ⟨htopology, by omega, ?_, by omega, by omega⟩
        rw [hcount, ← hstats]
        rfl
      have hless : g'.supply + g'.waiting < s.graph.supply + s.graph.waiting := by omega
      refine ⟨⟨1, Nat.le_refl _, hspends⟩, hcancelled'.trans hcancelled, ?_,
        .inl ⟨congrArg some hresult, hless⟩⟩
      rw [hcount, ← hstats]
      rfl
    | again => cases harrives
    | endOfStream =>
      obtain rfl : none = arrival := Option.some.inj harrives
      have hnone : g'.delivered env' = t.graph.delivered t.env := hdelivered'
      have hsame : g'.given env' = t.graph.given t.env := hgiven'
      -- the stream into the port has ended, so the sink waits at one port less
      have hended : (s.pulled patience).result = some (.ok .endOfStream) := by rw [hpulled, hpull]
      obtain ⟨p', hp', hatEnd⟩ := pullInput_ends patience hended
      change (s.pulled patience).turn.graph.portAt? s.sink s.index = some p' at hp'
      rw [hpulled] at hp'
      have hwaiting := hlatches.waiting_lt htopology h.sink h.port ((hports _ _).trans hp') hatEnd
      have hspends : s.graph.Spends 0 s.env g' env' := by
        refine ⟨htopology, by omega, ?_, by omega, by omega⟩
        rw [hcount, ← hstats]
        exact (UInt64.add_zero _).symm
      have hless : g'.supply + g'.waiting < s.graph.supply + s.graph.waiting := by omega
      refine ⟨⟨0, Nat.zero_le _, hspends⟩, hcancelled'.trans hcancelled, ?_,
        .inl ⟨congrArg some hresult, hless⟩⟩
      rw [hcount, ← hstats]
      rfl

/-! ## Rounds of standard components -/

/-- What the steps of a round come to: they all move something, or the last one fails. -/
structure Sweeps.Drains (patience : Nat) (steps : List (Step (Standard ω) ω))
    (g : Graph (Standard ω) ω) (env : Env ω) (sweep : Option Sweep) (g' : Graph (Standard ω) ω)
    (env' : Env ω) : Prop where
  spends : ∃ count, g.Spends count env g' env'
  cancelled : env'.cancelled = env.cancelled
  rounds : g'.stats.rounds = g.stats.rounds
  moving : ∀ s ∈ steps, s.Drains (s.after patience)
  result : (∃ progressed, sweep = some (.completed progressed)) ∧
      g'.supply + g'.waiting + steps.length ≤ g.supply + g.waiting ∨
    ∃ f, sweep = some (.failed f)

theorem Sweeps.drains {steps : List (Step (Standard ω) ω)} {sweep : Option Sweep}
    (h : Sweeps patience steps g env sweep g' env') (hsteady : g.Steady)
    (huncancelled : env.isCancelled g.id = false)
    (hpatience : g.components.length + g.supply ≤ patience) :
    Sweeps.Drains patience steps g env sweep g' env' := by
  induction h with
  | completed progressed g env =>
    exact ⟨⟨0, .quiet rfl rfl rfl rfl⟩, rfl, rfl, by simp,
      .inl ⟨⟨progressed, rfl⟩, Nat.le_refl _⟩⟩
  | cancelled hcancelled => cases huncancelled.symm.trans hcancelled
  | @failed s hdue f hresult =>
    have hdrains := hdue.drains hsteady hpatience
    obtain ⟨count, -, hspends⟩ := hdrains.spends
    exact ⟨⟨count, hspends⟩, hdrains.cancelled, hdrains.rounds, List.forall_mem_singleton.mpr hdrains,
      .inr ⟨f, rfl⟩⟩
  | broken s hdue hresult =>
    rcases (hdue.drains hsteady hpatience).result with ⟨hmoved, -⟩ | ⟨f, hfailed⟩
    · cases hresult.symm.trans hmoved
    · cases hresult.symm.trans hfailed
  | @step s hdue moved hresult steps sweep g' env' hrest ih =>
    have hdrains := hdue.drains hsteady hpatience
    obtain ⟨count, -, hspends⟩ := hdrains.spends
    have hpasses := hdue.passes patience
    have hsupply := hspends.supply
    have hlength := Graph.length_eq_of_topology_eq hspends.topology
    have hid : (s.after patience).graph.id = s.graph.id := hpasses.leads.id_eq
    obtain ⟨⟨count', hspends'⟩, hcancelled, hrounds, hmoving, hlast⟩ := ih
      (hsteady.of_eq hspends.topology (hpasses.restored (by rw [hresult]; rfl)))
      (by rw [Env.isCancelled, hdrains.cancelled, hid]; exact huncancelled) (by omega)
    refine ⟨⟨count + count', hspends.trans hspends'⟩, hcancelled.trans hdrains.cancelled,
      hrounds.trans hdrains.rounds, List.forall_mem_cons.mpr ⟨hdrains, hmoving⟩, ?_⟩
    rcases hlast with ⟨hcompleted, hless⟩ | hfailed
    · rcases hdrains.result with ⟨-, hstep⟩ | ⟨f, hfailed⟩
      · refine .inl ⟨hcompleted, ?_⟩
        rw [List.length_cons]
        omega
      · cases hresult.symm.trans hfailed
    · exact .inr hfailed

/-- Closing a graph hands nothing to anybody. -/
theorem Graph.Sane.close_spends (h : g.Sane env) (hrunning : g.state = .running)
    (state : GraphState) :
    g.Spends 0 env (g.close state env).graph (g.close state env).env := by
  obtain ⟨ends, -, habout, -⟩ := (h.closes_running hrunning state).ends
  have hfarewell : ∀ e ∈ farewells g.id ends, ∃ i fault, e = .call g.id i (.finalized fault) := by
    intro e he
    obtain ⟨x, -, rfl⟩ := List.mem_map.mp he
    exact ⟨x.1.id, x.2, rfl⟩
  have hbehaviors : (g.close state env).graph.behaviors = g.behaviors := by
    refine finalizeList_map (fun c env => ?_) g.name g.components env
    unfold Component.finalize
    split
    · rfl
    · split
      · rfl
      · rename_i k hk
        exact hk.symm
  refine .none (finalizeAll_topology { g with state := state } env) hbehaviors rfl habout ?_ ?_
  · refine List.countP_eq_zero.mpr fun e he => ?_
    obtain ⟨i, fault, rfl⟩ := hfarewell e he
    simp [Event.isDelivery]
  · refine List.countP_eq_zero.mpr fun e he => ?_
    obtain ⟨i, fault, rfl⟩ := hfarewell e he
    simp [Topology.supplies]

/-- A run that finishes, or fails, hands nothing to anybody any more. -/
theorem Graph.Sane.finish_spends (h : g.Sane env) (hrunning : g.state = .running) :
    (g.finish env).result = .ok .finished ∧ (g.finish env).graph.stats = g.stats ∧
      g.Spends 0 env (g.finish env).graph (g.finish env).env := by
  have hfinish : g.finish env = ⟨.ok .finished, (g.close .finished env).graph,
      (g.close .finished env).env.note (.finished g.name g.stats.rounds g.stats.messages)⟩ := by
    simp only [finish, conclude, (close_standard g .finished env).1]
    rfl
  rw [hfinish]
  exact ⟨rfl, rfl, (h.close_spends hrunning .finished).trans
    (.quiet rfl rfl rfl (Env.about_note _ _ _))⟩

theorem Graph.Sane.fail_spends (h : g.Sane env) (hrunning : g.state = .running) (f : Failure) :
    (∃ e, (g.fail f env).result = .error (.execution e)) ∧ (g.fail f env).graph.stats = g.stats ∧
      g.Spends 0 env (g.fail f env).graph (g.fail f env).env := by
  let notice := Notice.failed g.name ((g.components[f.component]?.map (·.name)).getD "") f.cause
  have hnoted : g.Sane (env.note notice) := h.elsewhere (env.about_note notice g.id)
  have hquiet : g.Spends 0 env g (env.note notice) := .quiet rfl rfl rfl (env.about_note notice g.id)
  exact ⟨⟨_, rfl⟩, rfl, hquiet.trans (hnoted.close_spends hrunning .faulted)⟩

/-- A graph that can run, has not been cancelled, and is given patience enough. -/
structure Graph.Draining (patience : Nat) (g : Graph (Standard ω) ω) (env : Env ω) : Prop where
  sane : g.Sane env
  canRun : g.CanRun
  uncancelled : env.isCancelled g.id = false
  patient : g.components.length + g.supply ≤ patience

/-- What a round comes to: the run is over, or something moved and there is less to move. -/
structure Graph.RoundDrains (patience : Nat) (g : Graph (Standard ω) ω) (env : Env ω)
    (x : After (Standard ω) ω (Option (Except RunError Outcome))) : Prop where
  spends : ∃ count, g.Spends count env x.graph x.env
  rounds : x.graph.stats.rounds = g.stats.rounds + 1
  moving : ∀ s ∈ g.steps patience env, s.Drains (s.after patience)
  result : x.result = some (.ok .finished) ∨ (∃ e, x.result = some (.error (.execution e))) ∨
    x.result = some (.ok .progress) ∧ x.graph.Draining patience x.env ∧ 0 < x.graph.waiting ∧
      x.graph.supply + x.graph.waiting < g.supply + g.waiting

namespace Graph

/-- Getting under way spends nothing. -/
theorem Begins.spends {g₁ : Graph (Standard ω) ω} {env₁ : Env ω} (h : g.Begins env g₁ env₁) :
    g.Spends 0 env g₁ env₁ ∧ g₁.stats.rounds = g.stats.rounds ∧ g₁.waiting = g.waiting := by
  have htopology := h.topology_eq
  obtain ⟨hbehaviors, -, -⟩ := h.behaviors_eq
  cases h with
  | running => exact ⟨.quiet rfl rfl rfl rfl, rfl, rfl⟩
  | started hopen hvalid =>
    have hstats : (g.start env).graph.stats = { g.stats with started := true } := by
      simp only [start, hvalid]
    have habout : (g.start env).env.journal.about g.id = env.journal.about g.id := by
      obtain ⟨g₁, notice, hstart, -⟩ := start_spec hvalid env
      rw [hstart]
      exact env.about_note notice g.id
    refine ⟨.quiet htopology hbehaviors ?_ habout, ?_, waiting_congr htopology (start_portAt? hvalid env)⟩
    · rw [hstats]
    · rw [hstats]

namespace Draining

/-- What holds of a graph that can run still holds when it is under way. -/
theorem begins (h : g.Draining patience env) {g₁ : Graph (Standard ω) ω} {env₁ : Env ω}
    (hbegins : g.Begins env g₁ env₁) : g₁.Draining patience env₁ where
  sane := hbegins.sane h.sane
  canRun := .inl hbegins.state_eq
  uncancelled := by
    rw [hbegins.isCancelled_eq, show g₁.id = g.id from congrArg Topology.id hbegins.topology_eq]
    exact h.uncancelled
  patient := by
    have hsupply := hbegins.spends.1.supply
    have hlength := length_eq_of_topology_eq hbegins.topology_eq
    have hpatient := h.patient
    omega

theorem tally (h : g.Draining patience env) (hrunning : g.state = .running) (stats : Stats)
    (notice : Notice) :
    ({ g with stats := stats } : Graph (Standard ω) ω).Draining patience (env.note notice) :=
  ⟨(h.sane.elsewhere (env.about_note notice g.id)).tally stats, .inl hrunning, h.uncancelled,
    h.patient⟩

/-- **A round of standard components** ends the run, or moves something. -/
theorem round (h : g.Draining patience env) :
    g.RoundDrains patience env (g.runOnce patience env) := by
  obtain ⟨g₁, env₁, hbegins⟩ := h.canRun.begins env
  obtain ⟨hstart, hrounds, hwaiting⟩ := hbegins.spends
  have h₁ := h.begins hbegins
  have hsane : g₁.nextRound.Sane env₁ := h₁.sane.tally _
  obtain ⟨sweep, g', env', hsweeps, hround⟩ :=
    runOnce_sweeps h₁.sane.wired hbegins.state_eq patience env₁
  rw [← hbegins.steps_eq] at hsweeps
  rw [← hbegins.runOnce_eq] at hround
  obtain ⟨⟨count, hspends⟩, hcancelled, hrounds', hmoving, hlast⟩ :=
    hsweeps.drains (hsane.steady hbegins.state_eq) h₁.uncancelled h₁.patient
  have hnext : g₁.Spends 0 env₁ g₁.nextRound env₁ := .quiet rfl rfl rfl rfl
  have htotal := (hstart.trans hnext).trans hspends
  have hrunning : g'.state = .running := hsweeps.leads.state.trans hbegins.state_eq
  have hcount : g'.stats.rounds = g.stats.rounds + 1 := hrounds'.trans (congrArg (· + 1) hrounds)
  rcases hlast with ⟨⟨progressed, rfl⟩, hless⟩ | ⟨f, rfl⟩
  · have hsane' : g'.Sane env' := hsane.sweeps hsweeps
    have huncancelled : env'.isCancelled g'.id = false := by
      rw [Env.isCancelled, hcancelled, show g'.id = g₁.id from hsweeps.leads.id_eq]
      exact h₁.uncancelled
    cases hdemand : g'.hasDemand with
    | false =>
      obtain ⟨hresult, hstats, hfinish⟩ := hsane'.finish_spends hrunning
      rw [hround]
      simp only [afterSweep, endRound_finish huncancelled hdemand]
      exact ⟨⟨_, htotal.trans hfinish⟩, (congrArg Stats.rounds hstats).trans hcount, hmoving,
        .inl (congrArg some hresult)⟩
    | true =>
      have houtcome : (g.runOnce patience env).result =
          some (.ok (if progressed then .progress else .again)) := by
        rw [hround]
        simp [afterSweep, endRound, huncancelled, hdemand, After.map]
      obtain ⟨hsteps, hidle⟩ := hbegins.goesOn houtcome (by cases progressed <;> simp)
      obtain ⟨s, hs⟩ := List.exists_mem_of_ne_nil _ hsteps
      -- the round made a step, and every step moved something
      obtain rfl : progressed = true := by
        by_contra hnot
        have hnone := hidle (by simp [hnot]) s hs
        rcases (hmoving s hs).result with ⟨hmoved, -⟩ | ⟨f, hfailed⟩
        · cases hnone.symm.trans hmoved
        · cases hnone.symm.trans hfailed
      have hlength : 0 < (g.steps patience env).length := List.length_pos_iff.mpr hsteps
      have hkept := length_eq_of_topology_eq htotal.topology
      have hpatient := h.patient
      have hsupply := htotal.supply
      have hsupply₁ := hstart.supply
      have hwaiting₁ : g₁.nextRound.waiting = g.waiting := hwaiting
      have hsupplyNext : g₁.nextRound.supply = g₁.supply := rfl
      have hdraining : g'.Draining patience env' :=
        ⟨hsane', .inl hrunning, huncancelled, by omega⟩
      rw [hround]
      simp only [afterSweep, endRound_progress huncancelled hdemand]
      refine ⟨⟨_, htotal.trans (.quiet rfl rfl rfl (env'.about_note _ g'.id))⟩, hcount, hmoving,
        .inr (.inr ⟨rfl, hdraining.tally hrunning _ _, waiting_pos hdemand, ?_⟩)⟩
      change g'.supply + g'.waiting < g.supply + g.waiting
      omega
  · obtain ⟨⟨e, hresult⟩, hstats, hfail⟩ := (hsane.sweeps hsweeps).fail_spends hrunning f
    rw [hround]
    exact ⟨⟨_, htotal.trans hfail⟩, (congrArg Stats.rounds hstats).trans hcount, hmoving,
      .inr (.inl ⟨e, congrArg some hresult⟩)⟩

/-- **A run of standard components** comes to its end, after at most as many rounds as there is
to move. -/
theorem run (h : g.Draining patience env) {n : Nat} (hn : max 1 (g.supply + g.waiting) ≤ n) :
    (∃ count, g.Spends count env (run patience n g env).graph (run patience n g env).env) ∧
      (rounds patience n g env).length ≤ max 1 (g.supply + g.waiting) ∧
      (Graph.run patience n g env).graph.stats.rounds =
        g.stats.rounds + UInt64.ofNat (rounds patience n g env).length ∧
      ((Graph.run patience n g env).result =
          some (.ok ((Graph.run patience n g env).graph.summary .finished)) ∨
        ∃ e, (Graph.run patience n g env).result = some (.error (.execution e))) ∧
      ∀ x ∈ rounds patience n g env, x.1.Draining patience x.2 := by
  induction n generalizing g env with
  | zero => omega
  | succ n ih =>
    have hround := h.round
    unfold Graph.run rounds
    generalize g.runOnce patience env = y at hround ⊢
    obtain ⟨result, g', env'⟩ := y
    obtain ⟨⟨count, hspends⟩, hcount, -, hresult⟩ := hround
    dsimp only at hspends hcount hresult
    rcases hresult with rfl | ⟨e, rfl⟩ | ⟨rfl, hdraining, hwaiting, hless⟩
    · exact ⟨⟨count, hspends⟩, Nat.le_max_left _ _, hcount, .inl rfl, List.forall_mem_singleton.mpr h⟩
    · exact ⟨⟨count, hspends⟩, Nat.le_max_left _ _, hcount, .inr ⟨e, rfl⟩,
        List.forall_mem_singleton.mpr h⟩
    · obtain ⟨⟨count', hspends'⟩, hlength, hcount', hends, hall⟩ := ih hdraining (by omega)
      refine ⟨⟨_, hspends.trans hspends'⟩, ?_, ?_, hends, List.forall_mem_cons.mpr ⟨h, hall⟩⟩
      · change (rounds patience n g' env').length + 1 ≤ _
        omega
      · rw [hcount', hcount, List.length_cons, Nat.add_comm _ 1, UInt64.ofNat_add, UInt64.add_assoc]
        rfl

end Draining
end Graph

/-- **Runs of standard components always end.**  A graph that can run and whose run nobody has
cancelled finishes or fails because of a component, and nothing else: no round is idle, so the
run never waits. There are at most as many rounds as messages are left and sinks have input
ports, and the run counts them. In every step and in the whole run, no more messages are handed
to sinks than sources give meanwhile, and those are as many as the sources have fewer left. The
counters of a run that begins anew stay within these bounds. -/
theorem Lifetime.standard_run_ends {added : List ComponentId} (h : Lifetime added g env)
    (hrun : g.CanRun) (huncancelled : env.isCancelled g.id = false) {n : Nat}
    (hpatience : g.components.length + g.supply ≤ patience)
    (hn : max 1 (g.supply + g.topology.inlets.length) ≤ n) :
    ((Graph.run patience n g env).result =
        some (.ok ((Graph.run patience n g env).graph.summary .finished)) ∨
      ∃ e, (Graph.run patience n g env).result = some (.error (.execution e))) ∧
    (Graph.rounds patience n g env).length ≤ max 1 (g.supply + g.topology.inlets.length) ∧
    (Graph.run patience n g env).graph.stats.rounds =
      g.stats.rounds + UInt64.ofNat (Graph.rounds patience n g env).length ∧
    (∃ count, g.Spends count env (Graph.run patience n g env).graph
      (Graph.run patience n g env).env) ∧
    (g.state = .configuring →
      (Graph.run patience n g env).graph.stats.rounds.toNat ≤
        max 1 (g.supply + g.topology.inlets.length) ∧
      (Graph.run patience n g env).graph.stats.messages.toNat ≤ g.supply) ∧
    ∀ x ∈ Graph.rounds patience n g env,
      (∃ r, (x.1.runOnce patience x.2).result = some r ∧ r ≠ .ok .again) ∧
      ∀ s ∈ x.1.steps patience x.2,
        ((s.after patience).result = some (.ok true) ∨
          ∃ f, (s.after patience).result = some (.error f)) ∧
        ∃ count, count ≤ 1 ∧
          s.graph.Spends count s.env (s.after patience).graph (s.after patience).env := by
  have hdraining : g.Draining patience env := ⟨h.sane, hrun, huncancelled, hpatience⟩
  have hwaiting := g.waiting_le
  obtain ⟨⟨count, hspends⟩, hlength, hcount, hends, hall⟩ := hdraining.run (n := n) (by omega)
  refine ⟨hends, by omega, hcount, ⟨count, hspends⟩, fun hopen => ?fresh, fun x hx => ?rounds⟩
  case fresh =>
    have hstats := (h.untouched hopen).stats
    have hsupply := hspends.supply
    rw [hcount, hspends.messages, hstats]
    simp only [UInt64.zero_add]
    exact ⟨Nat.le_trans (Nat.mod_le _ _) (by omega), Nat.le_trans (Nat.mod_le _ _) (by omega)⟩
  case rounds =>
    have hround := (hall x hx).round
    refine ⟨?_, fun s hs => ?_⟩
    · rcases hround.result with hfinished | ⟨e, hfailed⟩ | ⟨hprogress, -⟩
      · exact ⟨_, hfinished, nofun⟩
      · exact ⟨_, hfailed, nofun⟩
      · exact ⟨_, hprogress, nofun⟩
    · have hdrains := hround.moving s hs
      exact ⟨hdrains.result.imp_left And.left, hdrains.spends⟩

end Standard

/-- A source with two output ports, whose messages reach the two input ports of a sink by way of
a filter that forwards and of one that drops every other. -/
def diamond : Graph (Standard (List Message)) (List Message) × Env (List Message) :=
  Graph.build "diamond" .standard []
    [.add { Standard.itemsClass "letters" [.int 1, .int 2, .int 3]
      with ports := [⟨"left", .output⟩, ⟨"right", .output⟩] } "giver" .nil,
    .add Standard.passthroughClass "plain" .nil,
    .add (Standard.transformClass "picky" fun m => .ok (if m = .int 2 then none else some m))
      "picky" .nil,
    .add { Standard.discardClass with ports := [⟨"a", .input⟩, ⟨"b", .input⟩] } "taker" .nil,
    .link "giver" "left" "plain" "in",
    .link "giver" "right" "picky" "in",
    .link "plain" "out" "taker" "a",
    .link "picky" "out" "taker" "b"]

theorem diamond_lifetime : Lifetime [0, 1, 2, 3] diamond.1 diamond.2 := by
  refine .built (rfl : diamond = Graph.build _ _ _ _) ?_
  simp [Request.runs, Request.Fits]

/-- Of three messages one reaches the sink on either side, and one is dropped on the way. -/
theorem diamond_ends :
    Lifetime [0, 1, 2, 3] diamond.1 diamond.2 ∧ diamond.1.CanRun ∧ diamond.1.supply = 3 ∧
      diamond.1.topology.inlets = [(3, 0), (3, 1)] ∧
      (Graph.rounds 7 5 diamond.1 diamond.2).length ≤ 5 ∧
      (Graph.run 7 5 diamond.1 diamond.2).graph.stats.messages.toNat ≤ 3 ∧
      (Graph.run 7 5 diamond.1 diamond.2).result = some (.ok ⟨.finished, 2, 2⟩) := by
  have hrun : diamond.1.CanRun := .inr ⟨rfl, rfl⟩
  obtain ⟨-, hlength, -, -, hfresh, -⟩ := diamond_lifetime.standard_run_ends hrun rfl
    (show diamond.1.components.length + diamond.1.supply ≤ 7 from Nat.le_refl _)
    (show max 1 (diamond.1.supply + diamond.1.topology.inlets.length) ≤ 5 from Nat.le_refl _)
  exact ⟨diamond_lifetime, hrun, rfl, rfl, hlength, (hfresh rfl).2, rfl⟩

end PullGraph
