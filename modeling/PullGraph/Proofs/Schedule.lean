import PullGraph.Proofs.Termination

/-! # The schedule of a round

A round makes one pull step for each input port of a sink whose stream has not ended when the
round begins, sink by sink in the order in which they were added, port by port in the order in
which they were declared. Which ports of a sink those are is looked up only when it is the
sink's turn, and by then the steps for other sinks have ended streams. But pulling reaches
upstream, where there are no sinks, so the ports of a sink are then as they were.

Unless something disturbs a round (`Graph.Undisturbed` says that nothing does) it makes all
these steps, and its outcome says what they came to (`Graph.Sane.undisturbed_round`).
-/
namespace PullGraph

variable {κ ω : Type}

/-! ## Ports at which steps are due -/

/-- The port for which a step is made. -/
def Step.place (s : Step κ ω) : ComponentId × Nat := (s.sink, s.index)

/-- The input ports of a component. -/
def Topology.inletsOf (T : Topology κ) (id : ComponentId) : List (ComponentId × Nat) :=
  ((T.components[id]?.map (·.sockets)).getD []).zipIdx.filterMap
    fun (s, index) => if s.direction = .input then some (id, index) else none

theorem Topology.inlets_eq (T : Topology κ) : T.inlets = T.sinks.flatMap T.inletsOf := rfl

/-- One port comes before another: its component was added before, or its place in the
declaration of their component is before. -/
def PlacedBefore (x y : ComponentId × Nat) : Prop := x.1 < y.1 ∨ x.1 = y.1 ∧ x.2 < y.2

theorem Topology.inletsOf_eq {T : Topology κ} {id : ComponentId} :
    ∀ x ∈ T.inletsOf id, x.1 = id := by
  intro x hx
  obtain ⟨⟨s, index⟩, -, heq⟩ := List.mem_filterMap.mp hx
  dsimp only at heq
  split at heq
  · rw [← Option.some.inj heq]
  · cases heq

theorem Topology.pairwise_inletsOf (T : Topology κ) (id : ComponentId) :
    (T.inletsOf id).Pairwise PlacedBefore := by
  refine List.pairwise_filterMap.mpr ((pairwise_zipIdx _).imp ?_)
  rintro ⟨s, i⟩ ⟨s', i'⟩ hlt x hx x' hx'
  dsimp only at hx hx'
  split at hx
  · split at hx'
    · rw [← Option.some.inj hx, ← Option.some.inj hx']
      exact .inr ⟨rfl, hlt⟩
    · cases hx'
  · cases hx

/-- The input ports of sinks are listed in the order in which the sinks were added and their
ports declared. -/
theorem Topology.Wired.pairwise_inlets {T : Topology κ} (hw : T.Wired) :
    T.inlets.Pairwise PlacedBefore := by
  have hsinks : T.sinks.Pairwise (· < ·) := by
    rw [hw.sinks]
    exact List.pairwise_lt_range.filter _
  rw [T.inlets_eq, List.pairwise_flatMap]
  refine ⟨fun id _ => T.pairwise_inletsOf id, hsinks.imp ?_⟩
  intro id id' hlt x hx y hy
  rw [← T.inletsOf_eq x hx, ← T.inletsOf_eq y hy] at hlt
  exact .inl hlt

namespace Graph

variable {g g' : Graph κ ω}

/-- The input ports of some sinks whose streams have not ended. -/
def awaitedAt (g : Graph κ ω) (ids : List ComponentId) : List (ComponentId × Nat) :=
  ids.flatMap fun id => (g.topology.inletsOf id).filter g.isOpen

/-- The input ports of the sinks whose streams have not ended. -/
def awaited (g : Graph κ ω) : List (ComponentId × Nat) := g.topology.inlets.filter g.isOpen

theorem awaited_eq (g : Graph κ ω) : g.awaited = g.awaitedAt g.sinks := List.filter_flatMap

theorem pairwise_awaited (hw : g.topology.Wired) : g.awaited.Pairwise PlacedBefore :=
  hw.pairwise_inlets.filter _

theorem mem_awaited {id index : Nat} :
    (id, index) ∈ g.awaited ↔ id ∈ g.sinks ∧ g.Awaits id index := by
  rw [awaited, List.mem_filter, Topology.mem_inlets, isOpen_eq_true]
  constructor
  · rintro ⟨⟨hid, s, hs, hd⟩, p, hp, hopen⟩
    obtain ⟨p', hp', rfl⟩ := g.topology_socket?_eq_some.mp hs
    obtain rfl : p = p' := Option.some.inj (hp.symm.trans hp')
    exact ⟨hid, p, hp, hd, hopen⟩
  · rintro ⟨hid, p, hp, hd, hopen⟩
    exact ⟨⟨hid, p.socket, g.topology_socket?_eq_some.mpr ⟨p, hp, rfl⟩, hd⟩, p, hp, hopen⟩

/-- No step is due if no sink waits anywhere. -/
theorem awaited_eq_nil_iff : g.awaited = [] ↔ ∀ id ∈ g.sinks, ∀ index, ¬ g.Awaits id index := by
  rw [List.eq_nil_iff_forall_not_mem]
  constructor
  · exact fun h id hid index hawaits => h (id, index) (mem_awaited.mpr ⟨hid, hawaits⟩)
  · rintro h ⟨id, index⟩ hmem
    obtain ⟨hid, hawaits⟩ := mem_awaited.mp hmem
    exact h id hid index hawaits

theorem awaited_congr (htopology : g'.topology = g.topology)
    (hports : ∀ i j, g'.portAt? i j = g.portAt? i j) : g'.awaited = g.awaited := by
  have hopen : g'.isOpen = g.isOpen := by
    funext x
    rw [isOpen, isOpen, hports]
  rw [awaited, awaited, htopology, hopen]

/-- What a round looks up for a sink. -/
theorem map_pending (g : Graph κ ω) (id : ComponentId) :
    ((g.components[id]?.map (·.pending)).getD []).map (id, ·) =
      (g.topology.inletsOf id).filter g.isOpen := by
  rw [Topology.inletsOf, topology_getElem?]
  cases hc : g.components[id]? with
  | none => rfl
  | some c =>
    simp only [Option.map_some, Option.getD_some, Component.pending, Component.outline,
      List.zipIdx_map, List.filterMap_map, List.map_filterMap, List.filter_filterMap]
    refine List.filterMap_congr ?_
    rintro ⟨p, i⟩ hmem
    have hp : g.portAt? id i = some p := by
      rw [portAt?, hc]
      exact List.mem_zipIdx_iff_getElem?.mp hmem
    have hopen : g.isOpen (id, i) = !p.atEnd := by simp [isOpen, hp]
    by_cases hd : p.direction = .input
    · cases hend : p.atEnd <;> simp [hd, hend, hopen, Port.socket, Option.filter]
    · simp [hd, Port.socket]

theorem hasDemand_eq_false_iff : g.hasDemand = false ↔ g.awaited = [] := by
  rw [awaited_eq, awaitedAt, List.flatMap_eq_nil_iff, hasDemand, List.any_eq_false]
  refine forall₂_congr fun id _ => ?_
  rw [← g.map_pending id, List.map_eq_nil_iff]
  cases g.components[id]? with
  | none => simp
  | some c => simp

theorem Begins.awaited_eq {g₁ : Graph κ ω} {env env₁ : Env ω} (h : g.Begins env g₁ env₁) :
    g₁.awaited = g.awaited := by
  refine awaited_congr h.topology_eq fun i j => ?_
  cases h with
  | running => rfl
  | started _ hvalid => exact start_portAt? hvalid env i j

end Graph

section Steps

variable [Behavior κ ω] {patience : Nat}

/-! ## Steps leave other ports of sinks alone -/

theorem Step.Due.isOpen_eq {s : Step κ ω} (h : s.Due) (hw : s.graph.topology.Wired)
    {x : ComponentId × Nat} (hsink : x.1 ∈ s.graph.sinks) (hne : s.place ≠ x) (patience : Nat) :
    (s.after patience).graph.isOpen x = s.graph.isOpen x := by
  have htopology := (h.passes patience).leads.topology
  unfold Graph.isOpen
  cases hp : s.graph.portAt? x.1 x.2 with
  | none =>
    cases hp' : (s.after patience).graph.portAt? x.1 x.2 with
    | none => rfl
    | some p' =>
      obtain ⟨p, hsome, -⟩ := Graph.portAt?_of_topology_eq htopology.symm hp'
      exact absurd (hp.symm.trans hsome) (by simp)
  | some p =>
    rw [(h.latches patience).portAt?_eq hp]
    rintro (hkind | ⟨hid, hindex⟩)
    · exact hkind hw (hw.mem_sinks.mp hsink)
    · exact hne (Prod.ext hid.symm hindex.symm)

theorem Sweeps.isOpen_eq {steps : List (Step κ ω)} {g g' : Graph κ ω} {env env' : Env ω}
    {sweep : Option Sweep} (h : Sweeps patience steps g env sweep g' env')
    (hw : g.topology.Wired) {x : ComponentId × Nat} (hsink : x.1 ∈ g.sinks)
    (hother : ∀ s ∈ steps, s.place ≠ x) : g'.isOpen x = g.isOpen x := by
  induction h with
  | completed => rfl
  | cancelled => rfl
  | failed s hdue => exact hdue.isOpen_eq hw hsink (hother s (List.mem_singleton_self s)) patience
  | broken s hdue => exact hdue.isOpen_eq hw hsink (hother s (List.mem_singleton_self s)) patience
  | step s hdue _ _ ih =>
    obtain ⟨hfirst, hrest⟩ := List.forall_mem_cons.mp hother
    have hleads := (hdue.passes patience).leads
    exact (ih (hleads.topology ▸ hw) (hleads.sinks_eq ▸ hsink) hrest).trans
      (hdue.isOpen_eq hw hsink hfirst patience)

/-! ## Which steps a round makes -/

/-- Whether a step brings its sink anything. -/
def Step.moved (s : Step κ ω) (patience : Nat) : Bool :=
  match (s.after patience).result with
  | some (.ok moved) => moved
  | _ => false

/-- What the steps for some ports are, and whether anything moved in them. -/
structure Keeps (patience : Nat) (places : List (ComponentId × Nat)) (progressed : Bool)
    (steps : List (Step κ ω)) (result : Option Sweep) : Prop where
  inOrder : steps.map Step.place <+: places
  all : ∀ progressed', result = some (.completed progressed') →
    steps.map Step.place = places ∧ progressed' = (progressed || steps.any (·.moved patience))

namespace Graph

theorem sweepPorts_keeps (patience : Nat) (id : ComponentId) (indices : List Nat)
    (progressed : Bool) (g : Graph κ ω) (env : Env ω) :
    Keeps patience (indices.map (id, ·)) progressed (portSteps patience id indices g env)
      (sweepPorts patience id indices progressed g env).result := by
  induction indices generalizing progressed g env with
  | nil =>
    refine ⟨List.prefix_refl _, fun progressed' h => ⟨rfl, ?_⟩⟩
    rw [← Sweep.completed.inj (Option.some.inj h)]
    exact (Bool.or_false progressed).symm
  | cons index indices ih =>
    unfold sweepPorts portSteps
    by_cases hcancelled : env.isCancelled g.id = true
    · rw [if_pos hcancelled, if_pos hcancelled]
      exact ⟨List.nil_prefix, fun _ h => by cases h⟩
    · rw [if_neg hcancelled, if_neg hcancelled]
      have hmoved : (⟨g, env, id, index⟩ : Step κ ω).moved patience =
        match (g.sinkStep patience id index env).result with
        | some (.ok moved) => moved
        | _ => false := rfl
      generalize g.sinkStep patience id index env = x at hmoved ⊢
      obtain ⟨result, g', env'⟩ := x
      rcases result with _ | f | moved
      · exact ⟨List.prefix_append [_] _, fun _ h => by cases h⟩
      · exact ⟨List.prefix_append [_] _, fun _ h => by cases h⟩
      · obtain ⟨hinOrder, hall⟩ := ih (progressed || moved) g' env'
        refine ⟨List.prefix_cons_inj _ |>.mpr hinOrder, fun progressed' h => ?_⟩
        obtain ⟨hplaces, rfl⟩ := hall progressed' h
        refine ⟨congrArg ((id, index) :: ·) hplaces, ?_⟩
        rw [List.any_cons, hmoved, Bool.or_assoc]

/-- The steps for some sinks. When it is a sink's turn, its ports are as they were before the
steps for the others. -/
theorem sweepSinks_keeps (patience : Nat) {ids : List ComponentId} (hnodup : ids.Nodup)
    (progressed : Bool) {g : Graph κ ω} (env : Env ω) (hw : g.topology.Wired)
    (hrunning : g.state = .running) (hsinks : ∀ id ∈ ids, id ∈ g.sinks) :
    Keeps patience (g.awaitedAt ids) progressed (sinkSteps patience ids progressed g env)
      (sweepSinks patience ids progressed g env).result := by
  induction ids generalizing progressed g env with
  | nil =>
    refine ⟨List.prefix_refl _, fun progressed' h => ⟨rfl, ?_⟩⟩
    rw [← Sweep.completed.inj (Option.some.inj h)]
    exact (Bool.or_false progressed).symm
  | cons id ids ih =>
    obtain ⟨hfresh, hnodup⟩ := List.nodup_cons.mp hnodup
    obtain ⟨hsink, hrest⟩ := List.forall_mem_cons.mp hsinks
    have hkeeps := sweepPorts_keeps patience id ((g.components[id]?.map (·.pending)).getD [])
      progressed g env
    have hports := sweepPorts_sweeps patience (g.nodup_pending id) progressed env hw hrunning hsink
      fun index hindex => awaits_of_mem_pending hindex
    rw [g.map_pending] at hkeeps
    rw [show g.awaitedAt (id :: ids) =
      (g.topology.inletsOf id).filter g.isOpen ++ g.awaitedAt ids from List.flatMap_cons]
    simp only [sweepSinks, sinkSteps]
    generalize portSteps patience id _ g env = first at hkeeps hports ⊢
    generalize sweepPorts patience id _ progressed g env = x at hkeeps hports ⊢
    obtain ⟨result, g', env'⟩ := x
    obtain ⟨hinOrder, hall⟩ := hkeeps
    have hstopped : first.map Step.place <+:
        (g.topology.inletsOf id).filter g.isOpen ++ g.awaitedAt ids :=
      hinOrder.trans (List.prefix_append _ _)
    rcases result with _ | progressed₁ | _ | failure
    · rw [List.append_nil]
      exact ⟨hstopped, fun _ h => by cases h⟩
    · have hleads := hports.leads
      obtain ⟨hfirst, rfl⟩ := hall progressed₁ rfl
      have hsame : g'.awaitedAt ids = g.awaitedAt ids := by
        refine List.flatMap_congr fun id' hid' => ?_
        rw [hleads.topology]
        refine List.filter_congr fun x hx => hports.isOpen_eq hw ?_ fun s hs heq => ?_
        · rw [Topology.inletsOf_eq x hx]
          exact hrest id' hid'
        · -- the steps so far were for another sink
          have hplace : s.place ∈ first.map Step.place := List.mem_map_of_mem hs
          rw [hfirst] at hplace
          have hid := Topology.inletsOf_eq _ (List.mem_filter.mp hplace).1
          rw [heq, Topology.inletsOf_eq x hx] at hid
          exact hfresh (hid ▸ hid')
      have hkeeps := ih hnodup (progressed || first.any (·.moved patience)) env'
        (hleads.topology ▸ hw) (hleads.state.trans hrunning)
        fun id' hid' => hleads.sinks_eq ▸ hrest id' hid'
      rw [hsame] at hkeeps
      rw [← hfirst]
      refine ⟨?_, fun progressed' h => ?_⟩
      · rw [List.map_append]
        exact (List.prefix_append_right_inj _).mpr hkeeps.inOrder
      · obtain ⟨hplaces, rfl⟩ := hkeeps.all progressed' h
        rw [List.map_append, hplaces, List.any_append, Bool.or_assoc]
        exact ⟨rfl, rfl⟩
    · rw [List.append_nil]
      exact ⟨hstopped, fun _ h => by cases h⟩
    · rw [List.append_nil]
      exact ⟨hstopped, fun _ h => by cases h⟩

/-- The steps of a round are those for the ports whose streams have not ended when it begins,
up to where it breaks off. -/
theorem Begins.keeps {g g₁ : Graph κ ω} {env env₁ : Env ω} (h : g.Begins env g₁ env₁)
    (hw : g.topology.Wired) (patience : Nat) :
    Keeps patience g.awaited false (g.steps patience env)
      (sweepSinks patience g₁.sinks false g₁.nextRound env₁).result := by
  have hw₁ : g₁.topology.Wired := h.topology_eq ▸ hw
  have hnodup : g₁.sinks.Nodup := by
    have hsinks : g₁.sinks = _ := hw₁.sinks
    rw [hsinks]
    exact List.nodup_range.filter _
  have hkeeps := sweepSinks_keeps patience hnodup false (g := g₁.nextRound) env₁ hw₁ h.state_eq
    fun _ hid => hid
  rw [show g₁.nextRound.awaitedAt g₁.sinks = g₁.awaited from g₁.nextRound.awaited_eq.symm,
    h.awaited_eq] at hkeeps
  simpa only [steps, h.ensureRunning_eq] using hkeeps

end Graph

/-! ## What steps bring -/

/-- A step hands something to its sink, which takes it: a message, or the end of a stream. -/
def Step.Delivers (s : Step κ ω) (patience : Nat) : Prop :=
  ∃ port arrival,
    .call s.graph.id s.sink (Graph.arrivalCall port arrival none) ∈ s.events patience

theorem Step.Due.moved_iff {s : Step κ ω} (h : s.Due) (hsteady : s.graph.Steady) {moved : Bool}
    (hmoved : (s.after patience).result = some (.ok moved)) :
    moved = true ↔ s.Delivers patience := by
  obtain ⟨r, t, hpulled⟩ := s.pulled_of_returned (congrArg Option.isSome hmoved)
  obtain ⟨es, -, hes, hreport⟩ := h.report hsteady hpulled
  rcases hreport with ⟨f, -, -, hresult⟩ | ⟨-, hevents, hresult⟩ |
    ⟨-, port, arrival, verdict, hevents, hresult⟩
  · cases hmoved.symm.trans hresult
  · obtain rfl : moved = false := Except.ok.inj (Option.some.inj (hmoved.symm.trans hresult))
    refine iff_of_false nofun ?_
    rintro ⟨port, arrival, hmem⟩
    rw [hevents] at hmem
    have hnone := (hes _ hmem).1
    cases arrival <;> cases hnone
  · have hverdict := Option.some.inj (hmoved.symm.trans hresult)
    cases verdict with
    | error cause => cases hverdict
    | ok u =>
      refine iff_of_true (Except.ok.inj hverdict) ⟨port, arrival, ?_⟩
      rw [hevents]
      exact List.mem_append_right es (List.mem_singleton_self _)

namespace Sweeps

variable {steps : List (Step κ ω)} {g g' : Graph κ ω} {env env' : Env ω}

/-- If all steps are made, all of them go well. -/
theorem goes_well {progressed : Bool}
    (h : Sweeps patience steps g env (some (.completed progressed)) g' env') :
    ∀ s ∈ steps, ∃ moved, (s.after patience).result = some (.ok moved) := by
  generalize hsweep : some (Sweep.completed progressed) = sweep at h
  induction h with
  | completed => exact fun s hs => nomatch hs
  | cancelled => cases hsweep
  | failed => cases hsweep
  | broken => cases hsweep
  | step s _ hresult _ ih => exact List.forall_mem_cons.mpr ⟨⟨_, hresult⟩, ih hsweep⟩

/-- Steps are cut short only if the run is cancelled. -/
theorem isCancelled (h : Sweeps patience steps g env (some .cancelled) g' env') :
    env'.isCancelled g'.id = true := by
  generalize hsweep : some Sweep.cancelled = sweep at h
  induction h with
  | completed => cases hsweep
  | cancelled hcancelled => exact hcancelled
  | failed => cases hsweep
  | broken => cases hsweep
  | step _ _ _ _ ih => exact ih hsweep

end Sweeps

theorem Step.Due.about_after {s : Step κ ω} (h : s.Due) (patience : Nat) :
    (s.after patience).env.journal.about s.graph.id =
      s.env.journal.about s.graph.id ++ s.events patience := by
  obtain ⟨es, habout, -⟩ := (h.passes patience).leads.journal
  rw [s.events_eq habout]
  exact habout

/-- What steps write down, one after the other. -/
theorem Sweeps.about_eq {steps : List (Step κ ω)} {g g' : Graph κ ω} {env env' : Env ω}
    {sweep : Option Sweep} (h : Sweeps patience steps g env sweep g' env') :
    env'.journal.about g.id = env.journal.about g.id ++ steps.flatMap (·.events patience) := by
  induction h with
  | completed => exact (List.append_nil _).symm
  | cancelled => exact (List.append_nil _).symm
  | failed s hdue => simpa using hdue.about_after patience
  | broken s hdue => simpa using hdue.about_after patience
  | step s hdue _ _ ih =>
    have hid := (hdue.passes patience).leads.id_eq
    rw [hid, hdue.about_after patience, List.append_assoc] at ih
    exact ih

/-! ## Rounds that nothing disturbs -/

/-- The fault of a call that failed. -/
def Event.fault? : Event → Option Fault
  | .call _ _ (.setUp fault) => fault
  | .call _ _ (.answered _ answer) => Component.faultOf answer
  | .call _ _ (.consumed _ _ fault) => fault
  | .call _ _ (.ended _ fault) => fault
  | .call _ _ (.finalized fault) => fault
  | _ => none

/-- A step that fails does so because of a call that failed. -/
theorem Step.Due.exists_fault {s : Step κ ω} (h : s.Due) (hsteady : s.graph.Steady) {f : Failure}
    (hf : (s.after patience).result = some (.error f)) :
    ∃ e ∈ s.events patience, e.fault? = some f.cause := by
  obtain ⟨hfirst, hlast, -⟩ := h.attributes hsteady (congrArg Option.isSome hf)
  cases hfailure : s.firstFailure? patience with
  | some f' =>
    obtain rfl : f' = f :=
      Except.error.inj (Option.some.inj ((hfirst f' hfailure).1.symm.trans hf))
    obtain ⟨e, he, heq⟩ := List.exists_of_findSome?_eq_some hfailure
    refine ⟨e, he, ?_⟩
    unfold Event.failure? at heq
    split at heq
    · rw [← Option.some.inj heq]
      rfl
    · cases heq
  | none =>
    obtain ⟨-, port, arrival, hmem⟩ := hlast hfailure f hf
    refine ⟨_, hmem, ?_⟩
    cases arrival <;> rfl

namespace Graph

variable {g g' : Graph κ ω} {env env' : Env ω}

/-- What a round writes down. -/
def roundEvents (g : Graph κ ω) (patience : Nat) (env : Env ω) : List Event :=
  ((g.runOnce patience env).env.journal.about g.id).drop (env.journal.about g.id).length

/-- A round comes to its end, no call of a component fails in it, and by its end the run has not
been cancelled. -/
structure Undisturbed (g : Graph κ ω) (patience : Nat) (env : Env ω) : Prop where
  returned : (g.runOnce patience env).result.isSome = true
  sound : ∀ e ∈ g.roundEvents patience env, e.fault? = none
  uncancelled : (g.runOnce patience env).env.isCancelled g.id = false

omit [Behavior κ ω] in
theorem Begins.about_eq {g₁ : Graph κ ω} {env₁ : Env ω} (h : g.Begins env g₁ env₁) :
    env₁.journal.about g.id = env.journal.about g.id := by
  cases h with
  | running => rfl
  | started _ hvalid =>
    obtain ⟨g₁, notice, hstart, -⟩ := start_spec hvalid env
    rw [hstart]
    exact env.about_note notice g.id

/-! ### Cancellations last until the components are finalized -/

theorem finalizeList_isCancelled {graph : GraphId} (h : env.isCancelled graph = true)
    (name : String) (cs : List (Component κ)) :
    (finalizeList name cs env).2.2.isCancelled graph = true := by
  have hfinalize : ∀ (c : Component κ) (env : Env ω), env.isCancelled graph = true →
      (c.finalize env).2.2.isCancelled graph = true := by
    intro c env henv
    unfold Component.finalize
    split
    · exact henv
    · split
      · exact henv
      · exact Env.isCancelled_perform henv _
  induction cs with
  | nil => exact h
  | cons c cs ih =>
    have hc := hfinalize c _ ih
    unfold finalizeList
    dsimp only
    split <;> exact hc

theorem conclude_isCancelled {graph : GraphId} (h : env.isCancelled graph = true)
    (g : Graph κ ω) (state : GraphState) (outcome : Outcome) (notice : Notice) :
    (g.conclude state outcome notice env).env.isCancelled graph = true := by
  have hclose : (g.close state env).env.isCancelled graph = true :=
    finalizeList_isCancelled h g.name g.components
  simp only [conclude]
  split <;> exact hclose

/-! ### What a round comes to -/

theorem Sane.close_about (h : g.Sane env) (hrunning : g.state = .running) (state : GraphState) :
    ∃ es, (g.close state env).env.journal.about g.id = env.journal.about g.id ++ es := by
  obtain ⟨ends, -, habout, -⟩ := (h.closes_running hrunning state).ends
  exact ⟨_, habout⟩

/-- What follows the steps of a round only adds to what is written down. -/
theorem Sane.afterSweep_about (h : g.Sane env) (hrunning : g.state = .running) (sweep : Sweep) :
    ∃ es, (g.afterSweep sweep env).env.journal.about g.id = env.journal.about g.id ++ es := by
  have hconclude : ∀ state outcome notice, ∃ es,
      (g.conclude state outcome notice env).env.journal.about g.id =
        env.journal.about g.id ++ es := by
    intro state outcome notice
    obtain ⟨es, habout⟩ := h.close_about hrunning state
    refine ⟨es, ?_⟩
    rw [← habout]
    simp only [conclude]
    split <;> exact Env.about_note _ _ _
  have hswept := g.afterSweep_sweptTo sweep env
  generalize g.afterSweep sweep env = x at hswept ⊢
  cases hswept with
  | cancelled | finished => exact hconclude _ _ _
  | failed f =>
    have hnote := fun notice : Notice => env.about_note notice g.id
    obtain ⟨es, habout⟩ := (h.elsewhere (hnote _)).close_about hrunning .faulted
    rw [hnote] at habout
    exact ⟨es, habout⟩
  | goesOn => exact ⟨[], (Env.about_note _ _ _).trans (List.append_nil _).symm⟩

/-- Components that are all finalized without a fault leave no failures to report. -/
theorem Closes.failures_eq_nil {failures : List FinalizeFailure} (h : g.Closes env failures g' env')
    (hsound : ∀ es, env'.journal.about g.id = env.journal.about g.id ++ es →
      ∀ e ∈ es, e.fault? = none) : failures = [] := by
  obtain ⟨ends, -, habout, rfl⟩ := h.ends
  refine List.filterMap_eq_nil_iff.mpr fun x hx => ?_
  have hnone : x.2 = none :=
    hsound _ habout (.call g.id x.1.id (.finalized x.2)) (List.mem_map_of_mem hx)
  rw [hnone]
  rfl

end Graph

/-- What the outcome of a round says: that all streams have ended, or else whether something
was delivered. -/
structure Outcome.Tells (outcome : Outcome) (ended delivered : Prop) : Prop where
  finished : outcome = .finished ↔ ended
  progress : outcome = .progress ↔ ¬ ended ∧ delivered
  again : outcome = .again ↔ ¬ ended ∧ ¬ delivered

namespace Graph

variable {g g' : Graph κ ω} {env env' : Env ω}

/-- A round that made all its steps ends as they call for, if nothing goes wrong then. -/
theorem Sane.endRound_tells (h : g.Sane env) (hrunning : g.state = .running) {progressed : Bool}
    (huncancelled : env.isCancelled g.id = false)
    (hsound : ∀ es, (g.endRound progressed env).env.journal.about g.id =
      env.journal.about g.id ++ es → ∀ e ∈ es, e.fault? = none) :
    ∃ outcome, (g.endRound progressed env).result = .ok outcome ∧
      outcome.Tells ((g.endRound progressed env).graph.awaited = []) (progressed = true) := by
  cases hdemand : g.hasDemand with
  | false =>
    rw [endRound_finish huncancelled hdemand] at hsound ⊢
    have hcloses := h.closes_running hrunning .finished
    have hnone : (g.close .finished env).result = [] := by
      refine hcloses.failures_eq_nil fun es hes => hsound es ?_
      rw [← hes]
      unfold finish conclude
      dsimp only
      split <;> exact Env.about_note _ _ _
    have hfinish : g.finish env = ⟨.ok .finished, (g.close .finished env).graph,
        (g.close .finished env).env.note (.finished g.name g.stats.rounds g.stats.messages)⟩ := by
      simp only [finish, conclude, hnone]
      rfl
    have hawaited : (g.close .finished env).graph.awaited = g.awaited :=
      awaited_congr (finalizeAll_topology _ env) (finalizeAll_portAt? _ env)
    have hover : (g.close .finished env).graph.awaited = [] :=
      hawaited.trans (hasDemand_eq_false_iff.mp hdemand)
    rw [hfinish]
    exact ⟨.finished, rfl, by simp [hover], by simp [hover], by simp [hover]⟩
  | true =>
    have hopen : g.awaited ≠ [] := by
      rw [Ne, ← hasDemand_eq_false_iff, hdemand]
      decide
    have hend : (g.endRound progressed env).result =
          .ok (if progressed then .progress else .again) ∧
        (g.endRound progressed env).graph.awaited = g.awaited := by
      simp only [endRound, huncancelled, hdemand]
      exact ⟨rfl, rfl⟩
    rw [hend.2]
    refine ⟨_, hend.1, ?_⟩
    cases progressed with
    | true => exact ⟨by simp [hopen], by simp [hopen], by simp⟩
    | false => exact ⟨by simp [hopen], by simp, by simp [hopen]⟩

/-- A round is made of steps that follow each other from where it begins, and after the last one
it ends. -/
def MadeOf (steps : List (Step κ ω)) (g : Graph κ ω) (patience : Nat) (env : Env ω) : Prop :=
  ∃ g₁ env₁ progressed g' env', g.Begins env g₁ env₁ ∧
    Sweeps patience steps g₁.nextRound env₁ (some (.completed progressed)) g' env' ∧
    g.runOnce patience env = (g'.endRound progressed env').map some

/-- A round that gets under way and comes to its end makes its steps, and then does what they
call for. -/
theorem Begins.sweep_of_returned {g₁ : Graph κ ω} {env₁ : Env ω} (h : g.Begins env g₁ env₁)
    (hw : g.topology.Wired) (hreturned : (g.runOnce patience env).result.isSome = true) :
    ∃ sweep g' env',
      sweepSinks patience g₁.sinks false g₁.nextRound env₁ = ⟨some sweep, g', env'⟩ ∧
      Sweeps patience (g.steps patience env) g₁.nextRound env₁ (some sweep) g' env' ∧
      g.runOnce patience env = (g'.afterSweep sweep env').map some := by
  have hw₁ : g₁.nextRound.topology.Wired := h.topology_eq ▸ hw
  have hsweeps := sweepSinks_sweeps patience false (g := g₁.nextRound) env₁ hw₁ h.state_eq
    fun (id : ComponentId) (hid : id ∈ g₁.sinks) => hid
  have hsteps : sinkSteps patience g₁.sinks false g₁.nextRound env₁ = g.steps patience env := by
    simp only [steps, h.ensureRunning_eq]
  rw [hsteps] at hsweeps
  simp only [runOnce, h.ensureRunning_eq] at hreturned ⊢
  generalize sweepSinks patience g₁.sinks false g₁.nextRound env₁ = x at hsweeps hreturned ⊢
  obtain ⟨result, g', env'⟩ := x
  cases result with
  | none => cases hreturned
  | some sweep => exact ⟨sweep, g', env', rfl, hsweeps, rfl⟩

/-- A round that nothing disturbs makes all its steps, and nothing goes wrong after them. -/
theorem Sane.undisturbed_sweep (h : g.Sane env) (hu : g.Undisturbed patience env) {g₁ : Graph κ ω}
    {env₁ : Env ω} (hbegins : g.Begins env g₁ env₁) : ∃ progressed g' env',
      sweepSinks patience g₁.sinks false g₁.nextRound env₁ =
        ⟨some (.completed progressed), g', env'⟩ ∧
      Sweeps patience (g.steps patience env) g₁.nextRound env₁ (some (.completed progressed))
        g' env' ∧
      g.runOnce patience env = (g'.endRound progressed env').map some ∧
      env'.isCancelled g'.id = false ∧
      ∀ es, (g'.endRound progressed env').env.journal.about g'.id =
        env'.journal.about g'.id ++ es → ∀ e ∈ es, e.fault? = none := by
  obtain ⟨hreturned, hsound, huncancelled⟩ := hu
  have hsane₁ : g₁.nextRound.Sane env₁ := (hbegins.sane h).tally _
  have hid₁ : g₁.nextRound.id = g.id := congrArg Topology.id hbegins.topology_eq
  obtain ⟨sweep, g', env', hsweep, hsweeps, hround⟩ :=
    hbegins.sweep_of_returned h.wired hreturned
  have hleads := hsweeps.leads
  have hrunning : g'.state = .running := hleads.state.trans hbegins.state_eq
  have hid : g'.id = g.id := hleads.id_eq.trans hid₁
  rw [roundEvents, hround] at hsound
  rw [hround] at huncancelled
  change (g'.afterSweep sweep env').env.isCancelled g.id = false at huncancelled
  -- the round writes down what its steps do, and then what follows them
  have habout := hsweeps.about_eq
  rw [hid₁, hbegins.about_eq] at habout
  obtain ⟨es, hes⟩ := (hsane₁.sweeps hsweeps).afterSweep_about hrunning sweep
  have hall := hes
  rw [hid, habout, List.append_assoc] at hall
  change ∀ e ∈ ((g'.afterSweep sweep env').env.journal.about g.id).drop _, _ at hsound
  rw [hall, List.drop_left] at hsound
  obtain ⟨hsoundSteps, hsoundEnd⟩ := List.forall_mem_append.mp hsound
  cases sweep with
  | failed f =>
    obtain ⟨s, hs, hf⟩ := hsweeps.exists_failed rfl
    have hdue := hsweeps.due s hs
    obtain ⟨e, he, hfault⟩ := hdue.exists_fault ((h.mem_steps hs).1.steady hdue.running) hf
    have hnone := hsoundSteps e (List.mem_flatMap_of_mem hs he)
    rw [hnone] at hfault
    cases hfault
  | cancelled =>
    have hcancelled := conclude_isCancelled hsweeps.isCancelled g' .cancelled .cancelled
      (.cancelled g'.name g'.stats.rounds)
    rw [hid] at hcancelled
    cases huncancelled.symm.trans hcancelled
  | completed progressed =>
    refine ⟨progressed, g', env', hsweep, hsweeps, hround, ?_, ?_⟩
    · refine Bool.eq_false_iff.mpr fun hcancelled => ?_
      rw [afterSweep_cancelled hcancelled (.inr ⟨progressed, rfl⟩)] at huncancelled
      have hlasts := conclude_isCancelled hcancelled g' .cancelled .cancelled
        (.cancelled g'.name g'.stats.rounds)
      rw [hid] at hlasts
      cases huncancelled.symm.trans hlasts
    · intro es' hes'
      obtain rfl : es' = es := List.append_cancel_left (hes'.symm.trans hes)
      exact hsoundEnd

/-- **A round that nothing disturbs** makes the steps that are due when it begins, and says what
they came to. -/
theorem Sane.undisturbed_round (h : g.Sane env) (hrun : g.CanRun)
    (hu : g.Undisturbed patience env) :
    MadeOf (g.steps patience env) g patience env ∧
      (g.steps patience env).map Step.place = g.awaited ∧
      ∃ outcome, (g.runOnce patience env).result = some (.ok outcome) ∧
        outcome.Tells ((g.runOnce patience env).graph.awaited = [])
          (∃ s ∈ g.steps patience env, s.Delivers patience) := by
  obtain ⟨g₁, env₁, hbegins⟩ := hrun.begins env
  obtain ⟨progressed, g', env', hsweep, hsweeps, hround, huncancelled, hsound⟩ :=
    h.undisturbed_sweep hu hbegins
  have hsane₁ : g₁.nextRound.Sane env₁ := (hbegins.sane h).tally _
  have hrunning : g'.state = .running := hsweeps.leads.state.trans hbegins.state_eq
  obtain ⟨hplaces, hprogressed⟩ :=
    (hbegins.keeps h.wired patience).all progressed (congrArg After.result hsweep)
  have hdelivered : progressed = true ↔ ∃ s ∈ g.steps patience env, s.Delivers patience := by
    rw [hprogressed, Bool.false_or, List.any_eq_true]
    refine exists_congr fun s => and_congr_right fun hs => ?_
    obtain ⟨moved, hmoved⟩ := hsweeps.goes_well s hs
    have hdue := hsweeps.due s hs
    rw [← hdue.moved_iff ((h.mem_steps hs).1.steady hdue.running) hmoved, Step.moved, hmoved]
  obtain ⟨outcome, hresult, htells⟩ :=
    (hsane₁.sweeps hsweeps).endRound_tells hrunning huncancelled hsound
  rw [propext hdelivered] at htells
  refine ⟨⟨g₁, env₁, progressed, g', env', hbegins, hsweeps, hround⟩, hplaces, outcome, ?_⟩
  rw [hround]
  exact ⟨congrArg some hresult, htells⟩

end Graph
end Steps
end PullGraph
