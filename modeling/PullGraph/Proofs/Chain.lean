import PullGraph.Proofs.EndOfStream
import PullGraph.Proofs.Line
import PullGraph.Proofs.Stages

/-! # Chains

A chain is a graph of a source that gives a list of messages, filters one after another and a
sink that keeps what it gets. Whoever built it, and in whatever order, it passes the check,
and it leads from the sink up to the source as a line does. The components are as they were
set up until the graph starts, so the line is in place when it does.
-/
namespace PullGraph

variable {κ ω : Type}

/-! ## Before a graph starts -/

section Untouched

variable [Behavior κ ω] {g : Graph κ ω}

/-- Nothing has been counted, and the components are as they were set up. -/
structure Graph.Untouched (g : Graph κ ω) : Prop where
  stats : g.stats = {}
  setUp : ∀ c ∈ g.components, ∃ settings, ∃ w : ω,
    c.behavior = some (Behavior.setUp settings c.cls.blank w).value.2

namespace Graph.Untouched

theorem add (h : g.Untouched) (cls : ComponentClass κ) (name : String) (settings : Settings)
    (env : Env ω) : (g.add cls name settings env).graph.Untouched := by
  refine ⟨(g.add_builds cls name settings env).stats.trans h.stats, ?_⟩
  unfold Graph.add
  cases g.mayAdd cls name with
  | error e => exact h.setUp
  | ok u =>
    let env₁ := (env.note (.adding g.name cls.name name)).note (.settingUp name)
    obtain ⟨result, k, env₂, hrun⟩ : ∃ result k env₂,
        env₁.perform (Behavior.setUp settings cls.blank) = ((result, k), env₂) := ⟨_, _, _, rfl⟩
    have hk : (Behavior.setUp settings cls.blank env₁.shared).value.2 = k := congrArg (·.1.2) hrun
    simp only [setUp_create g.id g.components.length name cls settings hrun]
    cases result with
    | error cause => exact h.setUp
    | ok v =>
      refine List.forall_mem_append.mpr ⟨h.setUp, List.forall_mem_singleton.mpr ?_⟩
      exact ⟨settings, env₁.shared, congrArg some hk.symm⟩

theorem connect (h : g.Untouched) (a b : PortHandle) (env : Env ω) :
    (g.connect a b env).graph.Untouched := by
  refine ⟨(g.connect_builds a b env).stats.trans h.stats, ?_⟩
  rcases g.connect_cases a b env with ⟨e, env', hconnect, -⟩ | ⟨c, env', -, hconnect, -⟩
  · rw [hconnect]
    exact h.setUp
  · rw [hconnect]
    -- the new connection is seen in ports only
    have hmap : (g.join c).components.map (fun c => (c.behavior, c.cls)) =
        g.components.map fun c => (c.behavior, c.cls) := join_map (fun _ _ _ => rfl) g c
    have hall : ∀ x ∈ g.components.map (fun c => (c.behavior, c.cls)), ∃ settings, ∃ w : ω,
        x.1 = some (Behavior.setUp settings x.2.blank w).value.2 := List.forall_mem_map.mpr h.setUp
    rw [← hmap] at hall
    exact fun c' hc' => hall _ (List.mem_map_of_mem hc')

theorem link (h : g.Untouched) (giver output taker input : String) (env : Env ω) :
    (g.link giver output taker input env).graph.Untouched := by
  rcases g.link_cases giver output taker input env with ⟨e, hlink⟩ | ⟨a, b, -, -, hlink⟩
  · rw [hlink]
    exact h
  · rw [hlink]
    exact h.connect a b env

end Graph.Untouched

omit [Behavior κ ω] in
/-- No request takes a graph back to where it is configured. -/
theorem configuring_of_moves {r : Request κ ω} {valid : Prop} {state : GraphState}
    (h : Relation.ReflTransGen (r.Moves valid) state .configuring) : state = .configuring := by
  rcases h.cases_tail with hrefl | ⟨before, -, hmove⟩
  · exact hrefl.symm
  · cases hmove with
    | endRun _ hends => rcases hends with h | h | h <;> cases h

/-- What is done before a graph starts leaves it untouched. -/
theorem Request.untouched {env : Env ω} (r : Request κ ω) (h : g.Untouched)
    (hopen : (r.perform g env).graph.state = .configuring) : (r.perform g env).graph.Untouched := by
  have hcourse' : ∀ {returned : Bool} {g g' : Graph κ ω} {env env' : Env ω},
      Graph.Course g env returned g' env' → g'.state = .configuring → g.state = .configuring := by
    intro returned g g' env env' hcourse hstate
    have hmoves : Relation.ReflTransGen ((Request.runOnce 0 : Request κ ω).Moves True) g.state
        g'.state := hcourse.moves rfl
    rw [hstate] at hmoves
    exact configuring_of_moves hmoves
  have hran : ∀ {returned : Bool} {g' : Graph κ ω} {env' : Env ω},
      Graph.Ran g env returned g' env' → g'.state = .configuring → g'.Untouched := by
    intro returned g' env' hran hstate
    cases hran with
    | unchanged => exact h
    | resumed hrunning hcourse =>
      exact nomatch hrunning.symm.trans (hcourse' hcourse hstate)
    | started _ hvalid hcourse =>
      exact nomatch (Graph.start_state hvalid env).symm.trans (hcourse' hcourse hstate)
  cases r with
  | add cls name settings => exact h.add cls name settings env
  | connect a b => exact h.connect a b env
  | link giver output taker input => exact h.link giver output taker input env
  | follow policy => exact ⟨h.stats, h.setUp⟩
  | runOnce patience => exact hran (g.runOnce_ran patience env) hopen
  | run patience rounds => exact hran (g.run_ran patience rounds env) hopen
  | cancel => exact h
  | teardown =>
    have hstate := (g.teardown_state env).symm.trans hopen
    split at hstate
    · rename_i hover
      rw [hstate] at hover
      cases hover
    · cases hstate

theorem Lifetime.untouched {added : List ComponentId} {env : Env ω} (h : Lifetime added g env)
    (hopen : g.state = .configuring) : g.Untouched := by
  induction h with
  | create => exact ⟨rfl, fun c hc => nomatch hc⟩
  | elsewhere _ _ ih => exact ih hopen
  | @call added g env _ r _ _ ih =>
    have hmoves := r.moves g env
    rw [hopen] at hmoves
    exact r.untouched (ih (configuring_of_moves hmoves)) hopen

end Untouched

/-! ## Components with one way in -/

namespace Graph

variable {g : Graph (Standard ω) ω} {a b u : ComponentId}

/-- The class of the component at a position. -/
def classAt? (g : Graph (Standard ω) ω) (id : ComponentId) :
    Option (ComponentClass (Standard ω)) :=
  g.components[id]?.map (·.cls)

theorem classAt?_eq_some {cls : ComponentClass (Standard ω)} :
    g.classAt? a = some cls ↔ ∃ c, g.components[a]? = some c ∧ c.cls = cls := by
  simp [classAt?]

theorem kind?_of_class {cls : ComponentClass (Standard ω)} (h : g.classAt? a = some cls) :
    g.topology.kind? a = some cls.kind := by
  obtain ⟨c, hc, rfl⟩ := classAt?_eq_some.mp h
  exact g.topology_kind?_eq_some.mpr ⟨c, hc, rfl⟩

/-- A component has no input port but its first, which is the one that standard components
read. -/
def OneInlet (g : Graph (Standard ω) ω) (b : ComponentId) : Prop :=
  ∀ j p, g.portAt? b j = some p → p.direction = .input → j = 0 ∧ p.name = Standard.inputPort

theorem OneInlet.congr {g' : Graph (Standard ω) ω} (h : g.OneInlet b)
    (htopology : g'.topology = g.topology) : g'.OneInlet b := by
  intro j p hp hd
  obtain ⟨q, hq, hsocket⟩ := portAt?_of_topology_eq htopology.symm hp
  obtain ⟨hj, hname⟩ := h j q hq ((congrArg Socket.direction hsocket).trans hd)
  exact ⟨hj, (congrArg Socket.name hsocket).symm.trans hname⟩

/-- A component with one way in waits there until the stream has ended. -/
theorem OneInlet.pending_eq (h : g.OneInlet b) {c : Component (Standard ω)}
    (hc : g.components[b]? = some c) {p : Port} (hp : g.portAt? b 0 = some p)
    (hd : p.direction = .input) : c.pending = if p.atEnd then [] else [0] := by
  have hmem : ∀ j, j ∈ c.pending ↔ j = 0 ∧ p.atEnd = false := by
    intro j
    rw [Component.mem_pending]
    constructor
    · rintro ⟨q, hq, hqd, hopen⟩
      have hport : g.portAt? b j = some q := by
        rw [portAt?, hc]
        exact hq
      obtain ⟨rfl, -⟩ := h j q hport hqd
      obtain rfl := Option.some.inj (hport.symm.trans hp)
      exact ⟨rfl, hopen⟩
    · rintro ⟨rfl, hopen⟩
      rw [portAt?, hc] at hp
      exact ⟨p, hp, hd, hopen⟩
  cases hend : p.atEnd with
  | true =>
    refine List.eq_nil_iff_forall_not_mem.mpr fun j hj => ?_
    obtain ⟨-, hopen⟩ := (hmem j).mp hj
    rw [hend] at hopen
    cases hopen
  | false =>
    refine List.perm_singleton.mp ((List.perm_ext_iff_of_nodup c.nodup_pending ?_).mpr fun j => ?_)
    · exact List.nodup_singleton 0
    · simp [hmem, hend]

/-- Ports are those that the class declares. -/
theorem oneInlet_of_class (hw : g.topology.Wired) {cls : ComponentClass (Standard ω)}
    (h : g.classAt? b = some cls)
    (hcls : ∀ (j : Nat) p, cls.ports[j]? = some p → p.direction = .input →
      j = 0 ∧ p.name = Standard.inputPort) : g.OneInlet b := by
  intro j p hp hd
  obtain ⟨c, hc, rfl⟩ := classAt?_eq_some.mp h
  have houtline : g.topology.components[b]? = some c.outline := by simp [hc]
  obtain ⟨-, hports⟩ := hw.schemas c.outline (List.mem_of_getElem? houtline)
  rw [portAt?, hc] at hp
  refine hcls j p.socket.spec ?_ hd
  rw [← show c.outline.sockets.map Socket.spec = c.cls.ports from hports]
  simp only [Component.outline, List.getElem?_map]
  rw [show c.ports[j]? = some p from hp]
  rfl

theorem oneInlet_of_stage (hw : g.topology.Wired) {F : Stage} (h : g.classAt? b = some F.cls) :
    g.OneInlet b := by
  refine oneInlet_of_class hw h fun j p hp hd => ?_
  rw [F.cls_ports] at hp
  match j with
  | 0 =>
    obtain rfl := Option.some.inj hp
    exact ⟨rfl, rfl⟩
  | 1 =>
    obtain rfl := Option.some.inj hp
    cases hd
  | _ + 2 => cases hp

theorem oneInlet_of_collect (hw : g.topology.Wired) {name : String} {store : Message → ω → ω}
    (h : g.classAt? b = some (Standard.collectClass name store)) : g.OneInlet b := by
  refine oneInlet_of_class hw h fun j p hp _ => ?_
  match j with
  | 0 =>
    obtain rfl := Option.some.inj hp
    exact ⟨rfl, rfl⟩
  | _ + 1 => cases hp

theorem exists_component_of_feeds (hw : g.topology.Wired) (h : g.topology.Feeds u b) :
    ∃ c, g.components[b]? = some c := by
  obtain ⟨conn, hconn, -, rfl⟩ := h
  have hlt : conn.input.component < g.components.length := by
    simpa using (hw.inputs conn hconn).1.lt
  exact ⟨_, List.getElem?_eq_getElem hlt⟩

/-- Whatever feeds a component with one way in feeds its first port. -/
theorem OneInlet.feeder (h : g.OneInlet b) (hw : g.topology.Wired) {c : Component (Standard ω)}
    (hc : g.components[b]? = some c) (hfeeds : g.topology.Feeds u b) :
    ∃ p, g.portAt? b 0 = some p ∧ p.direction = .input ∧ p.name = Standard.inputPort ∧
      g.feeder c p = .ok u ∧ ∀ p' ∈ inputPorts c, p' = p := by
  obtain ⟨p, hmem, hfeeder⟩ := (exists_feeder_iff hw hc u).mpr hfeeds
  obtain ⟨j, hp, hd⟩ := (mem_inputPorts_iff hc).mp hmem
  obtain ⟨rfl, hname⟩ := h j p hp hd
  refine ⟨p, hp, hd, hname, hfeeder, fun p' hmem' => ?_⟩
  obtain ⟨j', hp', hd'⟩ := (mem_inputPorts_iff hc).mp hmem'
  obtain ⟨rfl, -⟩ := h j' p' hp' hd'
  exact Option.some.inj (hp'.symm.trans hp)

/-- Before any stream has ended, connections are all it takes to be fed. -/
theorem OneInlet.fedBy (h : g.OneInlet b) (hw : g.topology.Wired)
    (hunended : ∀ i j p, g.portAt? i j = some p → p.atEnd = false)
    (hfeeds : g.topology.Feeds u b) : g.FedBy b u := by
  obtain ⟨c, hc⟩ := exists_component_of_feeds hw hfeeds
  obtain ⟨p, hp, hd, hname, hfeeder, -⟩ := h.feeder hw hc hfeeds
  unfold Graph.feeder at hfeeder
  split at hfeeder
  · rename_i conn hconn
    obtain rfl := Except.ok.inj hfeeder
    obtain ⟨number, -, hget⟩ := Option.bind_eq_some_iff.mp hconn
    obtain ⟨⟨-, s, hs, -⟩, -⟩ := hw.outputs conn (List.mem_of_getElem? hget)
    obtain ⟨out, hout, -⟩ := g.topology_socket?_eq_some.mp hs
    exact ⟨p, conn, out, hp, hd, hname, hunended b 0 p hp, hconn, rfl, hout⟩
  · cases hfeeder

/-- All is right upstream of a component: it has its messages from a source. -/
def Sourced (g : Graph (Standard ω) ω) (a : ComponentId) : Prop :=
  g.topology.Sound a ∧ g.topology.Fed a

theorem OneInlet.sourced (h : g.OneInlet b) (hw : g.topology.Wired)
    (hfeeds : g.topology.Feeds u b) (hu : g.Sourced u) : g.Sourced b := by
  obtain ⟨c, hc⟩ := exists_component_of_feeds hw hfeeds
  obtain ⟨p, -, -, -, hfeeder, hall⟩ := h.feeder hw hc hfeeds
  obtain ⟨hsound, s, hs, hpath⟩ := hu
  refine ⟨sound_of_feeders hw hc fun p' hp' => ?_, s, hs, hpath.tail hfeeds⟩
  obtain rfl := hall p' hp'
  exact ⟨u, hfeeder, hsound⟩

theorem sourced_of_source (hw : g.topology.Wired) (h : g.topology.kind? a = some .source) :
    g.Sourced a := by
  refine ⟨.of_feeders (hw.plugged_source h) fun u hu => ?_, a, h, .refl⟩
  exact absurd hu (hw.not_feeds_source h)

/-! ## Chains -/

/-- The graph is a chain: a source of `items`, the filters of `path` in order, and a sink that
keeps messages with `store`. It has no other components. -/
structure Chain (g : Graph (Standard ω) ω) (giver : ComponentId) (items : List Message)
    (path : List (ComponentId × Stage)) (taker : ComponentId) (store : Message → ω → ω) : Prop where
  members : (giver :: (path.map Prod.fst ++ [taker])).Perm (List.range g.components.length)
  links : (giver :: (path.map Prod.fst ++ [taker])).IsChain g.topology.Feeds
  source : ∃ name, g.classAt? giver = some (Standard.itemsClass name items)
  filters : ∀ x ∈ path, g.classAt? x.1 = some x.2.cls
  sink : ∃ name, g.classAt? taker = some (Standard.collectClass name store)

/-- Filters that follow a line and are as they were set up make it longer. -/
theorem Line.extend {giver taker : ComponentId} (hw : g.topology.Wired)
    (hunended : ∀ i j p, g.portAt? i j = some p → p.atEnd = false)
    {path line : List (ComponentId × Stage)}
    (hpath : ∀ x ∈ path, g.classAt? x.1 = some x.2.cls ∧
      g.behaviors[x.1]? = some (some x.2.state))
    (hchain : (lineEnd giver line :: (path.map Prod.fst ++ [taker])).IsChain g.topology.Feeds)
    (hline : g.Line giver line) (hsourced : g.Sourced (lineEnd giver line)) :
    g.Line giver (path.reverse ++ line) ∧ g.Sourced (lineEnd giver (path.reverse ++ line)) ∧
      g.topology.Feeds (lineEnd giver (path.reverse ++ line)) taker := by
  induction path generalizing line with
  | nil => exact ⟨hline, hsourced, (List.isChain_cons_cons.mp hchain).1⟩
  | cons x path ih =>
    obtain ⟨a, F⟩ := x
    obtain ⟨⟨hclass, hstate⟩, hrest⟩ := List.forall_mem_cons.mp hpath
    obtain ⟨hfeeds, hchain⟩ := List.isChain_cons_cons.mp hchain
    -- the filter at the end of the line so far feeds `a`, and `a` has no other way in
    have hinlet := oneInlet_of_stage hw hclass
    have hkind : g.topology.kind? a = some .filter := by
      rw [kind?_of_class hclass, F.cls_kind]
    have hlonger : g.Line giver ((a, F) :: line) :=
      ⟨hkind, hstate, hinlet.fedBy hw hunended hfeeds, hline⟩
    rw [List.reverse_cons, List.append_assoc]
    exact ih hrest hchain hlonger (hinlet.sourced hw hfeeds hsourced)

namespace Chain

variable {giver taker : ComponentId} {items : List Message} {path : List (ComponentId × Stage)}
  {store : Message → ω → ω}

theorem nodup (h : g.Chain giver items path taker store) :
    (giver :: (path.map Prod.fst ++ [taker])).Nodup :=
  h.members.nodup_iff.mpr List.nodup_range

/-- The sink of a chain is its only one. -/
theorem sinks_eq (h : g.Chain giver items path taker store) (hw : g.topology.Wired) :
    g.sinks = [taker] := by
  have hsinks : g.sinks = (List.range g.components.length).filter fun i =>
      g.topology.kind? i = some .sink := by
    have hlength : g.topology.components.length = g.components.length := by simp
    rw [← hlength]
    exact hw.sinks
  have hchain : (giver :: (path.map Prod.fst ++ [taker])).filter
      (fun i => g.topology.kind? i = some .sink) = [taker] := by
    obtain ⟨name, hsource⟩ := h.source
    obtain ⟨name', hsink⟩ := h.sink
    have hfilters : (path.map Prod.fst).filter (fun i => g.topology.kind? i = some .sink) = [] := by
      refine List.filter_eq_nil_iff.mpr (List.forall_mem_map.mpr fun x hx => ?_)
      rw [kind?_of_class (h.filters x hx), Stage.cls_kind]
      decide
    rw [List.filter_cons, List.filter_append, hfilters, kind?_of_class hsource, List.filter_cons,
      kind?_of_class hsink]
    rfl
  refine List.perm_singleton.mp ?_
  rw [hsinks, ← hchain]
  exact (h.members.filter _).symm

/-- The components of a chain are as they were set up until the graph starts. -/
theorem behaviors_eq (h : g.Chain giver items path taker store) (huntouched : g.Untouched) :
    g.behaviors[giver]? = some (some (.items items)) ∧
      (∀ x ∈ path, g.behaviors[x.1]? = some (some x.2.state)) ∧
      g.behaviors[taker]? = some (some (.collect store)) := by
  have hsetUp : ∀ {a : ComponentId} {cls : ComponentClass (Standard ω)}, g.classAt? a = some cls →
      ∃ settings, ∃ w : ω,
        g.behaviors[a]? = some (some (Behavior.setUp settings cls.blank w).value.2) := by
    intro a cls hcls
    obtain ⟨c, hc, rfl⟩ := classAt?_eq_some.mp hcls
    obtain ⟨settings, w, hk⟩ := huntouched.setUp c (List.mem_of_getElem? hc)
    exact ⟨settings, w, behaviors_eq_some.mpr ⟨c, hc, hk⟩⟩
  obtain ⟨name, hsource⟩ := h.source
  obtain ⟨name', hsink⟩ := h.sink
  refine ⟨?source, fun x hx => ?filters, ?sink⟩
  case source =>
    obtain ⟨settings, w, hk⟩ := hsetUp hsource
    exact hk
  case filters =>
    obtain ⟨settings, w, hk⟩ := hsetUp (h.filters x hx)
    rw [hk, Stage.setUp_cls]
  case sink =>
    obtain ⟨settings, w, hk⟩ := hsetUp hsink
    exact hk

/-- A chain leads from its sink up to its source. -/
theorem line (h : g.Chain giver items path taker store) (hw : g.topology.Wired)
    (hunended : ∀ i j p, g.portAt? i j = some p → p.atEnd = false) (huntouched : g.Untouched) :
    g.Line giver path.reverse ∧ g.Sourced (lineEnd giver path.reverse) ∧
      g.topology.Feeds (lineEnd giver path.reverse) taker := by
  obtain ⟨name, hsource⟩ := h.source
  obtain ⟨-, hfilters, -⟩ := h.behaviors_eq huntouched
  have hkind : g.topology.kind? giver = some .source := kind?_of_class hsource
  rw [← List.append_nil path.reverse]
  exact Line.extend hw hunended (fun x hx => ⟨h.filters x hx, hfilters x hx⟩) h.links hkind
    (sourced_of_source hw hkind)

/-- **A chain passes the check.** -/
theorem validate_eq_ok (h : g.Chain giver items path taker store) (hw : g.topology.Wired)
    (hunended : ∀ i j p, g.portAt? i j = some p → p.atEnd = false) (huntouched : g.Untouched) :
    g.validate = .ok () := by
  obtain ⟨name, hsink⟩ := h.sink
  obtain ⟨-, ⟨hsound, hfed⟩, hfeeds⟩ := h.line hw hunended huntouched
  refine (validate_iff hw).mpr (wellFormed_of_supplied hw ?_ fun s hs c hc p hp => ?_)
  · rw [h.sinks_eq hw]
    exact List.cons_ne_nil _ _
  · rw [h.sinks_eq hw] at hs
    obtain rfl := List.mem_singleton.mp hs
    obtain ⟨p', -, -, -, hfeeder, hall⟩ := (oneInlet_of_collect hw hsink).feeder hw hc hfeeds
    obtain rfl := hall p hp
    exact ⟨_, hfeeder, hsound, hfed⟩

end Chain
end Graph
end PullGraph
