import PullGraph.Proofs.Building
import PullGraph.Proofs.Ledger
import PullGraph.Proofs.Validation
import PullGraph.Standard

/-! # The life of a graph

`Request` lists what can be asked of a graph, and `Lifetime` what can have become of one:
it was created, requests were made of it and came to their ends, well or badly, and other
things happened in between. `Graph.Sane` holds throughout. It is kept by each of the few
things that requests are made of, which are looked at one by one.
-/
namespace PullGraph

variable {κ ω : Type}

namespace Graph

/-- What holds of a graph and its journal at any time, also while components are called. -/
structure Lawful (g : Graph κ ω) (env : Env ω) : Prop where
  wired : g.topology.Wired
  /-- A graph that runs passed the check. -/
  formed : g.state = .running → g.topology.WellFormed
  stages : ∀ c ∈ g.components, c.state = g.state.stage
  ledger : Ledger g.components.length g.state.isOver (env.journal.about g.id)

/-- What holds of a graph and its journal between requests. -/
structure Sane (g : Graph κ ω) (env : Env ω) : Prop extends Lawful g env where
  inPlace : g.InPlace

variable {g g' : Graph κ ω} {env env' : Env ω}

theorem length_eq_of_topology_eq (h : g'.topology = g.topology) :
    g'.components.length = g.components.length := by
  have hlen := congrArg (·.components.length) h
  simpa using hlen

theorem stages_of_eq (h : g'.components.map (·.state) = g.components.map (·.state))
    {stage : RunState} (hstages : ∀ c ∈ g.components, c.state = stage) :
    ∀ c ∈ g'.components, c.state = stage := by
  have hall : ∀ s ∈ g.components.map (·.state), s = stage := List.forall_mem_map.mpr hstages
  rw [← h] at hall
  exact List.forall_mem_map.mp hall

/-- Components have their positions for their identities. -/
theorem map_id_eq_range (hw : g.topology.Wired) :
    g.components.map (·.id) = List.range g.components.length := by
  apply List.ext_getElem?
  intro i
  cases hc : g.components[i]? with
  | none =>
    have hlen : g.components.length ≤ i := List.getElem?_eq_none_iff.mp hc
    rw [List.getElem?_map, hc, List.getElem?_eq_none_iff.mpr (by simpa using hlen)]
    rfl
  | some c =>
    obtain ⟨hlt, -⟩ := List.getElem?_eq_some_iff.mp hc
    obtain ⟨hid, -⟩ := hw.positions i c.outline (by rw [topology_getElem?, hc]; rfl)
    rw [List.getElem?_map, hc, List.getElem?_range hlt]
    exact congrArg some hid

/-- Connecting two ports changes ports only. -/
theorem attach_map {α : Type} {f : Component κ → α}
    (h : ∀ (c : Component κ) index (m : Port → Port), f (c.modifyPort index m) = f c)
    (g : Graph κ ω) (p : PortHandle) (k : Nat) :
    (g.attach p k).components.map f = g.components.map f := by
  refine map_modify_of_eq (fun c => ?_) g.components p.component
  exact h c p.index _

theorem join_map {α : Type} {f : Component κ → α}
    (h : ∀ (c : Component κ) index (m : Port → Port), f (c.modifyPort index m) = f c)
    (g : Graph κ ω) (c : Connection) : (g.join c).components.map f = g.components.map f :=
  (attach_map h (g.attach c.output c.id) c.input c.id).trans (attach_map h g c.output c.id)

/-- Closing a graph completes its ledger. -/
theorem Closes.ledger [Behavior κ ω] {failures : List FinalizeFailure} (h : g.Closes env failures g' env')
    (hw : g.topology.Wired)
    (hledger : Ledger g.components.length false (env.journal.about g.id)) :
    Ledger g.components.length true (env'.journal.about g.id) := by
  obtain ⟨ends, hends, habout, -⟩ := h.ends
  have hids : ends.map (·.1.id) = List.range g.components.length := by
    rw [← map_id_eq_range hw, ← hends, List.map_map]
    rfl
  rw [habout]
  exact hledger.close g.id hids

namespace Lawful

/-- What is not about the graph does not matter. -/
theorem elsewhere (h : g.Lawful env) (habout : env'.journal.about g.id = env.journal.about g.id) :
    g.Lawful env' :=
  ⟨h.wired, h.formed, h.stages, habout ▸ h.ledger⟩

/-- A part of a run that meets nothing to refuse keeps the law. -/
theorem of_leads (h : g.Lawful env) (hrunning : g.state = .running) (hleads : g.Leads env g' env')
    (hsafe : env'.journal.refusals g.id = env.journal.refusals g.id) : g'.Lawful env' where
  wired := hleads.topology ▸ h.wired
  formed := fun _ => hleads.topology ▸ h.formed hrunning
  stages := by
    rw [hleads.state]
    exact stages_of_eq hleads.stages h.stages
  ledger := by
    obtain ⟨ws, habout, hwork⟩ := hleads.journal
    have hrefusals : ws.filterMap Event.refusal? = [] := by
      unfold Journal.refusals at hsafe
      rw [habout, List.filterMap_append] at hsafe
      exact List.append_right_eq_self.mp hsafe
    have hledger := h.ledger
    rw [hrunning] at hledger
    rw [length_eq_of_topology_eq hleads.topology, hleads.state, hrunning, hleads.id_eq, habout]
    exact hledger.work hwork hrefusals

end Lawful

namespace Sane

theorem elsewhere (h : g.Sane env) (habout : env'.journal.about g.id = env.journal.about g.id) :
    g.Sane env' :=
  ⟨h.toLawful.elsewhere habout, h.inPlace⟩

theorem steady (h : g.Sane env) (hrunning : g.state = .running) : g.Steady :=
  ⟨h.wired, h.formed hrunning, h.inPlace⟩

/-- A new graph is sane. -/
theorem create (name : String) (config : RunConfig) {env : Env ω}
    (h : env.journal.about env.nextGraph = []) :
    (create name config env : Graph κ ω × Env ω).1.Sane
      (create name config env : Graph κ ω × Env ω).2 where
  wired := .empty _
  formed := (nomatch ·)
  stages _ hc := nomatch hc
  ledger := by
    change Ledger 0 false ((env.note (.creating name config)).journal.about env.nextGraph)
    rw [Env.about_note, h]
    exact .empty
  inPlace _ hc := nomatch hc

/-! ### Building -/

/-- A component that is set up is added to a graph that has not started. -/
theorem push (h : g.Sane env) (hopen : g.state = .configuring) {name : String}
    {cls : ComponentClass κ} (k : κ)
    (hwired : (g.push (.fresh g.id g.components.length name cls k)).topology.Wired)
    (habout : env'.journal.about g.id =
      env.journal.about g.id ++ [.call g.id g.components.length (.setUp none)]) :
    (g.push (.fresh g.id g.components.length name cls k)).Sane env' := by
  have hledger := h.ledger
  rw [hopen] at hledger
  refine ⟨⟨hwired, ?formed, ?stages, ?ledger⟩, ?inPlace⟩
  case formed =>
    intro hrunning
    exact nomatch hopen.symm.trans hrunning
  case stages =>
    refine List.forall_mem_append.mpr ⟨h.stages, List.forall_mem_singleton.mpr ?_⟩
    rw [show (g.push _).state = g.state from rfl, hopen]
    rfl
  case ledger =>
    change Ledger (g.components ++ [_]).length g.state.isOver (env'.journal.about g.id)
    rw [List.length_append, hopen, habout]
    exact hledger.install g.id
  case inPlace => exact List.forall_mem_append.mpr ⟨h.inPlace, List.forall_mem_singleton.mpr rfl⟩

theorem add [Behavior κ ω] (h : g.Sane env) (cls : ComponentClass κ) (name : String)
    (settings : Settings) :
    (g.add cls name settings env).graph.Sane (g.add cls name settings env).env := by
  have hwired := add_wired h.wired cls name settings env
  rcases g.add_cases cls name settings env with ⟨e, env', hadd, habout⟩ | ⟨hmay, k, env', hadd, habout⟩
  · rw [hadd]
    rcases habout with habout | ⟨hmay, fault, habout⟩
    · exact h.elsewhere habout
    -- the component was called and failed; its place stays free for the next one
    · have hledger := h.ledger
      refine ⟨⟨h.wired, h.formed, h.stages, ?_⟩, h.inPlace⟩
      rw [(mayAdd_eq_ok hmay).1] at hledger ⊢
      rw [habout]
      exact hledger.botch g.id fault
  · rw [hadd] at hwired ⊢
    exact h.push (mayAdd_eq_ok hmay).1 k hwired habout

/-- Two ports of a graph that has not started are connected. -/
theorem join (h : g.Sane env) (hopen : g.state = .configuring) {c : Connection}
    (hwired : (g.join c).topology.Wired)
    (habout : env'.journal.about g.id = env.journal.about g.id) : (g.join c).Sane env' := by
  have hstates : (g.join c).components.map (·.state) = g.components.map (·.state) :=
    join_map (fun _ _ _ => rfl) g c
  have hpresence : (g.join c).presence = g.presence := join_map (fun _ _ _ => rfl) g c
  have hlength : (g.join c).components.length = g.components.length := by
    simpa using congrArg List.length hstates
  refine ⟨⟨hwired, ?formed, ?stages, ?ledger⟩, ?inPlace⟩
  case formed =>
    intro hrunning
    exact nomatch hopen.symm.trans hrunning
  case stages => exact stages_of_eq hstates h.stages
  case ledger =>
    change Ledger (g.join c).components.length g.state.isOver (env'.journal.about g.id)
    rw [hlength, habout]
    exact h.ledger
  case inPlace => exact inPlace_iff.mpr (hpresence ▸ inPlace_iff.mp h.inPlace)

theorem connect (h : g.Sane env) {a b : PortHandle} (ha : g.Issued a) (hb : g.Issued b) :
    (g.connect a b env).graph.Sane (g.connect a b env).env := by
  rcases g.connect_cases a b env with ⟨e, env', hconnect, habout⟩ | ⟨c, env', hplans, hconnect, habout⟩
  · rw [hconnect]
    exact h.elsewhere habout
  · rw [hconnect]
    exact h.join hplans.open_ (hplans.wired h.wired ha hb) habout

theorem link (h : g.Sane env) (giver output taker input : String) :
    (g.link giver output taker input env).graph.Sane (g.link giver output taker input env).env := by
  rcases g.link_cases giver output taker input env with ⟨e, hlink⟩ | ⟨a, b, ha, hb, hlink⟩
  · rw [hlink]
    exact h
  · rw [hlink]
    exact h.connect ha hb

/-! ### Running -/

/-- Starting a graph that passes the check. -/
theorem start (h : g.Sane env) (hopen : g.state = .configuring) (hvalid : g.validate = .ok ()) :
    (g.start env).graph.Sane (g.start env).env ∧ (g.start env).graph.state = .running := by
  have hledger := h.ledger
  rw [hopen] at hledger
  obtain ⟨g₁, notice, hstart, htopology, hcomponents, hstate⟩ := start_spec hvalid env
  have hid : g₁.id = g.id := congrArg Topology.id htopology
  rw [hstart]
  refine ⟨⟨⟨htopology ▸ h.wired, fun _ => ?formed, ?stages, ?ledger⟩, ?inPlace⟩, hstate⟩
  case formed =>
    rw [htopology]
    exact (validate_iff h.wired).mp hvalid
  case stages =>
    rw [hcomponents, hstate]
    refine List.forall_mem_map.mpr fun c hc => ?_
    have hinitialized : c.state = .initialized := by rw [h.stages c hc, hopen]; rfl
    rw [Component.start, if_pos hinitialized]
    rfl
  case ledger =>
    rw [hcomponents, List.length_map, hstate, hid, Env.about_note]
    exact hledger
  case inPlace =>
    unfold InPlace
    rw [hcomponents]
    refine List.forall_mem_map.mpr fun c hc => ?_
    have hpresent := h.inPlace c hc
    unfold Component.start
    split <;> exact hpresent

/-- A pull step that comes to its end. -/
theorem of_passes (h : g.Sane env) (hrunning : g.state = .running)
    (hpasses : g.Passes g.Steady env true g' env') : g'.Sane env' where
  toLawful := h.toLawful.of_leads hrunning hpasses.leads (hpasses.safe (h.steady hrunning))
  inPlace := inPlace_iff.mpr (hpasses.restored rfl ▸ inPlace_iff.mp h.inPlace)

theorem finalized_of_isOver (h : g.Sane env) (hover : g.state.isOver = true) :
    ∀ c ∈ g.components, c.state = .finalized := by
  intro c hc
  rw [h.stages c hc, GraphState.stage_eq_finalized_iff.mpr hover]

theorem not_finalized (h : g.Sane env) (hopen : g.state.isOver = false) :
    ∀ c ∈ g.components, c.state ≠ .finalized := by
  intro c hc hfinalized
  rw [h.stages c hc, GraphState.stage_eq_finalized_iff, hopen] at hfinalized
  cases hfinalized

section Ending

variable [Behavior κ ω]

/-- A graph that is not over is closed when its run ends. The state is set before the
components are finalized. -/
theorem closes (h : g.Sane env) (hopen : g.state.isOver = false) (state : GraphState) :
    ({ g with state := state } : Graph κ ω).Closes env (g.close state env).result
      (g.close state env).graph (g.close state env).env :=
  finalizeAll_closes (g := { g with state := state }) h.wired h.inPlace (h.not_finalized hopen) env

/-- Closing a graph that is not over. -/
theorem close (h : g.Sane env) (hopen : g.state.isOver = false) {state : GraphState}
    (hover : state.isOver = true) :
    (g.close state env).graph.Sane (g.close state env).env ∧
      (g.close state env).graph.state = state := by
  have hcloses := h.closes hopen state
  have hledger := hcloses.ledger h.wired (hopen ▸ h.ledger)
  generalize g.close state env = x at hcloses hledger ⊢
  obtain ⟨failures, g', env'⟩ := x
  obtain ⟨hrest, htopology, hfinalized, hinPlace, -⟩ := hcloses
  dsimp only at hrest hledger ⊢
  have hstate' : g'.state = state := congrArg Graph.state hrest
  have hid : g'.id = g.id := by rw [hrest]
  refine ⟨⟨⟨?wired, ?formed, ?stages, ?ledger⟩, hinPlace⟩, hstate'⟩
  case wired => exact htopology ▸ h.wired
  case formed =>
    intro hrunning
    rw [hstate'] at hrunning
    rw [hrunning] at hover
    cases hover
  case stages =>
    intro c hc
    rw [hfinalized c hc, hstate', GraphState.stage_eq_finalized_iff.mpr hover]
  case ledger =>
    have hlength : g'.components.length = g.components.length := length_eq_of_topology_eq htopology
    rw [hlength, hstate', hover, hid]
    exact hledger

theorem advance (h : g.Sane env) (hadvance : Advance g env g' env') : g'.Sane env' := by
  cases hadvance with
  | remark habout => exact h.elsewhere habout
  | tally stats => exact ⟨⟨h.wired, h.formed, h.stages, h.ledger⟩, h.inPlace⟩
  | pull patience hdue hreturned =>
    have hpasses := hdue.passes patience env
    rw [hreturned] at hpasses
    exact h.of_passes hdue.running hpasses
  | close hrunning hends =>
    refine (h.close ?_ hends.isOver).1
    rw [hrunning]
    rfl

/-- A course leaves a lawful graph behind, and a sane one if it comes to its end. -/
theorem course (h : g.Sane env) {returned : Bool} (hcourse : Course g env returned g' env') :
    g'.Lawful env' ∧ (returned = true → g'.InPlace) := by
  induction hcourse with
  | done => exact ⟨h.toLawful, fun _ => h.inPlace⟩
  | pause => exact ⟨h.toLawful, fun _ => h.inPlace⟩
  | @broken g env id index patience hdue hnone =>
    have hpasses := hdue.passes patience env
    refine ⟨h.toLawful.of_leads hdue.running hpasses.leads ?_, (nomatch ·)⟩
    exact hpasses.safe (h.steady hdue.running)
  | next hstep _ ih => exact ih (h.advance hstep)

/-- So does a round, and so does a run. -/
theorem ran (h : g.Sane env) {returned : Bool} (hran : Ran g env returned g' env') :
    g'.Lawful env' ∧ (returned = true → g'.InPlace) := by
  cases hran with
  | unchanged => exact ⟨h.toLawful, fun _ => h.inPlace⟩
  | resumed _ hcourse => exact h.course hcourse
  | started hopen hvalid hcourse => exact (h.start hopen hvalid).1.course hcourse

theorem teardown (h : g.Sane env) : (g.teardown env).graph.Sane (g.teardown env).env := by
  have hnoted : g.Sane (env.note (.tearingDown g.name)) := h.elsewhere (Env.about_note _ _ _)
  cases hover : g.state.isOver with
  | true =>
    rw [teardown_over hover (h.finalized_of_isOver hover)]
    exact hnoted
  | false =>
    rw [teardown_open hover]
    exact (hnoted.close hover rfl).1

/-- A graph that is given up, over or not, has a complete ledger. -/
theorem discard (h : g.Sane env) :
    Ledger g.components.length true ((g.discard env).journal.about g.id) := by
  unfold Graph.discard
  cases hover : g.state.isOver with
  | true =>
    rw [finalizeAll_finalized (h.finalized_of_isOver hover)]
    exact hover ▸ h.ledger
  | false =>
    have hcloses := finalizeAll_closes h.wired h.inPlace (h.not_finalized hover) env
    exact hcloses.ledger h.wired (hover ▸ h.ledger)

end Ending

end Sane
end Graph

/-! ## Requests -/

/-- What can be asked of a graph. -/
inductive Request (κ ω : Type) where
  | add (cls : ComponentClass κ) (name : String) (settings : Settings)
  | connect (a b : PortHandle)
  | link (giver output taker input : String)
  | follow (policy : Policy ω)
  | runOnce (patience : Nat)
  | run (patience rounds : Nat)
  | cancel
  | teardown

namespace Request

/-- The handles that a request has come from components. -/
def Fits (g : Graph κ ω) : Request κ ω → Prop
  | .connect a b => g.Issued a ∧ g.Issued b
  | _ => True

/-- Whether a request is for a round or a run. -/
def runs : Request κ ω → Bool
  | .runOnce _ | .run _ _ => true
  | _ => false

variable [Behavior κ ω]

/-- Makes a request. The result says whether it comes to its end; only rounds and runs may
not, for want of patience or of rounds. -/
def perform (g : Graph κ ω) (env : Env ω) : Request κ ω → After κ ω Bool
  | .add cls name settings => (g.add cls name settings env).map fun _ => true
  | .connect a b => (g.connect a b env).map fun _ => true
  | .link giver output taker input => (g.link giver output taker input env).map fun _ => true
  | .follow policy => ⟨true, { g with policy := policy }, env⟩
  | .runOnce patience => (g.runOnce patience env).map Option.isSome
  | .run patience rounds => (Graph.run patience rounds g env).map Option.isSome
  | .cancel => ⟨true, g, env.cancel g.id⟩
  | .teardown => (g.teardown env).map fun _ => true

/-- Makes requests one after another, whatever they come to. -/
def performAll (requests : List (Request κ ω)) (x : Graph κ ω × Env ω) : Graph κ ω × Env ω :=
  requests.foldl (fun x r => ((r.perform x.1 x.2).graph, (r.perform x.1 x.2).env)) x

/-- The component that a request adds. -/
def added (g : Graph κ ω) (env : Env ω) : Request κ ω → List ComponentId
  | .add cls name settings => (g.add cls name settings env).result.toOption.toList
  | _ => []

end Request

/-- A graph that is the first one and is built by requests, and its environment. -/
def Graph.build [Behavior κ ω] (name : String) (config : RunConfig) (w : ω)
    (requests : List (Request κ ω)) : Graph κ ω × Env ω :=
  Request.performAll requests (Graph.create name config { shared := w })

/-- The lives that a graph can have had, with the components that were added to it. -/
inductive Lifetime [Behavior κ ω] : List ComponentId → Graph κ ω → Env ω → Prop where
  /-- A graph is created. Graphs are numbered, so nothing has happened on it. -/
  | create (name : String) (config : RunConfig) {env : Env ω}
      (unheard : env.journal.about env.nextGraph = []) :
      Lifetime [] (Graph.create name config env : Graph κ ω × Env ω).1
        (Graph.create name config env : Graph κ ω × Env ω).2
  /-- Something happens that is not about the graph: on other graphs, to the state that
  components share, to the runs that are cancelled. -/
  | elsewhere {added : List ComponentId} {g : Graph κ ω} {env env' : Env ω}
      (life : Lifetime added g env)
      (about : env'.journal.about g.id = env.journal.about g.id) : Lifetime added g env'
  /-- A request is made and comes to its end. -/
  | call {added : List ComponentId} {g : Graph κ ω} {env : Env ω} (life : Lifetime added g env)
      (r : Request κ ω) (fits : r.Fits g) (returned : (r.perform g env).result = true) :
      Lifetime (added ++ r.added g env) (r.perform g env).graph (r.perform g env).env

section

variable [Behavior κ ω] {g : Graph κ ω} {env : Env ω}

/-- A request leaves a lawful graph behind, and a sane one if it comes to its end. -/
theorem Request.lawful (h : g.Sane env) (r : Request κ ω) (hfits : r.Fits g) :
    (r.perform g env).graph.Lawful (r.perform g env).env ∧
      ((r.perform g env).result = true → (r.perform g env).graph.InPlace) := by
  have of_sane : ∀ {x : After κ ω Bool}, x.graph.Sane x.env →
      x.graph.Lawful x.env ∧ (x.result = true → x.graph.InPlace) :=
    fun hsane => ⟨hsane.toLawful, fun _ => hsane.inPlace⟩
  cases r with
  | add cls name settings => exact of_sane (h.add cls name settings)
  | connect a b => exact of_sane (h.connect hfits.1 hfits.2)
  | link giver output taker input => exact of_sane (h.link giver output taker input)
  | follow policy =>
    exact of_sane ⟨⟨h.wired, h.formed, h.stages, h.ledger⟩, h.inPlace⟩
  | runOnce patience => exact h.ran (g.runOnce_ran patience env)
  | run patience rounds => exact h.ran (g.run_ran patience rounds env)
  | cancel => exact of_sane (h.elsewhere rfl)
  | teardown => exact of_sane h.teardown

/-- A request is about one graph and leaves its identity alone. -/
theorem Request.perform_id (g : Graph κ ω) (env : Env ω) (r : Request κ ω) :
    (r.perform g env).graph.id = g.id := by
  cases r with
  | add cls name settings => exact (g.add_builds cls name settings env).id
  | connect a b => exact (g.connect_builds a b env).id
  | link giver output taker input => exact (g.link_builds giver output taker input env).id
  | follow policy => rfl
  | runOnce patience => exact congrArg Topology.id (g.runOnce_ran patience env).topology_eq
  | run patience rounds => exact congrArg Topology.id (g.run_ran patience rounds env).topology_eq
  | cancel => rfl
  | teardown => exact congrArg Topology.id (g.teardown_topology env)

/-- What a request adds is the component at the end of the graph, if it adds one. -/
theorem Request.added_cases (g : Graph κ ω) (env : Env ω) (r : Request κ ω) :
    r.added g env = [] ∧ (r.perform g env).graph.components.length = g.components.length ∨
      r.added g env = [g.components.length] ∧
        (r.perform g env).graph.components.length = g.components.length + 1 := by
  have hconnect : ∀ a b, (g.connect a b env).graph.components.length = g.components.length := by
    intro a b
    rcases g.connect_cases a b env with ⟨e, env', hconnect, -⟩ | ⟨c, env', -, hconnect, -⟩
    · rw [hconnect]
    · rw [hconnect]
      have hids : (g.join c).components.map (·.id) = g.components.map (·.id) :=
        Graph.join_map (fun _ _ _ => rfl) g c
      simpa using congrArg List.length hids
  cases r with
  | add cls name settings =>
    rcases g.add_cases cls name settings env with ⟨e, env', hadd, -⟩ | ⟨-, k, env', hadd, -⟩
    · exact .inl (by simp [Request.added, perform, hadd, Except.toOption, After.map])
    · exact .inr (by simp [Request.added, perform, hadd, Except.toOption, After.map, Graph.push])
  | connect a b => exact .inl ⟨rfl, hconnect a b⟩
  | link giver output taker input =>
    refine .inl ⟨rfl, ?_⟩
    change (g.link giver output taker input env).graph.components.length = g.components.length
    rcases g.link_cases giver output taker input env with ⟨e, hlink⟩ | ⟨a, b, -, -, hlink⟩
    · rw [hlink]
    · rw [hlink, hconnect]
  | follow policy => exact .inl ⟨rfl, rfl⟩
  | runOnce patience =>
    exact .inl ⟨rfl, Graph.length_eq_of_topology_eq (g.runOnce_ran patience env).topology_eq⟩
  | run patience rounds =>
    exact .inl ⟨rfl, Graph.length_eq_of_topology_eq (g.run_ran patience rounds env).topology_eq⟩
  | cancel => exact .inl ⟨rfl, rfl⟩
  | teardown => exact .inl ⟨rfl, Graph.length_eq_of_topology_eq (g.teardown_topology env)⟩

/-- **A graph is sane between requests**, all its life. -/
theorem Lifetime.sane {added : List ComponentId} (h : Lifetime added g env) : g.Sane env := by
  induction h with
  | create name config hunheard => exact .create name config hunheard
  | elsewhere _ habout ih => exact ih.elsewhere habout
  | call _ r hfits hreturned ih =>
    obtain ⟨hlawful, hinPlace⟩ := r.lawful ih hfits
    exact ⟨hlawful, hinPlace hreturned⟩

/-- The components that were added are those of the graph. -/
theorem Lifetime.added_eq_range {added : List ComponentId} (h : Lifetime added g env) :
    added = List.range g.components.length := by
  induction h with
  | create => rfl
  | elsewhere _ _ ih => exact ih
  | @call added g env _ r _ _ ih =>
    rcases r.added_cases g env with ⟨hadded, hlength⟩ | ⟨hadded, hlength⟩
    · rw [hadded, hlength, List.append_nil, ih]
    · rw [hadded, hlength, List.range_succ, ih]

/-- Requests that are not for rounds or runs come to their ends one after another. -/
theorem Lifetime.performAll {added : List ComponentId} (h : Lifetime added g env)
    {requests : List (Request κ ω)}
    (hrequests : ∀ r ∈ requests, r.runs = false ∧ ∀ g : Graph κ ω, r.Fits g) :
    Lifetime (List.range (Request.performAll requests (g, env)).1.components.length)
      (Request.performAll requests (g, env)).1 (Request.performAll requests (g, env)).2 := by
  induction requests generalizing added g env with
  | nil => exact h.added_eq_range ▸ h
  | cons r requests ih =>
    obtain ⟨⟨hruns, hfits⟩, hrest⟩ := List.forall_mem_cons.mp hrequests
    refine ih (h.call r (hfits g) ?_) hrest
    cases r with
    | runOnce | run => cases hruns
    | add | connect | link | follow | cancel | teardown => rfl

/-- A graph that is built by such requests has lived. -/
theorem Lifetime.built {name : String} {config : RunConfig} {w : ω}
    {requests : List (Request κ ω)} {x : Graph κ ω × Env ω}
    (hx : x = Graph.build name config w requests)
    (hrequests : ∀ r ∈ requests, r.runs = false ∧ ∀ g : Graph κ ω, r.Fits g) :
    Lifetime (List.range x.1.components.length) x.1 x.2 := by
  subst hx
  exact (Lifetime.create name config rfl).performAll hrequests

end

/-! ## A pipeline

A small graph for the cases below: a source of two messages, a filter and a sink that keeps
what it gets. A counter could not be set up, for want of its settings. -/

/-- The requests that build the pipeline. -/
def pipelineRequests : List (Request (Standard (List Message)) (List Message)) :=
  [.add (Standard.itemsClass "letters" [.int 1, .int 2]) "giver" .nil,
    .add Standard.counterClass "spare" .nil,
    .add Standard.passthroughClass "middle" .nil,
    .add (Standard.collectClass "keep" fun m kept => kept ++ [m]) "taker" .nil,
    .link "giver" "out" "middle" "in",
    .link "middle" "out" "taker" "in"]

/-- The pipeline once it is built, and its environment. -/
def pipeline : Graph (Standard (List Message)) (List Message) × Env (List Message) :=
  Graph.build "pipeline" .standard [] pipelineRequests

theorem pipeline_lifetime : Lifetime [0, 1, 2] pipeline.1 pipeline.2 := by
  refine .built (rfl : pipeline = Graph.build _ _ _ pipelineRequests) ?_
  simp [pipelineRequests, Request.runs, Request.Fits]

end PullGraph
