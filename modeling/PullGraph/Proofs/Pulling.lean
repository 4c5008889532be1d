import PullGraph.Run.Pull
import PullGraph.Proofs.Events
import PullGraph.Proofs.Flow

/-! # What a pull can do

Filters do as they like: they pull any of their inputs, in any order and as often as they
want, and make of the answers what they want. `PullLaw` says what it takes for a relation
between the turn before and the turn after to hold of all of that: it is enough that it
holds of a single pull of an input port, if it holds of what lies upstream. Its first
use is here. A pull gives back the inner states that it took out and leaves most of the
graph alone (`Turn.Passes`). A pull that cannot go through is refused, which the journal
tells; in a graph that passed the check no pull meets that.
-/
namespace PullGraph

open Relation

variable {κ ω : Type}

/-- Whether a request came to its end, which it does unless patience ran out. -/
def Answer.returned {α : Type} (x : Answer κ ω α) : Bool := x.result.isSome

/-- A relation between the turn before and the turn after a request of a component, and
whether the request came to its end. -/
abbrev TurnRelation (κ ω : Type) := ComponentId → Turn κ ω → Bool → Turn κ ω → Prop

/-- A request of a component has brought `t` to where it is as `Q` says. -/
def Answer.Obeys {α : Type} (Q : TurnRelation κ ω) (id : ComponentId) (t : Turn κ ω)
    (x : Answer κ ω α) : Prop :=
  Q id t x.returned x.turn

/-- Filters are brought to answer as `Q` says. -/
def Converse.Obeys (Q : TurnRelation κ ω) (converse : Converse κ ω) : Prop :=
  ∀ id port k t, (converse id port k t).Obeys Q id t

/-- What it takes for a relation to hold of whatever a filter does. -/
structure PullLaw [Behavior κ ω] (Q : TurnRelation κ ω) : Prop where
  refl : ∀ (id : ComponentId) (t : Turn κ ω), Q id t true t
  stop : ∀ (id : ComponentId) (t : Turn κ ω), Q id t false t
  trans : ∀ {id : ComponentId} {t t' t'' : Turn κ ω} {returned : Bool},
    Q id t true t' → Q id t' returned t'' → Q id t returned t''
  act : ∀ (id : ComponentId) (t : Turn κ ω) (x : Act ω Unit), Q id t true (t.perform x).2
  /-- A pull of an input port obeys if what lies upstream does. -/
  pull : ∀ {converse : Converse κ ω}, converse.Obeys Q →
    ∀ {id : ComponentId} {index : Nat} {t : Turn κ ω} {p : Port},
      t.graph.portAt? id index = some p → p.direction = .input →
      (pullInput converse id index t).Obeys Q id t

/-- A port that was found by name and direction is there. -/
theorem Component.getElem?_of_portIndex? {c : Component κ} {name : String} {d : Direction}
    {index : Nat} (h : c.portIndex? name d = some index) :
    ∃ p, c.ports[index]? = some p ∧ p.direction = d ∧ p.name = name := by
  obtain ⟨hlt, htest, -⟩ := List.findIdx?_eq_some_iff_getElem.mp h
  refine ⟨c.ports[index], List.getElem?_eq_getElem hlt, ?_⟩
  simpa using htest

namespace PullLaw

variable [Behavior κ ω] {Q : TurnRelation κ ω} {α β : Type}

/-- One request after another. -/
theorem andThen (h : PullLaw Q) {id : ComponentId} {t : Turn κ ω} {x : Answer κ ω α}
    {next : α → Turn κ ω → Answer κ ω β} (hx : x.Obeys Q id t)
    (hnext : ∀ a t', (next a t').Obeys Q id t') : (x.andThen next).Obeys Q id t := by
  obtain ⟨result, t'⟩ := x
  cases result with
  | none => exact hx
  | some a => exact h.trans hx (hnext a t')

theorem pullNamed (h : PullLaw Q) {converse : Converse κ ω} (hc : converse.Obeys Q)
    (id : ComponentId) (port : String) (t : Turn κ ω) :
    (pullNamed converse id port t).Obeys Q id t := by
  unfold PullGraph.pullNamed
  split
  · exact h.refl id t
  · rename_i index hindex
    obtain ⟨c, hcomponent, hport⟩ := Option.bind_eq_some_iff.mp hindex
    obtain ⟨p, hp, hd, -⟩ := Component.getElem?_of_portIndex? hport
    have hat : t.graph.portAt? id index = some p := by
      rw [Graph.portAt?, hcomponent]
      exact hp
    exact h.pull hc hat hd

theorem pullBatch (h : PullLaw Q) {converse : Converse κ ω} (hc : converse.Obeys Q)
    (id : ComponentId) (port : String) (max : Nat) (t : Turn κ ω) :
    (pullBatch converse id port max t).Obeys Q id t := by
  induction max generalizing t with
  | zero => exact h.refl id t
  | succ max ih =>
    refine h.andThen (h.pullNamed hc id port t) fun r t' => ?_
    match r with
    | .error f => exact h.refl id t'
    | .ok .again => exact h.refl id t'
    | .ok .endOfStream => exact h.refl id t'
    | .ok (.message m) => exact h.andThen (ih t') fun rest t'' => h.refl id t''

/-- A dialogue obeys, one request after another. -/
theorem play (h : PullLaw Q) {converse : Converse κ ω} (hc : converse.Obeys Q)
    (id : ComponentId) (d : Dialogue κ ω) (t : Turn κ ω) :
    (d.play converse id t).Obeys Q id t := by
  induction d generalizing t with
  | reply answer k => exact h.refl id t
  | retry k => exact h.refl id t
  | pull port next ih => exact h.andThen (h.pullNamed hc id port t) fun r t' => ih r t'
  | batch port max next ih => exact h.andThen (h.pullBatch hc id port max t) fun r t' => ih r t'
  | atEnd port next ih => exact ih _ t
  | inputs next ih => exact ih _ _ t
  | look next ih => exact ih _ t
  | act step next ih => exact h.trans (h.act id t step) (ih _)

/-- **Whatever a filter does obeys the law**, however often it starts over and however far
upstream it reaches. The induction is on patience: a new start and a filter further up
have one unit less of it. -/
theorem converse (h : PullLaw Q) (patience : Nat) :
    (PullGraph.converse patience : Converse κ ω).Obeys Q := by
  induction patience with
  | zero => exact fun id _ _ t => h.stop id t
  | succ patience ih =>
    intro id port k t
    refine h.andThen (h.play ih id (Behavior.answer port k) t) fun ending t' => ?_
    cases ending with
    | reply answer k' => exact h.refl id t'
    | retry k' => exact ih id port k' t'

end PullLaw

/-! ## What a step of a run leaves alone -/

namespace Graph

/-- Which components have their inner states in place. -/
def presence (g : Graph κ ω) : List Bool := g.components.map (·.behavior.isSome)

/-- How a part of a run that is under way changes a graph and what its journal says: at
most inner states, ends of streams and counters, and only work is written down. -/
structure Leads (g : Graph κ ω) (env : Env ω) (g' : Graph κ ω) (env' : Env ω) : Prop where
  topology : g'.topology = g.topology
  name : g'.name = g.name
  state : g'.state = g.state
  policy : g'.policy = g.policy
  stages : g'.components.map (·.state) = g.components.map (·.state)
  journal : Journal.Grows (fun e => e.isWork = true) g.id env.journal env'.journal

namespace Leads

variable {g g' g'' : Graph κ ω} {env env' env'' : Env ω}

theorem id_eq (h : g.Leads env g' env') : g'.id = g.id := congrArg Topology.id h.topology

theorem sinks_eq (h : g.Leads env g' env') : g'.sinks = g.sinks := congrArg Topology.sinks h.topology

theorem of_journal (h : Journal.Grows (fun e => e.isWork = true) g.id env.journal env'.journal) :
    g.Leads env g env' :=
  ⟨rfl, rfl, rfl, rfl, rfl, h⟩

theorem refl (g : Graph κ ω) (env : Env ω) : g.Leads env g env := of_journal (.refl _)

theorem trans (h : g.Leads env g' env') (h' : g'.Leads env' g'' env'') :
    g.Leads env g'' env'' where
  topology := h'.topology.trans h.topology
  name := h'.name.trans h.name
  state := h'.state.trans h.state
  policy := h'.policy.trans h.policy
  stages := h'.stages.trans h.stages
  journal := h.journal.trans (h.id_eq ▸ h'.journal)

theorem modify (g : Graph κ ω) (env : Env ω) (id : ComponentId) {f : Component κ → Component κ}
    (houtline : ∀ c, (f c).outline = c.outline) (hstate : ∀ c, (f c).state = c.state) :
    g.Leads env (g.modify id f) env where
  topology := g.topology_modify houtline id
  name := rfl
  state := rfl
  policy := rfl
  stages := map_modify_of_eq hstate g.components id
  journal := .refl _

end Leads

theorem presence_modify_of_eq {f : Component κ → Component κ} (h : ∀ c, (f c).behavior = c.behavior)
    (g : Graph κ ω) (id : ComponentId) : (g.modify id f).presence = g.presence := by
  refine map_modify_of_eq (fun c => ?_) g.components id
  rw [h c]

end Graph

namespace Turn

variable (t : Turn κ ω)

theorem setBehavior_leads (id : ComponentId) (k : Option κ) :
    t.graph.Leads t.env (t.setBehavior id k).graph t.env :=
  .modify t.graph t.env id (fun _ => rfl) (fun _ => rfl)

@[simp] theorem setBehavior_presence (id : ComponentId) (k : Option κ) :
    (t.setBehavior id k).graph.presence = t.graph.presence.set id k.isSome := by
  refine map_modify_eq_set (fun c => ?_) t.graph.components id
  rfl

theorem record_leads (id : ComponentId) {call : Call}
    (h : (Event.call t.graph.id id call).isWork = true) :
    t.graph.Leads t.env t.graph (t.record id call).env :=
  .of_journal (.record t.env.journal h)

@[simp] theorem record_refusals (id : ComponentId) (call : Call) :
    (t.record id call).env.journal.refusals t.graph.id = t.env.journal.refusals t.graph.id := by
  simp [record, Journal.refusals, Event.refusal?]

theorem refuse_leads (f : Fault) : t.graph.Leads t.env t.graph (t.refuse f).env :=
  .of_journal (.record t.env.journal rfl)

@[simp] theorem refuse_refusals (f : Fault) :
    (t.refuse f).env.journal.refusals t.graph.id = t.env.journal.refusals t.graph.id ++ [f] := by
  simp [refuse, Journal.refusals, Event.refusal?]

theorem latch_leads (id : ComponentId) (index : Nat) (answer : Except Fault Pull) :
    t.graph.Leads t.env (t.latch id index answer).graph (t.latch id index answer).env := by
  unfold latch
  split
  · refine .modify t.graph t.env id (fun c => ?_) (fun c => rfl)
    refine Component.outline_modifyPort (fun p => ?_) c index
    rfl
  · exact .refl t.graph t.env

theorem latch_presence (id : ComponentId) (index : Nat) (answer : Except Fault Pull) :
    (t.latch id index answer).graph.presence = t.graph.presence := by
  unfold latch
  split
  · refine Graph.presence_modify_of_eq (fun c => ?_) t.graph id
    rfl
  · rfl

theorem latch_env (id : ComponentId) (index : Nat) (answer : Except Fault Pull) :
    (t.latch id index answer).env = t.env := by
  unfold latch
  split <;> rfl

end Turn

/-! ## A pull meets nothing to refuse -/

namespace Graph

/-- A component can be asked for a message on one of its ports: the port is there, its inner
state is in place, and it is not a sink. -/
def CanAnswer (g : Graph κ ω) (a : ComponentId) (index : Nat) : Prop :=
  ∃ c k, g.components[a]? = some c ∧ c.behavior = some k ∧ c.kind ≠ .sink ∧
    (g.portAt? a index).isSome = true

/-- An input port can be pulled: it is there, and its stream has ended or it is connected to
a component that can be asked. -/
def CanPull (g : Graph κ ω) (id : ComponentId) (index : Nat) : Prop :=
  ∃ p, g.portAt? id index = some p ∧ (p.atEnd = true ∨
    ∃ conn, g.connectionOf? p = some conn ∧ g.CanAnswer conn.output.component conn.output.index)

/-- A component can be pulled on behalf of a sink: the graph passed the check, and the
inner states of all components upstream are in place. -/
structure Ready (g : Graph κ ω) (id : ComponentId) : Prop where
  wired : g.topology.Wired
  formed : g.topology.WellFormed
  serves : g.topology.Serves id
  upstream : ∀ a, TransGen g.topology.Feeds a id → g.presence[a]? = some true

namespace Ready

variable {g g' : Graph κ ω} {id index : Nat} {p : Port}

/-- Whether a component is ready depends on the topology and on what is upstream. -/
theorem of_eq (h : g.Ready id) (htopology : g'.topology = g.topology)
    (hpresence : ∀ a, TransGen g.topology.Feeds a id → g'.presence[a]? = g.presence[a]?) :
    g'.Ready id where
  wired := htopology ▸ h.wired
  formed := htopology ▸ h.formed
  serves := htopology ▸ h.serves
  upstream := by
    intro a ha
    rw [htopology] at ha
    rw [hpresence a ha]
    exact h.upstream a ha

/-- A component that is being pulled is not upstream of itself. -/
theorem take (h : g.Ready id) (htopology : g'.topology = g.topology) {b : Bool}
    (hpresence : g'.presence = g.presence.set id b) : g'.Ready id := by
  refine h.of_eq htopology fun a ha => ?_
  have hne : id ≠ a := by
    rintro rfl
    exact h.formed.acyclic id h.serves ha
  rw [hpresence, List.getElem?_set_ne hne]

theorem connected (h : g.Ready id) (hp : g.portAt? id index = some p) (hd : p.direction = .input) :
    ∃ conn ∈ g.connections, g.connectionOf? p = some conn ∧
      conn.input = ⟨g.id, id, index, .input⟩ := by
  have hs := g.topology_socket?_eq_some.mpr ⟨p, hp, rfl⟩
  obtain ⟨k, hk⟩ := Option.isSome_iff_exists.mp (h.formed.plugged id h.serves index p.socket hs hd)
  obtain ⟨conn, hget, hof, hinput⟩ := connectionOf?_of_connection h.wired hp hd hk
  exact ⟨conn, List.mem_of_getElem? hget, hof, hinput⟩

/-- What feeds a component that is ready is ready, and can be asked. -/
theorem feeder (h : g.Ready id) {conn : Connection} (hmem : conn ∈ g.connections)
    (hinput : conn.input.component = id) :
    g.Ready conn.output.component ∧ g.CanAnswer conn.output.component conn.output.index := by
  have hfeeds : g.topology.Feeds conn.output.component id := ⟨conn, hmem, rfl, hinput⟩
  refine ⟨⟨h.wired, h.formed, h.serves.of_feeds hfeeds, ?upstream⟩, ?canAnswer⟩
  case upstream =>
    intro b hb
    exact h.upstream b (hb.tail hfeeds)
  case canAnswer =>
    obtain ⟨kind, hkind, hne⟩ := h.wired.kind_of_feeds hfeeds
    obtain ⟨c, hc, rfl⟩ := g.topology_kind?_eq_some.mp hkind
    have hpresent := h.upstream _ (.single hfeeds)
    obtain ⟨k, hb⟩ : ∃ k, c.behavior = some k := by
      simpa [presence, hc, Option.isSome_iff_exists] using hpresent
    obtain ⟨⟨-, s, hs, -⟩, -⟩ := h.wired.outputs conn hmem
    obtain ⟨p, hp, -⟩ := g.topology_socket?_eq_some.mp hs
    exact ⟨c, k, hc, hb, hne, Option.isSome_iff_exists.mpr ⟨p, hp⟩⟩

end Ready

end Graph

/-- What a part of a run does, and what a whole step of it does. It leaves alone what a run
leaves alone; when it is through, it has put back the inner states that it took out; and if
`ready`, it meets nothing that the executor has to refuse. -/
structure Graph.Passes (ready : Prop) (g : Graph κ ω) (env : Env ω) (returned : Bool)
    (g' : Graph κ ω) (env' : Env ω) : Prop where
  leads : g.Leads env g' env'
  restored : returned = true → g'.presence = g.presence
  safe : ready → env'.journal.refusals g.id = env.journal.refusals g.id

namespace Graph.Passes

variable {g g' g'' : Graph κ ω} {env env' env'' : Env ω} {ready ready' : Prop} {returned : Bool}

theorem refl (g : Graph κ ω) (env : Env ω) : g.Passes ready env returned g env :=
  ⟨.refl _ _, fun _ => rfl, fun _ => rfl⟩

theorem mono (h : g.Passes ready' env returned g' env') (hready : ready → ready') :
    g.Passes ready env returned g' env' :=
  ⟨h.leads, h.restored, fun hr => h.safe (hready hr)⟩

theorem trans (h : g.Passes ready env true g' env') (h' : g'.Passes ready' env' returned g'' env'')
    (hready : ready → ready') : g.Passes ready env returned g'' env'' where
  leads := h.leads.trans h'.leads
  restored := fun hr => (h'.restored hr).trans (h.restored rfl)
  safe := by
    intro hr
    have hsafe := h'.safe (hready hr)
    rw [h.leads.id_eq] at hsafe
    exact hsafe.trans (h.safe hr)

end Graph.Passes

/-- The same for a turn, whatever it blames. -/
abbrev Turn.Passes (ready : Prop) (t : Turn κ ω) (returned : Bool) (t' : Turn κ ω) : Prop :=
  t.graph.Passes ready t.env returned t'.graph t'.env

namespace Turn.Passes

variable {ready : Prop} {returned : Bool}

/-- A refusal is a passage that must not be met when all is ready. -/
theorem refuse (t : Turn κ ω) (f : Fault) (h : ¬ ready) : Passes ready t returned (t.refuse f) :=
  ⟨t.refuse_leads f, fun _ => rfl, fun hr => absurd hr h⟩

theorem latch (t : Turn κ ω) (id : ComponentId) (index : Nat) (answer : Except Fault Pull) :
    Passes ready t returned (t.latch id index answer) where
  leads := t.latch_leads id index answer
  restored := fun _ => t.latch_presence id index answer
  safe := fun _ => by rw [t.latch_env]

theorem perform {α : Type} (t : Turn κ ω) (x : Act ω α) : Passes ready t returned (t.perform x).2 :=
  ⟨.of_journal (.refl _), fun _ => rfl, fun _ => rfl⟩

end Turn.Passes

/-- The relation for what a component does that is being pulled. -/
def PassesReady : TurnRelation κ ω := fun id t returned t' =>
  t.Passes (t.graph.Ready id) returned t'

/-- The turn in which a component has been asked: its inner state is taken out. -/
def Turn.ask (t : Turn κ ω) (a : ComponentId) (port : String) : Turn κ ω :=
  (t.setBehavior a none).record a (.asked port)

theorem Turn.ask_leads (t : Turn κ ω) (a : ComponentId) (port : String) :
    t.graph.Leads t.env (t.ask a port).graph (t.ask a port).env :=
  (t.setBehavior_leads a none).trans ((t.setBehavior a none).record_leads a rfl)

theorem Turn.ask_presence (t : Turn κ ω) (a : ComponentId) (port : String) :
    (t.ask a port).graph.presence = t.graph.presence.set a false :=
  t.setBehavior_presence a none

/-- Taking an answer is putting the inner state back and writing the answer down. -/
theorem accept_turn (a : ComponentId) (port : String) (answer : Except Fault Pull) (k : κ)
    (t : Turn κ ω) :
    (accept a port answer k t).turn.graph = (t.setBehavior a (some k)).graph ∧
      (accept a port answer k t).turn.env =
        ((t.setBehavior a (some k)).record a (.answered port answer)).env := by
  cases answer with
  | ok pulled => exact ⟨rfl, rfl⟩
  | error cause => exact ⟨rfl, rfl⟩

namespace Turn.Passes

variable {t t' : Turn κ ω} {ready ready' : Prop} {a : ComponentId} {port : String}

/-- A component that is asked and runs out of patience. -/
theorem unanswered (h : (t.ask a port).Passes ready' false t') (hready : ready → ready') :
    t.Passes ready false t' where
  leads := (t.ask_leads a port).trans h.leads
  restored := (nomatch ·)
  safe := fun hr => (h.safe (hready hr)).trans ((t.setBehavior a none).record_refusals a _)

/-- A component that is asked and answers has its inner state back. -/
theorem answered (hpresent : t.graph.presence[a]? = some true)
    (h : (t.ask a port).Passes ready' true t') (hready : ready → ready')
    (answer : Except Fault Pull) (k : κ) :
    t.Passes ready (accept a port answer k t').returned (accept a port answer k t').turn := by
  obtain ⟨hgraph, henv⟩ := accept_turn a port answer k t'
  have hid : t'.graph.id = t.graph.id := h.leads.id_eq
  have hback : t'.graph.Leads t'.env (t'.setBehavior a (some k)).graph
      ((t'.setBehavior a (some k)).record a (.answered port answer)).env :=
    (t'.setBehavior_leads a (some k)).trans ((t'.setBehavior a (some k)).record_leads a rfl)
  refine ⟨?leads, fun _ => ?restored, fun hr => ?safe⟩
  case leads =>
    rw [hgraph, henv]
    exact (t.ask_leads a port).trans (h.leads.trans hback)
  case restored =>
    -- one entry was set to `false` and is set back to the `true` that stood there
    have htaken := (h.restored rfl).trans (t.ask_presence a port)
    rw [hgraph, t'.setBehavior_presence, htaken, List.set_set]
    exact set_eq_self hpresent
  case safe =>
    have hanswer := (t'.setBehavior a (some k)).record_refusals a (.answered port answer)
    rw [henv, ← hid]
    exact hanswer.trans (hid ▸ (unanswered ⟨h.leads, (nomatch ·), h.safe⟩ hready).safe hr)

end Turn.Passes

section Pulls

variable [Behavior κ ω] {converse : Converse κ ω}

section

variable {id : ComponentId} {index : Nat} {t : Turn κ ω} {p : Port}

theorem pullInput_atEnd (hp : t.graph.portAt? id index = some p) (hend : p.atEnd = true) :
    pullInput converse id index t = ⟨some (.ok .endOfStream), t⟩ := by
  simp only [pullInput, hp, hend, if_true]

theorem pullInput_unconnected (hp : t.graph.portAt? id index = some p) (hend : p.atEnd = false)
    (hconn : t.graph.connectionOf? p = none) :
    pullInput converse id index t =
      ⟨some (.error (.inputUnconnected p.name)), t.refuse (.inputUnconnected p.name)⟩ := by
  simp [pullInput, hp, hend, hconn]

theorem pullInput_connected (hp : t.graph.portAt? id index = some p) (hend : p.atEnd = false)
    {conn : Connection} (hconn : t.graph.connectionOf? p = some conn) :
    pullInput converse id index t =
      (pullOutput converse conn.output.component conn.output.index t).andThen
        fun answer t' => ⟨some answer, t'.latch id index answer⟩ := by
  simp [pullInput, hp, hend, hconn]

end

/-- What asking a component can come to. The executor answers in place of one that is not
there or is being called; the inner state of any other is taken out until it has answered. -/
theorem pullOutput_cases (converse : Converse κ ω) (a : ComponentId) (index : Nat) (t : Turn κ ω) :
    (¬ t.graph.CanAnswer a index ∧
      ∃ fault, pullOutput converse a index t = ⟨some (.error fault), t.refuse fault⟩) ∨
    (∃ c port k, t.graph.components[a]? = some c ∧ t.graph.portAt? a index = some port ∧
      c.behavior = some k ∧
      pullOutput converse a index t =
        (produce converse c.kind a port.name k (t.ask a port.name)).andThen
          fun r t' => accept a port.name r.1 r.2 t') := by
  unfold pullOutput
  split
  · rename_i c port hcomponent hport
    cases hb : c.behavior with
    | none =>
      refine .inl ⟨?_, _, rfl⟩
      rintro ⟨c', k, hc', hb', -⟩
      obtain rfl : c = c' := Option.some.inj (hcomponent.symm.trans hc')
      exact nomatch hb.symm.trans hb'
    | some k => exact .inr ⟨c, port, k, hcomponent, hport, hb, rfl⟩
  · rename_i hnone
    refine .inl ⟨?_, _, rfl⟩
    rintro ⟨c, k, hcomponent, -, -, hport⟩
    obtain ⟨p, hp⟩ := Option.isSome_iff_exists.mp hport
    exact hnone c p hcomponent hp

/-- A component that cannot be asked is not asked in silence: that it was refused stands in
the journal. -/
theorem pullOutput_refused (converse : Converse κ ω) {a : ComponentId} {index : Nat} {t : Turn κ ω}
    (h : ¬ t.graph.CanAnswer a index) : ∃ fault,
      (pullOutput converse a index t).turn.env.journal.refusals t.graph.id =
        t.env.journal.refusals t.graph.id ++ [fault] := by
  rcases pullOutput_cases converse a index t with
    ⟨-, fault, heq⟩ | ⟨c, port, k, hcomponent, hport, hb, heq⟩
  · rw [heq]
    exact ⟨fault, t.refuse_refusals fault⟩
  · have hkind : c.kind = .sink := Decidable.byContradiction fun hne =>
      h ⟨c, k, hcomponent, hb, hne, Option.isSome_iff_exists.mpr ⟨port, hport⟩⟩
    -- a sink has been asked by then, and is given its inner state back
    have hask : (t.ask a port.name).env.journal.refusals t.graph.id =
        t.env.journal.refusals t.graph.id := (t.setBehavior a none).record_refusals a _
    have hrefuse := (t.ask a port.name).refuse_refusals .sinkWithoutOutputs
    refine ⟨.sinkWithoutOutputs, ?_⟩
    rw [heq, hkind]
    refine (Turn.record_refusals (Turn.setBehavior _ a (some k)) a _).trans ?_
    exact hrefuse.trans (congrArg (· ++ [Fault.sinkWithoutOutputs]) hask)

/-- Likewise for an input port that cannot be pulled. -/
theorem pullInput_refused (converse : Converse κ ω) {id : ComponentId} {index : Nat}
    {t : Turn κ ω} (h : ¬ t.graph.CanPull id index) : ∃ fault,
      (pullInput converse id index t).turn.env.journal.refusals t.graph.id =
        t.env.journal.refusals t.graph.id ++ [fault] := by
  cases hp : t.graph.portAt? id index with
  | none =>
    rw [pullInput, hp]
    exact ⟨_, t.refuse_refusals _⟩
  | some p =>
    have hend : p.atEnd = false := by
      rw [← Bool.not_eq_true]
      exact fun hend => h ⟨p, hp, .inl hend⟩
    cases hconn : t.graph.connectionOf? p with
    | none =>
      rw [pullInput_unconnected hp hend hconn]
      exact ⟨_, t.refuse_refusals _⟩
    | some conn =>
      obtain ⟨fault, hfault⟩ := pullOutput_refused converse
        fun hanswer => h ⟨p, hp, .inr ⟨conn, hconn, hanswer⟩⟩
      rw [pullInput_connected hp hend hconn]
      generalize pullOutput converse conn.output.component conn.output.index t = x at hfault ⊢
      obtain ⟨result, t'⟩ := x
      refine ⟨fault, ?_⟩
      cases result with
      | none => exact hfault
      | some answer =>
        refine Eq.trans ?_ hfault
        exact congrArg (·.journal.refusals t.graph.id) (t'.latch_env id index answer)

variable (hc : converse.Obeys PassesReady)
include hc

theorem produce_passes (kind : Kind) (a : ComponentId) (port : String) (k : κ) (t : Turn κ ω) :
    t.Passes (t.graph.Ready a ∧ kind ≠ .sink) (produce converse kind a port k t).returned
      (produce converse kind a port k t).turn := by
  cases kind with
  | source => exact .perform t (Behavior.emit port k)
  | filter => exact (hc a port k t).mono And.left
  | sink => exact .refuse t _ fun h => h.2 rfl

/-- A component that is asked has its inner state back when it has answered. -/
theorem pullOutput_passes (a : ComponentId) (index : Nat) (t : Turn κ ω) :
    t.Passes (t.graph.Ready a ∧ t.graph.CanAnswer a index)
      (pullOutput converse a index t).returned (pullOutput converse a index t).turn := by
  rcases pullOutput_cases converse a index t with
    ⟨hcannot, fault, heq⟩ | ⟨c, port, k, hcomponent, hport, hb, heq⟩
  · rw [heq]
    exact .refuse t fault fun h => hcannot h.2
  · have hpresent : t.graph.presence[a]? = some true := by simp [Graph.presence, hcomponent, hb]
    have hproduce := produce_passes hc c.kind a port.name k (t.ask a port.name)
    have hready : t.graph.Ready a ∧ t.graph.CanAnswer a index →
        (t.ask a port.name).graph.Ready a ∧ c.kind ≠ .sink := by
      rintro ⟨hready, c', -, hc', -, hkind, -⟩
      obtain rfl : c = c' := Option.some.inj (hcomponent.symm.trans hc')
      exact ⟨hready.take (t.ask_leads a port.name).topology (t.ask_presence a port.name), hkind⟩
    rw [heq]
    generalize produce converse c.kind a port.name k (t.ask a port.name) = x at hproduce ⊢
    obtain ⟨result, t'⟩ := x
    cases result with
    | none => exact .unanswered hproduce hready
    | some r => exact .answered hpresent hproduce hready r.1 r.2

/-- To pull an input port of a component that is ready meets nothing to refuse. -/
theorem pullInput_passes {id : ComponentId} {index : Nat} {t : Turn κ ω} {p : Port}
    (hp : t.graph.portAt? id index = some p) (hd : p.direction = .input) :
    t.Passes (t.graph.Ready id) (pullInput converse id index t).returned
      (pullInput converse id index t).turn := by
  cases hend : p.atEnd with
  | true =>
    rw [pullInput_atEnd hp hend]
    exact .refl t.graph t.env
  | false =>
    cases hconn : t.graph.connectionOf? p with
    | none =>
      rw [pullInput_unconnected hp hend hconn]
      refine .refuse t _ fun hready => ?_
      obtain ⟨conn, -, hof, -⟩ := hready.connected hp hd
      rw [hconn] at hof
      cases hof
    | some conn =>
      have hready : t.graph.Ready id → t.graph.Ready conn.output.component ∧
          t.graph.CanAnswer conn.output.component conn.output.index := by
        intro hready
        obtain ⟨conn', hmem, hof, hinput⟩ := hready.connected hp hd
        obtain rfl : conn = conn' := Option.some.inj (hconn.symm.trans hof)
        exact hready.feeder hmem (by rw [hinput])
      have hpull := (pullOutput_passes hc conn.output.component conn.output.index t).mono hready
      rw [pullInput_connected hp hend hconn]
      generalize pullOutput converse conn.output.component conn.output.index t = x at hpull ⊢
      obtain ⟨result, t'⟩ := x
      cases result with
      | none => exact hpull
      | some answer => exact hpull.trans (Turn.Passes.latch t' id index answer) fun hready => hready

end Pulls

/-- Pulling leaves alone what a run leaves alone, puts back what it takes out, and meets
nothing to refuse if all is ready. -/
theorem passesReady_pullLaw [Behavior κ ω] : PullLaw (PassesReady : TurnRelation κ ω) where
  refl := fun _ t => .refl t.graph t.env
  stop := fun _ t => .refl t.graph t.env
  trans := by
    intro id t t' t'' returned h h'
    -- the first request has put back what it took out, so all is ready for the second
    refine Graph.Passes.trans h h' fun hready => ?_
    refine hready.of_eq h.leads.topology fun a _ => ?_
    rw [h.restored rfl]
  act := fun _ t x => .perform t x
  pull := fun hc _ _ _ _ hp hd => pullInput_passes hc hp hd

end PullGraph
