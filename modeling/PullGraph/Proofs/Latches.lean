import PullGraph.Proofs.Exchange
import PullGraph.Proofs.Rounds

/-! # Streams stay ended

An input port notes that the stream into it has ended, and nothing ever takes that back.
`Graph.Latches` says which ports may have been noted so between two moments; no other
port differs. Pulling reaches upstream, where there are no sinks, so a pull step leaves
alone the ports of all sinks but the one that it is made for.
-/
namespace PullGraph

variable {κ ω : Type}

namespace Graph

variable {g g' g'' : Graph κ ω} {S S' : Nat → Nat → Prop}

/-- The ports of `g` are those of `g'`, except that streams into input ports that `S` allows
may have ended. -/
def Latches (S : Nat → Nat → Prop) (g g' : Graph κ ω) : Prop :=
  ∀ i j p, g.portAt? i j = some p → ∃ p', g'.portAt? i j = some p' ∧
    (p' = p ∨ p' = { p with atEnd := true } ∧ p.direction = .input ∧ S i j)

namespace Latches

theorem of_eq (h : ∀ i j, g'.portAt? i j = g.portAt? i j) : g.Latches S g' := by
  intro i j p hp
  exact ⟨p, (h i j).trans hp, .inl rfl⟩

theorem refl (g : Graph κ ω) : g.Latches S g := of_eq fun _ _ => rfl

theorem mono (h : g.Latches S g') (hS : ∀ i j, S i j → S' i j) : g.Latches S' g' := by
  intro i j p hp
  obtain ⟨p', hp', hsame | ⟨hended, hd, hs⟩⟩ := h i j p hp
  · exact ⟨p', hp', .inl hsame⟩
  · exact ⟨p', hp', .inr ⟨hended, hd, hS i j hs⟩⟩

theorem trans (h : g.Latches S g') (h' : g'.Latches S g'') : g.Latches S g'' := by
  intro i j p hp
  obtain ⟨p', hp', hchange⟩ := h i j p hp
  obtain ⟨p'', hp'', hchange'⟩ := h' i j p' hp'
  refine ⟨p'', hp'', ?_⟩
  rcases hchange with rfl | ⟨rfl, hd, hs⟩
  · exact hchange'
  · rcases hchange' with rfl | ⟨rfl, -, -⟩
    · exact .inr ⟨rfl, hd, hs⟩
    · exact .inr ⟨rfl, hd, hs⟩

/-- A stream that has ended stays ended. -/
theorem atEnd (h : g.Latches S g') {i j : Nat} {p : Port} (hp : g.portAt? i j = some p)
    (hend : p.atEnd = true) : g'.portAt? i j = some p := by
  obtain ⟨p', hp', rfl | ⟨rfl, -, -⟩⟩ := h i j p hp
  · exact hp'
  · rw [hp', ← hend]

/-- A port that `S` does not allow is as it was. -/
theorem portAt?_eq (h : g.Latches S g') {i j : Nat} {p : Port} (hp : g.portAt? i j = some p)
    (hs : ¬ S i j) : g'.portAt? i j = some p := by
  obtain ⟨p', hp', rfl | ⟨-, -, hallowed⟩⟩ := h i j p hp
  · exact hp'
  · exact absurd hallowed hs

/-- The ports of the later graph, seen from the earlier one. -/
theorem back (h : g.Latches S g') (htopology : g'.topology = g.topology) {i j : Nat} {p' : Port}
    (hp' : g'.portAt? i j = some p') : ∃ p, g.portAt? i j = some p ∧
      (p' = p ∨ p' = { p with atEnd := true } ∧ p.direction = .input ∧ S i j) := by
  obtain ⟨p, hp, -⟩ := portAt?_of_topology_eq htopology.symm hp'
  obtain ⟨p'', hp'', hchange⟩ := h i j p hp
  obtain rfl : p' = p'' := Option.some.inj (hp'.symm.trans hp'')
  exact ⟨p, hp, hchange⟩

end Latches

/-! ## What changes a port -/

theorem portAt?_modify {f : Component κ → Component κ} (h : ∀ c, (f c).ports = c.ports)
    (g : Graph κ ω) (id : ComponentId) (i j : Nat) :
    (g.modify id f).portAt? i j = g.portAt? i j := by
  simp only [portAt?, modify, List.getElem?_modify]
  cases g.components[i]? with
  | none => rfl
  | some c => by_cases hi : id = i <;> simp [hi, h]

theorem portAt?_modifyPort (m : Port → Port) (g : Graph κ ω) (id index i j : Nat) :
    (g.modify id fun c => c.modifyPort index m).portAt? i j =
      if id = i ∧ index = j then (g.portAt? i j).map m else g.portAt? i j := by
  simp only [portAt?, modify, List.getElem?_modify]
  cases g.components[i]? with
  | none => simp
  | some c =>
    by_cases hi : id = i
    · by_cases hj : index = j <;> simp [hi, hj, Component.modifyPort]
    · simp [hi]

end Graph

/-- Whether an answer says that the stream has ended. -/
def endsStream : Except Fault Pull → Bool
  | .ok .endOfStream => true
  | _ => false

namespace Turn

variable (t : Turn κ ω)

@[simp] theorem setBehavior_portAt? (id : ComponentId) (k : Option κ) (i j : Nat) :
    (t.setBehavior id k).graph.portAt? i j = t.graph.portAt? i j := by
  refine Graph.portAt?_modify (fun c => ?_) t.graph id i j
  rfl

@[simp] theorem ask_portAt? (a : ComponentId) (port : String) (i j : Nat) :
    (t.ask a port).graph.portAt? i j = t.graph.portAt? i j :=
  t.setBehavior_portAt? a none i j

/-- An answer that says so, and no other, notes the end of the stream at the port that it
comes to. -/
theorem settle_portAt? (id index : Nat) (a : ComponentId) (port : String)
    (answer : Except Fault Pull) (k : κ) (i j : Nat) :
    (t.settle id index a port answer k).graph.portAt? i j =
      if endsStream answer = true ∧ id = i ∧ index = j
      then (t.graph.portAt? i j).map fun p => { p with atEnd := true }
      else t.graph.portAt? i j := by
  match answer with
  | .ok .endOfStream =>
    refine (Graph.portAt?_modifyPort _ _ id index i j).trans ?_
    simp [accept, record, endsStream]
  | .ok .again => simp [settle, accept, handOn, latch, record, endsStream]
  | .ok (.message m) => simp [settle, accept, handOn, latch, record, endsStream]
  | .error cause => simp [settle, accept, handOn, latch, record, blame, endsStream]

theorem settle_topology (id index : Nat) (a : ComponentId) (port : String)
    (answer : Except Fault Pull) (k : κ) :
    (t.settle id index a port answer k).graph.topology = t.graph.topology := by
  obtain ⟨hgraph, -⟩ := accept_turn a port answer k t
  refine (latch_leads _ id index (handOn answer)).topology.trans ?_
  rw [hgraph]
  exact (t.setBehavior_leads a (some k)).topology

theorem settle_latches (id index : Nat) (a : ComponentId) (port : String)
    (answer : Except Fault Pull) (k : κ) {p : Port} (hp : t.graph.portAt? id index = some p)
    (hd : p.direction = .input) :
    t.graph.Latches (fun i j => i = id ∧ j = index) (t.settle id index a port answer k).graph := by
  intro i j p' hp'
  rw [t.settle_portAt? id index a port answer k i j]
  split
  · rename_i hend
    obtain ⟨-, rfl, rfl⟩ := hend
    obtain rfl : p' = p := Option.some.inj (hp'.symm.trans hp)
    exact ⟨_, by rw [hp']; rfl, .inr ⟨rfl, hd, rfl, rfl⟩⟩
  · exact ⟨p', hp', .inl rfl⟩

end Turn

/-! ## Pulling -/

/-- Where the end of a stream may be noted while component `id` is being asked: it is not a
sink, and nor is any component upstream. -/
def Topology.Above (T : Topology κ) (id : ComponentId) (i _ : Nat) : Prop :=
  T.Wired → T.kind? id ≠ some .sink → T.kind? i ≠ some .sink

/-- The relation for what a component does that is being asked. -/
def LatchesAbove (id : ComponentId) (t t' : Turn κ ω) : Prop :=
  t'.graph.topology = t.graph.topology ∧ t.graph.Latches (t.graph.topology.Above id) t'.graph

/-- A component that gives messages is not a sink. -/
theorem Turn.Asks.kind_ne_sink {t : Turn κ ω} {id : ComponentId} {index : Nat} {p out : Port}
    {conn : Connection} {c : Component κ} {k : κ} (h : t.Asks id index p conn c out k)
    (hw : t.graph.topology.Wired) :
    t.graph.topology.kind? conn.output.component ≠ some .sink := by
  obtain ⟨kind, hkind, hne⟩ := hw.kind_of_feeds (a := conn.output.component)
    ⟨conn, h.mem_connections, rfl, rfl⟩
  rw [hkind]
  exact fun heq => hne (Option.some.inj heq)

theorem LatchesAbove.of_asked {t t' : Turn κ ω} {id : ComponentId} {index : Nat} {p out : Port}
    {conn : Connection} {c : Component κ} {k : κ} (hasks : t.Asks id index p conn c out k)
    (h : LatchesAbove conn.output.component (t.ask conn.output.component out.name) t') :
    t'.graph.topology = t.graph.topology ∧
      t.graph.Latches (fun i _ => t.graph.topology.Wired → t.graph.topology.kind? i ≠ some .sink)
        t'.graph := by
  have hask := (t.ask_leads conn.output.component out.name).topology
  obtain ⟨htopology, hlatches⟩ := h
  rw [hask] at htopology hlatches
  refine ⟨htopology, ?_⟩
  have hsame : t.graph.Latches (t.graph.topology.Above conn.output.component)
      (t.ask conn.output.component out.name).graph := .of_eq fun i j => t.ask_portAt? _ _ i j
  exact (hsame.trans hlatches).mono fun i j hallowed hw => hallowed hw (hasks.kind_ne_sink hw)

/-- Pulling only adds to the streams that have ended, and at no sink but the one that pulls. -/
theorem latchesAbove_law : ExchangeLaw (LatchesAbove : ComponentId → Turn κ ω → Turn κ ω → Prop) where
  refl _ t := ⟨rfl, .refl t.graph⟩
  trans := by
    rintro id t t' t'' ⟨htopology, hlatches⟩ ⟨htopology', hlatches'⟩
    rw [htopology] at htopology' hlatches'
    exact ⟨htopology', hlatches.trans hlatches'⟩
  act _ t _ _ := ⟨rfl, .refl t.graph⟩
  refuse _ t _ := ⟨rfl, .refl t.graph⟩
  unanswered := by
    intro id index t t' p out conn c k hasks _ h
    obtain ⟨htopology, hlatches⟩ := LatchesAbove.of_asked hasks h
    exact ⟨htopology, hlatches.mono fun i j hallowed hw _ => hallowed hw⟩
  answered := by
    intro id index t t' p out conn c k hasks hd h answer k'
    obtain ⟨htopology, hlatches⟩ := LatchesAbove.of_asked hasks h
    obtain ⟨p', hp', hchange⟩ := hlatches id index p hasks.port
    have hd' : p'.direction = .input := by
      rcases hchange with rfl | ⟨rfl, -, -⟩
      · exact hd
      · exact hd
    have hsettle := t'.settle_latches id index conn.output.component out.name answer k' hp' hd'
    refine ⟨(t'.settle_topology _ _ _ _ answer k').trans htopology, ?_⟩
    refine (hlatches.mono fun i j hallowed hw _ => hallowed hw).trans (hsettle.mono ?_)
    rintro i j ⟨rfl, rfl⟩ _ hne
    exact hne

/-- Where the end of a stream may be noted in a pull step: at the port that is pulled, and at
components that are not sinks. -/
def Topology.Within (T : Topology κ) (id index : Nat) (i j : Nat) : Prop :=
  (T.Wired → T.kind? i ≠ some .sink) ∨ i = id ∧ j = index

section Pulls

variable [Behavior κ ω]

theorem pullInput_latches (patience : Nat) {id : ComponentId} {index : Nat} {t : Turn κ ω} {p : Port}
    (hp : t.graph.portAt? id index = some p) (hd : p.direction = .input) :
    t.graph.Latches (t.graph.topology.Within id index)
      (pullInput (converse patience) id index t).turn.graph := by
  have hlaw : ExchangeLaw (LatchesAbove : ComponentId → Turn κ ω → Turn κ ω → Prop) :=
    latchesAbove_law
  have hpulled := pullInput_pulled (converse patience) id index t
  generalize pullInput (converse patience) id index t = x at hpulled ⊢
  cases hpulled with
  | atEnd => exact .refl t.graph
  | refused fault => exact .refl t.graph
  | @unanswered p' out conn c k t' hasks hproduced =>
    have hq := hlaw.produce (hlaw.pullLaw.converse patience) c.kind conn.output.component out.name k
      (t.ask conn.output.component out.name)
    rw [hproduced] at hq
    exact (LatchesAbove.of_asked hasks hq).2.mono fun i j hallowed => .inl hallowed
  | @answered p' out conn c k k' t' answer hasks hproduced =>
    obtain rfl : p = p' := Option.some.inj (hp.symm.trans hasks.port)
    have hq := hlaw.produce (hlaw.pullLaw.converse patience) c.kind conn.output.component out.name k
      (t.ask conn.output.component out.name)
    rw [hproduced] at hq
    have hlatches := (LatchesAbove.of_asked hasks hq).2
    obtain ⟨p', hp', hchange⟩ := hlatches id index p hp
    have hd' : p'.direction = .input := by
      rcases hchange with rfl | ⟨rfl, -, -⟩
      · exact hd
      · exact hd
    have hsettle := t'.settle_latches id index conn.output.component out.name answer k' hp' hd'
    exact (hlatches.mono fun i j hallowed => .inl hallowed).trans
      (hsettle.mono fun i j hhere => .inr hhere)

namespace Graph

variable (g : Graph κ ω)

theorem deliver_portAt? (id : ComponentId) (index : Nat) (arrival : Option Message) (env : Env ω)
    (i j : Nat) : (g.deliver id index arrival env).graph.portAt? i j = g.portAt? i j := by
  by_cases hready : g.CanTake id
  · obtain ⟨c, k, hc, hb, hk⟩ := hready
    obtain ⟨port, result, k', env', -, hgraph, -⟩ := deliver_sink hc hb hk index arrival env
    have hmodify := portAt?_modify (f := fun c : Component κ => { c with behavior := some k' })
      (fun _ => rfl) (g.count arrival) id i j
    rw [hgraph, hmodify]
    cases arrival <;> rfl
  · obtain ⟨cause, hdeliver⟩ := deliver_eq_turnAway hready index arrival env
    rw [hdeliver]
    rfl

theorem afterPull_portAt? (id : ComponentId) (index : Nat) (pulled : Except Fault Pull)
    (t : Turn κ ω) (i j : Nat) :
    (afterPull id index pulled t).graph.portAt? i j = t.graph.portAt? i j := by
  unfold afterPull
  split
  · rfl
  · rfl
  · rfl
  · exact t.graph.deliver_portAt? id index _ t.env i j
  · exact t.graph.deliver_portAt? id index _ t.env i j

/-- **A pull step** only adds to the streams that have ended; of the ports of sinks, only the
one that it is made for can be noted so. -/
theorem sinkStep_latches {g : Graph κ ω} {id index : Nat} {p : Port}
    (hp : g.portAt? id index = some p) (hd : p.direction = .input) (patience : Nat) (env : Env ω) :
    g.Latches (g.topology.Within id index) (g.sinkStep patience id index env).graph := by
  have hpull := pullInput_latches (t := (⟨g, env, none⟩ : Turn κ ω)) patience hp hd
  unfold sinkStep
  generalize pullInput (converse patience) id index ⟨g, env, none⟩ = x at hpull ⊢
  obtain ⟨result, t⟩ := x
  cases result with
  | none => exact hpull
  | some pulled => exact hpull.trans (.of_eq fun i j => afterPull_portAt? id index pulled t i j)

end Graph
end Pulls
end PullGraph
