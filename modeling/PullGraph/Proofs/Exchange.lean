import PullGraph.Proofs.Pulling
import PullGraph.Proofs.Scenes

/-! # Exchanges

When an input port is pulled, the component at the other end is asked, does what it does,
and answers; whoever pulled learns of the answer. `Pulled` says what a pull can come to.
Most of what there is to say about pulls, however far they reach, comes down to such
exchanges: `ExchangeLaw` says what it takes for a relation between turns to hold of them,
and then it holds of whatever filters do.
-/
namespace PullGraph

variable {κ ω : Type}

theorem Graph.presence_eq_map (g : Graph κ ω) : g.presence = g.behaviors.map Option.isSome := by
  simp [presence, behaviors, Function.comp_def]

/-- The failure of a component's own pull. -/
def Event.failure? : Event → Option Failure
  | .call _ component (.answered _ (.error cause)) => some ⟨component, cause⟩
  | _ => none

/-- What those who asked learn of an answer. -/
def handOn : Except Fault Pull → Except Fault Pull
  | .ok pulled => .ok pulled
  | .error _ => .error .feederFailed

theorem accept_result (a : ComponentId) (port : String) (answer : Except Fault Pull) (k : κ)
    (t : Turn κ ω) : (accept a port answer k t).result = some (handOn answer) := by
  cases answer <;> rfl

namespace Turn

/-- The turn in which component `a` has answered, and the answer has come to the port at
`index` of component `id`. -/
def settle (t : Turn κ ω) (id : ComponentId) (index : Nat) (a : ComponentId) (port : String)
    (answer : Except Fault Pull) (k : κ) : Turn κ ω :=
  (accept a port answer k t).turn.latch id index (handOn answer)

theorem settle_env (t : Turn κ ω) (id : ComponentId) (index : Nat) (a : ComponentId) (port : String)
    (answer : Except Fault Pull) (k : κ) :
    (t.settle id index a port answer k).env =
      t.env.record (.call t.graph.id a (.answered port answer)) := by
  obtain ⟨-, henv⟩ := accept_turn a port answer k t
  exact (latch_env _ id index (handOn answer)).trans henv

@[simp] theorem settle_about (t : Turn κ ω) (id : ComponentId) (index : Nat) (a : ComponentId)
    (port : String) (answer : Except Fault Pull) (k : κ) :
    (t.settle id index a port answer k).env.journal.about t.graph.id =
      t.env.journal.about t.graph.id ++ [.call t.graph.id a (.answered port answer)] := by
  simp [settle_env]

@[simp] theorem ask_about (t : Turn κ ω) (a : ComponentId) (port : String) :
    (t.ask a port).env.journal.about t.graph.id =
      t.env.journal.about t.graph.id ++ [.call t.graph.id a (.asked port)] :=
  Journal.about_record_call t.env.journal a (.asked port)

@[simp] theorem setBehavior_behaviors (t : Turn κ ω) (id : ComponentId) (k : Option κ) :
    (t.setBehavior id k).graph.behaviors = t.graph.behaviors.set id k := by
  refine map_modify_eq_set (fun c => ?_) t.graph.components id
  rfl

@[simp] theorem latch_behaviors (t : Turn κ ω) (id : ComponentId) (index : Nat)
    (answer : Except Fault Pull) : (t.latch id index answer).graph.behaviors = t.graph.behaviors := by
  unfold latch
  split
  · refine map_modify_of_eq (fun c => ?_) t.graph.components id
    rfl
  · rfl

@[simp] theorem ask_behaviors (t : Turn κ ω) (a : ComponentId) (port : String) :
    (t.ask a port).graph.behaviors = t.graph.behaviors.set a none :=
  t.setBehavior_behaviors a none

@[simp] theorem settle_behaviors (t : Turn κ ω) (id : ComponentId) (index : Nat) (a : ComponentId)
    (port : String) (answer : Except Fault Pull) (k : κ) :
    (t.settle id index a port answer k).graph.behaviors = t.graph.behaviors.set a (some k) := by
  obtain ⟨hgraph, -⟩ := accept_turn a port answer k t
  rw [settle, latch_behaviors, hgraph, setBehavior_behaviors]

/-- An answer that is a failure is kept, unless there was one before. -/
theorem settle_failure (t : Turn κ ω) (id index : Nat) (a : ComponentId) (port : String)
    (answer : Except Fault Pull) (k : κ) :
    (t.settle id index a port answer k).failure =
      t.failure.or (Event.call t.graph.id a (.answered port answer)).failure? := by
  match answer with
  | .ok .endOfStream | .ok .again | .ok (.message m) =>
    simp [settle, accept, handOn, latch, markAtEnd, record, setBehavior, Event.failure?]
  | .error cause => rfl

/-- A pull of the port `p` asks component `c`, in its inner state `k`, for its port `out`. -/
structure Asks (t : Turn κ ω) (id : ComponentId) (index : Nat) (p : Port) (conn : Connection)
    (c : Component κ) (out : Port) (k : κ) : Prop where
  port : t.graph.portAt? id index = some p
  open_ : p.atEnd = false
  connection : t.graph.connectionOf? p = some conn
  component : t.graph.components[conn.output.component]? = some c
  output : t.graph.portAt? conn.output.component conn.output.index = some out
  inPlace : c.behavior = some k

theorem Asks.mem_connections {t : Turn κ ω} {id : ComponentId} {index : Nat} {p out : Port}
    {conn : Connection} {c : Component κ} {k : κ} (h : t.Asks id index p conn c out k) :
    conn ∈ t.graph.connections := by
  obtain ⟨number, -, hget⟩ := Option.bind_eq_some_iff.mp h.connection
  exact List.mem_of_getElem? hget

theorem Asks.input_eq {t : Turn κ ω} {id : ComponentId} {index : Nat} {p out : Port}
    {conn : Connection} {c : Component κ} {k : κ} (h : t.Asks id index p conn c out k)
    (hw : t.graph.topology.Wired) (hd : p.direction = .input) :
    conn.input = ⟨t.graph.id, id, index, .input⟩ := by
  obtain ⟨number, hnumber, -⟩ := Option.bind_eq_some_iff.mp h.connection
  obtain ⟨conn', -, hconn', hinput⟩ := Graph.connectionOf?_of_connection hw h.port hd hnumber
  obtain rfl : conn = conn' := Option.some.inj (h.connection.symm.trans hconn')
  exact hinput

end Turn

section Pulls

variable [Behavior κ ω]

/-- What a pull of an input port can come to. -/
inductive Pulled (converse : Converse κ ω) (id : ComponentId) (index : Nat) (t : Turn κ ω) :
    Answer κ ω (Except Fault Pull) → Prop where
  /-- The stream has ended, and nobody is asked. -/
  | atEnd {p : Port} (port : t.graph.portAt? id index = some p) (ended : p.atEnd = true) :
      Pulled converse id index t ⟨some (.ok .endOfStream), t⟩
  /-- The executor refuses. -/
  | refused (fault : Fault) (own : fault ≠ .feederFailed) :
      Pulled converse id index t ⟨some (.error fault), t.refuse fault⟩
  /-- A component is asked and runs out of patience. -/
  | unanswered {p out : Port} {conn : Connection} {c : Component κ} {k : κ} {t' : Turn κ ω}
      (asks : t.Asks id index p conn c out k)
      (produced : produce converse c.kind conn.output.component out.name k
        (t.ask conn.output.component out.name) = ⟨none, t'⟩) :
      Pulled converse id index t ⟨none, t'⟩
  /-- A component is asked and answers. -/
  | answered {p out : Port} {conn : Connection} {c : Component κ} {k k' : κ} {t' : Turn κ ω}
      {answer : Except Fault Pull} (asks : t.Asks id index p conn c out k)
      (produced : produce converse c.kind conn.output.component out.name k
        (t.ask conn.output.component out.name) = ⟨some (answer, k'), t'⟩) :
      Pulled converse id index t
        ⟨some (handOn answer), t'.settle id index conn.output.component out.name answer k'⟩

/-- A pull that asks a component comes to what the component makes of it. -/
theorem pullInput_asks {converse : Converse κ ω} {id : ComponentId} {index : Nat} {t : Turn κ ω}
    {p out : Port} {conn : Connection} {c : Component κ} {k : κ}
    (h : t.Asks id index p conn c out k) :
    pullInput converse id index t =
      (produce converse c.kind conn.output.component out.name k
        (t.ask conn.output.component out.name)).andThen fun r t' => ⟨some (handOn r.1),
          t'.settle id index conn.output.component out.name r.1 r.2⟩ := by
  rw [pullInput_connected h.port h.open_ h.connection]
  simp only [pullOutput, h.component, h.output, h.inPlace]
  change ((produce converse c.kind conn.output.component out.name k
    (t.ask conn.output.component out.name)).andThen _).andThen _ = _
  generalize produce converse c.kind conn.output.component out.name k
    (t.ask conn.output.component out.name) = x
  obtain ⟨result, t'⟩ := x
  cases result with
  | none => rfl
  | some r =>
    have hresult := accept_result conn.output.component out.name r.1 r.2 t'
    simp only [Answer.andThen, Turn.settle]
    generalize accept conn.output.component out.name r.1 r.2 t' = y at hresult ⊢
    obtain ⟨result, t''⟩ := y
    obtain rfl : result = some (handOn r.1) := hresult
    rfl

theorem pullInput_pulled (converse : Converse κ ω) (id : ComponentId) (index : Nat)
    (t : Turn κ ω) : Pulled converse id index t (pullInput converse id index t) := by
  cases hp : t.graph.portAt? id index with
  | none =>
    rw [pullInput, hp]
    exact .refused _ (by simp)
  | some p =>
    cases hend : p.atEnd with
    | true =>
      rw [pullInput_atEnd hp hend]
      exact .atEnd hp hend
    | false =>
      cases hconn : t.graph.connectionOf? p with
      | none =>
        rw [pullInput_unconnected hp hend hconn]
        exact .refused _ (by simp)
      | some conn =>
        by_cases hasks : ∃ c out k, t.Asks id index p conn c out k
        · obtain ⟨c, out, k, hasks⟩ := hasks
          rw [pullInput_asks hasks]
          -- what the component produces decides which of the two cases it is
          cases hproduced : produce converse c.kind conn.output.component out.name k
              (t.ask conn.output.component out.name) with
          | mk result t' =>
            cases result with
            | none => exact .unanswered hasks hproduced
            | some r => exact .answered hasks hproduced
        · rw [pullInput_connected hp hend hconn]
          unfold pullOutput
          split
          · rename_i c out hcomponent hout
            cases hk : c.behavior with
            | none => exact .refused _ (by simp)
            | some k => exact absurd ⟨c, out, k, hp, hend, hconn, hcomponent, hout, hk⟩ hasks
          · exact .refused _ (by simp)

/-- What it takes for a relation between the turns before and after a request of a component
to hold of every exchange. -/
structure ExchangeLaw (Q : ComponentId → Turn κ ω → Turn κ ω → Prop) : Prop where
  refl : ∀ (id : ComponentId) (t : Turn κ ω), Q id t t
  trans : ∀ {id : ComponentId} {t t' t'' : Turn κ ω}, Q id t t' → Q id t' t'' → Q id t t''
  act : ∀ (id : ComponentId) (t : Turn κ ω) {α : Type} (x : Act ω α), Q id t (t.perform x).2
  refuse : ∀ (id : ComponentId) (t : Turn κ ω) (f : Fault), Q id t (t.refuse f)
  /-- A component is asked and does something. -/
  unanswered : ∀ {id : ComponentId} {index : Nat} {t t' : Turn κ ω} {p out : Port}
    {conn : Connection} {c : Component κ} {k : κ},
    t.Asks id index p conn c out k → p.direction = .input →
    Q conn.output.component (t.ask conn.output.component out.name) t' → Q id t t'
  /-- A component is asked, does something and answers. -/
  answered : ∀ {id : ComponentId} {index : Nat} {t t' : Turn κ ω} {p out : Port}
    {conn : Connection} {c : Component κ} {k : κ},
    t.Asks id index p conn c out k → p.direction = .input →
    Q conn.output.component (t.ask conn.output.component out.name) t' →
    ∀ answer k', Q id t (t'.settle id index conn.output.component out.name answer k')

namespace ExchangeLaw

variable {Q : ComponentId → Turn κ ω → Turn κ ω → Prop}

/-- The law for requests in general; whether they come to their end makes no difference. -/
abbrev relation (Q : ComponentId → Turn κ ω → Turn κ ω → Prop) : TurnRelation κ ω :=
  fun id t _ t' => Q id t t'

theorem produce (h : ExchangeLaw Q) {converse : Converse κ ω} (hc : converse.Obeys (relation Q))
    (kind : Kind) (a : ComponentId) (port : String) (k : κ) (t : Turn κ ω) :
    Q a t (produce converse kind a port k t).turn := by
  cases kind with
  | source => exact h.act a t (Behavior.emit port k)
  | filter => exact hc a port k t
  | sink => exact h.refuse a t .sinkWithoutOutputs

theorem pullInput (h : ExchangeLaw Q) {converse : Converse κ ω} (hc : converse.Obeys (relation Q))
    {id : ComponentId} {index : Nat} {t : Turn κ ω} {p : Port}
    (hp : t.graph.portAt? id index = some p) (hd : p.direction = .input) :
    Q id t (pullInput converse id index t).turn := by
  have hpulled := pullInput_pulled converse id index t
  generalize PullGraph.pullInput converse id index t = x at hpulled ⊢
  cases hpulled with
  | atEnd => exact h.refl id t
  | refused fault => exact h.refuse id t fault
  | @unanswered p' out conn c k t' hasks hproduced =>
    obtain rfl : p = p' := Option.some.inj (hp.symm.trans hasks.port)
    have hq := h.produce hc c.kind conn.output.component out.name k
      (t.ask conn.output.component out.name)
    rw [hproduced] at hq
    exact h.unanswered hasks hd hq
  | @answered p' out conn c k k' t' answer hasks hproduced =>
    obtain rfl : p = p' := Option.some.inj (hp.symm.trans hasks.port)
    have hq := h.produce hc c.kind conn.output.component out.name k
      (t.ask conn.output.component out.name)
    rw [hproduced] at hq
    exact h.answered hasks hd hq answer k'

/-- **What holds of exchanges holds of whatever a filter does.** -/
theorem pullLaw (h : ExchangeLaw Q) : PullLaw (relation Q) where
  refl := h.refl
  stop := h.refl
  trans := h.trans
  act := fun id t x => h.act id t x
  pull := fun hc _ _ _ _ hp hd => h.pullInput hc hp hd

end ExchangeLaw
end Pulls
end PullGraph
