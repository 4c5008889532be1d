import PullGraph.Proofs.Line

/-! # What standard sources have left

Standard sources give a number of messages and then end. Messages are neither made nor lost on
the way to the journal: what is left and what the journal says was given add up to the same
number. Every message that a pull brings was taken from what was left, and a filter that drops
a message and starts over has used one up. So among standard components a pull always comes to
its end, and never without a message, the end of a stream or a fault: `Turn.Gives`. How much
patience it takes depends on what is left and on how many components can be asked.
-/
namespace PullGraph

variable {κ ω : Type}

namespace Standard

/-- How many messages a component has left to give. -/
def left : Standard ω → Nat
  | .counter next stop => (stop.toInt - next.toInt).toNat
  | .items rest => rest.length
  | .passthrough | .transform _ | .discard | .collect _ => 0

theorem toInt_succ {next stop : Int64} (h : next < stop) :
    (next + 1).toInt = next.toInt + 1 := by
  have hlt : next.toInt < stop.toInt := Int64.lt_iff_toInt_lt.mp h
  have hmin := next.le_toInt
  have hmax := stop.toInt_lt
  rw [Int64.toInt_add]
  exact Int.bmod_eq_of_le (by rw [Int64.toInt_one]; omega) (by rw [Int64.toInt_one]; omega)

/-- A component that is asked as a source gives a message, and has one less left, or is at its
end. -/
theorem emit_cases (k : Standard ω) :
    k.emit = (.endOfStream, k) ∨ ∃ m k', k.emit = (.message m, k') ∧ k'.left + 1 = k.left := by
  cases k with
  | counter next stop =>
    by_cases h : next < stop
    · refine .inr ⟨.int next, .counter (next + 1) stop, if_pos h, ?_⟩
      have hlt : next.toInt < stop.toInt := Int64.lt_iff_toInt_lt.mp h
      have hsucc := toInt_succ h
      simp only [left]
      omega
    · exact .inl (if_neg h)
  | items rest =>
    cases rest with
    | nil => exact .inl rfl
    | cons m rest => exact .inr ⟨m, .items rest, rfl, rfl⟩
  | passthrough | transform | discard | collect => exact .inl rfl

/-- A component that is asked as a filter pulls its input port. It passes on what comes, or
makes of a message another one, a fault, or nothing. -/
theorem answer_cases (k : Standard ω) : ∃ next, k.answer = .pull inputPort next ∧
    ∀ r, next r = .reply r k ∨ ∃ m, r = .ok (.message m) ∧
      (next r = .retry k ∨ (∃ m', next r = .reply (.ok (.message m')) k) ∨
        ∃ text, next r = .reply (.error (.own text)) k) := by
  cases k with
  | transform f =>
    refine ⟨_, rfl, fun r => ?_⟩
    rcases r with fault | m | _ | _
    · exact .inl rfl
    · refine .inr ⟨m, rfl, ?_⟩
      cases hm : f m with
      | error text => exact .inr (.inr ⟨text, by simp only [hm]⟩)
      | ok o =>
        cases o with
        | none => exact .inl (by simp only [hm])
        | some m' => exact .inr (.inl ⟨m', by simp only [hm]⟩)
    · exact .inl rfl
    · exact .inl rfl
  | counter | items | passthrough | discard | collect => exact ⟨_, rfl, fun r => .inl rfl⟩

/-- What components have left that are in place. -/
def supplyOf : List (Option (Standard ω)) → Nat
  | [] => 0
  | none :: ks => supplyOf ks
  | some k :: ks => k.left + supplyOf ks

theorem supplyOf_set_none {ks : List (Option (Standard ω))} {i : Nat} {k : Standard ω}
    (h : ks[i]? = some (some k)) : supplyOf (ks.set i none) + k.left = supplyOf ks := by
  induction ks generalizing i with
  | nil => cases h
  | cons o ks ih =>
    cases i with
    | zero =>
      obtain rfl : o = some k := Option.some.inj h
      simp only [List.set_cons_zero, supplyOf]
      omega
    | succ i =>
      have hrest := ih h
      cases o <;> simp only [List.set_cons_succ, supplyOf] <;> omega

theorem supplyOf_set_some {ks : List (Option (Standard ω))} {i : Nat} (k : Standard ω)
    (h : ks[i]? = some none) : supplyOf (ks.set i (some k)) = supplyOf ks + k.left := by
  have hlt : i < ks.length := (List.getElem?_eq_some_iff.mp h).1
  have htaken : supplyOf ((ks.set i (some k)).set i none) + k.left = supplyOf (ks.set i (some k)) :=
    supplyOf_set_none (List.getElem?_set_self hlt)
  rw [List.set_set, set_eq_self h] at htaken
  exact htaken.symm

end Standard

/-- How many components are in place. -/
def Graph.present (g : Graph κ ω) : Nat := g.presence.count true

/-- What the components of a graph have left to give. -/
def Graph.supply (g : Graph (Standard ω) ω) : Nat := Standard.supplyOf g.behaviors

theorem Graph.present_le (g : Graph κ ω) : g.present ≤ g.components.length := by
  have hcount : g.presence.count true ≤ g.presence.length := List.count_le_length
  rwa [presence, List.length_map] at hcount

/-- A component that is asked cannot be asked again before it has answered. -/
theorem Turn.ask_present {t : Turn κ ω} {a : ComponentId} {k : κ}
    (h : t.graph.behaviors[a]? = some (some k)) (port : String) :
    (t.ask a port).graph.present + 1 = t.graph.present := by
  have hpresent : t.graph.presence[a]? = some true := by
    rw [Graph.presence_eq_map, List.getElem?_map, h]
    rfl
  obtain ⟨hlt, hget⟩ := List.getElem?_eq_some_iff.mp hpresent
  have hpos : 0 < t.graph.presence.count true :=
    List.count_pos_iff.mpr (List.mem_of_getElem? hpresent)
  rw [Graph.present, Graph.present, t.ask_presence, List.count_set hlt, hget]
  simp only [beq_self_eq_true, if_true, Bool.false_beq, Bool.not_true, Bool.false_eq_true, if_false]
  omega

/-! ## Messages that were given -/

/-- Whether an event is that a source gives a message. -/
def Topology.supplies (T : Topology κ) : Event → Bool
  | .call _ a (.answered _ (.ok (.message _))) => T.kind? a = some .source
  | _ => false

/-- How many messages a component of a kind gives with an answer, as a source. -/
def givenBy : Kind → Except Fault Pull → Nat
  | .source, .ok (.message _) => 1
  | _, _ => 0

theorem countP_supplies_answered {T : Topology κ} {a : ComponentId} {kind : Kind}
    (h : T.kind? a = some kind) (graph : GraphId) (port : String) (answer : Except Fault Pull) :
    [Event.call graph a (.answered port answer)].countP T.supplies = givenBy kind answer := by
  rcases answer with fault | m | _ | _
  · cases kind <;> rfl
  · cases kind <;> simp [Topology.supplies, givenBy, h]
  · cases kind <;> rfl
  · cases kind <;> rfl

/-- How many messages the sources of a graph have given. -/
def Graph.given (g : Graph κ ω) (env : Env ω) : Nat :=
  (env.journal.about g.id).countP g.topology.supplies

theorem Graph.given_of_about {g g' : Graph κ ω} {env env' : Env ω}
    (htopology : g'.topology = g.topology) {es : List Event}
    (habout : env'.journal.about g.id = env.journal.about g.id ++ es) :
    g'.given env' = g.given env + es.countP g.topology.supplies := by
  have hid : g'.id = g.id := congrArg Topology.id htopology
  rw [given, given, htopology, hid, habout, List.countP_append]

/-- What is left and what was given. -/
def Turn.stock (t : Turn (Standard ω) ω) : Nat := t.graph.supply + t.graph.given t.env

section Gives

variable {t t' t'' : Turn (Standard ω) ω}

theorem Turn.ask_stock {a : ComponentId} {k : Standard ω}
    (h : t.graph.behaviors[a]? = some (some k)) (port : String) :
    (t.ask a port).graph.supply + k.left = t.graph.supply ∧
      (t.ask a port).stock + k.left = t.stock := by
  have hsupply : (t.ask a port).graph.supply + k.left = t.graph.supply := by
    rw [Graph.supply, t.ask_behaviors]
    exact Standard.supplyOf_set_none h
  have hgiven : (t.ask a port).graph.given (t.ask a port).env = t.graph.given t.env + 0 :=
    Graph.given_of_about (t.ask_leads a port).topology (t.ask_about a port)
  refine ⟨hsupply, ?_⟩
  unfold stock
  omega

theorem Turn.settle_stock {a : ComponentId} {kind : Kind} (h : t.graph.behaviors[a]? = some none)
    (hkind : t.graph.topology.kind? a = some kind) (id index : Nat) (port : String)
    (answer : Except Fault Pull) (k : Standard ω) :
    (t.settle id index a port answer k).graph.supply = t.graph.supply + k.left ∧
      (t.settle id index a port answer k).stock = t.stock + k.left + givenBy kind answer := by
  have hsupply : (t.settle id index a port answer k).graph.supply = t.graph.supply + k.left := by
    rw [Graph.supply, t.settle_behaviors]
    exact Standard.supplyOf_set_some k h
  have hgiven := Graph.given_of_about (t.settle_topology id index a port answer k)
    (t.settle_about id index a port answer k)
  rw [countP_supplies_answered hkind] at hgiven
  refine ⟨hsupply, ?_⟩
  unfold stock
  omega

theorem Turn.refuse_stock (t : Turn (Standard ω) ω) (f : Fault) : (t.refuse f).stock = t.stock := by
  have htopology : (t.refuse f).graph.topology = t.graph.topology := rfl
  have habout : (t.refuse f).env.journal.about t.graph.id =
      t.env.journal.about t.graph.id ++ [.refused t.graph.id f] :=
    Journal.about_record_refused t.env.journal f
  have hgiven := Graph.given_of_about htopology habout
  exact congrArg (t.graph.supply + ·) hgiven

/-- What a request for a message comes to: a message, for which some source has less left, the
end of a stream, or a fault. -/
structure Turn.Gives (t : Turn (Standard ω) ω) (r : Except Fault Pull) (t' : Turn (Standard ω) ω) :
    Prop where
  draws : t.Draws t'
  presence : t'.graph.presence = t.graph.presence
  decisive : r ≠ .ok .again
  stock : t'.stock = t.stock
  supply : t'.graph.supply ≤ t.graph.supply
  used : ∀ m, r = .ok (.message m) → t'.graph.supply < t.graph.supply

namespace Turn.Gives

theorem same (t : Turn (Standard ω) ω) {r : Except Fault Pull} (h : r ≠ .ok .again)
    (hnone : ∀ m, r ≠ .ok (.message m)) : t.Gives r t where
  draws := ⟨rfl, rfl, rfl, rfl, rfl, rfl⟩
  presence := rfl
  decisive := h
  stock := rfl
  supply := Nat.le_refl _
  used m hm := absurd hm (hnone m)

theorem refuse (t : Turn (Standard ω) ω) (f : Fault) : t.Gives (.error f) (t.refuse f) where
  draws := ⟨rfl, rfl, rfl, rfl, rfl, rfl⟩
  presence := rfl
  decisive := nofun
  stock := t.refuse_stock f
  supply := Nat.le_refl _
  used := nofun

/-- What a filter makes of what it is given: a fault, or a message if it was given one. -/
theorem reply {r r' : Except Fault Pull} (h : t.Gives r t') (hdecisive : r' ≠ .ok .again)
    (hmessage : ∀ m', r' = .ok (.message m') → ∃ m, r = .ok (.message m)) : t.Gives r' t' where
  draws := h.draws
  presence := h.presence
  decisive := hdecisive
  stock := h.stock
  supply := h.supply
  used m' hm' := (hmessage m' hm').elim h.used

/-- What was drawn before makes no difference. -/
theorem trans {r r' : Except Fault Pull} (h : t.Gives r t') (h' : t'.Gives r' t'') :
    t.Gives r' t'' where
  draws := h.draws.trans h'.draws
  presence := h'.presence.trans h.presence
  decisive := h'.decisive
  stock := h'.stock.trans h.stock
  supply := Nat.le_trans h'.supply h.supply
  used m hm := Nat.lt_of_lt_of_le (h'.used m hm) h.supply

end Turn.Gives

/-- What a component of a kind, in its inner state `k`, comes to when it is asked. It is left
with `k'`. -/
structure Turn.Makes (t : Turn (Standard ω) ω) (kind : Kind) (k : Standard ω)
    (r : Except Fault Pull) (k' : Standard ω) (t' : Turn (Standard ω) ω) : Prop where
  draws : t.Draws t'
  presence : t'.graph.presence = t.graph.presence
  decisive : r ≠ .ok .again
  stock : t'.stock + k'.left + givenBy kind r = t.stock + k.left
  supply : t'.graph.supply + k'.left ≤ t.graph.supply + k.left
  used : ∀ m, r = .ok (.message m) → t'.graph.supply + k'.left < t.graph.supply + k.left

/-- Filters answer if there is less left, and fewer components can be asked, than `bound`. -/
def Converse.Decides (converse : Converse (Standard ω) ω) (bound : Nat) : Prop :=
  ∀ id port k t, t.graph.supply + t.graph.present < bound →
    ∃ r t', converse id port k t = ⟨some (r, k), t'⟩ ∧ t.Gives r t'

theorem produce_makes {converse : Converse (Standard ω) ω} {bound : Nat}
    (hc : converse.Decides bound) (kind : Kind) (a : ComponentId) (port : String) (k : Standard ω)
    (t : Turn (Standard ω) ω) (hbound : t.graph.supply + t.graph.present < bound) :
    ∃ r k' t', produce converse kind a port k t = ⟨some (r, k'), t'⟩ ∧ t.Makes kind k r k' t' := by
  cases kind with
  | source =>
    have hsame : t.Draws t := ⟨rfl, rfl, rfl, rfl, rfl, rfl⟩
    have hproduce : produce converse .source a port k t =
      ⟨some (k.emit.map Except.ok id), t⟩ := rfl
    rw [hproduce]
    rcases k.emit_cases with hend | ⟨m, k', hmessage, hless⟩
    · rw [hend]
      exact ⟨_, _, _, rfl, hsame, rfl, nofun, rfl, Nat.le_refl _, nofun⟩
    · rw [hmessage]
      refine ⟨_, _, _, rfl, hsame, rfl, nofun, ?_, ?_, fun _ _ => ?_⟩
      · change t.stock + k'.left + 1 = t.stock + k.left
        omega
      · change t.graph.supply + k'.left ≤ t.graph.supply + k.left
        omega
      · change t.graph.supply + k'.left < t.graph.supply + k.left
        omega
  | filter =>
    obtain ⟨r, t', hconverse, hgives⟩ := hc a port k t hbound
    refine ⟨r, k, t', hconverse, hgives.draws, hgives.presence, hgives.decisive, ?_, ?_, ?_⟩
    · exact congrArg (· + k.left) hgives.stock
    · exact Nat.add_le_add_right hgives.supply _
    · exact fun m hm => Nat.add_lt_add_right (hgives.used m hm) _
  | sink =>
    have hrefuse := Turn.Gives.refuse t .sinkWithoutOutputs
    refine ⟨_, k, t.refuse .sinkWithoutOutputs, rfl, hrefuse.draws, rfl, nofun, ?_, ?_, nofun⟩
    · exact congrArg (· + k.left) hrefuse.stock
    · exact Nat.add_le_add_right hrefuse.supply _

/-- A component that was asked has its inner state back when it has answered, and nothing got
lost. -/
theorem Turn.Makes.gives {a : ComponentId} {port : String} {kind : Kind} {k k' : Standard ω}
    {r : Except Fault Pull} (h : (t.ask a port).Makes kind k r k' t')
    (hk : t.graph.behaviors[a]? = some (some k)) (hkind : t.graph.topology.kind? a = some kind)
    (id index : Nat) : t.Gives (handOn r) (t'.settle id index a port r k') := by
  have hpresent : t.graph.presence[a]? = some true := by
    rw [Graph.presence_eq_map, List.getElem?_map, hk]
    rfl
  have htaken : t'.graph.presence[a]? = some false := by
    rw [h.presence, t.ask_presence, List.getElem?_set_self]
    exact (List.getElem?_eq_some_iff.mp hpresent).1
  have hout : t'.graph.behaviors[a]? = some none := by
    rw [Graph.presence_eq_map, List.getElem?_map, Option.map_eq_some_iff] at htaken
    obtain ⟨o, ho, hnone⟩ := htaken
    cases o with
    | none => exact ho
    | some k => cases hnone
  have hdraws := (Turn.Draws.ask t a port).trans h.draws
  have hask := Turn.ask_stock hk port
  have hsettle := Turn.settle_stock hout (hdraws.topology ▸ hkind) id index port r k'
  have hback : (t'.settle id index a port r k').graph.presence = t.graph.presence := by
    have hset := congrArg (List.map Option.isSome) (t'.settle_behaviors id index a port r k')
    rw [← Graph.presence_eq_map, List.map_set, ← Graph.presence_eq_map, h.presence, t.ask_presence,
      List.set_set] at hset
    rw [hset]
    exact set_eq_self hpresent
  have hstock := h.stock
  have hsupply := h.supply
  refine ⟨hdraws.trans (.settle t' id index a port r k'), hback, ?decisive, by omega, by omega, ?used⟩
  case decisive =>
    cases r with
    | ok pulled => exact h.decisive
    | error cause => exact nofun
  case used =>
    intro m hm
    cases r with
    | ok pulled =>
      have hused := h.used m hm
      omega
    | error cause => cases hm

/-- **A pull of an input port gives something** if filters upstream do. -/
theorem pullInput_gives {converse : Converse (Standard ω) ω} {bound : Nat}
    (hc : converse.Decides bound) (id : ComponentId) (index : Nat) (t : Turn (Standard ω) ω)
    (hbound : t.graph.supply + t.graph.present ≤ bound) :
    ∃ r t', pullInput converse id index t = ⟨some r, t'⟩ ∧ t.Gives r t' := by
  have hproduce : ∀ {p out conn c k}, t.Asks id index p conn c out k →
      ∃ r k' t', produce converse c.kind conn.output.component out.name k
          (t.ask conn.output.component out.name) = ⟨some (r, k'), t'⟩ ∧
        t.Gives (handOn r) (t'.settle id index conn.output.component out.name r k') := by
    intro p out conn c k hasks
    have hk : t.graph.behaviors[conn.output.component]? = some (some k) :=
      Graph.behaviors_eq_some.mpr ⟨c, hasks.component, hasks.inPlace⟩
    have hkind : t.graph.topology.kind? conn.output.component = some c.kind :=
      t.graph.topology_kind?_eq_some.mpr ⟨c, hasks.component, rfl⟩
    have hpresent := Turn.ask_present hk out.name
    have hsupply := (Turn.ask_stock hk out.name).1
    obtain ⟨r, k', t', hproduced, hmakes⟩ := produce_makes hc c.kind conn.output.component out.name k
      (t.ask conn.output.component out.name) (by omega)
    exact ⟨r, k', t', hproduced, hmakes.gives hk hkind id index⟩
  have hpulled := pullInput_pulled converse id index t
  generalize pullInput converse id index t = x at hpulled ⊢
  cases hpulled with
  | atEnd => exact ⟨_, t, rfl, .same t nofun nofun⟩
  | refused fault => exact ⟨_, _, rfl, .refuse t fault⟩
  | unanswered hasks hnone =>
    obtain ⟨r, k', t', hproduced, -⟩ := hproduce hasks
    exact nomatch (congrArg Answer.result hnone).symm.trans (congrArg Answer.result hproduced)
  | answered hasks hanswered =>
    obtain ⟨r, k', t', hproduced, hgives⟩ := hproduce hasks
    obtain ⟨heq, rfl⟩ := Answer.mk.inj (hanswered.symm.trans hproduced)
    obtain ⟨rfl, rfl⟩ := Prod.mk.inj (Option.some.inj heq)
    exact ⟨_, _, rfl, hgives⟩

theorem pullNamed_gives {converse : Converse (Standard ω) ω} {bound : Nat}
    (hc : converse.Decides bound) (id : ComponentId) (port : String) (t : Turn (Standard ω) ω)
    (hbound : t.graph.supply + t.graph.present ≤ bound) :
    ∃ r t', pullNamed converse id port t = ⟨some r, t'⟩ ∧ t.Gives r t' := by
  unfold pullNamed
  split
  · exact ⟨_, t, rfl, .same t nofun nofun⟩
  · exact pullInput_gives hc id _ t hbound

/-- **Among standard components filters always answer.**  A filter that starts over has used up
a message, and one that is reached further up has one component less to ask, so the induction
is on patience. -/
theorem converse_decides (patience : Nat) :
    (converse patience : Converse (Standard ω) ω).Decides patience := by
  induction patience with
  | zero => exact fun _ _ _ _ hbound => absurd hbound (Nat.not_lt_zero _)
  | succ patience ih =>
    intro id port k t hbound
    obtain ⟨r, t₁, hpull, hgives⟩ :=
      pullNamed_gives ih id Standard.inputPort t (Nat.le_of_lt_succ hbound)
    obtain ⟨next, hanswer, hnext⟩ := k.answer_cases
    rw [converse, show (Behavior.answer port k : Dialogue (Standard ω) ω) = _ from hanswer,
      Dialogue.play, hpull, Answer.andThen]
    rcases hnext r with hreply | ⟨m, rfl, hretry | ⟨m', hreply⟩ | ⟨text, hreply⟩⟩
    · rw [hreply]
      exact ⟨r, t₁, rfl, hgives⟩
    · rw [hretry]
      have hused := hgives.used m rfl
      have hpresent : t₁.graph.present = t.graph.present := by
        rw [Graph.present, Graph.present, hgives.presence]
      obtain ⟨r', t', hconverse, hgives'⟩ := ih id port k t₁ (by omega)
      exact ⟨r', t', hconverse, hgives.trans hgives'⟩
    · rw [hreply]
      exact ⟨_, t₁, rfl, hgives.reply (by simp) fun _ _ => ⟨m, rfl⟩⟩
    · rw [hreply]
      exact ⟨_, t₁, rfl, hgives.reply (by simp) (by simp)⟩

end Gives
end PullGraph
