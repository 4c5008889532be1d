import PullGraph.Proofs.Steps

/-! # The journal tells what is done

Whatever is asked of a graph, the calls that the journal gains are the calls that are
performed, with their outcomes, in their order, and nothing else happens to the components
or to the state they share: requests are enacted (`Request.enacts`), and so is the whole
life of a graph (`Lifetime.enacted`).

What is to be looked at are pulls. While a filter pulls, its inner state is out, and the
scene shows how far it is with its dialogue. The induction is on patience and, for one start
of a filter, on the dialogue: a pull further up leaves those that wait for it where they are.
-/
namespace PullGraph

variable {κ ω : Type}

namespace Turn

/-- The calls on the graph up to now. -/
def calls (t : Turn κ ω) : List (ComponentId × Call) := t.env.journal.calls t.graph.id

theorem ask_calls (t : Turn κ ω) (a : ComponentId) (port : String) :
    (t.ask a port).calls = t.calls ++ [(a, .asked port)] :=
  Journal.calls_of_about (t.ask_about a port)

theorem settle_calls (t : Turn κ ω) (id index : Nat) (a : ComponentId) (port : String)
    (answer : Except Fault Pull) (k : κ) :
    (t.settle id index a port answer k).calls = t.calls ++ [(a, .answered port answer)] := by
  have hid : (t.settle id index a port answer k).graph.id = t.graph.id :=
    congrArg Topology.id (t.settle_topology id index a port answer k)
  rw [calls, hid]
  exact Journal.calls_of_about (t.settle_about id index a port answer k)

/-- What there is to see of the graph. -/
abbrev scene (t : Turn κ ω) (away : ComponentId → Standing κ ω) : Scene κ ω :=
  t.graph.scene t.env.shared away

/-- A component that has answered is at rest with its new inner state. -/
theorem settle_scene {t : Turn κ ω} {a : ComponentId}
    (hout : t.graph.behaviors[a]? = some none) (id index : Nat) (port : String)
    (answer : Except Fault Pull) (k : κ) (away : ComponentId → Standing κ ω)
    (standing : Standing κ ω) (w : ω) :
    (t.settle id index a port answer k).scene away =
      { (t.graph.scene w (Function.update away a standing)).put a (.atRest k) with
        shared := t.env.shared } := by
  have hset := t.settle_behaviors id index a port answer k
  rw [scene, t.settle_env, ← Graph.scene_put_atRest hout hset]
  rfl

variable [Behavior κ ω] (T : Topology κ) (policy : Policy ω)

/-- What is done for a request is what the journal tells of it. A request that comes to its
end leaves those components where they were whose inner states are out. -/
def Enacts (t : Turn κ ω) (returned : Bool) (t' : Turn κ ω) : Prop :=
  ∃ calls, t'.calls = t.calls ++ calls ∧ ∀ away, ∃ away', (returned = true → away' = away) ∧
    Scene.Plays T policy (t.scene away) calls (t'.scene away')

/-- The same for what a filter does that has come to `d` in its dialogue for a port: if this
is `rest` in the end, nobody else has moved whose inner state is out. -/
def Converses (id : ComponentId) (port : String) (d : Dialogue κ ω) (t : Turn κ ω)
    (rest : Option (Dialogue κ ω)) (t' : Turn κ ω) : Prop :=
  ∃ calls, t'.calls = t.calls ++ calls ∧ ∀ away, ∃ away',
    (∀ d', rest = some d' → away' = Function.update away id (.talking port d')) ∧
    Scene.Plays T policy (t.scene (Function.update away id (.talking port d))) calls
      (t'.scene away')

variable {T policy} {t t' t'' : Turn κ ω} {returned : Bool} {id : ComponentId} {port : String}
  {d d' : Dialogue κ ω} {rest : Option (Dialogue κ ω)}

theorem Enacts.of_eq (hbehaviors : t'.graph.behaviors = t.graph.behaviors)
    (hshared : t'.env.shared = t.env.shared) (hcalls : t'.calls = t.calls) :
    Enacts T policy t returned t' := by
  refine ⟨[], by rw [hcalls, List.append_nil], fun away => ⟨away, fun _ => rfl, ?_⟩⟩
  have hscene : t'.scene away = t.scene away := by
    rw [scene, scene, Graph.scene, Graph.scene, hbehaviors, hshared]
  rw [hscene]
  exact .still _

theorem Enacts.refl (t : Turn κ ω) : Enacts T policy t returned t := .of_eq rfl rfl rfl

theorem Enacts.trans (h : Enacts T policy t true t') (h' : Enacts T policy t' returned t'') :
    Enacts T policy t returned t'' := by
  obtain ⟨calls, hcalls, hplays⟩ := h
  obtain ⟨calls', hcalls', hplays'⟩ := h'
  refine ⟨calls ++ calls', by rw [hcalls', hcalls, List.append_assoc], fun away => ?_⟩
  obtain ⟨_, hsame, hfirst⟩ := hplays away
  obtain rfl := hsame rfl
  obtain ⟨away'', haway, hsecond⟩ := hplays' _
  exact ⟨away'', haway, hfirst.trans hsecond⟩

namespace Converses

theorem refl (d : Dialogue κ ω) (t : Turn κ ω) :
    Converses T policy id port d t (some d) t := by
  refine ⟨[], (List.append_nil _).symm, fun away => ⟨_, ?_, .still _⟩⟩
  rintro _ ⟨⟩
  rfl

theorem stop (d : Dialogue κ ω) (t : Turn κ ω) : Converses T policy id port d t none t :=
  ⟨[], (List.append_nil _).symm, fun _ => ⟨_, by simp, .still _⟩⟩

theorem trans (h : Converses T policy id port d t (some d') t')
    (h' : Converses T policy id port d' t' rest t'') :
    Converses T policy id port d t rest t'' := by
  obtain ⟨calls, hcalls, hplays⟩ := h
  obtain ⟨calls', hcalls', hplays'⟩ := h'
  refine ⟨calls ++ calls', by rw [hcalls', hcalls, List.append_assoc], fun away => ?_⟩
  obtain ⟨_, hends, hfirst⟩ := hplays away
  obtain rfl := hends d' rfl
  obtain ⟨away'', haway, hsecond⟩ := hplays' away
  exact ⟨away'', haway, hfirst.trans hsecond⟩

/-- A filter that waits for a request stays where it is in its dialogue. -/
theorem after (h : Enacts T policy t true t') (h' : Converses T policy id port d t' rest t'') :
    Converses T policy id port d t rest t'' := by
  obtain ⟨calls, hcalls, hplays⟩ := h
  obtain ⟨calls', hcalls', hplays'⟩ := h'
  refine ⟨calls ++ calls', by rw [hcalls', hcalls, List.append_assoc], fun away => ?_⟩
  obtain ⟨_, hsame, hfirst⟩ := hplays (Function.update away id (.talking port d))
  obtain rfl := hsame rfl
  obtain ⟨away'', haway, hsecond⟩ := hplays' away
  exact ⟨away'', haway, hfirst.trans hsecond⟩

theorem unanswered (h : Enacts T policy t false t') :
    Converses T policy id port d t none t' := by
  obtain ⟨calls, hcalls, hplays⟩ := h
  refine ⟨calls, hcalls, fun away => ?_⟩
  obtain ⟨away', -, hplays⟩ := hplays (Function.update away id (.talking port d))
  exact ⟨away', by simp, hplays⟩

/-- A filter gets on with its dialogue by itself. -/
theorem move (hout : t.graph.behaviors[id]? = some none)
    (hmoves : d.Moves id port t.env.shared d' t'.env.shared)
    (hgraph : t'.graph = t.graph) (hjournal : t'.env.journal = t.env.journal)
    (h : Converses T policy id port d' t' rest t'') : Converses T policy id port d t rest t'' := by
  obtain ⟨calls, hcalls, hplays⟩ := h
  have hsame : t'.calls = t.calls := by rw [Turn.calls, Turn.calls, hgraph, hjournal]
  refine ⟨calls, by rw [hcalls, hsame], fun away => ?_⟩
  obtain ⟨away', haway, hplays⟩ := hplays away
  refine ⟨away', haway, ?_⟩
  have hset : t.graph.behaviors = t.graph.behaviors.set id none := (set_eq_self hout).symm
  have hstands : (t.scene (Function.update away id (.talking port d))).standing id =
      some (.talking port d) := by
    rw [Graph.scene_away hout, Function.update_self]
  have hscene : t'.scene (Function.update away id (.talking port d')) =
      { (t.scene (Function.update away id (.talking port d))).put id (.talking port d') with
        shared := t'.env.shared } := by
    rw [← Graph.scene_put_away hout hset, Function.update_idem, scene, hgraph]
    rfl
  rw [hscene] at hplays
  exact .next (.talks hstands hmoves) hplays

end Converses
end Turn

/-! ## Pulls -/

/-- Where the same components have their inner states in place, those that were out are. -/
theorem Graph.out_of_presence_eq {g g' : Graph κ ω} (h : g'.presence = g.presence)
    {id : ComponentId} (hout : g.behaviors[id]? = some none) : g'.behaviors[id]? = some none := by
  have hid := congrArg (·[id]?) h
  simp only [presence_eq_map, List.getElem?_map, hout] at hid
  obtain ⟨b, hb, hnone⟩ := Option.map_eq_some_iff.mp hid
  rw [hb, Option.isSome_eq_false_iff.mp hnone |> Option.isNone_iff_eq_none.mp]

/-- Where a dialogue has come to that ends. -/
def Ending.dialogue : Ending κ → Dialogue κ ω
  | .reply answer k => .reply answer k
  | .retry k => .retry k

section Pulls

variable [Behavior κ ω] {T : Topology κ} {policy : Policy ω} {converse : Converse κ ω}

/-- Filters are brought to answer as the journal tells. -/
def Converse.Enacts (T : Topology κ) (policy : Policy ω) (converse : Converse κ ω) : Prop :=
  ∀ id port k (t : Turn κ ω), t.graph.topology = T → t.graph.behaviors[id]? = some none →
    Turn.Converses T policy id port (Behavior.answer port k) t
      ((converse id port k t).result.map fun r => .reply r.1 r.2) (converse id port k t).turn

namespace Turn.Asks

variable {t t' : Turn κ ω} {id : ComponentId} {index : Nat} {p out : Port} {conn : Connection}
  {c : Component κ} {k k' : κ} {answer : Except Fault Pull}

omit [Behavior κ ω] in
theorem behaviors_eq (h : t.Asks id index p conn c out k) :
    t.graph.behaviors[conn.output.component]? = some (some k) :=
  Graph.behaviors_eq_some.mpr ⟨c, h.component, h.inPlace⟩

omit [Behavior κ ω] in
theorem kind?_eq (h : t.Asks id index p conn c out k) :
    t.graph.topology.kind? conn.output.component = some c.kind :=
  t.graph.topology_kind?_eq_some.mpr ⟨c, h.component, rfl⟩

omit [Behavior κ ω] in
/-- Whoever is asked has its inner state taken out until it has answered. -/
theorem behaviors_ask (h : t.Asks id index p conn c out k) :
    (t.ask conn.output.component out.name).graph.behaviors[conn.output.component]? =
      some none := by
  obtain ⟨hlt, -⟩ := List.getElem?_eq_some_iff.mp h.behaviors_eq
  simp [hlt]

/-- Whoever is asked is about to do something. -/
theorem plays_ask (h : t.Asks id index p conn c out k) {standing : Standing κ ω}
    (hstep : ∀ s : Scene κ ω, s.standing conn.output.component = some (.atRest k) →
      Scene.Step t.graph.topology policy s [(conn.output.component, .asked out.name)]
        (s.put conn.output.component standing)) (away : ComponentId → Standing κ ω) :
    Scene.Plays t.graph.topology policy (t.scene away) [(conn.output.component, .asked out.name)]
      ((t.ask conn.output.component out.name).scene
        (Function.update away conn.output.component standing)) := by
  have hasked : (t.ask conn.output.component out.name).scene
      (Function.update away conn.output.component standing) =
        (t.scene away).put conn.output.component standing :=
    Graph.scene_put_away h.behaviors_eq (t.ask_behaviors _ out.name) standing
  rw [hasked]
  exact (hstep _ (Graph.scene_atRest h.behaviors_eq)).plays

/-- A source that is asked emits, and has its inner state back. -/
theorem enacts_emit (h : t.Asks id index p conn c out k) (hkind : c.kind = .source)
    (ht : (t.ask conn.output.component out.name).perform (Behavior.emit out.name k) =
      ((answer, k'), t')) :
    Enacts t.graph.topology policy t true
      (t'.settle id index conn.output.component out.name answer k') := by
  obtain rfl : (Behavior.emit out.name k t.env.shared).value.1 = answer := congrArg (·.1.1) ht
  obtain rfl : (Behavior.emit out.name k t.env.shared).value.2 = k' := congrArg (·.1.2) ht
  obtain rfl : ((t.ask conn.output.component out.name).perform (Behavior.emit out.name k)).2 = t' :=
    congrArg Prod.snd ht
  refine ⟨[(conn.output.component, .asked out.name), (conn.output.component, .answered out.name
    (Behavior.emit out.name k t.env.shared).value.1)], ?calls, fun away =>
    ⟨away, fun _ => rfl, ?plays⟩⟩
  case calls =>
    rw [settle_calls]
    change (t.ask conn.output.component out.name).calls ++ _ = _
    rw [ask_calls, List.append_assoc]
    rfl
  case plays =>
    refine (h.plays_ask (fun s hrests => .askedSource out.name (hkind ▸ h.kind?_eq) hrests)
      away).trans (Scene.Step.plays ?_)
    have hback := settle_scene
      (t := ((t.ask conn.output.component out.name).perform (Behavior.emit out.name k)).2)
      h.behaviors_ask id index out.name (Behavior.emit out.name k t.env.shared).value.1
      (Behavior.emit out.name k t.env.shared).value.2 away (.asked out.name k) t.env.shared
    refine hback ▸ Scene.Step.emitted ?_
    rw [Graph.scene_away h.behaviors_ask, Function.update_self]

/-- A filter that is asked begins its dialogue. -/
theorem enacts_unanswered (h : t.Asks id index p conn c out k) (hkind : c.kind = .filter)
    (hconverses : Converses t.graph.topology policy conn.output.component out.name
      (Behavior.answer out.name k) (t.ask conn.output.component out.name) none t') :
    Enacts t.graph.topology policy t false t' := by
  obtain ⟨calls, hcalls, hplays⟩ := hconverses
  refine ⟨(conn.output.component, .asked out.name) :: calls, ?calls, fun away => ?plays⟩
  case calls =>
    rw [hcalls, ask_calls, List.append_assoc]
    rfl
  case plays =>
    obtain ⟨away', -, hplays⟩ := hplays away
    refine ⟨away', by simp, Scene.Plays.trans (h.plays_ask (fun s hrests => ?_) away) hplays⟩
    exact .askedFilter out.name (hkind ▸ h.kind?_eq) hrests

/-- A filter that replies has its inner state back. -/
theorem enacts_reply (h : t.Asks id index p conn c out k) (hkind : c.kind = .filter)
    (hconverses : Converses t.graph.topology policy conn.output.component out.name
      (Behavior.answer out.name k) (t.ask conn.output.component out.name)
      (some (.reply answer k')) t')
    (hout : t'.graph.behaviors[conn.output.component]? = some none) :
    Enacts t.graph.topology policy t true
      (t'.settle id index conn.output.component out.name answer k') := by
  obtain ⟨calls, hcalls, hplays⟩ := hconverses
  refine ⟨(conn.output.component, .asked out.name) :: (calls ++
    [(conn.output.component, .answered out.name answer)]), ?calls, fun away =>
      ⟨away, fun _ => rfl, ?plays⟩⟩
  case calls =>
    rw [settle_calls, hcalls, ask_calls]
    simp
  case plays =>
    obtain ⟨away', haway, hplays⟩ := hplays away
    obtain rfl := haway _ rfl
    refine Scene.Plays.trans (h.plays_ask (fun s hrests => ?_) away)
      (hplays.trans (Scene.Step.plays ?_))
    · exact .askedFilter out.name (hkind ▸ h.kind?_eq) hrests
    · rw [settle_scene hout id index out.name answer k' away (.talking out.name (.reply answer k'))
        t'.env.shared]
      exact .replied (by rw [Graph.scene_away hout, Function.update_self])

end Turn.Asks

variable {t : Turn κ ω} (hpasses : converse.Obeys PassesReady) (henacts : converse.Enacts T policy)
include hpasses henacts

/-- **A pull does what the journal tells of it**, if what lies upstream does. -/
theorem pullInput_enacts (hw : T.Wired) (ht : t.graph.topology = T) (id : ComponentId)
    (index : Nat) :
    t.Enacts T policy (pullInput converse id index t).returned
      (pullInput converse id index t).turn := by
  subst ht
  have hpulled := pullInput_pulled converse id index t
  generalize pullInput converse id index t = x at hpulled ⊢
  cases hpulled with
  | atEnd => exact .refl t
  | refused fault =>
    refine .of_eq rfl rfl ?_
    refine (Journal.calls_of_about (Journal.about_record_refused t.env.journal fault)).trans ?_
    exact List.append_nil _
  | @unanswered p out conn c k t' hasks hproduced =>
    have hconverses := henacts conn.output.component out.name k
      (t.ask conn.output.component out.name) (t.ask_leads _ _).topology hasks.behaviors_ask
    cases hkind : c.kind with
    | sink => exact absurd (hkind ▸ hasks.kind?_eq) (hasks.kind_ne_sink hw)
    | source =>
      rw [hkind] at hproduced
      cases hproduced
    | filter =>
      rw [hkind] at hproduced
      have hproduced' : converse conn.output.component out.name k
          (t.ask conn.output.component out.name) = ⟨none, t'⟩ := hproduced
      rw [hproduced'] at hconverses
      exact hasks.enacts_unanswered hkind hconverses
  | @answered p out conn c k k' t' answer hasks hproduced =>
    have hconverses := henacts conn.output.component out.name k
      (t.ask conn.output.component out.name) (t.ask_leads _ _).topology hasks.behaviors_ask
    cases hkind : c.kind with
    | sink => exact absurd (hkind ▸ hasks.kind?_eq) (hasks.kind_ne_sink hw)
    | source =>
      rw [hkind] at hproduced
      refine hasks.enacts_emit hkind (Prod.ext ?_ ?_)
      · exact Option.some.inj (congrArg Answer.result hproduced)
      · exact congrArg Answer.turn hproduced
    | filter =>
      rw [hkind] at hproduced
      have hproduced' : converse conn.output.component out.name k
          (t.ask conn.output.component out.name) = ⟨some (answer, k'), t'⟩ := hproduced
      have hrestored := hpasses conn.output.component out.name k
        (t.ask conn.output.component out.name)
      rw [hproduced'] at hconverses hrestored
      exact hasks.enacts_reply hkind hconverses
        (Graph.out_of_presence_eq (hrestored.restored rfl) hasks.behaviors_ask)

theorem pullNamed_enacts (hw : T.Wired) (ht : t.graph.topology = T) (id : ComponentId)
    (port : String) :
    t.Enacts T policy (pullNamed converse id port t).returned
      (pullNamed converse id port t).turn := by
  unfold pullNamed
  split
  · exact .refl t
  · exact pullInput_enacts hpasses henacts hw ht id _

theorem pullBatch_enacts (hw : T.Wired) (ht : t.graph.topology = T) (id : ComponentId)
    (port : String) (max : Nat) :
    t.Enacts T policy (pullBatch converse id port max t).returned
      (pullBatch converse id port max t).turn := by
  induction max generalizing t with
  | zero => exact .refl t
  | succ max ih =>
    have hpull := pullNamed_enacts hpasses henacts hw ht id port
    have hleads := (passesReady_pullLaw.pullNamed hpasses id port t).leads
    unfold pullBatch
    generalize pullNamed converse id port t = x at hpull hleads ⊢
    obtain ⟨result, t'⟩ := x
    have hrest := ih (hleads.topology.trans ht)
    rcases result with - | (f | (m | - | -))
    · exact hpull
    · exact hpull
    · refine hpull.trans ?_
      dsimp only [Answer.andThen]
      generalize pullBatch converse id port max t' = y at hrest ⊢
      obtain ⟨result, t''⟩ := y
      cases result <;> exact hrest
    · exact hpull
    · exact hpull

/-- **What a filter does in its dialogue is what the journal tells.** The induction is on the
dialogue; a pull leaves the filter where it is, and the answer takes it further. -/
theorem Dialogue.play_converses (hw : T.Wired) (ht : t.graph.topology = T) {id : ComponentId}
    (hout : t.graph.behaviors[id]? = some none) (port : String) (d : Dialogue κ ω) :
    t.Converses T policy id port d
      ((d.play converse id t).result.map Ending.dialogue) (d.play converse id t).turn := by
  induction d generalizing t with
  | reply answer k => exact .refl _ t
  | retry k => exact .refl _ t
  | pull input next ih =>
    have hpull := pullNamed_enacts hpasses henacts hw ht id input
    have hback := passesReady_pullLaw.pullNamed hpasses id input t
    unfold Dialogue.play
    generalize pullNamed converse id input t = x at hpull hback ⊢
    obtain ⟨result, t'⟩ := x
    cases result with
    | none => exact .unanswered hpull
    | some r =>
      have hout' := Graph.out_of_presence_eq (hback.restored rfl) hout
      refine .after hpull (.move hout' (.pull input next r) rfl rfl ?_)
      exact ih r (hback.leads.topology.trans ht) hout'
  | batch input max next ih =>
    have hpull := pullBatch_enacts hpasses henacts hw ht id input max
    have hback := passesReady_pullLaw.pullBatch hpasses id input max t
    unfold Dialogue.play
    generalize pullBatch converse id input max t = x at hpull hback ⊢
    obtain ⟨result, t'⟩ := x
    cases result with
    | none => exact .unanswered hpull
    | some r =>
      have hout' := Graph.out_of_presence_eq (hback.restored rfl) hout
      refine .after hpull (.move hout' (.batch input max next r) rfl rfl ?_)
      exact ih r (hback.leads.topology.trans ht) hout'
  | atEnd input next ih => exact .move hout (.atEnd input next _) rfl rfl (ih _ ht hout)
  | inputs next ih => exact .move hout (.inputs next _) rfl rfl (ih _ _ ht hout)
  | look next ih => exact .move hout (.look next) rfl rfl (ih _ ht hout)
  | act step next ih =>
    have hacted : (Dialogue.act step next).Moves id port t.env.shared next
        (t.perform step).2.env.shared := .act step next
    exact .move hout hacted rfl rfl (ih ht hout)

omit hpasses henacts in
/-- A filter is brought to answer as the journal tells, however often it starts over. -/
theorem converse_enacts (hw : T.Wired) (patience : Nat) :
    (PullGraph.converse patience : Converse κ ω).Enacts T policy := by
  induction patience with
  | zero => exact fun id port k t _ _ => .stop _ t
  | succ patience ih =>
    intro id port k t ht hout
    have hplay := Dialogue.play_converses (passesReady_pullLaw.converse patience) ih hw ht hout port
      (Behavior.answer port k)
    have hback := passesReady_pullLaw.play (passesReady_pullLaw.converse patience) id
      (Behavior.answer port k) t
    unfold PullGraph.converse
    generalize (Behavior.answer port k).play (PullGraph.converse patience) id t = x at hplay hback ⊢
    obtain ⟨result, t'⟩ := x
    rcases result with - | (⟨answer, k'⟩ | k')
    · exact hplay
    · exact hplay
    · have hout' := Graph.out_of_presence_eq (hback.restored rfl) hout
      refine hplay.trans (.move hout' (.retry k') rfl rfl ?_)
      exact ih id port k' t' (hback.leads.topology.trans ht) hout'

end Pulls

/-! ## Steps, rounds and runs -/

section Runs

variable [Behavior κ ω]

theorem Turn.Enacts.graph {t t' : Turn κ ω} {returned : Bool}
    (h : Turn.Enacts t.graph.topology t.graph.policy t returned t')
    (htopology : t'.graph.topology = t.graph.topology) :
    t.graph.Enacts t.env t'.graph t'.env := by
  obtain ⟨calls, hcalls, hplays⟩ := h
  have hid : t'.graph.id = t.graph.id := congrArg Topology.id htopology
  rw [Turn.calls, hid] at hcalls
  refine ⟨calls, hcalls, fun away => ?_⟩
  obtain ⟨away', -, hplays⟩ := hplays away
  exact ⟨away', hplays⟩

namespace Graph

variable {g g' : Graph κ ω} {env env' : Env ω}

/-- A sink that is handed a message consumes it, and one that is told of the end of a stream
does what it does then. -/
theorem deliver_enacts (g : Graph κ ω) (id : ComponentId) (index : Nat) (arrival : Option Message)
    (env : Env ω) :
    g.Enacts env (g.deliver id index arrival env).graph (g.deliver id index arrival env).env := by
  by_cases hready : g.CanTake id
  · obtain ⟨c, k, hc, hb, hk⟩ := hready
    obtain ⟨port, result, k', env', hperform, hgraph, henv⟩ :=
      deliver_sink hc hb hk index arrival env
    have hkind : g.topology.kind? id = some .sink := g.topology_kind?_eq_some.mpr ⟨c, hc, hk⟩
    have hrests : g.behaviors[id]? = some (some k) := behaviors_eq_some.mpr ⟨c, hc, hb⟩
    obtain rfl : (receive port arrival k env.shared).value.1 = result := congrArg (·.1.1) hperform
    obtain rfl : (receive port arrival k env.shared).value.2 = k' := congrArg (·.1.2) hperform
    obtain rfl : (env.perform (receive port arrival k)).2 = env' := congrArg Prod.snd hperform
    rw [hgraph, henv]
    refine .of_react (Journal.calls_of_about (Journal.about_record_call _ id _))
      (fun away hrests => ?_) hrests (g.count_modify_behaviors arrival id _) rfl
    cases arrival with
    | some m => exact .consumed port m hkind hrests
    | none => exact .ended port hkind hrests
  · obtain ⟨cause, hdeliver⟩ := deliver_eq_turnAway hready index arrival env
    rw [hdeliver]
    refine .of_eq rfl rfl ?_
    exact (Journal.calls_of_about (Journal.about_record_refused env.journal cause)).trans
      (List.append_nil _)

theorem afterPull_enacts (id : ComponentId) (index : Nat) (pulled : Except Fault Pull)
    (t : Turn κ ω) :
    t.graph.Enacts t.env (afterPull id index pulled t).graph (afterPull id index pulled t).env := by
  unfold afterPull
  split
  · exact .refl _ _
  · exact .refl _ _
  · exact .refl _ _
  · exact t.graph.deliver_enacts id index _ t.env
  · exact t.graph.deliver_enacts id index _ t.env

/-- **A pull step does what the journal tells of it.** -/
theorem CanStep.enacts {id index : Nat} (h : g.CanStep id index) (hw : g.topology.Wired)
    (patience : Nat) (env : Env ω) :
    g.Enacts env (g.sinkStep patience id index env).graph
      (g.sinkStep patience id index env).env := by
  obtain ⟨p, hp, hd⟩ := h.port
  have hleads := (pullInput_passes (t := ⟨g, env, none⟩) (passesReady_pullLaw.converse patience)
    hp hd).leads
  have hpull : Turn.Enacts g.topology g.policy ⟨g, env, none⟩ _ _ :=
    pullInput_enacts (passesReady_pullLaw.converse patience) (converse_enacts hw patience) hw rfl
      id index
  unfold sinkStep
  generalize pullInput (converse patience) id index ⟨g, env, none⟩ = x at hpull hleads ⊢
  obtain ⟨result, t⟩ := x
  have hpulled := hpull.graph hleads.topology
  cases result with
  | none => exact hpulled
  | some pulled =>
    exact hpulled.trans hleads.topology hleads.policy (afterPull_enacts id index pulled t)

theorem Advance.enacts (h : Advance g env g' env') (hw : g.topology.Wired) :
    g.Enacts env g' env' := by
  cases h with
  | remark habout hwaits =>
    have hcalls := Journal.calls_of_about_eq habout
    rcases hwaits with hshared | ⟨idle, hshared⟩
    · exact .of_eq rfl hshared hcalls
    · refine ⟨[], by rw [hcalls, List.append_nil], fun away => ⟨away, ?_⟩⟩
      rw [hshared]
      exact Scene.Step.plays (.waits (g.scene env.shared away) idle)
  | tally => exact .of_eq rfl rfl rfl
  | pull patience hdue => exact hdue.enacts hw patience env
  | close => exact finalizeAll_enacts (g := { g with state := _ }) hw env

theorem Course.enacts {returned : Bool} (h : Course g env returned g' env')
    (hw : g.topology.Wired) : g.Enacts env g' env' := by
  induction h with
  | done g env => exact .refl g env
  | @pause g env _ => exact .refl g env
  | broken patience hdue _ => exact hdue.enacts hw patience _
  | next hstep _ ih =>
    have htopology := hstep.topology_eq
    exact (hstep.enacts hw).trans htopology hstep.policy (ih (htopology ▸ hw))

theorem Ran.enacts {returned : Bool} (h : Ran g env returned g' env') (hw : g.topology.Wired) :
    g.Enacts env g' env' := by
  cases h with
  | unchanged => exact .refl g env
  | resumed _ hcourse => exact hcourse.enacts hw
  | started _ hvalid hcourse =>
    have htopology := start_topology hvalid env
    have hpolicy : (g.start env).graph.policy = g.policy := by
      unfold start
      split <;> rfl
    have hcalls := hcourse.enacts (htopology ▸ hw)
    refine Enacts.trans ?_ htopology hpolicy hcalls
    obtain ⟨g₁, notice, hstart, -, hcomponents, -⟩ := start_spec hvalid env
    rw [hstart]
    refine .of_eq ?_ rfl (Journal.calls_of_about_eq (env.about_note notice g.id))
    rw [behaviors, behaviors, hcomponents, List.map_map]
    refine List.map_congr_left fun c _ => ?_
    simp only [Function.comp_apply, Component.start]
    split <;> rfl

/-! ## Requests -/

omit [Behavior κ ω] in
theorem scene_new (g : Graph κ ω) (w : ω) (away : ComponentId → Standing κ ω) :
    (g.scene w away).standing g.components.length = none := by
  simp [scene, behaviors]

omit [Behavior κ ω] in
theorem scene_push {k : κ} (h : g'.behaviors = g.behaviors ++ [some k]) (w : ω)
    (away : ComponentId → Standing κ ω) :
    g'.scene w away = (g.scene w away).put g.components.length (.atRest k) := by
  have hlength : g.behaviors.length = g.components.length := List.length_map _
  refine Scene.ext (funext fun i => ?_) rfl
  rw [← hlength]
  by_cases hi : i = g.behaviors.length
  · subst hi
    simp [scene, Scene.put, h]
  · have hget : (g.behaviors ++ [some k])[i]? = g.behaviors[i]? := by
      rcases Nat.lt_or_gt_of_ne hi with hlt | hgt
      · exact List.getElem?_append_left hlt
      · rw [List.getElem?_eq_none (Nat.le_of_lt hgt), List.getElem?_eq_none]
        simp only [List.length_append, List.length_singleton]
        exact hgt
    simp [scene, Scene.put, h, hget, Function.update_of_ne hi]

/-- A component is set up and takes its place at the end. -/
theorem Enacts.setUp {settings : Settings} {k : κ}
    (hcall : env'.journal.calls g.id =
      env.journal.calls g.id ++ [(g.components.length, .setUp none)])
    (hwell : Component.faultOf (Behavior.setUp settings k env.shared).value.1 = none)
    (hbehaviors : g'.behaviors =
      g.behaviors ++ [some (Behavior.setUp settings k env.shared).value.2])
    (hshared : env'.shared = (Behavior.setUp settings k env.shared).shared) :
    g.Enacts env g' env' := by
  refine ⟨_, hcall, fun away => ⟨away, ?_⟩⟩
  have hscene : g'.scene env'.shared away = (g.scene env.shared away).react g.components.length
      (Behavior.setUp settings k) := by
    rw [hshared]
    exact congrArg
      (fun s : Scene κ ω => { s with shared := (Behavior.setUp settings k env.shared).shared })
      (scene_push hbehaviors env.shared away)
  rw [hscene]
  exact (Scene.Step.setUp (g.scene_new _ away) settings k hwell).plays

/-- A component cannot be set up, and does not stay. -/
theorem Enacts.botched {settings : Settings} {k : κ} {fault : Fault}
    (hcall : env'.journal.calls g.id =
      env.journal.calls g.id ++ [(g.components.length, .setUp (some fault))])
    (hbadly : Component.faultOf (Behavior.setUp settings k env.shared).value.1 = some fault)
    (hshared : env'.shared = (Behavior.setUp settings k env.shared).shared) :
    g.Enacts env g env' := by
  refine ⟨_, hcall, fun away => ⟨away, ?_⟩⟩
  rw [hshared]
  exact (Scene.Step.botched (g.scene_new _ away) settings k hbadly).plays

/-- A component that is added is set up, and stays unless that fails. -/
theorem add_enacts (g : Graph κ ω) (cls : ComponentClass κ) (name : String) (settings : Settings)
    (env : Env ω) :
    g.Enacts env (g.add cls name settings env).graph (g.add cls name settings env).env := by
  cases hmay : g.mayAdd cls name with
  | error e =>
    simp only [add, hmay]
    exact .of_eq rfl rfl (Journal.calls_of_about_eq (env.about_note _ g.id))
  | ok u =>
    obtain ⟨result, k, env', hrun⟩ : ∃ result k env',
        ((env.note (.adding g.name cls.name name)).note (.settingUp name)).perform
          (Behavior.setUp settings cls.blank) = ((result, k), env') := ⟨_, _, _, rfl⟩
    have hsetUp := setUp_create g.id g.components.length name cls settings hrun
    have hresult : (Behavior.setUp settings cls.blank env.shared).value.1 = result :=
      congrArg (·.1.1) hrun
    have hstate : (Behavior.setUp settings cls.blank env.shared).value.2 = k :=
      congrArg (·.1.2) hrun
    have hshared : env'.shared = (Behavior.setUp settings cls.blank env.shared).shared :=
      (congrArg (·.2.shared) hrun).symm
    have hcall : ∀ fault, (env'.record (.call g.id g.components.length
        (.setUp fault))).journal.about g.id =
          env.journal.about g.id ++ [.call g.id g.components.length (.setUp fault)] := by
      intro fault
      have habout : env'.journal.about g.id = env.journal.about g.id := by
        refine (congrArg (·.2.journal.about g.id) hrun).symm.trans ?_
        simp
      simp [habout]
    cases result with
    | error cause =>
      simp only [add, hmay, hsetUp, Component.faultOf]
      refine .botched (Journal.calls_of_about (hcall (some cause))) ?_ hshared
      rw [hresult]
      rfl
    | ok v =>
      simp only [add, hmay, hsetUp, Component.faultOf]
      refine .setUp (Journal.calls_of_about ((Env.about_note _ _ _).trans (hcall none))) ?_ ?_
        hshared
      · rw [hresult]
        rfl
      · rw [hstate]
        simp [behaviors, push]

omit [Behavior κ ω] in
theorem connect_shared (g : Graph κ ω) (a b : PortHandle) (env : Env ω) :
    (g.connect a b env).env.shared = env.shared := by
  unfold connect
  split <;> rfl

theorem connect_enacts (g : Graph κ ω) (a b : PortHandle) (env : Env ω) :
    g.Enacts env (g.connect a b env).graph (g.connect a b env).env := by
  have hshared := g.connect_shared a b env
  rcases g.connect_cases a b env with ⟨e, env', hconnect, habout⟩ | ⟨c, env', -, hconnect, habout⟩
  · rw [hconnect] at hshared ⊢
    exact .of_eq rfl hshared (Journal.calls_of_about_eq habout)
  · rw [hconnect] at hshared ⊢
    exact .of_eq (join_map (fun _ _ _ => rfl) g c) hshared (Journal.calls_of_about_eq habout)

theorem teardown_enacts (hw : g.topology.Wired) (env : Env ω) :
    g.Enacts env (g.teardown env).graph (g.teardown env).env := by
  -- the state is set first, whatever it was
  obtain ⟨state, hteardown⟩ : ∃ state, g.teardown env = ({ g with state := state }.finalizeAll
      (env.note (.tearingDown g.name))).map TeardownError.check := by
    unfold teardown
    cases hstate : g.state with
    | configuring | running => exact ⟨.tornDown, rfl⟩
    | finished | cancelled | faulted | tornDown => exact ⟨g.state, rfl⟩
  have hnoted : g.Enacts env { g with state := state } (env.note (.tearingDown g.name)) :=
    .of_eq rfl rfl (Journal.calls_of_about_eq (env.about_note _ g.id))
  rw [hteardown]
  exact hnoted.trans rfl rfl (finalizeAll_enacts hw _)

end Graph

/-- **The calls that a request writes down are performed**, whether or not it comes to its
end. -/
theorem Request.enacts {g : Graph κ ω} {env : Env ω} (hw : g.topology.Wired) (r : Request κ ω) :
    g.Enacts env (r.perform g env).graph (r.perform g env).env := by
  cases r with
  | add cls name settings => exact g.add_enacts cls name settings env
  | connect a b => exact g.connect_enacts a b env
  | link giver output taker input =>
    simp only [perform]
    rcases g.link_cases giver output taker input env with ⟨e, hlink⟩ | ⟨a, b, -, -, hlink⟩
    · rw [hlink]
      exact .refl g env
    · rw [hlink]
      exact g.connect_enacts a b env
  | follow policy => exact .of_eq rfl rfl rfl
  | runOnce patience => exact (g.runOnce_ran patience env).enacts hw
  | run patience rounds => exact (g.run_ran patience rounds env).enacts hw
  | cancel => exact .of_eq rfl rfl rfl
  | teardown => exact Graph.teardown_enacts hw env

/-! ## Lives -/

/-- The calls that have been performed on a graph all its life, one request after another;
what happens between requests is not the graph's doing. In the end it may be given up. -/
inductive Enacted : List (ComponentId × Call) → Graph κ ω → Env ω → Prop where
  | create (name : String) (config : RunConfig) (env : Env ω) :
      Enacted [] (Graph.create name config env : Graph κ ω × Env ω).1
        (Graph.create name config env : Graph κ ω × Env ω).2
  | elsewhere {calls : List (ComponentId × Call)} {g : Graph κ ω} {env : Env ω}
      (enacted : Enacted calls g env) (env' : Env ω) : Enacted calls g env'
  | call {calls made : List (ComponentId × Call)} {g : Graph κ ω} {env : Env ω}
      (enacted : Enacted calls g env) (r : Request κ ω)
      (performs : g.Performs env made (r.perform g env).graph (r.perform g env).env) :
      Enacted (calls ++ made) (r.perform g env).graph (r.perform g env).env
  | discard {calls made : List (ComponentId × Call)} {g : Graph κ ω} {env : Env ω}
      (enacted : Enacted calls g env)
      (performs : g.Performs env made (g.finalizeAll env).graph (g.discard env)) :
      Enacted (calls ++ made) (g.finalizeAll env).graph (g.discard env)

namespace Lifetime

variable {added : List ComponentId} {g : Graph κ ω} {env : Env ω}

/-- **The calls in the journal of a graph are those that were performed on it**, all its
life. -/
theorem enacted (h : Lifetime added g env) : Enacted (env.journal.calls g.id) g env := by
  induction h with
  | @create name config env hunheard =>
    have habout : ((Graph.create name config env : Graph κ ω × Env ω).2.journal.about
        env.nextGraph) = env.journal.about env.nextGraph := Env.about_note _ _ _
    have hcalls : (Graph.create name config env : Graph κ ω × Env ω).2.journal.calls
        env.nextGraph = [] := by
      rw [Journal.calls_eq, habout, hunheard]
      rfl
    exact hcalls ▸ Enacted.create name config env
  | @elsewhere _ g env env' _ habout ih =>
    rw [Journal.calls_of_about_eq habout]
    exact ih.elsewhere env'
  | @call _ g env life r _ _ ih =>
    obtain ⟨made, hmade, hperforms⟩ := r.enacts life.sane.wired
    rw [r.perform_id g env, hmade]
    exact ih.call r hperforms

/-- So it is for the next request, also if it does not come to its end. -/
theorem enacted_request (h : Lifetime added g env) (r : Request κ ω) :
    Enacted ((r.perform g env).env.journal.calls g.id) (r.perform g env).graph
      (r.perform g env).env := by
  obtain ⟨made, hmade, hperforms⟩ := r.enacts h.sane.wired
  rw [hmade]
  exact h.enacted.call r hperforms

/-- And when the graph is given up. -/
theorem enacted_discard (h : Lifetime added g env) :
    Enacted ((g.discard env).journal.calls g.id) (g.finalizeAll env).graph (g.discard env) := by
  obtain ⟨made, hmade, hperforms⟩ := Graph.finalizeAll_enacts h.sane.wired env
  rw [Graph.discard, hmade]
  exact h.enacted.discard hperforms

end Lifetime
end Runs
end PullGraph
