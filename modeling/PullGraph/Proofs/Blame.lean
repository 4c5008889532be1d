import PullGraph.Proofs.Steps

/-! # What is kept of failures

A component that fails is kept in the turn as the one to blame, unless there is one already
(`Turn.Blames`). Those that had asked it only learn that something upstream failed, and
whatever they make of that does not change what is kept.

That something upstream failed is the executor's own fault, `Fault.feederFailed`. It is
handed out only once a failure is kept. So it is not the first failure of a step, unless
somebody holds one from before the step or makes one up; `Candid` says that nobody does.
-/
namespace PullGraph

variable {κ ω : Type}

/-- Whether an event hands something to a sink: a message, or the end of a stream. -/
def Event.isArrival : Event → Bool
  | .call _ _ (.consumed ..) | .call _ _ (.ended ..) => true
  | _ => false

/-! ## The first failure of a pull step -/

/-- What is written down between two turns, and how the first failure in it is kept. -/
structure Turn.Blames (t t' : Turn κ ω) : Prop where
  topology : t'.graph.topology = t.graph.topology
  events : ∃ es, t'.env.journal.about t.graph.id = t.env.journal.about t.graph.id ++ es ∧
    t'.failure = t.failure.or (es.findSome? Event.failure?) ∧
    ∀ e ∈ es, e.isArrival = false ∧
      ∀ f, e.failure? = some f → f.component < t.graph.components.length

namespace Turn.Blames

variable {t t' t'' : Turn κ ω}

theorem of_eq (htopology : t'.graph.topology = t.graph.topology)
    (habout : t'.env.journal.about t.graph.id = t.env.journal.about t.graph.id)
    (hfailure : t'.failure = t.failure) : t.Blames t' where
  topology := htopology
  events := ⟨[], by rw [habout, List.append_nil], by simp [hfailure], fun _ he => nomatch he⟩

/-- One event is written down. -/
theorem of_event {e : Event} (htopology : t'.graph.topology = t.graph.topology)
    (habout : t'.env.journal.about t.graph.id = t.env.journal.about t.graph.id ++ [e])
    (hfailure : t'.failure = t.failure.or e.failure?) (harrival : e.isArrival = false)
    (hlt : ∀ f, e.failure? = some f → f.component < t.graph.components.length) : t.Blames t' where
  topology := htopology
  events := ⟨[e], habout, by simp [hfailure], List.forall_mem_singleton.mpr ⟨harrival, hlt⟩⟩

theorem refl (t : Turn κ ω) : t.Blames t := .of_eq rfl rfl rfl

theorem trans (h : t.Blames t') (h' : t'.Blames t'') : t.Blames t'' := by
  obtain ⟨htopology, es, habout, hfailure, hes⟩ := h
  obtain ⟨htopology', es', habout', hfailure', hes'⟩ := h'
  have hid : t'.graph.id = t.graph.id := congrArg Topology.id htopology
  have hlength := Graph.length_eq_of_topology_eq htopology
  refine ⟨htopology'.trans htopology, es ++ es', ?about, ?failure, ?events⟩
  case about => rw [← hid, habout', hid, habout, List.append_assoc]
  case failure => rw [hfailure', hfailure, List.findSome?_append, Option.or_assoc]
  case events =>
    intro e he
    rcases List.mem_append.mp he with he | he
    · exact hes e he
    · obtain ⟨harrival, hlt⟩ := hes' e he
      exact ⟨harrival, fun f hf => hlength ▸ hlt f hf⟩

theorem ask (t : Turn κ ω) (a : ComponentId) (port : String) : t.Blames (t.ask a port) :=
  .of_event (t.ask_leads a port).topology (t.ask_about a port) (by simp [Turn.ask, Turn.record,
    Turn.setBehavior, Event.failure?]) rfl (fun _ hf => nomatch hf)

theorem settle (t : Turn κ ω) (id index : Nat) {a : ComponentId}
    (ha : a < t.graph.components.length) (port : String) (answer : Except Fault Pull) (k : κ) :
    t.Blames (t.settle id index a port answer k) := by
  refine .of_event (t.settle_topology id index a port answer k)
    (t.settle_about id index a port answer k) (t.settle_failure id index a port answer k) rfl ?_
  intro f hf
  match answer with
  | .error cause =>
    obtain rfl := Option.some.inj hf
    exact ha

end Turn.Blames

/-- Whatever filters do, the first failure is kept. -/
theorem blames_law : ExchangeLaw (fun _ => Turn.Blames : ComponentId → Turn κ ω → Turn κ ω → Prop) where
  refl _ t := .refl t
  trans h h' := h.trans h'
  act _ t _ _ := .of_eq rfl rfl rfl
  refuse _ t f := .of_event rfl (Journal.about_record_refused t.env.journal f)
    (by simp [Turn.refuse, Event.failure?]) rfl (fun _ hf => nomatch hf)
  unanswered := fun {_ _ t _ _ out conn _ _} _ _ h => (Turn.Blames.ask t _ _).trans h
  answered := by
    intro id index t t' p out conn c k hasks _ h answer k'
    have hasked := (Turn.Blames.ask t conn.output.component out.name).trans h
    refine hasked.trans (.settle t' id index ?_ out.name answer k')
    rw [Graph.length_eq_of_topology_eq hasked.topology]
    exact (List.getElem?_eq_some_iff.mp hasks.component).1

/-- What is written down while a step pulls, and the first failure in it. -/
theorem Step.Due.blames [Behavior κ ω] {s : Step κ ω} (h : s.Due) {patience : Nat} {r : Option (Except Fault Pull)}
    {t : Turn κ ω} (hpulled : s.pulled patience = ⟨r, t⟩) :
    t.graph.topology = s.graph.topology ∧
      ∃ es, t.env.journal.about s.graph.id = s.env.journal.about s.graph.id ++ es ∧
        t.failure = es.findSome? Event.failure? ∧
        ∀ e ∈ es, e.isArrival = false ∧
          ∀ f, e.failure? = some f → f.component < s.graph.components.length := by
  obtain ⟨p, hp, hd, -⟩ := h.port
  have hblames : s.turn.Blames (s.pulled patience).turn :=
    blames_law.pullInput (blames_law.pullLaw.converse patience) hp hd
  rw [hpulled] at hblames
  exact ⟨hblames.topology, hblames.events⟩

/-! ## Nobody makes up the executor's fault -/

section Candor

variable (good : κ → Prop) (fine : ω → Prop)

/-- A dialogue does not come up with the executor's fault unless it is told of it, and leads
from `good` inner states to `good` ones and from `fine` shared states to `fine` ones. -/
def Dialogue.Candid : Dialogue κ ω → Prop
  | .reply answer k => answer ≠ .error .feederFailed ∧ good k
  | .retry k => good k
  | .pull _ next => ∀ r, r ≠ .error .feederFailed → (next r).Candid
  | .batch _ _ next => ∀ r, r ≠ .error .feederFailed → (next r).Candid
  | .atEnd _ next => ∀ b, (next b).Candid
  | .inputs next => ∀ id names, (next id names).Candid
  | .look next => ∀ w, fine w → (next w).Candid
  | .act step next => (∀ w, fine w → fine (step w).shared) ∧ next.Candid

/-- Components whose inner states are `good` do not come up with the executor's fault and stay
so, as long as the state that they share is `fine`. -/
structure Candid [Behavior κ ω] : Prop where
  emit : ∀ port k (w : ω), good k → fine w →
    (Behavior.emit port k w).value.1 ≠ .error .feederFailed ∧
      good (Behavior.emit port k w).value.2 ∧ fine (Behavior.emit port k w).shared
  answer : ∀ port (k : κ), good k → (Behavior.answer port k).Candid good fine
  receive : ∀ port arrival k (w : ω), good k → fine w →
    good (Graph.receive port arrival k w).value.2 ∧ fine (Graph.receive port arrival k w).shared

/-- Nobody holds the executor's fault. -/
structure Graph.Clean (g : Graph κ ω) (env : Env ω) : Prop where
  shared : fine env.shared
  behaviors : ∀ k, some k ∈ g.behaviors → good k

/-- Either nobody holds the executor's fault, or another one is the first of the step. -/
structure Turn.Honest (t : Turn κ ω) : Prop where
  clean : t.failure = none → t.graph.Clean good fine t.env
  cause : ∀ f, t.failure = some f → f.cause ≠ .feederFailed

/-- The same for a request; as long as there is no failure its result is `fair`. -/
structure Answer.Honest {α : Type} (fair : α → Prop) (x : Answer κ ω α) : Prop where
  turn : x.turn.Honest good fine
  result : x.turn.failure = none → ∀ a, x.result = some a → fair a

/-- How a filter is brought to answer if it is candid. -/
def Converse.Honest (converse : Converse κ ω) : Prop :=
  ∀ id port k t, t.Honest good fine → (t.failure = none → good k) →
    (converse id port k t).Honest good fine fun r => r.1 ≠ .error .feederFailed ∧ good r.2

variable {good fine}

theorem Graph.Clean.set {g g' : Graph κ ω} {env env' : Env ω} (h : g.Clean good fine env)
    {id : ComponentId} {b : Option κ} (hbehaviors : g'.behaviors = g.behaviors.set id b)
    (hb : ∀ k, b = some k → good k) (hshared : fine env'.shared) : g'.Clean good fine env' where
  shared := hshared
  behaviors := by
    intro k hk
    rw [hbehaviors] at hk
    rcases List.mem_or_eq_of_mem_set hk with hold | hnew
    · exact h.behaviors k hold
    · exact hb k hnew.symm

namespace Answer.Honest

variable {α β : Type} {fair : α → Prop} {fair' : β → Prop} {t : Turn κ ω} {x : Answer κ ω α}

/-- Once there is a failure, whatever follows is honest. -/
theorem of_blames {f : Failure} (ht : t.Honest good fine) (hf : t.failure = some f)
    (hx : t.Blames x.turn) : x.Honest good fine fair := by
  obtain ⟨-, es, -, hfailure, -⟩ := hx
  rw [hf, Option.some_or] at hfailure
  have hsome : ∀ {P : Prop}, x.turn.failure = none → P :=
    fun hnone => nomatch hfailure.symm.trans hnone
  refine ⟨⟨hsome, fun f' hf' => ?_⟩, hsome⟩
  obtain rfl := Option.some.inj (hfailure.symm.trans hf')
  exact ht.cause f hf

theorem pure {a : α} (ht : t.Honest good fine) (ha : fair a) :
    (⟨some a, t⟩ : Answer κ ω α).Honest good fine fair :=
  ⟨ht, fun _ _ h => Option.some.inj h ▸ ha⟩

theorem andThen {next : α → Turn κ ω → Answer κ ω β} (hx : x.Honest good fine fair)
    (hnext : ∀ a t', t'.Honest good fine → (t'.failure = none → fair a) →
      (next a t').Honest good fine fair') : (x.andThen next).Honest good fine fair' := by
  obtain ⟨result, t'⟩ := x
  cases result with
  | none => exact ⟨hx.turn, fun _ _ h => nomatch h⟩
  | some a => exact hnext a t' hx.turn fun hnone => hx.result hnone a rfl

end Answer.Honest

namespace Turn.Honest

variable {t : Turn κ ω}

theorem refuse (h : t.Honest good fine) (f : Fault) : (t.refuse f).Honest good fine where
  clean hnone := ⟨(h.clean hnone).shared, (h.clean hnone).behaviors⟩
  cause := h.cause

theorem ask (h : t.Honest good fine) (a : ComponentId) (port : String) :
    (t.ask a port).Honest good fine where
  clean hnone := (h.clean hnone).set (t.ask_behaviors a port) (fun _ hk => nomatch hk)
    (h.clean hnone).shared
  cause := h.cause

/-- An answer is taken. If it is the first failure of the step, it is the component's own. -/
theorem settle (h : t.Honest good fine) {answer : Except Fault Pull} {k : κ}
    (hanswer : t.failure = none → answer ≠ .error .feederFailed ∧ good k) (id index : Nat)
    (a : ComponentId) (port : String) :
    (t.settle id index a port answer k).Honest good fine := by
  have hfailure := t.settle_failure id index a port answer k
  refine ⟨fun hnone => ?clean, fun f hf => ?cause⟩
  case clean =>
    rw [hfailure] at hnone
    obtain ⟨hnone, -⟩ := Option.or_eq_none_iff.mp hnone
    refine (h.clean hnone).set (t.settle_behaviors id index a port answer k) ?_ ?_
    · rintro _ ⟨⟩
      exact (hanswer hnone).2
    · rw [t.settle_env]
      exact (h.clean hnone).shared
  case cause =>
    cases hfirst : t.failure with
    | some f' =>
      rw [hfailure, hfirst] at hf
      obtain rfl := Option.some.inj hf
      exact h.cause f' hfirst
    | none =>
      rw [hfailure, hfirst, Option.none_or] at hf
      match answer with
      | .error cause =>
        obtain rfl := Option.some.inj hf
        rintro rfl
        exact (hanswer hfirst).1 rfl

end Turn.Honest

section Pulls

variable [Behavior κ ω] {converse : Converse κ ω}

theorem Candid.produce_honest (h : Candid good fine) (hc : converse.Honest good fine) (kind : Kind)
    (a : ComponentId) (port : String) {k : κ} {t : Turn κ ω} (ht : t.Honest good fine)
    (hk : t.failure = none → good k) :
    (produce converse kind a port k t).Honest good fine
      fun r => r.1 ≠ .error .feederFailed ∧ good r.2 := by
  cases kind with
  | source =>
    have hemit := fun hnone => h.emit port k t.env.shared (hk hnone) (ht.clean hnone).shared
    refine ⟨⟨fun hnone => ?_, ht.cause⟩, ?_⟩
    · exact ⟨(hemit hnone).2.2, (ht.clean hnone).behaviors⟩
    · rintro hnone _ ⟨⟩
      exact ⟨(hemit hnone).1, (hemit hnone).2.1⟩
  | filter => exact hc a port k t ht hk
  | sink =>
    refine ⟨ht.refuse _, ?_⟩
    rintro hnone _ ⟨⟩
    exact ⟨nofun, hk hnone⟩

/-- What a component is told of the failures upstream it is told when there has been one. -/
theorem Candid.pullInput_honest (h : Candid good fine) (hc : converse.Honest good fine)
    (id : ComponentId) (index : Nat) {t : Turn κ ω} (ht : t.Honest good fine) :
    (pullInput converse id index t).Honest good fine fun r => r ≠ .error .feederFailed := by
  have hasked : ∀ {p out conn c k}, t.Asks id index p conn c out k →
      (produce converse c.kind conn.output.component out.name k
        (t.ask conn.output.component out.name)).Honest good fine
        fun r => r.1 ≠ .error .feederFailed ∧ good r.2 := by
    intro p out conn c k hasks
    refine h.produce_honest hc c.kind _ _ (ht.ask _ _) fun hnone => (ht.clean hnone).behaviors k ?_
    rw [← hasks.inPlace]
    exact List.mem_map_of_mem (List.mem_of_getElem? hasks.component)
  have hpulled := pullInput_pulled converse id index t
  generalize pullInput converse id index t = x at hpulled ⊢
  cases hpulled with
  | atEnd => exact .pure ht nofun
  | refused fault hown => exact .pure (ht.refuse fault) fun heq => hown (Except.error.inj heq)
  | unanswered hasks hproduced =>
    have hhonest := hasked hasks
    rw [hproduced] at hhonest
    exact ⟨hhonest.turn, fun _ _ hr => nomatch hr⟩
  | @answered p out conn c k k' t' answer hasks hproduced =>
    have hhonest := hasked hasks
    rw [hproduced] at hhonest
    have hanswer := fun hnone => hhonest.result hnone (answer, k') rfl
    refine ⟨hhonest.turn.settle hanswer id index _ _, ?_⟩
    -- a failure is kept by now, so only an answer that is none is handed on without one
    rintro hnone _ ⟨⟩
    rw [t'.settle_failure] at hnone
    match answer with
    | .ok pulled => exact nofun
    | .error cause => exact nomatch (Option.or_eq_none_iff.mp hnone).2

theorem Candid.pullNamed_honest (h : Candid good fine) (hc : converse.Honest good fine)
    (id : ComponentId) (port : String) {t : Turn κ ω} (ht : t.Honest good fine) :
    (pullNamed converse id port t).Honest good fine fun r => r ≠ .error .feederFailed := by
  unfold pullNamed
  split
  · exact .pure ht nofun
  · exact h.pullInput_honest hc id _ ht

theorem Candid.pullBatch_honest (h : Candid good fine) (hc : converse.Honest good fine)
    (id : ComponentId) (port : String) (max : Nat) {t : Turn κ ω} (ht : t.Honest good fine) :
    (pullBatch converse id port max t).Honest good fine fun r => r ≠ .error .feederFailed := by
  induction max generalizing t with
  | zero => exact .pure ht nofun
  | succ max ih =>
    refine (h.pullNamed_honest hc id port ht).andThen fun r t' ht' hr => ?_
    match r with
    | .error f => exact ⟨ht', fun hnone _ hb => Option.some.inj hb ▸ fun heq =>
        hr hnone (congrArg Except.error (Except.error.inj heq))⟩
    | .ok .again => exact .pure ht' nofun
    | .ok .endOfStream => exact .pure ht' nofun
    | .ok (.message m) =>
      refine (ih ht').andThen fun rest t'' ht'' hrest => ⟨ht'', ?_⟩
      rintro hnone _ ⟨⟩
      have hfair := hrest hnone
      match rest with
      | .ok batch => exact nofun
      | .error f => exact fun heq => hfair (congrArg Except.error (Except.error.inj heq))

/-- A candid dialogue is led to an honest end. The failures that it is told of are kept. -/
theorem Candid.play_honest (h : Candid good fine) (hc : converse.Honest good fine)
    (hblames : converse.Obeys (ExchangeLaw.relation fun _ => Turn.Blames)) (id : ComponentId)
    (d : Dialogue κ ω) {t : Turn κ ω} (ht : t.Honest good fine)
    (hd : t.failure = none → d.Candid good fine) :
    (d.play converse id t).Honest good fine fun
      | .reply answer k => answer ≠ .error .feederFailed ∧ good k
      | .retry k => good k := by
  induction d generalizing t with
  | reply answer k => exact ⟨ht, fun hnone _ hr => Option.some.inj hr ▸ hd hnone⟩
  | retry k => exact ⟨ht, fun hnone _ hr => Option.some.inj hr ▸ hd hnone⟩
  | pull port next ih =>
    cases hf : t.failure with
    | some f => exact .of_blames ht hf (blames_law.pullLaw.play hblames id _ t)
    | none =>
      refine (h.pullNamed_honest hc id port ht).andThen fun r t' ht' hr => ?_
      exact ih r ht' fun hnone => hd hf r (hr hnone)
  | batch port max next ih =>
    cases hf : t.failure with
    | some f => exact .of_blames ht hf (blames_law.pullLaw.play hblames id _ t)
    | none =>
      refine (h.pullBatch_honest hc id port max ht).andThen fun r t' ht' hr => ?_
      exact ih r ht' fun hnone => hd hf r (hr hnone)
  | atEnd port next ih => exact ih _ ht fun hnone => hd hnone _
  | inputs next ih => exact ih _ _ ht fun hnone => hd hnone _ _
  | look next ih => exact ih _ ht fun hnone => hd hnone _ (ht.clean hnone).shared
  | act step next ih =>
    refine ih ⟨fun hnone => ?_, ht.cause⟩ fun hnone => (hd hnone).2
    exact ⟨(hd hnone).1 _ (ht.clean hnone).shared, (ht.clean hnone).behaviors⟩

/-- **Whatever a candid filter does is honest.** The induction is on patience. -/
theorem Candid.converse_honest (h : Candid good fine) (patience : Nat) :
    (PullGraph.converse patience : Converse κ ω).Honest good fine := by
  induction patience with
  | zero => exact fun _ _ _ _ ht _ => ⟨ht, fun _ _ hr => nomatch hr⟩
  | succ patience ih =>
    intro id port k t ht hk
    refine (h.play_honest ih (blames_law.pullLaw.converse patience) id (Behavior.answer port k) ht
      fun hnone => h.answer port k (hk hnone)).andThen fun ending t' ht' hending => ?_
    cases ending with
    | reply answer k' => exact ⟨ht', fun hnone _ hr => Option.some.inj hr ▸ hending hnone⟩
    | retry k' => exact ih id port k' t' ht' hending

/-- A step that goes well leaves nobody with the executor's fault. In one that does not, it is
not the first failure. -/
theorem Candid.step (h : Candid good fine) {s : Step κ ω} (hdue : s.Due)
    (hsteady : s.graph.Steady) (hclean : s.graph.Clean good fine s.env) {patience : Nat}
    {r : Except Fault Pull} {t : Turn κ ω} (hpulled : s.pulled patience = ⟨some r, t⟩) :
    (∀ f, t.failure = some f → f.cause ≠ .feederFailed) ∧
      ∀ moved, (s.after patience).result = some (.ok moved) →
        (s.after patience).graph.Clean good fine (s.after patience).env := by
  have hbegin : s.turn.Honest good fine := ⟨fun _ => hclean, fun _ hf => nomatch hf⟩
  have hhonest : (s.pulled patience).Honest good fine fun r => r ≠ .error .feederFailed :=
    h.pullInput_honest (h.converse_honest patience) s.sink s.index hbegin
  rw [hpulled] at hhonest
  refine ⟨hhonest.turn.cause, fun moved hmoved => ?_⟩
  have houtcome := hdue.outcome hsteady hpulled
  generalize s.after patience = x at houtcome hmoved ⊢
  cases houtcome with
  | failed => cases hmoved
  | idle hnone => exact hhonest.turn.clean hnone
  | @delivered pull arrival c k p hnone _ _ hc hb hk hp =>
    have hturn := hhonest.turn.clean hnone
    have hgood : good k := by
      refine hturn.behaviors k ?_
      rw [← hb]
      exact List.mem_map_of_mem (List.mem_of_getElem? hc)
    obtain ⟨hgood', hfine⟩ := h.receive p.name arrival k t.env.shared hgood hturn.shared
    rw [Graph.deliver_eq hc hb hk hp]
    refine hturn.set (t.graph.count_modify_behaviors arrival s.sink _) ?_ hfine
    rintro _ ⟨⟩
    exact hgood'

/-- Waiting leaves a `fine` shared state `fine`. -/
def Policy.Keeps (fine : ω → Prop) (policy : Policy ω) : Prop :=
  ∀ idle w, fine w → fine (policy.delay idle w).shared

/-- What holds throughout a run of candid components. -/
structure Graph.Upright (good : κ → Prop) (fine : ω → Prop) (g : Graph κ ω) (env : Env ω) : Prop where
  sane : g.Sane env
  clean : g.Clean good fine env
  policy : g.policy.Keeps fine

theorem Candid.stepInvariant (h : Candid good fine) (patience : Nat) :
    Graph.StepInvariant patience (Graph.Upright good fine : Graph κ ω → Env ω → Prop) where
  step := by
    intro s hdue hs moved hmoved
    have hreturned : (s.after patience).result.isSome = true := by
      rw [hmoved]
      rfl
    obtain ⟨r, t, hpulled⟩ := s.pulled_of_returned hreturned
    have hsteady := hs.sane.steady hdue.running
    refine ⟨hs.sane.step hdue hreturned, ?_, ?_⟩
    · exact (h.step hdue hsteady hs.clean hpulled).2 moved hmoved
    · rw [(hdue.passes patience).leads.policy]
      exact hs.policy
  count g env stats hg :=
    ⟨hg.sane.tally stats, ⟨hg.clean.shared, hg.clean.behaviors⟩, hg.policy⟩
  note g env notice hg :=
    ⟨hg.sane.elsewhere (env.about_note notice g.id), ⟨hg.clean.shared, hg.clean.behaviors⟩, hg.policy⟩

omit [Behavior κ ω] in
theorem Graph.Upright.begins {g g₁ : Graph κ ω} {env env₁ : Env ω} (h : g.Upright good fine env)
    (hbegins : g.Begins env g₁ env₁) : g₁.Upright good fine env₁ := by
  obtain ⟨hbehaviors, hpolicy, hshared⟩ := hbegins.behaviors_eq
  refine ⟨hbegins.sane h.sane, ⟨?_, ?_⟩, ?_⟩
  · rw [hshared]
    exact h.clean.shared
  · rw [hbehaviors]
    exact h.clean.behaviors
  · rw [hpolicy]
    exact h.policy

/-- Candid components stay so from round to round. -/
theorem Candid.rounds (h : Candid good fine) {g : Graph κ ω} {env : Env ω}
    (hg : g.Upright good fine env) (patience n : Nat) :
    ∀ x ∈ Graph.rounds patience n g env, x.1.Upright good fine x.2 := by
  refine Graph.rounds_invariant (P := Graph.Upright good fine) ?_ ?_ n hg
  · intro g env hg outcome houtcome hgoesOn
    exact (h.stepInvariant patience).goesOn hg.sane (fun _ _ => hg.begins) houtcome hgoesOn
  · intro g env hg
    refine ⟨hg.sane.elsewhere (g.backOff_about env g.id), ⟨?_, hg.clean.behaviors⟩, hg.policy⟩
    have hfine := hg.policy g.stats.idleRounds env.shared hg.clean.shared
    unfold Graph.backOff
    split
    · rename_i henv
      obtain rfl := congrArg Prod.snd henv
      exact hfine
    · rename_i henv
      obtain rfl := congrArg Prod.snd henv
      exact hfine

end Pulls
end Candor

end PullGraph
