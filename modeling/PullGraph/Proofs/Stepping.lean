import Mathlib.Data.List.Basic
import PullGraph.Proofs.Abreast
import PullGraph.Proofs.Lifetime
import PullGraph.Scripted.Component

/-! # Stepping and running

Whoever has a graph can make its rounds one by one, or have all of them made by a run. The two
mix: a run that starts after some rounds comes to the same as one that made those rounds
itself (`run_after_rounds`). There is one thing that only a run does, and that is to ask
the policy after an idle round. So the rounds that were made before are to be such that the
policy would have let the run go on (`Graph.Stepped`).

Asking a policy may have effects of its own. If the caller asks it after every idle round, as
the run does, they are the same. If it is not asked then nobody must notice. Components may see
only part of what they share, and `view` is what they see of it: a policy may write into the
rest.
-/
namespace PullGraph

variable {κ ω σ α β : Type}

/-- Environments in which components see the same of what they share, the same runs have been
cancelled, and the same has happened on every graph. Notices do not count. -/
structure Env.Alike (view : ω → σ) (env env' : Env ω) : Prop where
  shared : view env.shared = view env'.shared
  cancelled : env.cancelled = env'.cancelled
  about : ∀ graph, env.journal.about graph = env'.journal.about graph

namespace Env.Alike

variable {view : ω → σ} {env env' env'' : Env ω}

theorem refl (env : Env ω) : env.Alike view env := ⟨rfl, rfl, fun _ => rfl⟩

theorem trans (h : env.Alike view env') (h' : env'.Alike view env'') : env.Alike view env'' where
  shared := h.shared.trans h'.shared
  cancelled := h.cancelled.trans h'.cancelled
  about graph := (h.about graph).trans (h'.about graph)

theorem calls (h : env.Alike view env') (graph : GraphId) :
    env.journal.calls graph = env'.journal.calls graph := by
  rw [Journal.calls_eq, Journal.calls_eq, h.about graph]

theorem record (h : env.Alike view env') (e : Event) :
    (env.record e).Alike view (env'.record e) where
  shared := h.shared
  cancelled := h.cancelled
  about graph := by
    rw [Env.record_journal, Env.record_journal, Journal.about_record, Journal.about_record,
      h.about graph]

theorem note_right (h : env.Alike view env') (n : Notice) : env.Alike view (env'.note n) :=
  ⟨h.shared, h.cancelled, fun graph => (h.about graph).trans (env'.about_note n graph).symm⟩

end Env.Alike

/-! ## What components see -/

/-- An act that sees nothing but `view` of what is shared. -/
def Act.Sees (view : ω → σ) (x : Act ω α) : Prop :=
  ∀ w w', view w = view w' → (x w).value = (x w').value ∧
    view (x w).shared = view (x w').shared ∧ (x w).cancels = (x w').cancels

namespace Act.Sees

variable {view : ω → σ} {x : Act ω α} {f : α → Act ω β}

theorem pure (a : α) : (Pure.pure a : Act ω α).Sees view := fun _ _ h => ⟨rfl, h, rfl⟩

theorem bind (hx : x.Sees view) (hf : ∀ a, (f a).Sees view) : (x >>= f).Sees view := by
  intro w w' h
  obtain ⟨hvalue, hshared, hcancels⟩ := hx w w' h
  obtain ⟨hvalue', hshared', hcancels'⟩ := hf (x w').value _ _ hshared
  rw [← hvalue] at hvalue' hshared' hcancels'
  simp only [Bind.bind, Act.bind, ← hvalue, ← hcancels, ← hcancels']
  exact ⟨hvalue', hshared', trivial⟩

theorem abreast (hx : x.Sees view) : x.Abreast (Env.Alike view) x := by
  intro env env' h
  obtain ⟨hvalue, hshared, hcancels⟩ := hx env.shared env'.shared h.shared
  exact ⟨hvalue, hshared, congrArg₂ (· ++ ·) hcancels h.cancelled, h.about⟩

end Act.Sees

theorem Act.sees_id (x : Act ω α) : x.Sees id := by
  rintro w _ rfl
  exact ⟨rfl, rfl, rfl⟩

theorem Dialogue.abreast_id (d : Dialogue κ ω) : d.Abreast (Env.Alike id) d := by
  induction d with
  | reply answer k => exact .reply answer k
  | retry k => exact .retry k
  | pull port next ih => exact .pull port ih
  | batch port max next ih => exact .batch port max ih
  | atEnd port next ih => exact .atEnd port ih
  | inputs next ih => exact .inputs ih
  | look next ih =>
    refine .look fun env env' h => ?_
    have hshared : env.shared = env'.shared := h.shared
    rw [hshared]
    exact ih env'.shared
  | act step next ih => exact .act step.sees_id.abreast ih

/-- Any components do the same where all that they share is the same. -/
theorem Behavior.runsAbreast_id (B : Behavior κ ω) : Graph.RunsAbreast (Env.Alike id) B where
  record _ _ e h := h.record e
  emit port k := (B.emit port k).sees_id.abreast
  answer port k := (B.answer port k).abreast_id
  consume port m k := (B.consume port m k).sees_id.abreast
  endOfStream port k := (B.endOfStream port k).sees_id.abreast
  finalize k := (B.finalize k).sees_id.abreast
  cancelled _ _ h := h.cancelled

/-! ## Scripted components

What is written on a bench is not looked at by those who work there, only which graph stands
where.
-/

theorem Bench.write_sees (line : String) : (Bench.write line).Sees Bench.places :=
  fun _ _ h => ⟨rfl, h, rfl⟩

theorem Bench.cancel_sees (place : String) : (Bench.cancel place).Sees Bench.places := by
  intro w w' h
  refine ⟨rfl, h, ?_⟩
  change (w.places.lookup place).toList = (w'.places.lookup place).toList
  rw [h]

theorem Bench.policy_sees (delay : UInt32 → Option Duration) (place : String)
    (cancelAt : Option Nat) (idle : UInt32) :
    ((Bench.policy delay place cancelAt).delay idle).Sees Bench.places := by
  refine .bind (Bench.write_sees _) fun _ => ?_
  split
  · exact .bind (Bench.cancel_sees place) fun _ => .pure _
  · exact .bind (.pure _) fun _ => .pure _

namespace Scripted

theorem give_sees (place : String) (item : Item) : (give place item).Sees Bench.places := by
  induction item with
  | message m => exact .pure _
  | again => exact .pure _
  | endOfStream => exact .pure _
  | fail text => exact .pure _
  | cancel inner ih => exact .bind (Bench.cancel_sees place) fun _ => ih

theorem emit_sees (port : String) (k : Scripted) : (emit port k).Sees Bench.places := by
  refine .bind (Bench.write_sees _) fun _ => ?_
  split
  · exact .bind (give_sees _ _) fun _ => .pure _
  · exact .pure _

theorem react_sees (place : String) (r : Option Reaction) : (react place r).Sees Bench.places := by
  unfold react
  split
  · exact .bind (Bench.cancel_sees place) fun _ => .pure _
  · exact .pure _
  · exact .pure _

theorem consume_sees (port : String) (m : Message) (k : Scripted) :
    (consume port m k).Sees Bench.places := by
  refine .bind (Bench.write_sees _) fun _ => ?_
  split
  · exact .bind (react_sees _ _) fun _ => .pure _
  · exact .pure _

theorem endOfStream_sees (port : String) (k : Scripted) :
    (endOfStream port k).Sees Bench.places := by
  refine .bind (Bench.write_sees _) fun _ => ?_
  split
  · exact .bind (react_sees _ _) fun _ => .pure _
  · exact .pure _

theorem finalize_sees (k : Scripted) : (finalize k).Sees Bench.places :=
  .bind (Bench.write_sees _) fun _ => .pure _

theorem tell_abreast (line : String) {d : Dialogue Scripted Bench}
    (h : d.Abreast (Env.Alike Bench.places) d) :
    (tell line d).Abreast (Env.Alike Bench.places) (tell line d) :=
  .act (Bench.write_sees line).abreast h

theorem follow_abreast (k : Scripted) (actions : List Action) (held : List Message) :
    (follow k actions held).Abreast (Env.Alike Bench.places) (follow k actions held) := by
  induction actions generalizing held with
  | nil => exact .reply _ _
  | cons action rest ih =>
    cases action with
    | pull port => exact .pull port fun r => .reply r k
    | tryPull port =>
      refine .pull port fun r => ?_
      cases r <;> exact tell_abreast _ (ih _)
    | batch port max =>
      refine .batch port max fun r => ?_
      cases r with
      | error f => exact .reply _ _
      | ok b => exact tell_abreast _ (ih _)
    | ports => exact .inputs fun id names => tell_abreast _ (ih held)
    | atEnd port => exact .atEnd port fun b => tell_abreast _ (ih held)
    | skipAtEnd port =>
      refine .atEnd port fun b => ?_
      cases b with
      | true => exact .reply _ _
      | false => exact ih held
    | held =>
      cases held with
      | nil => exact ih []
      | cons m ms => exact .reply _ _
    | emit m => exact .reply _ _
    | again => exact .reply _ _
    | endOfStream => exact .reply _ _
    | fail text => exact .reply _ _
    | cancel => exact .act (Bench.cancel_sees _).abreast (ih held)

theorem mergeFrom_abreast (k : Scripted) (names : List String) (count turn : Nat) :
    (mergeFrom k names count turn).Abreast (Env.Alike Bench.places)
      (mergeFrom k names count turn) := by
  induction count generalizing turn with
  | zero => exact .reply _ _
  | succ count ih =>
    refine .atEnd _ fun b => ?_
    cases b with
    | true => exact ih (turn + 1)
    | false =>
      refine .pull _ fun r => ?_
      rcases r with f | pulled
      · exact .reply _ _
      · cases pulled with
        | message m => exact .reply _ _
        | again => exact .reply _ _
        | endOfStream => exact ih (turn + 1)

theorem answer_abreast (port : String) (k : Scripted) :
    (answer port k).Abreast (Env.Alike Bench.places) (answer port k) := by
  refine tell_abreast _ ?_
  split
  · exact follow_abreast _ _ _
  · exact .inputs fun _ names => mergeFrom_abreast k names _ _
  · exact .reply _ _

/-- Scripted components look at nothing on the bench but the places. -/
theorem runsAbreast_places :
    Graph.RunsAbreast (Env.Alike Bench.places) (inferInstance : Behavior Scripted Bench) where
  record _ _ e h := h.record e
  emit port k := (emit_sees port k).abreast
  answer port k := answer_abreast port k
  consume port m k := (consume_sees port m k).abreast
  endOfStream port k := (endOfStream_sees port k).abreast
  finalize k := (finalize_sees k).abreast
  cancelled _ _ h := h.cancelled

end Scripted

/-! ## Rounds made one by one -/

namespace Graph

variable [B : Behavior κ ω] {view : ω → σ} {patience k : Nat} {g g₁ g' : Graph κ ω}
  {env env₁ env₂ env' : Env ω} {delay : Duration}

omit B in
/-- What the policy of a graph says to the idle rounds so far, and what asking it leaves. -/
def consult (g : Graph κ ω) (env : Env ω) : Option Duration × Env ω :=
  env.perform (g.policy.delay g.stats.idleRounds)

/-- `k` rounds are made one after another, and no more than an idle round or progress comes of
any. After each idle round the policy would have a run go on, and either it is asked, or it is
not and asking it would have gone unnoticed. -/
inductive Stepped (view : ω → σ) (patience : Nat) :
    (k : Nat) → Graph κ ω → Env ω → Graph κ ω → Env ω → Prop where
  | none (g : Graph κ ω) (env : Env ω) : Stepped view patience 0 g env g env
  | progress {k : Nat} {g g₁ g' : Graph κ ω} {env env₁ env' : Env ω}
      (round : g.runOnce patience env = ⟨some (.ok .progress), g₁, env₁⟩)
      (rest : Stepped view patience k g₁ env₁ g' env') :
      Stepped view patience (k + 1) g env g' env'
  | asked {k : Nat} {g g₁ g' : Graph κ ω} {env env₁ env₂ env' : Env ω} {delay : Duration}
      (round : g.runOnce patience env = ⟨some (.ok .again), g₁, env₁⟩)
      (goesOn : g₁.consult env₁ = (some delay, env₂))
      (rest : Stepped view patience k g₁ env₂ g' env') :
      Stepped view patience (k + 1) g env g' env'
  | unasked {k : Nat} {g g₁ g' : Graph κ ω} {env env₁ env₂ env' : Env ω} {delay : Duration}
      (round : g.runOnce patience env = ⟨some (.ok .again), g₁, env₁⟩)
      (goesOn : g₁.consult env₁ = (some delay, env₂)) (unnoticed : env₁.Alike view env₂)
      (rest : Stepped view patience k g₁ env₁ g' env') :
      Stepped view patience (k + 1) g env g' env'

theorem run_progress (hround : g.runOnce patience env = ⟨some (.ok .progress), g₁, env₁⟩)
    (n : Nat) : run patience (n + 1) g env = run patience n g₁ env₁ := by
  simp only [run, hround]

theorem run_again (hround : g.runOnce patience env = ⟨some (.ok .again), g₁, env₁⟩)
    (hgoesOn : g₁.consult env₁ = (some delay, env₂)) (n : Nat) :
    run patience (n + 1) g env =
      run patience n g₁ (env₂.note (.backingOff g₁.name g₁.stats.idleRounds delay)) := by
  rw [consult] at hgoesOn
  simp only [run, hround, backOff, hgoesOn]

theorem policy_of_round {r : Option (Except RunError Outcome)}
    (hround : g.runOnce patience env = ⟨r, g₁, env₁⟩) : g₁.policy = g.policy := by
  have hran := (g.runOnce_ran patience env).policy
  rwa [hround] at hran

/-- A round in an environment that cannot be told apart. -/
theorem RunsAbreast.runOnce_eq (hR : RunsAbreast (Env.Alike view) B)
    {r : Option (Except RunError Outcome)} (hround : g.runOnce patience env = ⟨r, g₁, env₁⟩)
    (h : env.Alike view env') :
    ∃ env₁', g.runOnce patience env' = ⟨r, g₁, env₁'⟩ ∧ env₁.Alike view env₁' := by
  have habreast := hR.runOnce g patience h
  rw [hround] at habreast
  generalize g.runOnce patience env' = x at habreast ⊢
  cases habreast with
  | intro _ _ henv => exact ⟨_, rfl, henv⟩

omit B in
/-- What a policy says in an environment that cannot be told apart. -/
theorem consult_eq (hpolicy : g.policy.Abreast (Env.Alike view)) {said : Option Duration}
    (hsaid : g.consult env = (said, env₁)) (h : env.Alike view env') :
    ∃ env₁', g.consult env' = (said, env₁') ∧ env₁.Alike view env₁' := by
  obtain ⟨hvalue, henv⟩ := hpolicy g.stats.idleRounds _ _ h
  rw [consult] at hsaid
  rw [hsaid] at hvalue henv
  exact ⟨(g.consult env').2, Prod.ext hvalue.symm rfl, henv⟩

/-- A run after some rounds, and a run instead of them. The induction is on the rounds; the two
environments differ in what the policy did where it was not asked, and in the notices of the
run that it waits. -/
theorem Stepped.run_abreast (hR : RunsAbreast (Env.Alike view) B)
    (h : Stepped view patience k g env g' env') (hpolicy : g.policy.Abreast (Env.Alike view))
    {direct : Env ω} (hdirect : env.Alike view direct) (n : Nat) :
    (run patience n g' env').Abreast (Env.Alike view) (run patience (k + n) g direct) := by
  induction h generalizing direct with
  | none g env =>
    rw [Nat.zero_add]
    exact hR.run patience n g hpolicy hdirect
  | progress round rest ih =>
    obtain ⟨direct₁, hround, hdirect₁⟩ := hR.runOnce_eq round hdirect
    rw [Nat.add_right_comm, run_progress hround]
    exact ih (policy_of_round round ▸ hpolicy) hdirect₁
  | asked round goesOn rest ih =>
    obtain ⟨direct₁, hround, hdirect₁⟩ := hR.runOnce_eq round hdirect
    have hpolicy₁ := policy_of_round round ▸ hpolicy
    obtain ⟨direct₂, hgoesOn, hdirect₂⟩ := consult_eq hpolicy₁ goesOn hdirect₁
    rw [Nat.add_right_comm, run_again hround hgoesOn]
    exact ih hpolicy₁ (hdirect₂.note_right _)
  | unasked round goesOn unnoticed rest ih =>
    obtain ⟨direct₁, hround, hdirect₁⟩ := hR.runOnce_eq round hdirect
    have hpolicy₁ := policy_of_round round ▸ hpolicy
    obtain ⟨direct₂, hgoesOn, hdirect₂⟩ := consult_eq hpolicy₁ goesOn hdirect₁
    rw [Nat.add_right_comm, run_again hround hgoesOn]
    exact ih hpolicy₁ ((unnoticed.trans hdirect₂).note_right _)

end Graph

theorem After.eq_of_result {x : After κ ω α} {r : α} (h : x.result = r) :
    x = ⟨r, x.graph, x.env⟩ := by
  rw [← h]

/-- Two ways to come to the same: with the same result, the same graph and the same calls of
components, in environments that cannot be told apart. -/
structure After.Agree (view : ω → σ) (x x' : After κ ω α) : Prop where
  result : x.result = x'.result
  graph : x.graph = x'.graph
  calls : ∀ graph, x.env.journal.calls graph = x'.env.journal.calls graph
  env : x.env.Alike view x'.env

theorem After.Abreast.agree {view : ω → σ} {x x' : After κ ω α}
    (h : x.Abreast (Env.Alike view) x') : x.Agree view x' := by
  obtain ⟨result, g, henv⟩ := h
  exact ⟨rfl, rfl, henv.calls, henv⟩

/-- **Stepping and running agree.** Make rounds one by one, in any number and of any graph, as
long as each comes to progress or is an idle one after which the policy would have a run go on,
and then have the graph run: this comes to the same as to have it run at once. Whatever the
components are and whatever the policy, this holds if the policy is asked in between or if
asking it changes nothing. It also holds if asking it changes only what neither the components
nor the policy itself look at. -/
theorem run_after_rounds [B : Behavior κ ω] (patience : Nat) :
    (∀ (k : Nat) (g g' : Graph κ ω) (env env' : Env ω),
      Graph.Stepped id patience k g env g' env' →
      ∀ n, (Graph.run patience n g' env').Agree id (Graph.run patience (k + n) g env)) ∧
    ∀ (σ : Type) (view : ω → σ), Graph.RunsAbreast (Env.Alike view) B →
      ∀ (k : Nat) (g g' : Graph κ ω) (env env' : Env ω), g.policy.Abreast (Env.Alike view) →
        Graph.Stepped view patience k g env g' env' →
        ∀ n, (Graph.run patience n g' env').Agree view (Graph.run patience (k + n) g env) := by
  constructor
  · intro k g g' env env' h n
    have hpolicy : g.policy.Abreast (Env.Alike id) :=
      fun idle => (g.policy.delay idle).sees_id.abreast
    exact (h.run_abreast B.runsAbreast_id hpolicy (.refl env) n).agree
  · intro σ view hR k g g' env env' hpolicy h n
    exact (h.run_abreast hR hpolicy (.refl env) n).agree

/-- A scripted source that has nothing at first, then a message, and then nothing any more, and
a sink, under a policy that writes down what it is asked and gives up after two idle rounds. -/
def minutedRequests : List (Request Scripted Bench) :=
  [.add { Scripted.componentClass "letters"
        { label := "giver", script := .source [.again, .message (.int 1)] .again 0 }
        with ports := [⟨"out", .output⟩] } "giver" .nil,
    .add { Scripted.componentClass "keep" { label := "taker", script := .sink [] [] 0 }
        with ports := [⟨"in", .input⟩] } "taker" .nil,
    .link "giver" "out" "taker" "in",
    .follow (Bench.policy (Bench.listedDelay [some 1]) "g" none)]

/-- The graph of the requests. -/
def minuted : Graph Scripted Bench × Env Bench :=
  Graph.build "minuted" ⟨1, 100, none⟩ { places := [("g", 1)] } minutedRequests

/-- Two rounds are made first, the idle one and the one in which the message comes. The run
stalls after two more, whether the policy is asked in between or not. -/
theorem minuted_steps :
    minuted.1.state = .configuring ∧
    (Graph.run 5 9 minuted.1 minuted.2).result = some (.error (.stalled 2 [])) ∧
    (∃ g' env', Graph.Stepped id 5 2 minuted.1 minuted.2 g' env' ∧
      (Graph.run 5 7 g' env').Agree id (Graph.run 5 9 minuted.1 minuted.2)) ∧
    ∃ g' env', Graph.Stepped Bench.places 5 2 minuted.1 minuted.2 g' env' ∧
      (Graph.run 5 7 g' env').Agree Bench.places (Graph.run 5 9 minuted.1 minuted.2) := by
  obtain ⟨hany, hview⟩ := run_after_rounds (κ := Scripted) 5
  have hpolicy : minuted.1.policy.Abreast (Env.Alike Bench.places) :=
    fun idle => (Bench.policy_sees (Bench.listedDelay [some 1]) "g" none idle).abreast
  have hidle : (minuted.1.runOnce 5 minuted.2).result = some (.ok .again) := by decide +kernel
  refine ⟨rfl, by decide +kernel, ?_, ?_⟩
  · have hstepped : Graph.Stepped id 5 2 minuted.1 minuted.2 _ _ := .asked
      (After.eq_of_result hidle)
      (Prod.ext (by decide +kernel : _ = some (.ofMillis 1)) rfl)
      (.progress (After.eq_of_result (by decide +kernel)) (.none _ _))
    exact ⟨_, _, hstepped, hany 2 _ _ _ _ hstepped 7⟩
  · have hstepped : Graph.Stepped Bench.places 5 2 minuted.1 minuted.2 _ _ := .unasked
      (After.eq_of_result hidle)
      (Prod.ext (by decide +kernel : _ = some (.ofMillis 1)) rfl)
      ⟨by decide +kernel, by decide +kernel, fun _ => rfl⟩
      (.progress (After.eq_of_result (by decide +kernel)) (.none _ _))
    exact ⟨_, _, hstepped,
      hview _ Bench.places Scripted.runsAbreast_places 2 _ _ _ _ hpolicy hstepped 7⟩

end PullGraph
