import PullGraph.Proofs.Rounds

/-! # Runs side by side

Take a graph in two environments that a relation `R` ties, with components that do the same in
environments tied by `R` and leave them tied (`Behavior.Abreast`). Whatever the executor does
with the graph then comes to the same in both: the same results, the same graph, and
environments that are tied again. This is shown function by function, from one pull up to
whole runs (`Graph.RunsAbreast.run`). The components of the two sides may be different ones as far
as a pull step (`Graph.sinkStep_abreast`).
-/
namespace PullGraph

variable {κ ω α β : Type}

/-- Acts with the same value in environments that `R` ties, which they leave tied. -/
def Act.Abreast (R : Env ω → Env ω → Prop) (x x' : Act ω α) : Prop :=
  ∀ env env' : Env ω, R env env' →
    (env.perform x).1 = (env'.perform x').1 ∧ R (env.perform x).2 (env'.perform x').2

/-- Dialogues that make the same requests in environments that `R` ties. -/
inductive Dialogue.Abreast (R : Env ω → Env ω → Prop) : Dialogue κ ω → Dialogue κ ω → Prop where
  | reply (answer : Except Fault Pull) (k : κ) : Abreast R (.reply answer k) (.reply answer k)
  | retry (k : κ) : Abreast R (.retry k) (.retry k)
  | pull (port : String) {next next' : Except Fault Pull → Dialogue κ ω}
      (rest : ∀ r, Abreast R (next r) (next' r)) : Abreast R (.pull port next) (.pull port next')
  | batch (port : String) (max : Nat) {next next' : Except Fault Batch → Dialogue κ ω}
      (rest : ∀ r, Abreast R (next r) (next' r)) :
      Abreast R (.batch port max next) (.batch port max next')
  | atEnd (port : String) {next next' : Bool → Dialogue κ ω}
      (rest : ∀ b, Abreast R (next b) (next' b)) : Abreast R (.atEnd port next) (.atEnd port next')
  | inputs {next next' : ComponentId → List String → Dialogue κ ω}
      (rest : ∀ id names, Abreast R (next id names) (next' id names)) :
      Abreast R (.inputs next) (.inputs next')
  | look {next next' : ω → Dialogue κ ω}
      (rest : ∀ env env' : Env ω, R env env' → Abreast R (next env.shared) (next' env'.shared)) :
      Abreast R (.look next) (.look next')
  | act {step step' : Act ω Unit} {next next' : Dialogue κ ω} (first : step.Abreast R step')
      (rest : Abreast R next next') : Abreast R (.act step next) (.act step' next')

/-- Components that do the same in environments that `R` ties. Environments stay tied if the
same is written into both journals. -/
structure Behavior.Abreast (R : Env ω → Env ω → Prop) (B B' : Behavior κ ω) : Prop where
  record : ∀ (env env' : Env ω) (e : Event), R env env' → R (env.record e) (env'.record e)
  emit : ∀ port k, (B.emit port k).Abreast R (B'.emit port k)
  answer : ∀ port k, (B.answer port k).Abreast R (B'.answer port k)
  consume : ∀ port m k, (B.consume port m k).Abreast R (B'.consume port m k)
  endOfStream : ∀ port k, (B.endOfStream port k).Abreast R (B'.endOfStream port k)
  finalize : ∀ k, (B.finalize k).Abreast R (B'.finalize k)

/-- A policy that says the same in environments that `R` ties. -/
def Policy.Abreast (R : Env ω → Env ω → Prop) (policy : Policy ω) : Prop :=
  ∀ idle, (policy.delay idle).Abreast R (policy.delay idle)

/-- Turns that differ in their environments only, and those are tied. -/
inductive Turn.Abreast (R : Env ω → Env ω → Prop) : Turn κ ω → Turn κ ω → Prop where
  | intro (g : Graph κ ω) (failure : Option Failure) {env env' : Env ω} (tied : R env env') :
      Abreast R ⟨g, env, failure⟩ ⟨g, env', failure⟩

/-- Answers that differ in their environments only, and those are tied. -/
inductive Answer.Abreast (R : Env ω → Env ω → Prop) : Answer κ ω α → Answer κ ω α → Prop where
  | intro (result : Option α) {t t' : Turn κ ω} (turn : t.Abreast R t') :
      Abreast R ⟨result, t⟩ ⟨result, t'⟩

/-- Outcomes of calls that differ in their environments only, and those are tied. -/
inductive After.Abreast (R : Env ω → Env ω → Prop) : After κ ω α → After κ ω α → Prop where
  | intro (result : α) (g : Graph κ ω) {env env' : Env ω} (tied : R env env') :
      Abreast R ⟨result, g, env⟩ ⟨result, g, env'⟩

/-- Ways to bring filters to answer that come to the same in tied environments. -/
def Converse.Abreast (R : Env ω → Env ω → Prop) (c c' : Converse κ ω) : Prop :=
  ∀ id port k t t', t.Abreast R t' → (c id port k t).Abreast R (c' id port k t')

section Values

variable {R : Env ω → Env ω → Prop} {t t' : Turn κ ω}

theorem Turn.Abreast.setBehavior (h : t.Abreast R t') (id : ComponentId) (k : Option κ) :
    (t.setBehavior id k).Abreast R (t'.setBehavior id k) := by
  obtain ⟨g, failure, henv⟩ := h
  exact ⟨_, failure, henv⟩

theorem Turn.Abreast.blame (h : t.Abreast R t') (f : Failure) :
    (t.blame f).Abreast R (t'.blame f) := by
  obtain ⟨g, failure, henv⟩ := h
  exact ⟨g, _, henv⟩

theorem Turn.Abreast.latch (h : t.Abreast R t') (id : ComponentId) (index : Nat)
    (answer : Except Fault Pull) :
    (t.latch id index answer).Abreast R (t'.latch id index answer) := by
  obtain ⟨g, failure, henv⟩ := h
  unfold Turn.latch
  split
  · exact ⟨_, failure, henv⟩
  · exact ⟨g, failure, henv⟩

theorem Turn.Abreast.perform {x x' : Act ω α} (hx : x.Abreast R x') (h : t.Abreast R t') :
    (t.perform x).1 = (t'.perform x').1 ∧ (t.perform x).2.Abreast R (t'.perform x').2 := by
  obtain ⟨g, failure, henv⟩ := h
  obtain ⟨hvalue, henv'⟩ := hx _ _ henv
  exact ⟨hvalue, g, failure, henv'⟩

theorem Answer.Abreast.andThen {x x' : Answer κ ω α} {next next' : α → Turn κ ω → Answer κ ω β}
    (hx : x.Abreast R x')
    (hnext : ∀ a t t', t.Abreast R t' → (next a t).Abreast R (next' a t')) :
    (x.andThen next).Abreast R (x'.andThen next') := by
  obtain ⟨result, ht⟩ := hx
  cases result with
  | none => exact ⟨none, ht⟩
  | some a => exact hnext a _ _ ht

theorem After.Abreast.map {x x' : After κ ω α} (h : x.Abreast R x') (f : α → β) :
    (x.map f).Abreast R (x'.map f) := by
  obtain ⟨result, g, henv⟩ := h
  exact ⟨_, g, henv⟩

end Values

section Pulls

variable {R : Env ω → Env ω → Prop} {B B' : Behavior κ ω} {c c' : Converse κ ω} {t t' : Turn κ ω}

theorem Behavior.Abreast.note (hB : B.Abreast R B') {env env' : Env ω} (h : R env env')
    (n : Notice) : R (env.note n) (env'.note n) := hB.record env env' (.notice n) h

theorem Turn.Abreast.refuse (hB : B.Abreast R B') (h : t.Abreast R t') (f : Fault) :
    (t.refuse f).Abreast R (t'.refuse f) := by
  obtain ⟨g, failure, henv⟩ := h
  exact ⟨g, failure, hB.record _ _ _ henv⟩

theorem Turn.Abreast.record (hB : B.Abreast R B') (h : t.Abreast R t') (id : ComponentId)
    (call : Call) : (t.record id call).Abreast R (t'.record id call) := by
  obtain ⟨g, failure, henv⟩ := h
  exact ⟨g, failure, hB.record _ _ _ henv⟩

theorem accept_abreast (hB : B.Abreast R B') (id : ComponentId) (port : String)
    (answer : Except Fault Pull) (k : κ) (h : t.Abreast R t') :
    (accept id port answer k t).Abreast R (accept id port answer k t') := by
  have hback := (h.setBehavior id (some k)).record hB id (.answered port answer)
  cases answer with
  | ok pulled => exact ⟨_, hback⟩
  | error cause => exact ⟨_, hback.blame ⟨id, cause⟩⟩

theorem produce_abreast (hB : B.Abreast R B') (hc : c.Abreast R c') (kind : Kind)
    (id : ComponentId) (port : String) (k : κ) (h : t.Abreast R t') :
    (@produce κ ω B c kind id port k t).Abreast R (@produce κ ω B' c' kind id port k t') := by
  cases kind with
  | source =>
    obtain ⟨hvalue, ht⟩ := h.perform (hB.emit port k)
    simp only [produce]
    rw [hvalue]
    exact ⟨_, ht⟩
  | filter => exact hc id port k t t' h
  | sink => exact ⟨_, h.refuse hB _⟩

theorem pullOutput_abreast (hB : B.Abreast R B') (hc : c.Abreast R c') (id : ComponentId)
    (index : Nat) (h : t.Abreast R t') :
    (@pullOutput κ ω B c id index t).Abreast R (@pullOutput κ ω B' c' id index t') := by
  obtain ⟨g, failure, henv⟩ := h
  have h : Turn.Abreast R ⟨g, _, failure⟩ ⟨g, _, failure⟩ := ⟨g, failure, henv⟩
  unfold pullOutput
  dsimp only
  -- the graph is the same, so both sides find the same component at home or away
  split
  · rename_i component port _ _
    cases component.behavior with
    | none => exact ⟨_, h.refuse hB _⟩
    | some k =>
      have hask := (h.setBehavior id none).record hB id (.asked port.name)
      refine (produce_abreast hB hc component.kind id port.name k hask).andThen ?_
      rintro ⟨answer, k'⟩ t₁ t₁' ht
      exact accept_abreast hB id port.name answer k' ht
  · exact ⟨_, h.refuse hB _⟩

theorem pullInput_abreast (hB : B.Abreast R B') (hc : c.Abreast R c') (id : ComponentId)
    (index : Nat) (h : t.Abreast R t') :
    (@pullInput κ ω B c id index t).Abreast R (@pullInput κ ω B' c' id index t') := by
  obtain ⟨g, failure, henv⟩ := h
  have h : Turn.Abreast R ⟨g, _, failure⟩ ⟨g, _, failure⟩ := ⟨g, failure, henv⟩
  unfold pullInput
  dsimp only
  split
  · exact ⟨_, h.refuse hB _⟩
  · split
    · exact ⟨_, h⟩
    · split
      · exact ⟨_, h.refuse hB _⟩
      · refine (pullOutput_abreast hB hc _ _ h).andThen fun answer t₁ t₁' ht => ?_
        exact ⟨_, ht.latch id index answer⟩

theorem pullNamed_abreast (hB : B.Abreast R B') (hc : c.Abreast R c') (id : ComponentId)
    (port : String) (h : t.Abreast R t') :
    (@pullNamed κ ω B c id port t).Abreast R (@pullNamed κ ω B' c' id port t') := by
  obtain ⟨g, failure, henv⟩ := h
  unfold pullNamed
  dsimp only
  split
  · exact ⟨_, g, failure, henv⟩
  · exact pullInput_abreast hB hc id _ ⟨g, failure, henv⟩

theorem pullBatch_abreast (hB : B.Abreast R B') (hc : c.Abreast R c') (id : ComponentId)
    (port : String) (max : Nat) (h : t.Abreast R t') :
    (@pullBatch κ ω B c id port max t).Abreast R (@pullBatch κ ω B' c' id port max t') := by
  induction max generalizing t t' with
  | zero => exact ⟨_, h⟩
  | succ max ih =>
    refine (pullNamed_abreast hB hc id port h).andThen fun r t₁ t₁' ht => ?_
    rcases r with f | pulled
    · exact ⟨_, ht⟩
    · cases pulled with
      | message m => exact (ih ht).andThen fun rest t₂ t₂' ht₂ => ⟨_, ht₂⟩
      | again => exact ⟨_, ht⟩
      | endOfStream => exact ⟨_, ht⟩

theorem play_abreast (hB : B.Abreast R B') (hc : c.Abreast R c') (id : ComponentId)
    {d d' : Dialogue κ ω} (hd : d.Abreast R d') (h : t.Abreast R t') :
    (@Dialogue.play κ ω B c id d t).Abreast R (@Dialogue.play κ ω B' c' id d' t') := by
  induction hd generalizing t t' with
  | reply answer k => exact ⟨_, h⟩
  | retry k => exact ⟨_, h⟩
  | pull port _ ih => exact (pullNamed_abreast hB hc id port h).andThen fun r _ _ ht => ih r ht
  | batch port max _ ih =>
    exact (pullBatch_abreast hB hc id port max h).andThen fun r _ _ ht => ih r ht
  | atEnd port _ ih =>
    obtain ⟨g, failure, henv⟩ := h
    exact ih _ ⟨g, failure, henv⟩
  | inputs _ ih =>
    obtain ⟨g, failure, henv⟩ := h
    exact ih _ _ ⟨g, failure, henv⟩
  | look _ ih =>
    obtain ⟨g, failure, henv⟩ := h
    exact ih _ _ henv ⟨g, failure, henv⟩
  | act first _ ih => exact ih (h.perform first).2

/-- Filters go through the same dialogues, however often they start over and however far
upstream they reach. The induction is on patience. -/
theorem converse_abreast (hB : B.Abreast R B') (patience : Nat) :
    Converse.Abreast R (@converse κ ω B patience) (@converse κ ω B' patience) := by
  induction patience with
  | zero => exact fun _ _ _ _ _ h => ⟨_, h⟩
  | succ patience ih =>
    intro id port k t t' h
    refine (play_abreast hB ih id (hB.answer port k) h).andThen fun ending t₁ t₁' ht => ?_
    cases ending with
    | reply answer k' => exact ⟨_, ht⟩
    | retry k' => exact ih id port k' t₁ t₁' ht

namespace Graph

variable {env env' : Env ω}

theorem turnAway_abreast (hB : B.Abreast R B') (g : Graph κ ω) (id : ComponentId) (cause : Fault)
    (h : R env env') : (g.turnAway id cause env).Abreast R (g.turnAway id cause env') :=
  ⟨_, g, hB.record _ _ _ h⟩

theorem receive_abreast (hB : B.Abreast R B') (port : String) (arrival : Option Message) (k : κ) :
    (@receive κ ω B port arrival k).Abreast R (@receive κ ω B' port arrival k) := by
  cases arrival with
  | none => exact hB.endOfStream port k
  | some m => exact hB.consume port m k

theorem deliver_abreast (hB : B.Abreast R B') (g : Graph κ ω) (id : ComponentId) (index : Nat)
    (arrival : Option Message) (h : R env env') :
    (@deliver κ ω B g id index arrival env).Abreast R
      (@deliver κ ω B' g id index arrival env') := by
  unfold deliver
  split
  · exact turnAway_abreast hB g id _ h
  · rename_i component _
    cases component.behavior with
    | none => exact turnAway_abreast hB g id _ h
    | some k =>
      dsimp only
      split
      · obtain ⟨hvalue, henv⟩ := receive_abreast hB
          (((component.ports[index]?).map (·.name)).getD "") arrival k _ _ h
        -- the sink's verdict and its next state are one value, the same on both sides
        generalize env.perform _ = y, env'.perform _ = y' at hvalue henv ⊢
        obtain ⟨⟨result, k'⟩, env₁⟩ := y
        obtain ⟨_, env₁'⟩ := y'
        obtain rfl := hvalue
        cases result <;> exact ⟨_, _, hB.record _ _ _ henv⟩
      · exact turnAway_abreast hB g id _ h

theorem afterPull_abreast (hB : B.Abreast R B') (id : ComponentId) (index : Nat)
    (pulled : Except Fault Pull) (h : t.Abreast R t') :
    (@afterPull κ ω B id index pulled t).Abreast R (@afterPull κ ω B' id index pulled t') := by
  obtain ⟨g, failure, henv⟩ := h
  unfold afterPull
  dsimp only
  split
  · exact ⟨_, g, henv⟩
  · exact ⟨_, g, henv⟩
  · exact ⟨_, g, henv⟩
  · exact deliver_abreast hB g id index _ henv
  · exact deliver_abreast hB g id index none henv

/-- **A pull step comes to the same** in tied environments. -/
theorem sinkStep_abreast (hB : B.Abreast R B') (g : Graph κ ω) (patience : Nat)
    (id : ComponentId) (index : Nat) (h : R env env') :
    (@sinkStep κ ω B g patience id index env).Abreast R
      (@sinkStep κ ω B' g patience id index env') := by
  have hpull := pullInput_abreast hB (converse_abreast hB patience) id index
    (Turn.Abreast.intro g none h)
  unfold sinkStep
  generalize @pullInput κ ω B (@converse κ ω B patience) id index ⟨g, env, none⟩ = x,
    @pullInput κ ω B' (@converse κ ω B' patience) id index ⟨g, env', none⟩ = x' at hpull ⊢
  obtain ⟨result, ht⟩ := hpull
  cases result with
  | none =>
    obtain ⟨g', failure, henv⟩ := ht
    exact ⟨_, g', henv⟩
  | some pulled => exact (afterPull_abreast hB id index pulled ht).map some

end Graph
end Pulls

/-! ## Rounds and runs

From here on both sides have the same components, and environments that are tied agree on which
runs have been cancelled.
-/

namespace Graph

variable [B : Behavior κ ω] {R : Env ω → Env ω → Prop} {env env' : Env ω}

/-- `R` ties environments in which the components do the same and the same runs are cancelled. -/
structure RunsAbreast (R : Env ω → Env ω → Prop) (B : Behavior κ ω) : Prop extends
    B.Abreast R B where
  cancelled : ∀ env env' : Env ω, R env env' → env.cancelled = env'.cancelled

namespace RunsAbreast

theorem isCancelled (hR : RunsAbreast R B) (h : R env env') (graph : GraphId) :
    env.isCancelled graph = env'.isCancelled graph := by
  rw [Env.isCancelled, hR.cancelled _ _ h, Env.isCancelled]

theorem sweepPorts (hR : RunsAbreast R B) (patience : Nat) (id : ComponentId)
    (indices : List Nat) (progressed : Bool) (g : Graph κ ω) (h : R env env') :
    (sweepPorts patience id indices progressed g env).Abreast R
      (sweepPorts patience id indices progressed g env') := by
  induction indices generalizing progressed g env env' with
  | nil => exact ⟨_, g, h⟩
  | cons index indices ih =>
    have hstep := sinkStep_abreast hR.toAbreast g patience id index h
    simp only [Graph.sweepPorts, hR.isCancelled h]
    -- between two steps both sides see the same cancellations
    split
    · exact ⟨_, g, h⟩
    · generalize g.sinkStep patience id index env = x, g.sinkStep patience id index env' = x'
        at hstep ⊢
      obtain ⟨result, g', henv⟩ := hstep
      rcases result with _ | (failure | moved)
      · exact ⟨_, g', henv⟩
      · exact ⟨_, g', henv⟩
      · exact ih _ g' henv

theorem sweepSinks (hR : RunsAbreast R B) (patience : Nat) (ids : List ComponentId)
    (progressed : Bool) (g : Graph κ ω) (h : R env env') :
    (sweepSinks patience ids progressed g env).Abreast R
      (sweepSinks patience ids progressed g env') := by
  induction ids generalizing progressed g env env' with
  | nil => exact ⟨_, g, h⟩
  | cons id ids ih =>
    have hports := hR.sweepPorts patience id ((g.components[id]?.map (·.pending)).getD [])
      progressed g h
    simp only [Graph.sweepSinks]
    generalize Graph.sweepPorts patience id _ progressed g env = x,
      Graph.sweepPorts patience id _ progressed g env' = x' at hports ⊢
    obtain ⟨result, g', henv⟩ := hports
    rcases result with _ | (progressed' | _ | failure)
    · exact ⟨_, g', henv⟩
    · exact ih progressed' g' henv
    · exact ⟨_, g', henv⟩
    · exact ⟨_, g', henv⟩

theorem start (hR : RunsAbreast R B) (g : Graph κ ω) (h : R env env') :
    (g.start env).Abreast R (g.start env') := by
  unfold Graph.start
  split
  · exact ⟨_, g, h⟩
  · exact ⟨_, _, hR.note h _⟩

theorem ensureRunning (hR : RunsAbreast R B) (g : Graph κ ω) (h : R env env') :
    (g.ensureRunning env).Abreast R (g.ensureRunning env') := by
  unfold Graph.ensureRunning
  split
  · exact hR.start g h
  · exact ⟨_, g, h⟩
  · exact ⟨_, g, h⟩

theorem finalizeOne (hR : RunsAbreast R B) (c : Component κ) (h : R env env') :
    (c.finalize env).1 = (c.finalize env').1 ∧ (c.finalize env).2.1 = (c.finalize env').2.1 ∧
      R (c.finalize env).2.2 (c.finalize env').2.2 := by
  unfold Component.finalize
  split
  · exact ⟨rfl, rfl, h⟩
  · have hnote := hR.note h (.finalizing c.name)
    cases c.behavior with
    | none => exact ⟨rfl, rfl, hnote⟩
    | some k =>
      obtain ⟨hvalue, henv⟩ := hR.finalize k _ _ hnote
      dsimp only
      generalize (env.note _).perform _ = y, (env'.note _).perform _ = y' at hvalue henv ⊢
      obtain ⟨⟨result, k'⟩, env₁⟩ := y
      obtain ⟨_, env₁'⟩ := y'
      obtain rfl := hvalue
      exact ⟨rfl, rfl, hR.record _ _ _ henv⟩

theorem finalizeList (hR : RunsAbreast R B) (graph : String) (cs : List (Component κ))
    (h : R env env') :
    (finalizeList graph cs env).1 = (finalizeList graph cs env').1 ∧
      (finalizeList graph cs env).2.1 = (finalizeList graph cs env').2.1 ∧
      R (finalizeList graph cs env).2.2 (finalizeList graph cs env').2.2 := by
  induction cs with
  | nil => exact ⟨rfl, rfl, h⟩
  | cons c cs ih =>
    simp only [Graph.finalizeList]
    generalize Graph.finalizeList graph cs env = x, Graph.finalizeList graph cs env' = x' at ih ⊢
    obtain ⟨failures, cs₁, env₁⟩ := x
    obtain ⟨_, _, env₁'⟩ := x'
    obtain ⟨rfl, rfl, henv⟩ := ih
    have hone := hR.finalizeOne c henv
    dsimp only at hone ⊢
    generalize c.finalize env₁ = y, c.finalize env₁' = y' at hone ⊢
    obtain ⟨fault, c₁, env₂⟩ := y
    obtain ⟨_, _, env₂'⟩ := y'
    obtain ⟨rfl, rfl, henv'⟩ := hone
    cases fault with
    | none => exact ⟨rfl, rfl, henv'⟩
    | some fault => exact ⟨rfl, rfl, hR.note henv' _⟩

theorem close (hR : RunsAbreast R B) (g : Graph κ ω) (state : GraphState) (h : R env env') :
    (g.close state env).Abreast R (g.close state env') := by
  obtain ⟨hfailures, hcs, henv⟩ := hR.finalizeList g.name g.components h
  unfold Graph.close Graph.finalizeAll
  dsimp only
  rw [hfailures, hcs]
  exact ⟨_, _, henv⟩

theorem conclude (hR : RunsAbreast R B) (g : Graph κ ω) (state : GraphState) (outcome : Outcome)
    (notice : Notice) (h : R env env') :
    (g.conclude state outcome notice env).Abreast R (g.conclude state outcome notice env') := by
  have hclose := hR.close g state h
  unfold Graph.conclude
  generalize g.close state env = x, g.close state env' = x' at hclose ⊢
  obtain ⟨failures, g', henv⟩ := hclose
  dsimp only
  split <;> exact ⟨_, g', hR.note henv notice⟩

theorem fail (hR : RunsAbreast R B) (g : Graph κ ω) (f : Failure) (h : R env env') :
    (g.fail f env).Abreast R (g.fail f env') := by
  have hclose := hR.close g .faulted
    (hR.note h (.failed g.name (((g.components[f.component]?).map (·.name)).getD "") f.cause))
  unfold Graph.fail
  dsimp only
  generalize g.close .faulted (env.note _) = x, g.close .faulted (env'.note _) = x' at hclose ⊢
  obtain ⟨failures, g', henv⟩ := hclose
  exact ⟨_, g', henv⟩

theorem stall (hR : RunsAbreast R B) (g : Graph κ ω) (h : R env env') :
    (g.stall env).Abreast R (g.stall env') := by
  have hclose := hR.close g .faulted (hR.note h (.gaveUp g.name g.stats.idleRounds))
  unfold Graph.stall
  dsimp only
  generalize g.close .faulted (env.note _) = x, g.close .faulted (env'.note _) = x' at hclose ⊢
  obtain ⟨failures, g', henv⟩ := hclose
  exact ⟨_, g', henv⟩

theorem endRound (hR : RunsAbreast R B) (g : Graph κ ω) (progressed : Bool) (h : R env env') :
    (g.endRound progressed env).Abreast R (g.endRound progressed env') := by
  unfold Graph.endRound
  rw [hR.isCancelled h]
  split
  · exact hR.conclude g _ _ _ h
  · split
    · exact hR.conclude g _ _ _ h
    · exact ⟨_, _, hR.note h _⟩

theorem afterSweep (hR : RunsAbreast R B) (g : Graph κ ω) (sweep : Sweep) (h : R env env') :
    (g.afterSweep sweep env).Abreast R (g.afterSweep sweep env') := by
  cases sweep with
  | completed progressed => exact hR.endRound g progressed h
  | cancelled => exact hR.conclude g _ _ _ h
  | failed f => exact hR.fail g f h

/-- **A round comes to the same** in tied environments. -/
theorem runOnce (hR : RunsAbreast R B) (g : Graph κ ω) (patience : Nat) (h : R env env') :
    (g.runOnce patience env).Abreast R (g.runOnce patience env') := by
  have hensure := hR.ensureRunning g h
  unfold Graph.runOnce
  generalize g.ensureRunning env = x, g.ensureRunning env' = x' at hensure ⊢
  obtain @⟨result, g₁, env₁, env₁', henv⟩ := hensure
  cases result with
  | error e => exact ⟨_, g₁, henv⟩
  | ok u =>
    have hsweep := hR.sweepSinks patience g₁.sinks false g₁.nextRound henv
    dsimp only
    generalize Graph.sweepSinks patience g₁.sinks false g₁.nextRound env₁ = y,
      Graph.sweepSinks patience g₁.sinks false g₁.nextRound env₁' = y' at hsweep ⊢
    obtain ⟨result, g₂, henv'⟩ := hsweep
    cases result with
    | none => exact ⟨_, g₂, henv'⟩
    | some sweep => exact (hR.afterSweep g₂ sweep henv').map some

theorem backOff (hR : RunsAbreast R B) (g : Graph κ ω) (hpolicy : g.policy.Abreast R)
    (h : R env env') :
    (g.backOff env).1 = (g.backOff env').1 ∧ R (g.backOff env).2 (g.backOff env').2 := by
  obtain ⟨hvalue, henv⟩ := hpolicy g.stats.idleRounds _ _ h
  unfold Graph.backOff
  generalize env.perform _ = y, env'.perform _ = y' at hvalue henv ⊢
  obtain ⟨delay, env₁⟩ := y
  obtain ⟨_, env₁'⟩ := y'
  obtain rfl := hvalue
  cases delay with
  | none => exact ⟨rfl, henv⟩
  | some delay => exact ⟨rfl, hR.note henv _⟩

/-- **A run comes to the same** in tied environments, if the policy of the graph says the same
in them. The induction is on the rounds that are allowed. -/
theorem run (hR : RunsAbreast R B) (patience rounds : Nat) (g : Graph κ ω)
    (hpolicy : g.policy.Abreast R) (h : R env env') :
    (run patience rounds g env).Abreast R (run patience rounds g env') := by
  induction rounds generalizing g env env' with
  | zero => exact ⟨_, g, h⟩
  | succ rounds ih =>
    have hround := hR.runOnce g patience h
    -- the policy is that of the graph the run began with, so the hypothesis stays in force
    have hkept : (g.runOnce patience env).graph.policy = g.policy :=
      (g.runOnce_ran patience env).policy
    unfold Graph.run
    generalize g.runOnce patience env = x, g.runOnce patience env' = x' at hround hkept ⊢
    obtain @⟨result, g₁, env₁, env₁', henv⟩ := hround
    have hpolicy₁ : g₁.policy.Abreast R := hkept ▸ hpolicy
    rcases result with _ | (e | outcome)
    · exact ⟨_, g₁, henv⟩
    · exact ⟨_, g₁, henv⟩
    · cases outcome with
      | finished | cancelled => exact ⟨_, g₁, henv⟩
      | progress => exact ih g₁ hpolicy₁ henv
      | again =>
        have hback := hR.backOff g₁ hpolicy₁ henv
        dsimp only
        generalize g₁.backOff env₁ = y, g₁.backOff env₁' = y' at hback ⊢
        obtain ⟨goesOn, env₂⟩ := y
        obtain ⟨_, env₂'⟩ := y'
        obtain ⟨rfl, henv'⟩ := hback
        cases goesOn with
        | true => exact ih g₁ hpolicy₁ henv'
        | false => exact (hR.stall g₁ henv').map _

end RunsAbreast
end Graph
end PullGraph
