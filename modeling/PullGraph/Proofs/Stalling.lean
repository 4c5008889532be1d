import PullGraph.Proofs.Chain
import PullGraph.Proofs.Counters
import PullGraph.Proofs.Reporting
import PullGraph.Proofs.Waits

/-! # Runs that stall

A round is idle if every pull of it brings nothing and the run goes on. Under a backoff with
a limit, a run waits after an idle round as long as the limit is not exceeded, and gives up
otherwise. `Endures` says once what such a run can do, round by round, along with the idle
rounds in a row that it has made; from it follows which runs stall, and when.
-/
namespace PullGraph

variable {κ ω : Type}

/-- A policy says what a backoff says, whatever else it does. -/
def Policy.Follows (p : Policy ω) (b : Backoff) : Prop :=
  ∀ idle w, (p.delay idle w).value = b.delay idle

theorem Backoff.policy_follows (b : Backoff) : (b.policy : Policy ω).Follows b :=
  fun _ _ => rfl

/-- Whether anything moved can be told from the outcome of a round after which a run goes on. -/
theorem Outcome.progressed_inj {p q : Bool}
    (h : (if p then Outcome.progress else .again) = if q then .progress else .again) : p = q := by
  cases p <;> cases q <;> first | rfl | cases h

section

variable [Behavior κ ω] {patience : Nat}

/-! ## Idle rounds -/

/-- A step that goes well moves nothing exactly if its pull brings nothing. -/
theorem Step.Due.idle_iff {s : Step κ ω} (h : s.Due) (hsteady : s.graph.Steady) {moved : Bool}
    (hmoved : (s.after patience).result = some (.ok moved)) :
    moved = false ↔ (s.pulled patience).result = some (.ok .again) := by
  obtain ⟨r, t, hpulled⟩ := s.pulled_of_returned (congrArg Option.isSome hmoved)
  have houtcome := h.outcome hsteady hpulled
  rw [hpulled]
  generalize s.after patience = x at hmoved houtcome
  cases houtcome with
  | failed => cases hmoved
  | idle _ hr =>
    cases hmoved
    exact iff_of_true rfl (congrArg some hr)
  | @delivered pull arrival c k p _ hr harrives hc hb hk hp =>
    have hverdict : sinkVerdict s.sink (t.env.perform (Graph.receive p.name arrival k)).1.1 =
        .ok moved := by
      rw [Graph.deliver_eq hc hb hk hp] at hmoved
      exact Option.some.inj hmoved
    have htrue : moved = true := by
      generalize (t.env.perform (Graph.receive p.name arrival k)).1.1 = verdict at hverdict
      cases verdict with
      | error cause => cases hverdict
      | ok u => exact (Except.ok.inj hverdict).symm
    refine iff_of_false (by simp [htrue]) fun hagain => ?_
    obtain rfl : pull = .again := Except.ok.inj (hr.symm.trans (Option.some.inj hagain))
    cases harrives

namespace Graph

variable {g g₁ : Graph κ ω} {env env₁ : Env ω}

/-- The round that starts at `x` is idle: every pull of it brings nothing, and it neither
finishes the run nor fails it nor finds it cancelled. -/
structure Idles (patience : Nat) (x : Graph κ ω × Env ω) : Prop where
  returned : (x.1.runOnce patience x.2).result.isSome = true
  running : (x.1.runOnce patience x.2).graph.state = .running
  again : ∀ s ∈ x.1.steps patience x.2, (s.pulled patience).result = some (.ok .again)

/-- After the round that starts at `x` the run goes on; `progressed` tells whether anything
moved in it. -/
structure GoesOn (patience : Nat) (x : Graph κ ω × Env ω) (progressed : Bool) : Prop where
  result : (x.1.runOnce patience x.2).result =
    some (.ok (if progressed then .progress else .again))
  idle : progressed = false ↔
    ∀ s ∈ x.1.steps patience x.2, (s.pulled patience).result = some (.ok .again)
  policy : (x.1.runOnce patience x.2).graph.policy = x.1.policy
  idleRounds : (x.1.runOnce patience x.2).graph.stats.idleRounds =
    if progressed then 0 else x.1.stats.idleRounds + 1

/-- A round that leaves the graph running is one after which the run goes on. -/
theorem Begins.goesOn_of_running (h : g.Begins env g₁ env₁) (hsane : g.Sane env)
    (hreturned : (g.runOnce patience env).result.isSome = true)
    (hrunning : (g.runOnce patience env).graph.state = .running) :
    ∃ progressed, GoesOn patience (g, env) progressed := by
  have hsane₁ : g₁.nextRound.Sane env₁ := (h.sane hsane).tally _
  obtain ⟨sweep, g', env', hsweep, hsweeps, hround⟩ :=
    h.sweep_of_returned hsane.wired hreturned
  have hleads := hsweeps.leads
  rw [hround] at hrunning
  rcases (hsane₁.sweeps hsweeps).afterSweep_counts (hleads.state.trans h.state_eq) sweep with
    ⟨-, hended⟩ | ⟨progressed, hresult, hgraph, -⟩
  · rw [show (g'.afterSweep sweep env').graph.state = .running from hrunning] at hended
    cases hended
  obtain ⟨progressed', rfl, -, houtcome⟩ :=
    afterSweep_demand hresult (by cases progressed <;> simp)
  obtain rfl := Outcome.progressed_inj houtcome
  refine ⟨progressed, ?_, ?_, ?_, ?_⟩
  · exact (congrArg After.result hround).trans (congrArg some hresult)
  · obtain ⟨-, hany⟩ :=
      (h.keeps hsane.wired patience).all progressed (congrArg After.result hsweep)
    rw [hany, Bool.false_or, List.any_eq_false]
    refine forall₂_congr fun s hs => ?_
    obtain ⟨moved, hmoved⟩ := hsweeps.goes_well s hs
    have hdue := hsweeps.due s hs
    rw [← hdue.idle_iff ((hsane.mem_steps hs).1.steady hdue.running) hmoved, Step.moved, hmoved]
    simp
  · exact (g.runOnce_ran patience env).policy
  · have hcount : g'.stats.idleRounds = g.stats.idleRounds :=
      (hsweeps.counts hsane₁).idleRounds.trans h.counts.idleRounds
    calc (g.runOnce patience env).graph.stats.idleRounds
        = (g'.afterSweep (.completed progressed) env').graph.stats.idleRounds :=
          congrArg (·.graph.stats.idleRounds) hround
      _ = if progressed then 0 else g'.stats.idleRounds + 1 :=
          congrArg (·.stats.idleRounds) hgraph
      _ = if progressed then 0 else g.stats.idleRounds + 1 := by rw [hcount]

/-- A round is idle exactly if it says so. -/
theorem Begins.idles_iff (h : g.Begins env g₁ env₁) (hsane : g.Sane env) :
    Idles patience (g, env) ↔ (g.runOnce patience env).result = some (.ok .again) := by
  constructor
  · rintro ⟨hreturned, hrunning, hagain⟩
    obtain ⟨progressed, hgoesOn⟩ := h.goesOn_of_running hsane hreturned hrunning
    have hresult := hgoesOn.result
    rwa [hgoesOn.idle.mpr hagain] at hresult
  · intro hresult
    have hreturned := congrArg Option.isSome hresult
    have hrunning := running_of_goesOn hresult (.inr rfl)
    obtain ⟨progressed, hgoesOn⟩ := h.goesOn_of_running hsane hreturned hrunning
    have hsame := Except.ok.inj (Option.some.inj (hgoesOn.result.symm.trans hresult))
    exact ⟨hreturned, hrunning, hgoesOn.idle.mp (Outcome.progressed_inj (q := false) hsame)⟩

/-- No round says that the run has stalled: a run finds out between its rounds. -/
theorem Begins.runOnce_ne_stalled (h : g.Begins env g₁ env₁) (patience : Nat) (idle : UInt32)
    (failures : List FinalizeFailure) :
    (g.runOnce patience env).result ≠ some (.error (.stalled idle failures)) := by
  rw [h.runOnce_eq]
  obtain ⟨g', env', ⟨heq, -⟩ | ⟨sweep, heq, -⟩⟩ := runOnce_running h.state_eq patience env₁
  · simp [heq]
  · intro hstalled
    rw [heq] at hstalled
    rcases afterSweep_error (Option.some.inj hstalled) with ⟨x, hx, -⟩ | ⟨x, hx⟩
    · cases hx
    · cases hx

/-! ## What a run with a limit can do -/

/-- A run has given up because nothing moved for too long. -/
def Stalls (r : After κ ω (Option (Except RunError Summary))) : Prop :=
  ∃ idle failures, r.result = some (.error (.stalled idle failures))

/-- After the round at `x`, which makes `idle` idle ones in a row, a run waits as long as the
backoff says, and then makes the round at `y`. -/
structure WaitsBetween (patience : Nat) (b : Backoff) (idle : Nat) (x y : Graph κ ω × Env ω) :
    Prop where
  graph : y.1 = (x.1.runOnce patience x.2).graph
  count : y.1.stats.idleRounds.toNat = idle
  wait : ∃ d, b.delay y.1.stats.idleRounds = some d ∧
    y.2 = ((x.1.runOnce patience x.2).env.perform (y.1.policy.delay y.1.stats.idleRounds)).2.note
      (.backingOff y.1.name y.1.stats.idleRounds d)

/-- **What a run can do** that tolerates `limit` idle rounds in a row and has just made `idle`
of them: the rounds that it makes from there on, and what it leaves behind. -/
inductive Endures (patience : Nat) (b : Backoff) (limit : Nat) :
    Nat → List (Graph κ ω × Env ω) → After κ ω (Option (Except RunError Summary)) → Prop where
  /-- No more rounds may be made. -/
  | cut {idle r} (result : r.result = none) : Endures patience b limit idle [] r
  /-- The round finishes the run, fails it or finds it cancelled, or patience runs out in it. -/
  | ended {idle x r} (busy : ¬ Idles patience x) (result : ¬ Stalls r) :
      Endures patience b limit idle [x] r
  | moved {idle x rest r} (busy : ¬ Idles patience x) (next : Endures patience b limit 0 rest r) :
      Endures patience b limit idle (x :: rest) r
  | waited {idle x rest r} (idles : Idles patience x) (tolerated : idle + 1 ≤ limit)
      (waits : ∀ y ∈ rest.head?, WaitsBetween patience b (idle + 1) x y)
      (next : Endures patience b limit (idle + 1) rest r) :
      Endures patience b limit idle (x :: rest) r
  | gaveUp {x r count failures} (idles : Idles patience x)
      (result : r.result = some (.error (.stalled count failures)))
      (count_eq : count.toNat = limit + 1) (state : r.graph.state = .faulted) :
      Endures patience b limit limit [x] r

omit [Behavior κ ω] in
/-- A policy that follows a backoff waits, or gives up, as the backoff says. -/
theorem backOff_eq_of_follows {b : Backoff} (h : g.policy.Follows b) (env : Env ω) :
    (b.delay g.stats.idleRounds = none ∧ ∃ env', g.backOff env = (false, env')) ∨
      ∃ d, b.delay g.stats.idleRounds = some d ∧ g.backOff env =
        (true, (env.perform (g.policy.delay g.stats.idleRounds)).2.note
          (.backingOff g.name g.stats.idleRounds d)) := by
  have hvalue : (env.perform (g.policy.delay g.stats.idleRounds)).1 = b.delay g.stats.idleRounds :=
    h g.stats.idleRounds env.shared
  unfold backOff
  generalize env.perform (g.policy.delay g.stats.idleRounds) = x at hvalue ⊢
  obtain ⟨value, env'⟩ := x
  dsimp only at hvalue
  subst hvalue
  cases b.delay g.stats.idleRounds with
  | none => exact .inl ⟨rfl, env', rfl⟩
  | some d => exact .inr ⟨d, rfl, rfl⟩

/-- The first round of a run starts where the run does. -/
theorem rounds_head {n : Nat} {y : Graph κ ω × Env ω} (h : y ∈ (rounds patience n g env).head?) :
    y = (g, env) := by
  cases n with
  | zero => cases h
  | succ n => exact (Option.some.inj h).symm

end Graph

/-- A run that goes on after a round does so with its policy and all in order, and has counted
the idle rounds. -/
theorem Lifetime.next_round {added : List ComponentId} {g : Graph κ ω} {env : Env ω}
    (h : Lifetime added g env) (hrun : g.CanRun) (patience : Nat) (progressed : Bool)
    (hresult : (g.runOnce patience env).result =
      some (.ok (if progressed then .progress else .again))) :
    Lifetime added (g.runOnce patience env).graph (g.runOnce patience env).env ∧
      (g.runOnce patience env).graph.CanRun ∧
      (g.runOnce patience env).graph.policy = g.policy ∧
      (g.runOnce patience env).graph.stats.idleRounds =
        if progressed then 0 else g.stats.idleRounds + 1 := by
  obtain ⟨g₁, env₁, hbegins⟩ := hrun.begins env
  have hreturned := congrArg Option.isSome hresult
  have hrunning := Graph.running_of_goesOn hresult (by cases progressed <;> simp)
  have hcall := h.call (.runOnce patience) trivial hreturned
  rw [show (Request.runOnce patience).added g env = [] from rfl, List.append_nil] at hcall
  obtain ⟨progressed', hgoesOn⟩ := hbegins.goesOn_of_running h.sane hreturned hrunning
  have hsame := Except.ok.inj (Option.some.inj (hresult.symm.trans hgoesOn.result))
  obtain rfl := Outcome.progressed_inj hsame
  exact ⟨hcall, .inl hrunning, hgoesOn.policy, hgoesOn.idleRounds⟩

/-- **Every run under a backoff with a limit is such a run.** The induction is on the number of
rounds that may be made. -/
theorem Lifetime.run_endures {added : List ComponentId} {g : Graph κ ω} {env : Env ω}
    (h : Lifetime added g env) (hrun : g.CanRun) {b : Backoff} (hfollows : g.policy.Follows b)
    {limit : UInt32} (hlimit : b.limit = some limit) (hbound : limit.toNat + 1 < UInt32.size)
    (hidle : g.stats.idleRounds.toNat ≤ limit.toNat) (patience n : Nat) :
    Graph.Endures patience b limit.toNat g.stats.idleRounds.toNat (Graph.rounds patience n g env)
      (Graph.run patience n g env) := by
  induction n generalizing g env with
  | zero => exact Graph.Endures.cut rfl
  | succ n ih =>
    obtain ⟨g₁, env₁, hbegins⟩ := hrun.begins env
    have hidles : Graph.Idles patience (g, env) ↔ _ := hbegins.idles_iff h.sane
    have hne := hbegins.runOnce_ne_stalled patience
    have hnext := h.next_round hrun patience
    unfold Graph.run Graph.rounds
    cases hround : g.runOnce patience env with
    | mk result g' env' =>
    rw [hround] at hidles hne hnext
    rcases result with _ | e | outcome
    · exact .ended (fun hidle => by cases hidles.mp hidle) (by simp [Graph.Stalls])
    · refine .ended (fun hidle => by cases hidles.mp hidle) ?_
      rintro ⟨idle, failures, hstalled⟩
      obtain rfl := Except.error.inj (Option.some.inj hstalled)
      exact hne idle failures rfl
    cases outcome with
    | finished | cancelled =>
      exact .ended (fun hidle => by cases hidles.mp hidle) (by simp [Graph.Stalls])
    | progress =>
      obtain ⟨hlife', hrun', hpolicy, hzero⟩ := hnext true rfl
      have hzero' : g'.stats.idleRounds.toNat = 0 := congrArg UInt32.toNat hzero
      have hrest := ih hlife' hrun' (hpolicy ▸ hfollows) (hzero' ▸ Nat.zero_le _)
      rw [hzero'] at hrest
      exact .moved (fun hidle => by cases hidles.mp hidle) hrest
    | again =>
      obtain ⟨hlife', hrun', hpolicy, hcount⟩ := hnext false rfl
      have hcount' : g'.stats.idleRounds.toNat = g.stats.idleRounds.toNat + 1 := by
        have hadd : g'.stats.idleRounds.toNat = (g.stats.idleRounds.toNat + 1) % UInt32.size :=
          (congrArg UInt32.toNat hcount).trans (UInt32.toNat_add _ _)
        rw [hadd, Nat.mod_eq_of_lt (by omega)]
      have hfollows' : g'.policy.Follows b := hpolicy ▸ hfollows
      rcases Graph.backOff_eq_of_follows hfollows' env' with ⟨hnone, env'', hgave⟩ | ⟨d, hd, hwait⟩
      · have hexceeded := (Backoff.delay_eq_none_iff hlimit _).mp hnone
        have hall : g.stats.idleRounds.toNat = limit.toNat := by omega
        rw [hall] at hcount' ⊢
        simp only [hgave]
        exact .gaveUp (hidles.mpr rfl) rfl hcount' rfl
      · have htolerated : g'.stats.idleRounds.toNat ≤ limit.toNat := by
          rw [← Nat.not_lt, ← Backoff.delay_eq_none_iff hlimit, hd]
          simp
        have hlater := hlife'.elsewhere (g'.backOff_about env' g'.id)
        rw [hwait] at hlater
        have hrest := ih hlater hrun' hfollows' htolerated
        rw [hcount'] at hrest htolerated
        simp only [hwait]
        refine .waited (hidles.mpr rfl) htolerated (fun y hy => ?_) hrest
        obtain rfl := Graph.rounds_head hy
        exact ⟨by rw [hround], hcount', d, hd, by rw [hround]⟩

/-! ## Idle rounds in a row -/

namespace Graph.Endures

variable {b : Backoff} {limit idle : Nat} {xs before block after : List (Graph κ ω × Env ω)}
  {r : After κ ω (Option (Except RunError Summary))}

/-- From any of its rounds on, a run can do the same. -/
theorem of_append (h : Endures patience b limit idle xs r) (hxs : xs = before ++ block)
    (hne : block ≠ []) : ∃ idle', Endures patience b limit idle' block r := by
  induction h generalizing before with
  | cut => exact absurd (List.append_eq_nil_iff.mp hxs.symm).2 hne
  | @ended idle x r hbusy hresult =>
    obtain ⟨rfl, rfl⟩ | ⟨rfl, rfl⟩ := List.append_eq_singleton_iff.mp hxs.symm
    · exact ⟨idle, .ended hbusy hresult⟩
    · exact absurd rfl hne
  | @gaveUp x r count failures hidles hresult hcount hstate =>
    obtain ⟨rfl, rfl⟩ | ⟨rfl, rfl⟩ := List.append_eq_singleton_iff.mp hxs.symm
    · exact ⟨limit, .gaveUp hidles hresult hcount hstate⟩
    · exact absurd rfl hne
  | @moved idle x rest r hbusy hnext ih =>
    obtain ⟨rfl, rfl⟩ | ⟨before', rfl, hrest⟩ := List.cons_eq_append_iff.mp hxs
    · exact ⟨idle, .moved hbusy hnext⟩
    · exact ih hrest
  | @waited idle x rest r hidles htolerated hwaits hnext ih =>
    obtain ⟨rfl, rfl⟩ | ⟨before', rfl, hrest⟩ := List.cons_eq_append_iff.mp hxs
    · exact ⟨idle, .waited hidles htolerated hwaits hnext⟩
    · exact ih hrest

/-- What idle rounds with which a run goes on come to: it waits after each that is tolerated,
and stalls with the first that is not. -/
structure Block (patience : Nat) (b : Backoff) (limit idle : Nat)
    (block after : List (Graph κ ω × Env ω))
    (r : After κ ω (Option (Except RunError Summary))) : Prop where
  length_le : idle + block.length ≤ limit + 1
  last : idle + block.length = limit + 1 → after = [] ∧ r.graph.state = .faulted ∧
    ∃ count failures, r.result = some (.error (.stalled count failures)) ∧
      count.toNat = limit + 1
  waits : ∀ i x y, block[i]? = some x → block[i + 1]? = some y →
    WaitsBetween patience b (idle + (i + 1)) x y

theorem idle_block (h : Endures patience b limit idle xs r) (hxs : xs = block ++ after)
    (hidles : ∀ x ∈ block, Idles patience x) (hne : block ≠ []) :
    Block patience b limit idle block after r := by
  induction h generalizing block with
  | cut => exact absurd (List.append_eq_nil_iff.mp hxs.symm).1 hne
  | ended hbusy =>
    obtain ⟨y, rest, rfl⟩ := List.exists_cons_of_ne_nil hne
    obtain ⟨rfl, -⟩ := List.cons.inj hxs
    exact absurd (hidles _ List.mem_cons_self) hbusy
  | moved hbusy =>
    obtain ⟨y, rest, rfl⟩ := List.exists_cons_of_ne_nil hne
    obtain ⟨rfl, -⟩ := List.cons.inj hxs
    exact absurd (hidles _ List.mem_cons_self) hbusy
  | gaveUp _ hresult hcount hstate =>
    obtain ⟨y, rest, rfl⟩ := List.exists_cons_of_ne_nil hne
    obtain ⟨rfl, hnil⟩ := List.cons.inj hxs
    obtain ⟨rfl, rfl⟩ := List.append_eq_nil_iff.mp hnil.symm
    exact ⟨Nat.le_refl _, fun _ => ⟨rfl, hstate, _, _, hresult, hcount⟩, by simp⟩
  | @waited idle x _ _ _ htolerated hwaits _ ih =>
    obtain ⟨y, rest, rfl⟩ := List.exists_cons_of_ne_nil hne
    obtain ⟨rfl, rfl⟩ := List.cons.inj hxs
    cases rest with
    | nil => exact ⟨by simpa using Nat.le_succ_of_le htolerated, by simp; omega, by simp⟩
    | cons z rest =>
      obtain ⟨hlength, hlast, hrest⟩ := ih rfl (List.forall_mem_cons.mp hidles).2 (by simp)
      have hsum : idle + (x :: z :: rest).length = idle + 1 + (z :: rest).length := by
        simp only [List.length_cons]
        omega
      refine ⟨hsum ▸ hlength, hsum ▸ hlast, ?_⟩
      rintro (_ | i) x' y' hx' hy'
      · obtain rfl := Option.some.inj hx'
        obtain rfl := Option.some.inj hy'
        exact hwaits _ rfl
      · rw [show idle + (i + 1 + 1) = idle + 1 + (i + 1) by omega]
        exact hrest i x' y' hx' hy'

/-- A run that stalls ends with as many idle rounds as it takes, counting those made before. -/
theorem exists_block (h : Endures patience b limit idle xs r) (hstalls : Stalls r) :
    ∃ before block, xs = before ++ block ∧ (∀ x ∈ block, Idles patience x) ∧
      (block.length = limit + 1 ∨ before = [] ∧ idle + block.length = limit + 1) := by
  obtain ⟨count, failures, hstalled⟩ := hstalls
  induction h with
  | cut hnone => cases hnone.symm.trans hstalled
  | ended _ hresult => exact absurd ⟨count, failures, hstalled⟩ hresult
  | @moved idle x rest r _ _ ih =>
    obtain ⟨before, block, rfl, hidles, hlength⟩ := ih hstalled
    exact ⟨x :: before, block, rfl, hidles, .inl (by omega)⟩
  | @waited idle x rest r hidle _ _ _ ih =>
    obtain ⟨before, block, rfl, hidles, hlength | ⟨rfl, hlength⟩⟩ := ih hstalled
    · exact ⟨x :: before, block, rfl, hidles, .inl hlength⟩
    · refine ⟨[], x :: block, rfl, List.forall_mem_cons.mpr ⟨hidle, hidles⟩, .inr ⟨rfl, ?_⟩⟩
      rw [List.length_cons]
      omega
  | @gaveUp x r _ _ hidle =>
    exact ⟨[], [x], rfl, List.forall_mem_singleton.mpr hidle, .inr ⟨rfl, rfl⟩⟩

end Graph.Endures

/-- Idle rounds in a row, one more than are tolerated. -/
structure Graph.TooIdle (patience : Nat) (limit : UInt32) (block : List (Graph κ ω × Env ω)) :
    Prop where
  length : block.length = limit.toNat + 1
  idles : ∀ x ∈ block, Idles patience x

/-- **A run stalls exactly after one idle round too many.**  Take a graph that passes the check
and whose policy follows a backoff with a limit. However its components behave, a run of it
from the beginning stalls if and only if, among the rounds that it makes, there is one more
idle round in a row than the limit allows. Such rounds are the last ones of the run: it has
waited after each of them but the last, as the backoff says, and is left faulted with their
number in its report. As long as idle rounds come in blocks within the limit, it never stalls. -/
theorem Lifetime.stalls_exactly {added : List ComponentId} {g : Graph κ ω} {env : Env ω}
    (h : Lifetime added g env) (hopen : g.state = .configuring) (hvalid : g.validate = .ok ())
    {b : Backoff} (hfollows : g.policy.Follows b) {limit : UInt32} (hlimit : b.limit = some limit)
    (hbound : limit.toNat < UInt32.size - 1) (patience n : Nat) :
    (Graph.Stalls (Graph.run patience n g env) ↔ ∃ before block after,
      Graph.rounds patience n g env = before ++ block ++ after ∧
        Graph.TooIdle patience limit block) ∧
    (∀ before block after, Graph.rounds patience n g env = before ++ block ++ after →
      Graph.TooIdle patience limit block →
        after = [] ∧ (Graph.run patience n g env).graph.state = .faulted ∧
        (∃ idle failures, (Graph.run patience n g env).result =
          some (.error (.stalled idle failures)) ∧ idle.toNat = limit.toNat + 1) ∧
        ∀ i x y, block[i]? = some x → block[i + 1]? = some y →
          Graph.WaitsBetween patience b (i + 1) x y) ∧
    ((∀ before block after, Graph.rounds patience n g env = before ++ block ++ after →
      (∀ x ∈ block, Graph.Idles patience x) → block.length ≤ limit.toNat) →
        ¬ Graph.Stalls (Graph.run patience n g env)) := by
  have hnone : g.stats.idleRounds.toNat = 0 := by rw [(h.untouched hopen).stats]; rfl
  have hendures := h.run_endures (.inr ⟨hopen, hvalid⟩) hfollows hlimit (by omega) (by omega)
    patience n
  rw [hnone] at hendures
  have hblock : ∀ before block after, Graph.rounds patience n g env = before ++ block ++ after →
      Graph.TooIdle patience limit block →
        Graph.Endures.Block patience b limit.toNat 0 block after (Graph.run patience n g env) := by
    rintro before block after hrounds ⟨hlength, hidles⟩
    have hne : block ≠ [] := by
      rintro rfl
      cases hlength
    rw [List.append_assoc] at hrounds
    obtain ⟨idle, hrest⟩ := hendures.of_append hrounds (by simp [hne])
    have hidle := hrest.idle_block rfl hidles hne
    -- the block is as long as it can be, so it did not begin earlier
    have hzero : idle = 0 := by have := hidle.length_le; omega
    rwa [hzero] at hidle
  have hexists : Graph.Stalls (Graph.run patience n g env) → ∃ before block,
      Graph.rounds patience n g env = before ++ block ∧ Graph.TooIdle patience limit block := by
    intro hstalls
    obtain ⟨before, block, hrounds, hidles, hlength⟩ := hendures.exists_block hstalls
    exact ⟨before, block, hrounds, by omega, hidles⟩
  refine ⟨⟨fun hstalls => ?_, ?_⟩, ?_, fun hshort hstalls => ?_⟩
  · obtain ⟨before, block, hrounds, hidle⟩ := hexists hstalls
    exact ⟨before, block, [], by rw [hrounds, List.append_nil], hidle⟩
  · rintro ⟨before, block, after, hrounds, hidle⟩
    obtain ⟨-, -, count, failures, hresult, -⟩ :=
      (hblock before block after hrounds hidle).last (by rw [hidle.length, Nat.zero_add])
    exact ⟨count, failures, hresult⟩
  · intro before block after hrounds hidle
    have hstall := hblock before block after hrounds hidle
    obtain ⟨hlast, hstate, hresult⟩ := hstall.last (by rw [hidle.length, Nat.zero_add])
    refine ⟨hlast, hstate, hresult, fun i x y hx hy => ?_⟩
    simpa using hstall.waits i x y hx hy
  · obtain ⟨before, block, hrounds, hidle⟩ := hexists hstalls
    have hle := hshort before block [] (by rw [hrounds, List.append_nil]) hidle.idles
    have hlength := hidle.length
    omega

end

/-! ## A source that falls asleep again -/

/-- A scripted source that has nothing at first, then a message, and then nothing any more, and
a sink, under a backoff that tolerates one idle round in a row. -/
def drowsy : Graph Scripted Bench × Env Bench :=
  Graph.build "drowsy" ⟨1, 100, some 1⟩ { places := [("g", 1)] }
    [.add { Scripted.componentClass "letters"
        { label := "giver", script := .source [.again, .message (.int 1)] .again 0 }
        with ports := [⟨"out", .output⟩] } "giver" .nil,
    .add { Scripted.componentClass "keep" { label := "taker", script := .sink [] [] 0 }
        with ports := [⟨"in", .input⟩] } "taker" .nil,
    .link "giver" "out" "taker" "in"]

theorem drowsy_lifetime : Lifetime [0, 1] drowsy.1 drowsy.2 := by
  refine .built (rfl : drowsy = Graph.build _ _ _ _) ?_
  simp [Request.runs, Request.Fits]

/-- The first idle round is forgotten once the message has come; the third and the fourth round
are idle as well, and with them the run stalls. -/
theorem drowsy_stalls :
    let b : Backoff := ⟨.ofMillis 1, .ofMillis 100, some 1⟩
    Lifetime [0, 1] drowsy.1 drowsy.2 ∧ drowsy.1.state = .configuring ∧
      drowsy.1.validate = .ok () ∧ drowsy.1.policy.Follows b ∧ b.limit = some 1 ∧
      (1 : UInt32).toNat < UInt32.size - 1 ∧
      (Graph.run 5 9 drowsy.1 drowsy.2).result = some (.error (.stalled 2 [])) ∧
      ∃ before block, Graph.rounds 5 9 drowsy.1 drowsy.2 = before ++ block ∧
        before.length = 2 ∧ Graph.TooIdle 5 1 block ∧
        ∀ i x y, block[i]? = some x → block[i + 1]? = some y →
          Graph.WaitsBetween 5 b (i + 1) x y := by
  intro b
  have hfollows : drowsy.1.policy.Follows b := b.policy_follows
  have hbound : (1 : UInt32).toNat < UInt32.size - 1 := by decide
  have hresult : (Graph.run 5 9 drowsy.1 drowsy.2).result = some (.error (.stalled 2 [])) := by
    decide +kernel
  obtain ⟨hstalls, hblock, -⟩ := drowsy_lifetime.stalls_exactly rfl rfl hfollows rfl hbound 5 9
  obtain ⟨before, block, after, hrounds, hidle⟩ := hstalls.mp ⟨2, [], hresult⟩
  obtain ⟨rfl, -, -, hwaits⟩ := hblock before block after hrounds hidle
  rw [List.append_nil] at hrounds
  have hcount : (Graph.rounds 5 9 drowsy.1 drowsy.2).length = 4 := by decide +kernel
  have hbefore : before.length = 2 := by
    have hlength : block.length = 2 := hidle.length
    rw [hrounds, List.length_append] at hcount
    omega
  exact ⟨drowsy_lifetime, rfl, rfl, hfollows, rfl, hbound, hresult, before, block, hrounds,
    hbefore, hidle, hwaits⟩

end PullGraph
