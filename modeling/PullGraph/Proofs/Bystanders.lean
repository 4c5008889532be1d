import PullGraph.Proofs.EndOfStream
import PullGraph.Proofs.Finalization
import PullGraph.Proofs.Freezing
import PullGraph.Proofs.Reach

/-! # Bystanders

Steps are made for sinks and reach upstream from there. So a component whose messages reach no
sink is never called in a run (`Lifetime.serving`), and the journal's account of it is short:
it is set up, and it is finalized (`Ledger.bystander`).
-/
namespace PullGraph

open Relation

variable {κ ω : Type}

/-! ## Components that serve a sink -/

section Steps

variable [Behavior κ ω]

/-- Whoever is pulled or handed something serves a sink. -/
def Event.Serving (T : Topology κ) : Event → Prop
  | .call _ i c => c.isPull = true ∨ c.isArrival = true → T.Serves i
  | _ => True

omit [Behavior κ ω] in
/-- Whatever a step for a sink may call serves the sink. -/
theorem Topology.MayCall.serves {T : Topology κ} {id index i : Nat} {call : Call}
    (h : T.MayCall id index i call) (hsink : T.kind? id = some .sink) : T.Serves i := by
  rcases h with ⟨⟨conn, hmem, hinput, hpath⟩, -⟩ | ⟨rfl, -⟩
  · exact ⟨id, hsink, hpath.tail ⟨conn, hmem, rfl, congrArg PortHandle.component hinput⟩⟩
  · exact ⟨i, hsink, .refl⟩

/-- Runs call no others. -/
theorem serving_runLaw {T : Topology κ} (hw : T.Wired) :
    Graph.RunLaw (ω := ω) (Event.Serving T) T where
  finalized _ _ _ := by
    rintro (h | h)
    · cases h
    · cases h
  notice _ := trivial
  step g env id index patience hT hdue := by
    subst hT
    obtain ⟨p, hp, hd⟩ := hdue.port
    refine ((Graph.sinkStep_reaches hw hp hd patience env).journal.mono fun e he => ?_).grows g.id
    cases e with
    | call graph i c => exact fun _ => he.2.serves (hw.mem_sinks.mp hdue.sink)
    | refused | notice => trivial

variable {g : Graph κ ω} {env : Env ω}

omit [Behavior κ ω] in
theorem Graph.connect_about (g : Graph κ ω) (a b : PortHandle) (env : Env ω) :
    (g.connect a b env).env.journal.about g.id = env.journal.about g.id := by
  rcases g.connect_cases a b env with ⟨e, env', hconnect, habout⟩ | ⟨c, env', -, hconnect, habout⟩
  · rw [hconnect]
    exact habout
  · rw [hconnect]
    exact habout

/-- Whatever is asked of a graph, only components that serve a sink are pulled or handed
something. -/
theorem Request.serving (hw : g.topology.Wired) (env : Env ω) (r : Request κ ω) :
    Journal.Grows (Event.Serving g.topology) g.id env.journal (r.perform g env).env.journal := by
  have hsetUp : ∀ i fault, (Event.call g.id i (.setUp fault)).Serving g.topology := by
    rintro i fault (h | h)
    · cases h
    · cases h
  cases r with
  | add cls name settings =>
    change Journal.Grows _ g.id env.journal (g.add cls name settings env).env.journal
    rcases g.add_cases cls name settings env with
      ⟨e, env', hadd, hsame | ⟨-, fault, hbotched⟩⟩ | ⟨-, k, env', hadd, hadded⟩
    · rw [hadd]
      exact .of_eq hsame
    · rw [hadd]
      exact ⟨_, hbotched, List.forall_mem_singleton.mpr (hsetUp _ _)⟩
    · rw [hadd]
      exact ⟨_, hadded, List.forall_mem_singleton.mpr (hsetUp _ _)⟩
  | connect a b => exact .of_eq (g.connect_about a b env)
  | link giver output taker input =>
    change Journal.Grows _ g.id env.journal (g.link giver output taker input env).env.journal
    rcases g.link_cases giver output taker input env with ⟨e, hlink⟩ | ⟨a, b, -, -, hlink⟩
    · rw [hlink]
      exact .refl _
    · rw [hlink]
      exact .of_eq (g.connect_about a b env)
  | follow policy => exact .refl _
  | runOnce patience => exact (serving_runLaw hw).ran rfl (g.runOnce_ran patience env)
  | run patience rounds => exact (serving_runLaw hw).ran rfl (g.run_ran patience rounds env)
  | cancel => exact .refl _
  | teardown => exact (serving_runLaw hw).teardown g env

/-- **Only components that serve a sink are ever pulled or handed something.** -/
theorem Lifetime.serving {added : List ComponentId} (h : Lifetime added g env) :
    ∀ e ∈ env.journal.about g.id, e.Serving g.topology := by
  induction h with
  | @create name config env hunheard =>
    have hnone : (Graph.create name config env : Graph κ ω × Env ω).2.journal.about env.nextGraph =
        [] := (env.about_note (.creating name config) env.nextGraph).trans hunheard
    intro e he
    rw [show (Graph.create name config env : Graph κ ω × Env ω).1.id = env.nextGraph from rfl,
      hnone] at he
    cases he
  | elsewhere _ habout ih =>
    rw [habout]
    exact ih
  | @call added g env hlife r hfits hreturned ih =>
    by_cases hopen : (r.perform g env).graph.state = .configuring
    · -- nothing has been pulled before the graph starts
      have hidle := ((hlife.call r hfits hreturned).prompt.fresh hopen).idle
      rw [Journal.calls_eq] at hidle
      intro e he
      cases e with
      | call graph i c =>
        have hcall := hidle (i, c) (List.mem_filterMap.mpr ⟨_, he, rfl⟩)
        rintro (hpull | harrival)
        · cases hcall.1.symm.trans hpull
        · cases hcall.2.symm.trans harrival
      | refused | notice => trivial
    · obtain ⟨es, habout, hes⟩ := r.serving hlife.sane.wired env
      rw [r.perform_id, habout, r.topology_of_frozen hopen]
      exact List.forall_mem_append.mpr ⟨ih, hes⟩

/-- Also if a request does not come to its end. -/
theorem Request.serving_about {added : List ComponentId} (h : Lifetime added g env)
    (r : Request κ ω) (hfits : r.Fits g) :
    ∀ e ∈ (r.perform g env).env.journal.about g.id, e.Serving (r.perform g env).graph.topology := by
  cases hresult : (r.perform g env).result with
  | true =>
    have hserving := (h.call r hfits hresult).serving
    rwa [r.perform_id] at hserving
  | false =>
    have htopology : (r.perform g env).graph.topology = g.topology := by
      cases r with
      | add | connect | link | follow | cancel | teardown => cases hresult
      | runOnce patience => exact (g.runOnce_ran patience env).topology_eq
      | run patience rounds => exact (g.run_ran patience rounds env).topology_eq
    obtain ⟨es, habout, hes⟩ := r.serving h.sane.wired env
    rw [habout, htopology]
    exact List.forall_mem_append.mpr ⟨h.serving, hes⟩

end Steps

/-! ## Bystanders -/

/-- The calls of one component. -/
def callsOf (calls : List (ComponentId × Call)) (i : ComponentId) : List Call :=
  calls.filterMap fun x => if x.1 = i then some x.2 else none

/-- The calls of a component that is set up and, once its graph `isOver`, finalized, and is left
alone apart from that. Before it others may have failed to be set up in its place. -/
def Bystander (isOver : Bool) (calls : List Call) : Prop :=
  ∃ before after, calls = before ++ .setUp none :: after ∧
    (∀ c ∈ before, ∃ fault, c = .setUp (some fault)) ∧
    (∀ c ∈ after, ∃ fault, c = .finalized fault) ∧ after.length = if isOver then 1 else 0

theorem mem_callsOf {calls : List (ComponentId × Call)} {i : ComponentId} {c : Call} :
    c ∈ callsOf calls i ↔ (i, c) ∈ calls := by
  simp only [callsOf, List.mem_filterMap, Prod.exists]
  constructor
  · rintro ⟨j, c', hmem, hsome⟩
    split at hsome
    · rename_i hj
      obtain rfl := Option.some.inj hsome
      exact hj ▸ hmem
    · cases hsome
  · exact fun hmem => ⟨i, c, hmem, if_pos rfl⟩

/-- The calls of one kind of a component, counted in two ways. -/
theorem countP_callsOf {P : Call → Bool} {view : Event → Option ComponentId}
    (hview : ∀ e, view e = e.call?.bind fun x => if P x.2 then some x.1 else none)
    (es : List Event) (i : ComponentId) :
    (callsOf (es.filterMap Event.call?) i).countP P = (es.filterMap view).count i := by
  induction es with
  | nil => rfl
  | cons e es ih =>
    unfold callsOf at ih ⊢
    cases hcall : e.call? with
    | none =>
      rw [List.filterMap_cons_none hcall, List.filterMap_cons_none (by rw [hview, hcall]; rfl)]
      exact ih
    | some x =>
      have hx : view e = if P x.2 then some x.1 else none := by rw [hview, hcall]; rfl
      rw [List.filterMap_cons_some hcall, List.filterMap_cons]
      by_cases hi : x.1 = i <;> by_cases hP : P x.2 <;> simp [hi, hP, hx, ih]

/-- Whether a call sets a component up. -/
def Call.installs : Call → Bool
  | .setUp none => true
  | _ => false

/-- Whether a call finalizes a component. -/
def Call.finalizes : Call → Bool
  | .finalized _ => true
  | _ => false

theorem Call.cases_idle {c : Call} (h : c.isPull = false ∧ c.isArrival = false) :
    (∃ fault, c = .setUp fault) ∨ ∃ fault, c = .finalized fault := by
  cases c with
  | setUp fault => exact .inl ⟨fault, rfl⟩
  | finalized fault => exact .inr ⟨fault, rfl⟩
  | asked | answered => cases h.1
  | consumed | ended => cases h.2

theorem idle_of_serving {T : Topology κ} {es : List Event} (h : ∀ e ∈ es, e.Serving T)
    {i : ComponentId} (hi : ¬ T.Serves i) (c : Call) (hc : (i, c) ∈ es.filterMap Event.call?) :
    c.isPull = false ∧ c.isArrival = false := by
  obtain ⟨e, he, hcall⟩ := List.mem_filterMap.mp hc
  cases e with
  | call graph j c' =>
    obtain ⟨rfl, rfl⟩ : j = i ∧ c' = c := by simpa [Event.call?] using hcall
    have hunused : ¬ (c'.isPull = true ∨ c'.isArrival = true) := fun hused => hi (h _ he hused)
    simpa [not_or] using hunused
  | refused | notice => cases hcall

theorem Event.installed?_eq_bind (e : Event) :
    e.installed? = e.call?.bind fun x => if x.2.installs then some x.1 else none := by
  cases e with
  | call graph component c =>
    cases c with
    | setUp fault => cases fault <;> rfl
    | asked | answered | consumed | ended | finalized => rfl
  | refused | notice => rfl

theorem Event.finalized?_eq_bind (e : Event) :
    e.finalized? = e.call?.bind fun x => if x.2.finalizes then some x.1 else none := by
  cases e with
  | call graph component c => cases c <;> rfl
  | refused | notice => rfl

namespace Ledger

variable {n : Nat} {isOver : Bool} {es : List Event} {i : ComponentId}

theorem countP_installs (h : Ledger n isOver es) (hi : i < n) :
    (callsOf (es.filterMap Event.call?) i).countP Call.installs = 1 := by
  rw [countP_callsOf Event.installed?_eq_bind, h.installed]
  exact List.count_eq_one_of_mem List.nodup_range (List.mem_range.mpr hi)

theorem countP_finalizes (h : Ledger n isOver es) (hi : i < n) :
    (callsOf (es.filterMap Event.call?) i).countP Call.finalizes = if isOver then 1 else 0 := by
  rw [countP_callsOf Event.finalized?_eq_bind, h.finalized]
  cases isOver with
  | true =>
    rw [if_pos rfl, List.count_reverse]
    exact List.count_eq_one_of_mem List.nodup_range (List.mem_range.mpr hi)
  | false => rfl

/-- A component that is neither pulled nor handed anything is a bystander. -/
theorem bystander (h : Ledger n isOver es) (hi : i < n)
    (hidle : ∀ c, (i, c) ∈ es.filterMap Event.call? → c.isPull = false ∧ c.isArrival = false) :
    Bystander isOver (callsOf (es.filterMap Event.call?) i) := by
  have hinstalls := h.countP_installs hi
  have hfinalizes := h.countP_finalizes hi
  -- the order of all calls is that of the calls of the component
  have horder : Follows (fun before c =>
      ((∃ fault, .finalized fault ∈ before) → ∃ fault, c = .finalized fault) ∧
        ∀ fault, c = .setUp (some fault) → .setUp none ∉ before)
      (callsOf (es.filterMap Event.call?) i) := by
    refine h.follows_calls.filterMap fun before x c hx hinorder => ?_
    split at hx
    · rename_i hxi
      obtain rfl := Option.some.inj hx
      refine ⟨?_, ?_⟩
      · rintro ⟨fault, hmem⟩
        exact hinorder.1 ⟨i, fault, mem_callsOf.mp hmem⟩
      · intro fault hfault hmem
        exact hinorder.2 i fault (Prod.ext hxi hfault) (mem_callsOf.mp hmem)
    · cases hx
  replace hidle : ∀ c ∈ callsOf (es.filterMap Event.call?) i,
      c.isPull = false ∧ c.isArrival = false := fun c hc => hidle c (mem_callsOf.mp hc)
  generalize callsOf (es.filterMap Event.call?) i = calls at hinstalls hfinalizes horder hidle ⊢
  obtain ⟨c, hmem, hc⟩ := List.countP_pos_iff.mp (hinstalls ▸ Nat.one_pos)
  obtain rfl : c = .setUp none := by
    cases c with
    | setUp fault =>
      cases fault with
      | none => rfl
      | some fault => cases hc
    | asked | answered | consumed | ended | finalized => cases hc
  obtain ⟨before, after, rfl⟩ := List.append_of_mem hmem
  rw [List.countP_append, List.countP_cons_of_pos hc] at hinstalls
  have hbefore : ∀ c ∈ before, ∃ fault, c = .setUp (some fault) := by
    intro c hcmem
    rcases Call.cases_idle (hidle c (List.mem_append_left _ hcmem)) with ⟨fault, rfl⟩ | ⟨fault, rfl⟩
    · cases fault with
      | some fault => exact ⟨fault, rfl⟩
      | none =>
        have hpos : 0 < before.countP Call.installs := List.countP_pos_iff.mpr ⟨_, hcmem, rfl⟩
        omega
    · obtain ⟨fault', hfault'⟩ := (horder before _ after rfl).1 ⟨fault, hcmem⟩
      cases hfault'
  have hafter : ∀ c ∈ after, ∃ fault, c = .finalized fault := by
    intro c hcmem
    have hin : c ∈ before ++ .setUp none :: after :=
      List.mem_append_right _ (List.mem_cons_of_mem _ hcmem)
    rcases Call.cases_idle (hidle c hin) with ⟨fault, rfl⟩ | ⟨fault, rfl⟩
    · cases fault with
      | none =>
        have hpos : 0 < after.countP Call.installs := List.countP_pos_iff.mpr ⟨_, hcmem, rfl⟩
        omega
      | some fault =>
        obtain ⟨between, rest, rfl⟩ := List.append_of_mem hcmem
        have hlate := (horder (before ++ .setUp none :: between) _ rest (by simp)).2 fault rfl
        exact absurd (by simp) hlate
    · exact ⟨fault, rfl⟩
  refine ⟨before, after, rfl, hbefore, hafter, ?_⟩
  have hnone : before.countP Call.finalizes = 0 := by
    refine List.countP_eq_zero.mpr fun c hcmem => ?_
    obtain ⟨fault, rfl⟩ := hbefore c hcmem
    exact Bool.false_ne_true
  have hall : after.countP Call.finalizes = after.length := by
    refine List.countP_eq_length.mpr fun c hcmem => ?_
    obtain ⟨fault, rfl⟩ := hafter c hcmem
    rfl
  rw [← hfinalizes, List.countP_append, hnone, List.countP_cons_of_neg Bool.false_ne_true, hall,
    Nat.zero_add]

end Ledger

section

variable [Behavior κ ω] {g : Graph κ ω} {env : Env ω} {added : List ComponentId}

/-- **A pull step touches only what is upstream of it.** Every step that a run makes, whatever
comes of it, keeps to its sink and to the components from which its port can be reached. So a
component from which no sink can be reached is a bystander: it is set up, once the graph is
over it has been finalized, and that is all that ever happens to it. -/
theorem Lifetime.steps_confined (h : Lifetime added g env) :
    (∀ patience n, ∀ x ∈ Graph.rounds patience n g env, ∀ s ∈ x.1.steps patience x.2,
      s.Confined patience) ∧
    (∀ r : Request κ ω, r.Fits g → ∀ i < (r.perform g env).graph.components.length,
      ¬ (r.perform g env).graph.topology.Serves i →
        Bystander (r.perform g env).graph.state.isOver
          (callsOf ((r.perform g env).env.journal.calls g.id) i)) ∧
    ∀ i < g.components.length, ¬ g.topology.Serves i →
      Bystander true (callsOf ((g.discard env).journal.calls g.id) i) := by
  refine ⟨?steps, ?requests, ?discard⟩
  case steps =>
    intro patience n x hx s hs
    have hsane := (h.rounds patience n x hx).sane
    obtain ⟨hstep, -⟩ := hsane.mem_steps hs
    have hdue := (hsane.due_of_mem_steps hs).1
    exact hdue.confined hstep.wired (hstep.steady hdue.running) patience
  case requests =>
    intro r hfits i hi hunserving
    have hledger := (r.lawful h.sane hfits).1.ledger
    rw [r.perform_id] at hledger
    rw [Journal.calls_eq]
    exact hledger.bystander hi (idle_of_serving (r.serving_about h hfits) hunserving)
  case discard =>
    intro i hi hunserving
    obtain ⟨es, habout, hes⟩ := (serving_runLaw h.sane.wired).close g.id g env
    have hserving : ∀ e ∈ (g.discard env).journal.about g.id, e.Serving g.topology := by
      rw [Graph.discard, habout]
      exact List.forall_mem_append.mpr ⟨h.serving, hes⟩
    rw [Journal.calls_eq]
    exact h.sane.discard.bystander hi (idle_of_serving hserving hunserving)

end

/-- The requests that build the pipeline, and beside it a source and a filter that lead nowhere. -/
def sidingRequests : List (Request (Standard (List Message)) (List Message)) :=
  pipelineRequests ++
    [.add (Standard.itemsClass "digits" [.int 9]) "idler" .nil,
      .add Standard.passthroughClass "dead end" .nil,
      .link "idler" "out" "dead end" "in"]

/-- The graph that these requests build. -/
def siding : Graph (Standard (List Message)) (List Message) × Env (List Message) :=
  Graph.build "siding" .standard [] sidingRequests

theorem siding_lifetime : Lifetime [0, 1, 2, 3, 4] siding.1 siding.2 := by
  refine .built (rfl : siding = Graph.build _ _ _ sidingRequests) ?_
  simp [sidingRequests, pipelineRequests, Request.runs, Request.Fits]

/-- From the siding no way leads to a sink. -/
theorem siding_unserving : ¬ siding.1.topology.Serves 3 := by
  rintro ⟨s, hsink, hpath⟩
  have hleads : ∀ c ∈ siding.1.topology.connections,
      c.output.component = 3 ∨ c.output.component = 4 →
        c.input.component = 3 ∨ c.input.component = 4 := by
    decide +kernel
  have hreached : s = 3 ∨ s = 4 := by
    clear hsink
    induction hpath with
    | refl => exact .inl rfl
    | tail _ hfeeds ih =>
      obtain ⟨c, hc, rfl, rfl⟩ := hfeeds
      exact hleads c hc ih
  rcases hreached with rfl | rfl
  · cases hsink
  · cases hsink

/-- The run of the graph ends, and the idler has been set up and finalized. -/
theorem siding_bystander :
    let x := (Request.run 5 9).perform siding.1 siding.2
    Lifetime [0, 1, 2, 3, 4] siding.1 siding.2 ∧
      (∀ s ∈ siding.1.steps 5 siding.2, s.Confined 5) ∧
      x.graph.state = .finished ∧ ¬ x.graph.topology.Serves 3 ∧
      callsOf (x.env.journal.calls siding.1.id) 3 = [.setUp none, .finalized none] ∧
      Bystander true (callsOf (x.env.journal.calls siding.1.id) 3) := by
  intro x
  obtain ⟨hsteps, hrequests, -⟩ := siding_lifetime.steps_confined
  have htopology : x.graph.topology = siding.1.topology :=
    (siding.1.run_ran 5 9 siding.2).topology_eq
  have hunserving : ¬ x.graph.topology.Serves 3 := htopology ▸ siding_unserving
  exact ⟨siding_lifetime, hsteps 5 1 _ List.mem_cons_self, rfl, hunserving, rfl,
    hrequests (.run 5 9) trivial 3 (by decide +kernel) hunserving⟩

end PullGraph
