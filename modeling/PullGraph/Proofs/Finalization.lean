import PullGraph.Proofs.Performance

/-! # Components are finalized once

Runs end in several ways, graphs are ended or just given up, and one may follow another.
Whatever happens, the calls that finalize components are made once for each component that
was added, the last first, and they are the last calls that are made on the graph. The
journal tells so, and what it tells has been performed.
-/
namespace PullGraph

/-- Once a component has been finalized, every call that follows finalizes one. -/
def FinalizesLast (calls : List (ComponentId × Call)) : Prop :=
  ∀ before i fault after, calls = before ++ (i, .finalized fault) :: after →
    ∀ x ∈ after, ∃ fault', x.2 = .finalized fault'

/-- Between a call that fails to set up a component and one that finalizes a component in
its place, there is one that sets up a component there. -/
def FinalizesInstalled (calls : List (ComponentId × Call)) : Prop :=
  ∀ before i fault between fault' after,
    calls = before ++ (i, .setUp (some fault)) :: (between ++ (i, .finalized fault') :: after) →
    (i, .setUp none) ∈ between

/-- The order of calls, as seen from a call and those before it. -/
def Call.InOrder (before : List (ComponentId × Call)) (x : ComponentId × Call) : Prop :=
  ((∃ i fault, (i, .finalized fault) ∈ before) → ∃ fault, x.2 = .finalized fault) ∧
    ∀ i fault, x = (i, .setUp (some fault)) → (i, .setUp none) ∉ before

theorem Event.finalized?_eq_some {e : Event} {i : ComponentId} :
    e.finalized? = some i ↔ ∃ fault, e.call? = some (i, .finalized fault) := by
  cases e with
  | call graph component c => cases c <;> simp [finalized?, call?]
  | refused graph fault => simp [finalized?, call?]
  | notice n => simp [finalized?, call?]

theorem Event.installed?_eq_some {e : Event} {i : ComponentId} :
    e.installed? = some i ↔ e.call? = some (i, .setUp none) := by
  cases e with
  | call graph component c =>
    cases c with
    | setUp fault => cases fault <;> simp [installed?, call?]
    | asked | answered | consumed | ended | finalized => simp [installed?, call?]
  | refused graph fault => simp [installed?, call?]
  | notice n => simp [installed?, call?]

theorem Event.botched?_of_call? {e : Event} {i : ComponentId} {fault : Fault}
    (h : e.call? = some (i, .setUp (some fault))) : e.botched? = some i := by
  cases e with
  | call graph component c =>
    obtain ⟨rfl, rfl⟩ : component = i ∧ c = .setUp (some fault) := by simpa [call?] using h
    rfl
  | refused graph fault => cases h
  | notice n => cases h

theorem mem_filterMap_finalized? {es : List Event} {i : ComponentId} :
    i ∈ es.filterMap Event.finalized? ↔ ∃ fault, (i, .finalized fault) ∈ es.filterMap Event.call? := by
  simp only [List.mem_filterMap, Event.finalized?_eq_some]
  constructor
  · rintro ⟨e, he, fault, hcall⟩
    exact ⟨fault, e, he, hcall⟩
  · rintro ⟨fault, e, he, hcall⟩
    exact ⟨e, he, fault, hcall⟩

theorem mem_filterMap_installed? {es : List Event} {i : ComponentId} :
    i ∈ es.filterMap Event.installed? ↔ (i, .setUp none) ∈ es.filterMap Event.call? := by
  simp only [List.mem_filterMap, Event.installed?_eq_some]

namespace Ledger

variable {n : Nat} {isOver : Bool} {es : List Event}

/-- The calls of a ledger are in order. -/
theorem follows_calls (h : Ledger n isOver es) :
    Follows Call.InOrder (es.filterMap Event.call?) := by
  refine h.orderly.filterMap fun before e x hx horder => ⟨?_, ?_⟩
  · rintro ⟨i, fault, hmem⟩
    have hne := List.ne_nil_of_mem (mem_filterMap_finalized?.mpr ⟨fault, hmem⟩)
    obtain ⟨j, hj⟩ := Option.isSome_iff_exists.mp (horder.1 hne)
    obtain ⟨fault', hcall⟩ := Event.finalized?_eq_some.mp hj
    rw [hx] at hcall
    exact ⟨fault', congrArg Prod.snd (Option.some.inj hcall)⟩
  · rintro i fault rfl hmem
    exact horder.2 i (Event.botched?_of_call? hx) (mem_filterMap_installed?.mpr hmem)

theorem finalizesLast (h : Ledger n isOver es) : FinalizesLast (es.filterMap Event.call?) := by
  rintro before i fault after heq x hx
  obtain ⟨mid, rest, rfl⟩ := List.append_of_mem hx
  have hsplit : es.filterMap Event.call? = (before ++ (i, .finalized fault) :: mid) ++ x :: rest := by
    simp [heq]
  exact (h.follows_calls _ x rest hsplit).1 ⟨i, fault, by simp⟩

/-- What is finalized has been set up, and that was not before a failure to set it up. -/
theorem finalizesInstalled (h : Ledger n isOver es) :
    FinalizesInstalled (es.filterMap Event.call?) := by
  intro before i fault between fault' after heq
  have hfinalized : i ∈ es.filterMap Event.finalized? := by
    refine mem_filterMap_finalized?.mpr ⟨fault', ?_⟩
    rw [heq]
    simp
  have hinstalled : (i, Call.setUp none) ∈ es.filterMap Event.call? := by
    refine mem_filterMap_installed?.mp ?_
    rw [h.installed]
    rw [h.finalized] at hfinalized
    cases isOver with
    | true => simpa using hfinalized
    | false => cases hfinalized
  -- it was set up neither before the failure nor after it was finalized
  have hbefore : (i, Call.setUp none) ∉ before :=
    (h.follows_calls before _ _ heq).2 i fault rfl
  have hafter : (i, Call.setUp none) ∉ after := by
    intro hmem
    have hsplit : es.filterMap Event.call? =
        (before ++ (i, .setUp (some fault)) :: between) ++ (i, .finalized fault') :: after := by
      simp [heq]
    obtain ⟨fault'', hcall⟩ := h.finalizesLast _ i fault' after hsplit _ hmem
    cases hcall
  rw [heq] at hinstalled
  simpa [hbefore, hafter] using hinstalled

end Ledger

variable {κ ω : Type} [Behavior κ ω] {g : Graph κ ω} {env : Env ω} {added : List ComponentId}

/-- **Components are finalized once, the last first, and then nothing is called.**  Over the
whole life of a graph, until it is given up, those are finalized that were added, and no
others. What could not be set up or was not added is not among them. The calls are not only
written down. Those of the last request, or of giving up the graph, are performed on the inner
states of the components and the state they share, in this order and each with the outcome that
is written down for it, and so make these what they are; and so it was all along. -/
theorem Lifetime.finalized_eq_added_reverse (h : Lifetime added g env) :
    (g.discard env).journal.finalized g.id = added.reverse ∧
      (g.discard env).journal.installed g.id = added ∧ added.Nodup ∧
      FinalizesLast ((g.discard env).journal.calls g.id) ∧
      FinalizesInstalled ((g.discard env).journal.calls g.id) ∧
      g.Enacts env (g.finalizeAll env).graph (g.discard env) ∧
      Enacted ((g.discard env).journal.calls g.id) (g.finalizeAll env).graph (g.discard env) ∧
      ∀ r : Request κ ω, r.Fits g →
        FinalizesLast ((r.perform g env).env.journal.calls g.id) ∧
        g.Enacts env (r.perform g env).graph (r.perform g env).env ∧
        Enacted ((r.perform g env).env.journal.calls g.id) (r.perform g env).graph
          (r.perform g env).env := by
  have hdiscard := h.sane.discard
  have hadded := h.added_eq_range
  refine ⟨?finalized, ?installed, ?nodup, ?last, ?botched,
    Graph.finalizeAll_enacts h.sane.wired env, h.enacted_discard,
    fun r hfits => ⟨?unfinished, r.enacts h.sane.wired, h.enacted_request r⟩⟩
  case finalized => exact hdiscard.finalized.trans (congrArg List.reverse hadded.symm)
  case installed => exact hdiscard.installed.trans hadded.symm
  case nodup => exact hadded ▸ List.nodup_range
  case last =>
    rw [Journal.calls_eq]
    exact hdiscard.finalizesLast
  case botched =>
    rw [Journal.calls_eq]
    exact hdiscard.finalizesInstalled
  case unfinished =>
    have hledger := (r.lawful h.sane hfits).1.ledger
    rw [r.perform_id g env] at hledger
    rw [Journal.calls_eq]
    exact hledger.finalizesLast

/-- The pipeline is given up after a run that finished: each of its components has been
finalized. The counter that could not be set up had the place of the filter. -/
theorem pipeline_finalized :
    let x := (Request.run 5 9).perform pipeline.1 pipeline.2
    Lifetime [0, 1, 2] x.graph x.env ∧ x.graph.state = .finished ∧
      (x.graph.discard x.env).journal.finalized x.graph.id = [2, 1, 0] :=
  have h : Lifetime [0, 1, 2] _ _ := pipeline_lifetime.call (.run 5 9) trivial rfl
  ⟨h, by decide, h.finalized_eq_added_reverse.1⟩

end PullGraph
