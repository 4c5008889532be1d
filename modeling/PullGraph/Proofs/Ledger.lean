import PullGraph.Proofs.Closing

/-! # The ledger of a graph

What the journal may say of a graph at any time in its life. Nothing has been refused; the
components of the graph are the ones that were set up, in the order in which they were;
none has been finalized as long as the graph is not over, and all have been, the last
first, when it is; and nothing else happened once that had begun.

The ledger is kept in three ways: a component is set up, work is done while the graph is
not over, and the graph is closed.
-/
namespace PullGraph

/-- An event finds its place in a ledger: once a component has been finalized all that
follows is that others are, and what fails to be set up is not a component of the graph. -/
def Event.InOrder (before : List Event) (e : Event) : Prop :=
  (before.filterMap finalized? ≠ [] → e.finalized?.isSome = true) ∧
    ∀ i, e.botched? = some i → i ∉ before.filterMap installed?

/-- What is said of a graph with `n` components that is over, or not. -/
structure Ledger (n : Nat) (isOver : Bool) (es : List Event) : Prop where
  refusals : es.filterMap Event.refusal? = []
  installed : es.filterMap Event.installed? = List.range n
  finalized : es.filterMap Event.finalized? = if isOver then (List.range n).reverse else []
  orderly : Follows Event.InOrder es

/-- Work neither sets up a component nor finalizes one. -/
theorem Event.views_of_isWork {e : Event} (h : e.isWork = true) :
    e.installed? = none ∧ e.finalized? = none ∧ e.botched? = none := by
  cases e with
  | notice n => cases h
  | refused graph fault => exact ⟨rfl, rfl, rfl⟩
  | call graph component c =>
    cases c with
    | setUp fault => cases h
    | finalized fault => cases h
    | asked | answered | consumed | ended => exact ⟨rfl, rfl, rfl⟩

theorem filterMap_finalized?_farewells {κ : Type} (graph : GraphId)
    (ends : List (Component κ × Option Fault)) :
    (farewells graph ends).filterMap Event.finalized? = (ends.map (·.1.id)).reverse := by
  induction ends with
  | nil => rfl
  | cons x ends ih => simp [ih, Event.finalized?]

theorem mem_farewells {κ : Type} {graph : GraphId} {ends : List (Component κ × Option Fault)}
    {e : Event} (h : e ∈ farewells graph ends) :
    ∃ component fault, e = .call graph component (.finalized fault) := by
  obtain ⟨x, -, rfl⟩ := List.mem_map.mp h
  exact ⟨x.1.id, x.2, rfl⟩

namespace Ledger

variable {n : Nat} {es ws : List Event}

/-- Nothing is said of a graph that is new. -/
theorem empty : Ledger 0 false [] := ⟨rfl, rfl, rfl, .nil⟩

/-- Work that meets nothing to refuse is entered as long as the graph is not over. -/
theorem work (h : Ledger n false es) (hwork : ∀ e ∈ ws, e.isWork = true)
    (hrefusals : ws.filterMap Event.refusal? = []) : Ledger n false (es ++ ws) where
  refusals := by rw [List.filterMap_append, h.refusals, hrefusals, List.append_nil]
  installed := by
    rw [filterMap_append_of_none es fun e he => (Event.views_of_isWork (hwork e he)).1]
    exact h.installed
  finalized := by
    rw [filterMap_append_of_none es fun e he => (Event.views_of_isWork (hwork e he)).2.1]
    exact h.finalized
  orderly := by
    refine h.orderly.append (.of_forall fun before e he hbefore => ⟨fun hne => ?_, fun i hi => ?_⟩)
    · refine absurd ?_ hne
      rw [filterMap_append_of_none es fun e he => (Event.views_of_isWork (hwork e (hbefore e he))).2.1]
      exact h.finalized
    · rw [(Event.views_of_isWork (hwork e he)).2.2] at hi
      cases hi

/-- A component is set up and added. -/
theorem install (h : Ledger n false es) (graph : GraphId) :
    Ledger (n + 1) false (es ++ [.call graph n (.setUp none)]) where
  refusals := by simp [h.refusals, Event.refusal?]
  installed := by simp [h.installed, Event.installed?, List.range_succ]
  finalized := by simp [h.finalized, Event.finalized?]
  orderly := by
    refine h.orderly.concat ⟨fun hne => absurd h.finalized hne, fun i hi => ?_⟩
    cases hi

/-- A component cannot be set up and is not added. -/
theorem botch (h : Ledger n false es) (graph : GraphId) (fault : Fault) :
    Ledger n false (es ++ [.call graph n (.setUp (some fault))]) where
  refusals := by simp [h.refusals, Event.refusal?]
  installed := by simp [h.installed, Event.installed?]
  finalized := by simp [h.finalized, Event.finalized?]
  orderly := by
    refine h.orderly.concat ⟨fun hne => absurd h.finalized hne, fun i hi => ?_⟩
    obtain rfl : n = i := Option.some.inj hi
    rw [h.installed]
    exact List.not_mem_range_self

/-- All components are finalized, the last first. -/
theorem close {κ : Type} (h : Ledger n false es) (graph : GraphId)
    {ends : List (Component κ × Option Fault)} (hends : ends.map (·.1.id) = List.range n) :
    Ledger n true (es ++ farewells graph ends) where
  refusals := by
    refine (filterMap_append_of_none es fun e he => ?_).trans h.refusals
    obtain ⟨component, fault, rfl⟩ := mem_farewells he
    rfl
  installed := by
    refine (filterMap_append_of_none es fun e he => ?_).trans h.installed
    obtain ⟨component, fault, rfl⟩ := mem_farewells he
    rfl
  finalized := by
    rw [List.filterMap_append, h.finalized, filterMap_finalized?_farewells, hends]
    rfl
  orderly := by
    refine h.orderly.append (.of_forall fun before e he _ => ?_)
    obtain ⟨component, fault, rfl⟩ := mem_farewells he
    exact ⟨fun _ => rfl, fun i hi => nomatch hi⟩

end Ledger
end PullGraph
