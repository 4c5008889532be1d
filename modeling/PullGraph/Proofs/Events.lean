import PullGraph.Graph.Basic

/-! # What the journal says of a graph

Several graphs may write into one journal. Here is the part of it that is about one of
them, and how it grows: everything the library does only adds to its end.
-/
namespace PullGraph

namespace Event

/-- The graph that an event is about. Notices are about none. -/
def graph? : Event → Option GraphId
  | .call graph _ _ => some graph
  | .refused graph _ => some graph
  | .notice _ => none

/-- The call that an event is, with the component that was called. -/
def call? : Event → Option (ComponentId × Call)
  | .call _ component c => some (component, c)
  | _ => none

/-- The reason of a refusal. -/
def refusal? : Event → Option Fault
  | .refused _ fault => some fault
  | _ => none

/-- The component that an event finalizes. -/
def finalized? : Event → Option ComponentId
  | .call _ component (.finalized _) => some component
  | _ => none

/-- The component that an event sets up, if that does not fail. -/
def installed? : Event → Option ComponentId
  | .call _ component (.setUp none) => some component
  | _ => none

/-- The component that an event fails to set up. -/
def botched? : Event → Option ComponentId
  | .call _ component (.setUp (some _)) => some component
  | _ => none

/-- Whether an event belongs to a run that is under way: a component is pulled or handed
something, or the executor refuses a request. -/
def isWork : Event → Bool
  | .call _ _ (.setUp _) | .call _ _ (.finalized _) | .notice _ => false
  | _ => true

end Event

/-- Every entry of a list stands to those before it as `P` says. -/
def Follows {α : Type} (P : List α → α → Prop) (l : List α) : Prop :=
  ∀ before a after, l = before ++ a :: after → P before a

namespace Follows

variable {α β : Type} {P : List α → α → Prop} {l l' : List α}

theorem nil : Follows P [] := by
  intro before a after h
  cases before <;> cases h

theorem append (h : Follows P l) (h' : Follows (fun before a => P (l ++ before) a) l') :
    Follows P (l ++ l') := by
  intro before a after heq
  rcases List.append_eq_append_iff.mp heq with ⟨mid, rfl, hl'⟩ | ⟨mid, hl, hafter⟩
  · exact h' mid a after hl'
  · cases mid with
    | nil =>
      rw [List.append_nil] at hl
      subst hl
      have hhead : P (l ++ []) a := h' [] a after hafter.symm
      rwa [List.append_nil] at hhead
    | cons b mid =>
      obtain ⟨rfl, -⟩ := List.cons.inj hafter
      exact h before a mid hl

theorem concat {a : α} (h : Follows P l) (ha : P l a) : Follows P (l ++ [a]) := by
  refine h.append ?_
  intro before b after heq
  have hlen := congrArg List.length heq
  simp only [List.length_cons, List.length_nil, List.length_append] at hlen
  obtain rfl : before = [] := List.length_eq_zero_iff.mp (by omega)
  obtain ⟨rfl, -⟩ := List.cons.inj heq
  rw [List.append_nil]
  exact ha

theorem of_forall (h : ∀ before, ∀ a ∈ l, (∀ b ∈ before, b ∈ l) → P before a) : Follows P l := by
  intro before a after heq
  subst heq
  exact h before a (by simp) (by simp +contextual)

/-- A view of the list inherits what it can see. -/
theorem filterMap {f : α → Option β} {Q : List β → β → Prop} (h : Follows P l)
    (hPQ : ∀ before a b, f a = some b → P before a → Q (before.filterMap f) b) :
    Follows Q (l.filterMap f) := by
  intro before b after heq
  obtain ⟨l₁, l₂, rfl, rfl, hl₂⟩ := List.filterMap_eq_append_iff.mp heq
  obtain ⟨mid, a, rest, rfl, hmid, ha, rfl⟩ := List.filterMap_eq_cons_iff.mp hl₂
  have hP := h (l₁ ++ mid) a rest (by simp)
  have hnone : mid.filterMap f = [] := List.filterMap_eq_nil_iff.mpr hmid
  have hQ := hPQ (l₁ ++ mid) a b ha hP
  rwa [List.filterMap_append, hnone, List.append_nil] at hQ

end Follows

namespace Journal

/-- What has happened on a graph, in order. -/
def about (j : Journal) (graph : GraphId) : List Event :=
  j.toList.filter fun e => e.graph? = some graph

/-- What the executor itself refused on a graph, in order. -/
def refusals (j : Journal) (graph : GraphId) : List Fault := (j.about graph).filterMap Event.refusal?

/-- The components of a graph that have been finalized, in order. -/
def finalized (j : Journal) (graph : GraphId) : List ComponentId :=
  (j.about graph).filterMap Event.finalized?

/-- The components of a graph that have been set up, in order. -/
def installed (j : Journal) (graph : GraphId) : List ComponentId :=
  (j.about graph).filterMap Event.installed?

variable {j j' j'' : Journal} {graph : GraphId} {P : Event → Prop}

theorem about_record (j : Journal) (e : Event) :
    (j.record e).about graph = j.about graph ++ if e.graph? = some graph then [e] else [] := by
  rw [about, toList_record, List.filter_append]
  by_cases h : e.graph? = some graph <;> simp [about, h]

@[simp] theorem about_record_notice (j : Journal) (n : Notice) :
    (j.record (.notice n)).about graph = j.about graph := by
  simp [about_record, Event.graph?]

@[simp] theorem about_record_call (j : Journal) (component : ComponentId) (call : Call) :
    (j.record (.call graph component call)).about graph =
      j.about graph ++ [.call graph component call] := by
  simp [about_record, Event.graph?]

@[simp] theorem about_record_refused (j : Journal) (f : Fault) :
    (j.record (.refused graph f)).about graph = j.about graph ++ [.refused graph f] := by
  simp [about_record, Event.graph?]

theorem calls_eq (j : Journal) (graph : GraphId) :
    j.calls graph = (j.about graph).filterMap Event.call? := by
  rw [calls, about, List.filterMap_filter]
  congr 1
  funext e
  cases e with
  | call g component call => by_cases h : g = graph <;> simp [Event.graph?, Event.call?, h]
  | refused g f => by_cases h : g = graph <;> simp [Event.graph?, Event.call?, h]
  | notice n => simp [Event.graph?]

/-- The calls that a journal tells of follow from what it says. -/
theorem calls_of_about {es : List Event} (h : j'.about graph = j.about graph ++ es) :
    j'.calls graph = j.calls graph ++ es.filterMap Event.call? := by
  rw [calls_eq, calls_eq, h, List.filterMap_append]

theorem calls_of_about_eq (h : j'.about graph = j.about graph) : j'.calls graph = j.calls graph := by
  rw [calls_eq, calls_eq, h]

/-- What is new in `j'` about a graph has the property `P`. -/
def Grows (P : Event → Prop) (graph : GraphId) (j j' : Journal) : Prop :=
  ∃ es, j'.about graph = j.about graph ++ es ∧ ∀ e ∈ es, P e

theorem Grows.of_eq (h : j'.about graph = j.about graph) : Grows P graph j j' :=
  ⟨[], by rw [h, List.append_nil], fun _ he => (nomatch he)⟩

theorem Grows.refl (j : Journal) : Grows P graph j j := .of_eq rfl

theorem Grows.trans (h : Grows P graph j j') (h' : Grows P graph j' j'') : Grows P graph j j'' := by
  obtain ⟨es, heq, hes⟩ := h
  obtain ⟨es', heq', hes'⟩ := h'
  refine ⟨es ++ es', by rw [heq', heq, List.append_assoc], ?_⟩
  intro e he
  exact (List.mem_append.mp he).elim (hes e) (hes' e)

theorem Grows.record (j : Journal) {e : Event} (h : P e) : Grows P graph j (j.record e) := by
  refine ⟨if e.graph? = some graph then [e] else [], about_record j e, ?_⟩
  intro e' he'
  split at he'
  · rw [List.mem_singleton.mp he']
    exact h
  · cases he'

end Journal

namespace Env

variable {ω α : Type} (env : Env ω)

@[simp] theorem record_journal (e : Event) : (env.record e).journal = env.journal.record e := rfl

@[simp] theorem about_note (n : Notice) (graph : GraphId) :
    (env.note n).journal.about graph = env.journal.about graph :=
  Journal.about_record_notice env.journal n

@[simp] theorem perform_journal (x : Act ω α) : (env.perform x).2.journal = env.journal := rfl

end Env
end PullGraph
