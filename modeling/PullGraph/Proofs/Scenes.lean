import Mathlib.Logic.Function.Basic
import PullGraph.Proofs.Events
import PullGraph.Proofs.Topology

/-! # What calls do

The journal writes the call of a component down beside the call itself. A `Scene` is what
there is to see of the components of a graph without any journal: the inner states of those
at rest, what those that have been asked are about to do, and the state they share.
`Scene.Step` says what each call does to a scene, by the behaviour of the component that is
called, and `Scene.Plays` what calls do one after another. A graph `Enacts` what stands in
its journal if those calls, performed on the scene of the graph as it was, lead to the scene
of the graph as it is. An entry for a call that is never made cannot be enacted, nor a call
with another outcome than the component's own.
-/
namespace PullGraph

variable {κ ω : Type}

/-- What there is to see of a component. -/
inductive Standing (κ ω : Type) where
  | atRest (k : κ)
  /-- A source that has been asked for a message on a port. -/
  | asked (port : String) (k : κ)
  /-- A filter that has been asked, and what it has still to do for its answer. -/
  | talking (port : String) (rest : Dialogue κ ω)

/-- The components of a graph, and the state that they share. -/
@[ext] structure Scene (κ ω : Type) where
  standing : ComponentId → Option (Standing κ ω)
  shared : ω

/-- How a filter gets on with its dialogue for a port, whatever the executor tells it of its
inputs. Its identity is its own, and so are its acts. -/
inductive Dialogue.Moves [Behavior κ ω] (id : ComponentId) (port : String) (w : ω) :
    Dialogue κ ω → Dialogue κ ω → ω → Prop where
  | retry (k : κ) : Moves id port w (.retry k) (Behavior.answer port k) w
  | pull (input : String) (next : Except Fault Pull → Dialogue κ ω) (r : Except Fault Pull) :
      Moves id port w (.pull input next) (next r) w
  | batch (input : String) (max : Nat) (next : Except Fault Batch → Dialogue κ ω)
      (r : Except Fault Batch) : Moves id port w (.batch input max next) (next r) w
  | atEnd (input : String) (next : Bool → Dialogue κ ω) (b : Bool) :
      Moves id port w (.atEnd input next) (next b) w
  | inputs (next : ComponentId → List String → Dialogue κ ω) (names : List String) :
      Moves id port w (.inputs next) (next id names) w
  | look (next : ω → Dialogue κ ω) : Moves id port w (.look next) (next w) w
  | act (step : Act ω Unit) (next : Dialogue κ ω) :
      Moves id port w (.act step next) next (step w).shared

namespace Scene

/-- The scene with a component at another standing. -/
def put (s : Scene κ ω) (id : ComponentId) (x : Standing κ ω) : Scene κ ω :=
  { s with standing := Function.update s.standing id (some x) }

/-- The scene after a component has performed an act that gives it a new inner state. -/
def react {α : Type} (s : Scene κ ω) (id : ComponentId) (x : Act ω (α × κ)) : Scene κ ω :=
  { s.put id (.atRest (x s.shared).value.2) with shared := (x s.shared).shared }

/-- What such an act comes to. -/
def outcome {α : Type} (s : Scene κ ω) (x : Act ω (α × κ)) : α := (x s.shared).value.1

/-- What can happen to the components of a graph, and the call that is written down for it.
Nothing is written down while a filter gets on with its dialogue, or when the policy of the
graph says how long to wait. -/
inductive Step [Behavior κ ω] (T : Topology κ) (policy : Policy ω) :
    Scene κ ω → List (ComponentId × Call) → Scene κ ω → Prop where
  | setUp {s : Scene κ ω} {id : ComponentId} (new : s.standing id = none) (settings : Settings)
      (k : κ) (well : Component.faultOf (s.outcome (Behavior.setUp settings k)) = none) :
      Step T policy s [(id, .setUp none)] (s.react id (Behavior.setUp settings k))
  /-- A component that cannot be set up does not stay. -/
  | botched {s : Scene κ ω} {id : ComponentId} (new : s.standing id = none) (settings : Settings)
      (k : κ) {fault : Fault}
      (badly : Component.faultOf (s.outcome (Behavior.setUp settings k)) = some fault) :
      Step T policy s [(id, .setUp (some fault))]
        { s with shared := (Behavior.setUp settings k s.shared).shared }
  | askedSource {s : Scene κ ω} {id : ComponentId} {k : κ} (port : String)
      (kind : T.kind? id = some .source) (rests : s.standing id = some (.atRest k)) :
      Step T policy s [(id, .asked port)] (s.put id (.asked port k))
  | emitted {s : Scene κ ω} {id : ComponentId} {port : String} {k : κ}
      (stands : s.standing id = some (.asked port k)) :
      Step T policy s [(id, .answered port (s.outcome (Behavior.emit port k)))]
        (s.react id (Behavior.emit port k))
  | askedFilter {s : Scene κ ω} {id : ComponentId} {k : κ} (port : String)
      (kind : T.kind? id = some .filter) (rests : s.standing id = some (.atRest k)) :
      Step T policy s [(id, .asked port)] (s.put id (.talking port (Behavior.answer port k)))
  | talks {s : Scene κ ω} {id : ComponentId} {port : String} {d d' : Dialogue κ ω} {w : ω}
      (stands : s.standing id = some (.talking port d)) (moves : d.Moves id port s.shared d' w) :
      Step T policy s [] { s.put id (.talking port d') with shared := w }
  | replied {s : Scene κ ω} {id : ComponentId} {port : String} {answer : Except Fault Pull} {k : κ}
      (stands : s.standing id = some (.talking port (.reply answer k))) :
      Step T policy s [(id, .answered port answer)] (s.put id (.atRest k))
  | consumed {s : Scene κ ω} {id : ComponentId} {k : κ} (port : String) (m : Message)
      (kind : T.kind? id = some .sink) (rests : s.standing id = some (.atRest k)) :
      Step T policy s
        [(id, .consumed port m (Component.faultOf (s.outcome (Behavior.consume port m k))))]
        (s.react id (Behavior.consume port m k))
  | ended {s : Scene κ ω} {id : ComponentId} {k : κ} (port : String)
      (kind : T.kind? id = some .sink) (rests : s.standing id = some (.atRest k)) :
      Step T policy s
        [(id, .ended port (Component.faultOf (s.outcome (Behavior.endOfStream port k))))]
        (s.react id (Behavior.endOfStream port k))
  | finalized {s : Scene κ ω} {id : ComponentId} {k : κ}
      (rests : s.standing id = some (.atRest k)) :
      Step T policy s [(id, .finalized (Component.faultOf (s.outcome (Behavior.finalize k))))]
        (s.react id (Behavior.finalize k))
  | waits (s : Scene κ ω) (idle : UInt32) :
      Step T policy s [] { s with shared := (policy.delay idle s.shared).shared }

/-- What calls, in their order, lead to. -/
inductive Plays [Behavior κ ω] (T : Topology κ) (policy : Policy ω) :
    Scene κ ω → List (ComponentId × Call) → Scene κ ω → Prop where
  | still (s : Scene κ ω) : Plays T policy s [] s
  | next {s s' s'' : Scene κ ω} {first calls : List (ComponentId × Call)}
      (step : Step T policy s first s') (rest : Plays T policy s' calls s'') :
      Plays T policy s (first ++ calls) s''

variable [Behavior κ ω] {T : Topology κ} {policy : Policy ω} {s s' s'' : Scene κ ω}
  {calls calls' : List (ComponentId × Call)}

theorem Step.plays (h : Step T policy s calls s') : Plays T policy s calls s' := by
  have hplays := Plays.next h (.still s')
  rwa [List.append_nil] at hplays

theorem Plays.trans (h : Plays T policy s calls s') (h' : Plays T policy s' calls' s'') :
    Plays T policy s (calls ++ calls') s'' := by
  induction h with
  | still => exact h'
  | next hstep _ ih =>
    rw [List.append_assoc]
    exact .next hstep (ih h')

end Scene

namespace Graph

/-- The inner states of the components that are in place. -/
def behaviors (g : Graph κ ω) : List (Option κ) := g.components.map (·.behavior)

theorem behaviors_eq_some {g : Graph κ ω} {i : ComponentId} {k : κ} :
    g.behaviors[i]? = some (some k) ↔ ∃ c, g.components[i]? = some c ∧ c.behavior = some k := by
  simp [behaviors]

/-- What there is to see of a graph. The graph itself does not say what those components are
about whose inner states are taken out. -/
def scene (g : Graph κ ω) (w : ω) (away : ComponentId → Standing κ ω) : Scene κ ω where
  standing id := g.behaviors[id]?.map (·.elim (away id) .atRest)
  shared := w

variable {g g' g'' : Graph κ ω} {env env' env'' : Env ω} {w : ω}
  {away : ComponentId → Standing κ ω} {id : ComponentId}

theorem scene_atRest {k : κ} (h : g.behaviors[id]? = some (some k)) :
    (g.scene w away).standing id = some (.atRest k) := by
  simp [scene, h]

theorem scene_away (h : g.behaviors[id]? = some none) :
    (g.scene w away).standing id = some (away id) := by
  simp [scene, h]

/-- A component gets a new inner state, and is at rest with it. -/
theorem scene_put_atRest {k : κ} {x : Option κ} (h : g.behaviors[id]? = some x)
    (hset : g'.behaviors = g.behaviors.set id (some k)) {standing : Standing κ ω} :
    g'.scene w away = (g.scene w (Function.update away id standing)).put id (.atRest k) := by
  obtain ⟨hlt, -⟩ := List.getElem?_eq_some_iff.mp h
  refine Scene.ext (funext fun i => ?_) rfl
  by_cases hi : i = id
  · subst hi
    simp [scene, Scene.put, hset, hlt]
  · simp [scene, Scene.put, hset, Function.update_of_ne hi, List.getElem?_set_ne (Ne.symm hi)]

/-- The inner state of a component is taken out, or it is not in place and gets on with what
it is about. -/
theorem scene_put_away {x : Option κ} (h : g.behaviors[id]? = some x)
    (hset : g'.behaviors = g.behaviors.set id none) (standing : Standing κ ω) :
    g'.scene w (Function.update away id standing) = (g.scene w away).put id standing := by
  obtain ⟨hlt, -⟩ := List.getElem?_eq_some_iff.mp h
  refine Scene.ext (funext fun i => ?_) rfl
  by_cases hi : i = id
  · subst hi
    simp [scene, Scene.put, hset, hlt]
  · simp [scene, Scene.put, hset, Function.update_of_ne hi, List.getElem?_set_ne (Ne.symm hi)]

variable [Behavior κ ω]

/-- Calls, performed on the scene of the graph as it was, lead to the scene of the graph as
it is. -/
def Performs (g : Graph κ ω) (env : Env ω) (calls : List (ComponentId × Call)) (g' : Graph κ ω)
    (env' : Env ω) : Prop :=
  ∀ away, ∃ away', Scene.Plays g.topology g.policy (g.scene env.shared away) calls
    (g'.scene env'.shared away')

/-- The calls that the journal gains are performed. -/
def Enacts (g : Graph κ ω) (env : Env ω) (g' : Graph κ ω) (env' : Env ω) : Prop :=
  ∃ calls, env'.journal.calls g.id = env.journal.calls g.id ++ calls ∧
    g.Performs env calls g' env'

namespace Enacts

/-- Where nothing is called and the components are left alone, there is nothing to perform. -/
theorem of_eq (hbehaviors : g'.behaviors = g.behaviors) (hshared : env'.shared = env.shared)
    (hcalls : env'.journal.calls g.id = env.journal.calls g.id) : g.Enacts env g' env' := by
  refine ⟨[], by rw [hcalls, List.append_nil], fun away => ⟨away, ?_⟩⟩
  have hscene : g'.scene env'.shared away = g.scene env.shared away := by
    rw [scene, scene, hbehaviors, hshared]
  rw [hscene]
  exact .still _

theorem refl (g : Graph κ ω) (env : Env ω) : g.Enacts env g env := .of_eq rfl rfl rfl

theorem trans (h : g.Enacts env g' env') (htopology : g'.topology = g.topology)
    (hpolicy : g'.policy = g.policy) (h' : g'.Enacts env' g'' env'') :
    g.Enacts env g'' env'' := by
  obtain ⟨calls, hcalls, hplays⟩ := h
  obtain ⟨calls', hcalls', hplays'⟩ := h'
  have hid : g'.id = g.id := congrArg Topology.id htopology
  rw [hid] at hcalls'
  rw [Performs, htopology, hpolicy] at hplays'
  refine ⟨calls ++ calls', by rw [hcalls', hcalls, List.append_assoc], fun away => ?_⟩
  obtain ⟨away', hfirst⟩ := hplays away
  obtain ⟨away'', hsecond⟩ := hplays' away'
  exact ⟨away'', hfirst.trans hsecond⟩

/-- One component at rest is called, and has a new inner state. -/
theorem of_react {k : κ} {call : Call} {α : Type} {x : Act ω (α × κ)}
    (hcall : env'.journal.calls g.id = env.journal.calls g.id ++ [(id, call)])
    (hstep : ∀ away, (g.scene env.shared away).standing id = some (.atRest k) →
      Scene.Step g.topology g.policy (g.scene env.shared away) [(id, call)]
        ((g.scene env.shared away).react id x))
    (hrests : g.behaviors[id]? = some (some k))
    (hbehaviors : g'.behaviors = g.behaviors.set id (some (x env.shared).value.2))
    (hshared : env'.shared = (x env.shared).shared) : g.Enacts env g' env' := by
  refine ⟨[(id, call)], hcall, fun away => ⟨away, ?_⟩⟩
  have hscene : g'.scene env'.shared away = (g.scene env.shared away).react id x := by
    have hput : g'.scene env.shared away =
        (g.scene env.shared (Function.update away id (away id))).put id
          (.atRest (x env.shared).value.2) := scene_put_atRest hrests hbehaviors
    rw [Function.update_eq_self] at hput
    rw [hshared]
    exact congrArg (fun s : Scene κ ω => { s with shared := (x env.shared).shared }) hput
  rw [hscene]
  exact (hstep away (scene_atRest hrests)).plays

end Enacts
end Graph
end PullGraph
