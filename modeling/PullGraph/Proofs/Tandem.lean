import PullGraph.Proofs.Mirror
import PullGraph.Proofs.Steps

/-! # Two graphs in tandem

A graph and a part of it that stands in a graph of its own go through their steps side by
side. Components of the part are called in both graphs, in the same inner states and with the
same outcomes; components that are not of the part are called in the one graph only, and the
part does not notice. `Border.Tied` is what holds throughout.

For this the components must not share state across the border: those of the part see and
change a part of the shared state of their own (`Border.Private`), which the others leave
alone (`Border.Aloof`). That is not enough. A filter can ask for its own number, and that is
not the same in the two graphs; so nothing must come of it (`Border.Placeless`).
-/
namespace PullGraph

variable {κ ω σ α β : Type}

/-! ## Components that share no state -/

/-- Where a part of a graph meets the rest of it: what the part sees of the shared state, and
the inner states that components of the part and the other components can have. -/
structure Border (κ ω σ : Type) where
  view : ω → σ
  ours : κ → Prop
  theirs : κ → Prop

/-- Two acts do the same to what `view` shows, and see no more. -/
def Act.Alike (view : ω → σ) (fair : α → Prop) (x x' : Act ω α) : Prop :=
  ∀ w w', view w = view w' → (x w).value = (x' w').value ∧ fair (x w).value ∧
    view (x w).shared = view (x' w').shared ∧ (x w).cancels = (x' w').cancels

/-- An act leaves alone what `view` shows. -/
def Act.Aloof (view : ω → σ) (fair : α → Prop) (x : Act ω α) : Prop :=
  ∀ w, fair (x w).value ∧ view (x w).shared = view w

/-- Two dialogues make the same of the same answers as far as the shared state looks the same. -/
inductive Dialogue.Alike (b : Border κ ω σ) : Dialogue κ ω → Dialogue κ ω → Prop where
  | reply (answer : Except Fault Pull) {k : κ} (next : b.ours k) :
      Alike b (.reply answer k) (.reply answer k)
  | retry {k : κ} (next : b.ours k) : Alike b (.retry k) (.retry k)
  | pull (port : String) {f f' : Except Fault Pull → Dialogue κ ω}
      (next : ∀ r, Alike b (f r) (f' r)) : Alike b (.pull port f) (.pull port f')
  | batch (port : String) (max : Nat) {f f' : Except Fault Batch → Dialogue κ ω}
      (next : ∀ r, Alike b (f r) (f' r)) : Alike b (.batch port max f) (.batch port max f')
  | atEnd (port : String) {f f' : Bool → Dialogue κ ω} (next : ∀ e, Alike b (f e) (f' e)) :
      Alike b (.atEnd port f) (.atEnd port f')
  | inputs {f f' : ComponentId → List String → Dialogue κ ω}
      (next : ∀ a names, Alike b (f a names) (f' a names)) : Alike b (.inputs f) (.inputs f')
  | look {f f' : ω → Dialogue κ ω} (next : ∀ w w', b.view w = b.view w' → Alike b (f w) (f' w')) :
      Alike b (.look f) (.look f')
  | act {step step' : Act ω Unit} {d d' : Dialogue κ ω}
      (first : step.Alike b.view (fun _ => True) step') (next : Alike b d d') :
      Alike b (.act step d) (.act step' d')

/-- A dialogue leaves alone what the part sees. -/
def Dialogue.Aloof (b : Border κ ω σ) : Dialogue κ ω → Prop
  | .reply _ k => b.theirs k
  | .retry k => b.theirs k
  | .pull _ next => ∀ r, (next r).Aloof b
  | .batch _ _ next => ∀ r, (next r).Aloof b
  | .atEnd _ next => ∀ e, (next e).Aloof b
  | .inputs next => ∀ a names, (next a names).Aloof b
  | .look next => ∀ w, (next w).Aloof b
  | .act step next => step.Aloof b.view (fun _ => True) ∧ next.Aloof b

/-- Whoever holds a dialogue may ask where it stands, but as far as the part sees makes the same
of any two numbers of which `place` sends the one to the other. -/
def Dialogue.Placeless (b : Border κ ω σ) (place : Placement) : Dialogue κ ω → Prop
  | .reply _ _ | .retry _ => True
  | .pull _ next => ∀ r, (next r).Placeless b place
  | .batch _ _ next => ∀ r, (next r).Placeless b place
  | .atEnd _ next => ∀ e, (next e).Placeless b place
  | .inputs next => (∀ a i names, place a = some i → (next a names).Alike b (next i names)) ∧
      ∀ a names, (next a names).Placeless b place
  | .look next => ∀ w, (next w).Placeless b place
  | .act _ next => next.Placeless b place

/-- What the components of the part do, other than to be finalized, depends on what they see of
the shared state and on nothing else that changes. -/
structure Border.Private [Behavior κ ω] (b : Border κ ω σ) : Prop where
  setUp : ∀ settings (k : κ), b.ours k →
    (Behavior.setUp settings k).Alike b.view (b.ours ·.2) (Behavior.setUp settings k)
  emit : ∀ port (k : κ), b.ours k →
    (Behavior.emit port k).Alike b.view (b.ours ·.2) (Behavior.emit port k)
  answer : ∀ port (k : κ), b.ours k → (Behavior.answer port k).Alike b (Behavior.answer port k)
  receive : ∀ port arrival (k : κ), b.ours k →
    (Graph.receive port arrival k).Alike b.view (b.ours ·.2) (Graph.receive port arrival k)

/-- The filters of the part make nothing of their own numbers. -/
def Border.Placeless [Behavior κ ω] (b : Border κ ω σ) (place : Placement) : Prop :=
  ∀ port (k : κ), b.ours k → (Behavior.answer port k).Placeless b place

/-- The other components leave alone what the part sees, until they are finalized. -/
structure Border.Aloof [Behavior κ ω] (b : Border κ ω σ) : Prop where
  setUp : ∀ settings (k : κ), b.theirs k → (Behavior.setUp settings k).Aloof b.view (b.theirs ·.2)
  emit : ∀ port (k : κ), b.theirs k → (Behavior.emit port k).Aloof b.view (b.theirs ·.2)
  answer : ∀ port (k : κ), b.theirs k → (Behavior.answer port k).Aloof b
  receive : ∀ port arrival (k : κ), b.theirs k →
    (Graph.receive port arrival k).Aloof b.view (b.theirs ·.2)

theorem Act.Alike.trans {view : ω → σ} {fair : α → Prop} {x x' x'' : Act ω α}
    (h : x.Alike view fair x') (h' : x'.Alike view fair x'') : x.Alike view fair x'' := by
  intro w w' hview
  obtain ⟨hvalue, hfair, hshared, hcancels⟩ := h w w rfl
  obtain ⟨hvalue', -, hshared', hcancels'⟩ := h' w w' hview
  exact ⟨hvalue.trans hvalue', hfair, hshared.trans hshared', hcancels.trans hcancels'⟩

theorem Dialogue.Alike.trans {b : Border κ ω σ} {d d' d'' : Dialogue κ ω} (h : d.Alike b d')
    (h' : d'.Alike b d'') : d.Alike b d'' := by
  induction h generalizing d'' with
  | reply | retry => exact h'
  | pull port _ ih =>
    cases h' with
    | pull _ hnext => exact .pull port fun r => ih r (hnext r)
  | batch port max _ ih =>
    cases h' with
    | batch _ _ hnext => exact .batch port max fun r => ih r (hnext r)
  | atEnd port _ ih =>
    cases h' with
    | atEnd _ hnext => exact .atEnd port fun e => ih e (hnext e)
  | inputs _ ih =>
    cases h' with
    | inputs hnext => exact .inputs fun a names => ih a names (hnext a names)
  | look _ ih =>
    cases h' with
    | look hnext => exact .look fun w w' hview => ih w w rfl (hnext w w' hview)
  | act hfirst _ ih =>
    cases h' with
    | act hfirst' hnext => exact .act (hfirst.trans hfirst') (ih hnext)

/-! ## A component apart from where it stands -/

/-- A port apart from its connection. -/
def Port.bare (p : Port) : Port := { p with connection := none }

theorem Port.eq_of_bare_eq {p p' : Port} (h : p.bare = p'.bare) :
    p.name = p'.name ∧ p.atEnd = p'.atEnd := by
  have hname := congrArg Port.name h
  have hend := congrArg Port.atEnd h
  exact ⟨hname, hend⟩

namespace Component

/-- A component apart from where it stands and how far it has come. -/
def bare (c : Component κ) : Component κ :=
  { c with graph := 0, id := 0, state := .created, ports := c.ports.map Port.bare }

theorem eq_of_bare_eq {c c' : Component κ} (h : c.bare = c'.bare) :
    c.name = c'.name ∧ c.cls = c'.cls ∧ c.behavior = c'.behavior := by
  have hname := congrArg Component.name h
  have hcls := congrArg Component.cls h
  have hbehavior := congrArg Component.behavior h
  exact ⟨hname, hcls, hbehavior⟩

theorem bare_ports_getElem? (c : Component κ) (j : Nat) :
    c.bare.ports[j]? = c.ports[j]?.map Port.bare :=
  List.getElem?_map

theorem bare_portIndex? (c : Component κ) (name : String) (d : Direction) :
    c.bare.portIndex? name d = c.portIndex? name d := by
  simp only [portIndex?, bare, List.findIdx?_map]
  rfl

theorem bare_inputNames (c : Component κ) : c.bare.inputNames = c.inputNames := by
  simp only [inputNames, bare, List.filter_map, List.map_map]
  rfl

theorem bare_pending (c : Component κ) : c.bare.pending = c.pending := by
  simp only [pending, bare, List.zipIdx_map, List.filterMap_map]
  rfl

theorem bare_modifyPort {f : Port → Port} (h : ∀ p, (f p).bare = f p.bare) (c : Component κ)
    (index : Nat) : (c.modifyPort index f).bare = c.bare.modifyPort index f := by
  simp only [bare, modifyPort, map_modify h]

theorem bare_start (c : Component κ) : c.start.bare = c.bare := by
  unfold start
  split <;> rfl

end Component

namespace Graph

/-- The component at a position, apart from where it stands. -/
def bare? (g : Graph κ ω) (a : ComponentId) : Option (Component κ) :=
  g.components[a]?.map Component.bare

theorem modify_getElem? (g : Graph κ ω) (a b : Nat) (f : Component κ → Component κ) :
    (g.modify a f).components[b]? =
      if a = b then g.components[b]?.map f else g.components[b]? := by
  by_cases hab : a = b
  · simp [modify, hab]
  · simp [modify, hab]

theorem bare?_modify {f f' : Component κ → Component κ} (h : ∀ c, (f c).bare = f' c.bare)
    (g : Graph κ ω) (a b : Nat) :
    (g.modify a f).bare? b = if a = b then (g.bare? b).map f' else g.bare? b := by
  rw [bare?, modify_getElem?]
  split
  · cases hc : g.components[b]? <;> simp [bare?, hc, h]
  · rfl

/-- The ports of components that differ only in where they stand. -/
theorem portAt?_of_bare? {g g' : Graph κ ω} {a i : Nat} (h : g.bare? a = g'.bare? i) (j : Nat) :
    (g.portAt? a j).map Port.bare = (g'.portAt? i j).map Port.bare := by
  have hport : ∀ (g : Graph κ ω) (a : Nat),
      (g.portAt? a j).map Port.bare = (g.bare? a).bind (·.ports[j]?) := by
    intro g a
    rw [portAt?, bare?]
    cases g.components[a]? with
    | none => rfl
    | some c => exact (c.bare_ports_getElem? j).symm
  rw [hport, hport, h]

theorem portIndex?_of_bare? {g g' : Graph κ ω} {a i : Nat} (h : g.bare? a = g'.bare? i)
    (name : String) (d : Direction) :
    g.components[a]?.bind (·.portIndex? name d) = g'.components[i]?.bind (·.portIndex? name d) := by
  have hindex := congrArg (Option.bind · (·.portIndex? name d)) h
  simpa only [bare?, Option.bind_map, Function.comp_def, Component.bare_portIndex?] using hindex

theorem inputNames_of_bare? {g g' : Graph κ ω} {a i : Nat} (h : g.bare? a = g'.bare? i) :
    g.components[a]?.map (·.inputNames) = g'.components[i]?.map (·.inputNames) := by
  have hnames := congrArg (Option.map (·.inputNames)) h
  simpa only [bare?, Option.map_map, Function.comp_def, Component.bare_inputNames] using hnames

theorem pending_of_bare? {g g' : Graph κ ω} {a i : Nat} (h : g.bare? a = g'.bare? i) :
    g.components[a]?.map (·.pending) = g'.components[i]?.map (·.pending) := by
  have hpending := congrArg (Option.map (·.pending)) h
  simpa only [bare?, Option.map_map, Function.comp_def, Component.bare_pending] using hpending

/-- What feeds a port, read off the graph. -/
theorem topology_feeder? {g : Graph κ ω} {a j : Nat} {p : Port} (hp : g.portAt? a j = some p) :
    g.topology.feeder? a j =
      (g.connectionOf? p).map fun c => (c.output.component, c.output.index) := by
  rw [Topology.feeder?, topology_socket?, hp]
  rfl

end Graph

theorem isAtEnd_of_bare? {t t' : Turn κ ω} {a i : Nat} (h : t.graph.bare? a = t'.graph.bare? i)
    (port : String) : isAtEnd a port t = isAtEnd i port t' := by
  have hany : ∀ p : Option Port, p.any (·.atEnd) = (p.map Port.bare).any (·.atEnd) := by
    intro p
    cases p <;> rfl
  rw [isAtEnd, isAtEnd, Graph.portIndex?_of_bare? h]
  cases t'.graph.components[i]?.bind (·.portIndex? port .input) with
  | none => rfl
  | some index =>
    rw [Option.bind_some, Option.bind_some, hany (t.graph.portAt? a index),
      hany (t'.graph.portAt? i index), Graph.portAt?_of_bare? h]

/-- The state in which a filter goes on when a dialogue has ended. -/
def Ending.next : Ending κ → κ
  | .reply _ k => k
  | .retry k => k

/-! ## Calls that the part is concerned with -/

/-- Whether a call is one that a component is made to do its work: to be set up, to be asked, to
answer, or to be handed something. One that cannot be set up is not in a graph. -/
def Call.isService : Call → Bool
  | .setUp (some _) | .finalized _ => false
  | _ => true

namespace Journal

/-- The calls of the components of a graph that serve it, in order. -/
def services (j : Journal) (graph : GraphId) : List (ComponentId × Call) :=
  (j.calls graph).filter (·.2.isService)

theorem services_eq (j : Journal) (graph : GraphId) :
    j.services graph = ((j.about graph).filterMap Event.call?).filter (·.2.isService) := by
  rw [services, calls_eq]

theorem services_of_about_eq {j j' : Journal} {graph : GraphId}
    (h : j'.about graph = j.about graph) : j'.services graph = j.services graph := by
  rw [services_eq, services_eq, h]

@[simp] theorem services_record_call (j : Journal) (graph : GraphId) (a : ComponentId) (call : Call) :
    (j.record (.call graph a call)).services graph =
      j.services graph ++ if call.isService then [(a, call)] else [] := by
  simp only [services_eq, about_record_call, List.filterMap_append, List.filter_append]
  cases hservice : call.isService <;> simp [Event.call?, hservice]

/-- A call that is no service of any graph. -/
theorem services_record_of_not_isService {call : Call} (h : call.isService = false) (j : Journal)
    (graph graph' : GraphId) (a : ComponentId) :
    (j.record (.call graph' a call)).services graph = j.services graph := by
  by_cases hgraph : graph' = graph
  · simp [hgraph, h]
  · exact services_of_about_eq (by simp [about_record, Event.graph?, hgraph])

@[simp] theorem services_record_refused (j : Journal) (graph : GraphId) (f : Fault) :
    (j.record (.refused graph f)).services graph = j.services graph := by
  simp [services_eq, Event.call?]

@[simp] theorem services_record_notice (j : Journal) (graph : GraphId) (n : Notice) :
    (j.record (.notice n)).services graph = j.services graph := by
  simp [services_eq]

end Journal

/-! ## The tie -/

/-- A graph and a part of it that stands in a graph of its own. The components of the part have
come equally far in both and have been called alike; what they see of the shared state is the
same. Who cancels the run of the part cancels that of the whole. -/
structure Border.Tied (b : Border κ ω σ) (place : Placement) (g : Graph κ ω) (env : Env ω)
    (g' : Graph κ ω) (env' : Env ω) : Prop where
  mirrors : Topology.Mirrors place g.topology g'.topology
  parts : ∀ {a i : Nat}, place a = some i → g.bare? a = g'.bare? i
  ours : ∀ {a i : Nat} {k : κ}, place a = some i → g.behaviors[a]? = some (some k) → b.ours k
  theirs : ∀ {a : Nat} {k : κ}, place a = none → g.behaviors[a]? = some (some k) → b.theirs k
  shared : b.view env.shared = b.view env'.shared
  cancelled : env'.isCancelled g'.id = true → env.isCancelled g.id = true
  calls : (env.journal.services g.id).filterMap place.lift = env'.journal.services g'.id

theorem Graph.behaviors_modify {f : Component κ → Component κ} {P : κ → Prop}
    (h : ∀ c k, (f c).behavior = some k → c.behavior = some k ∨ P k) {g : Graph κ ω} {a b : Nat}
    {k : κ} (hk : (g.modify a f).behaviors[b]? = some (some k)) :
    g.behaviors[b]? = some (some k) ∨ a = b ∧ P k := by
  obtain ⟨c, hc, hck⟩ := Graph.behaviors_eq_some.mp hk
  rw [g.modify_getElem?] at hc
  by_cases hab : a = b
  · rw [if_pos hab] at hc
    obtain ⟨c', hc', rfl⟩ := Option.map_eq_some_iff.mp hc
    rcases h c' k hck with hold | hnew
    · exact .inl (Graph.behaviors_eq_some.mpr ⟨c', hc', hold⟩)
    · exact .inr ⟨hab, hnew⟩
  · rw [if_neg hab] at hc
    exact .inl (Graph.behaviors_eq_some.mpr ⟨c, hc, hck⟩)

namespace Border.Tied

variable {b : Border κ ω σ} {place : Placement} {g g' : Graph κ ω} {env env' : Env ω}

/-! ### What happens to the part happens in both graphs -/

theorem modify (h : b.Tied place g env g' env') {a i : Nat} (ha : place a = some i)
    {f : Component κ → Component κ} (houtline : ∀ c, (f c).outline = c.outline)
    (hbare : ∀ c, (f c).bare = f c.bare)
    (hours : ∀ c k, (f c).behavior = some k → c.behavior = some k ∨ b.ours k) :
    b.Tied place (g.modify a f) env (g'.modify i f) env' where
  mirrors := by
    rw [g.topology_modify houtline, g'.topology_modify houtline]
    exact h.mirrors
  parts := by
    intro a' i' ha'
    have hiff : i = i' ↔ a = a' := by
      constructor
      · rintro rfl
        exact h.mirrors.injective ha ha'
      · rintro rfl
        exact Option.some.inj (ha.symm.trans ha')
    rw [Graph.bare?_modify hbare, Graph.bare?_modify hbare, h.parts ha']
    simp only [hiff]
  ours := by
    intro a' i' k ha' hk
    rcases Graph.behaviors_modify hours hk with hold | ⟨-, hnew⟩
    · exact h.ours ha' hold
    · exact hnew
  theirs := by
    intro a' k ha' hk
    rcases Graph.behaviors_modify hours hk with hold | ⟨rfl, -⟩
    · exact h.theirs ha' hold
    · exact nomatch ha'.symm.trans ha
  shared := h.shared
  cancelled := h.cancelled
  calls := h.calls

theorem setBehavior (h : b.Tied place g env g' env') {a i : Nat} (ha : place a = some i)
    {k : Option κ} (hk : ∀ k', k = some k' → b.ours k') :
    b.Tied place (g.modify a fun c => { c with behavior := k }) env
      (g'.modify i fun c => { c with behavior := k }) env' := by
  apply h.modify ha
  · intro c
    rfl
  · intro c
    rfl
  · intro c k' hk'
    exact .inr (hk k' hk')

theorem markAtEnd (h : b.Tied place g env g' env') {a i : Nat} (ha : place a = some i) (index : Nat) :
    b.Tied place (g.modify a (·.modifyPort index fun p => { p with atEnd := true })) env
      (g'.modify i (·.modifyPort index fun p => { p with atEnd := true })) env' := by
  apply h.modify ha
  · intro c
    refine Component.outline_modifyPort (fun p => ?_) c index
    rfl
  · intro c
    refine Component.bare_modifyPort (fun p => ?_) c index
    rfl
  · intro c k hk
    exact .inl hk

theorem record (h : b.Tied place g env g' env') {a i : Nat} (ha : place a = some i) (call : Call) :
    b.Tied place g (env.record (.call g.id a call)) g' (env'.record (.call g'.id i call)) where
  mirrors := h.mirrors
  parts := h.parts
  ours := h.ours
  theirs := h.theirs
  shared := h.shared
  cancelled := h.cancelled
  calls := by
    simp only [Env.record_journal, Journal.services_record_call, List.filterMap_append, h.calls]
    split <;> simp [Placement.lift, ha]

theorem refuse (h : b.Tied place g env g' env') (f : Fault) :
    b.Tied place g (env.record (.refused g.id f)) g' (env'.record (.refused g'.id f)) where
  mirrors := h.mirrors
  parts := h.parts
  ours := h.ours
  theirs := h.theirs
  shared := h.shared
  cancelled := h.cancelled
  calls := by simpa using h.calls

/-- Acts of the part come to the same in both graphs. -/
theorem perform (h : b.Tied place g env g' env') {x x' : Act ω α} {fair : α → Prop}
    (hx : x.Alike b.view fair x') :
    (env.perform x).1 = (env'.perform x').1 ∧ fair (env.perform x).1 ∧
      b.Tied place g (env.perform x).2 g' (env'.perform x').2 := by
  obtain ⟨hvalue, hfair, hshared, hcancels⟩ := hx env.shared env'.shared h.shared
  refine ⟨hvalue, hfair, h.mirrors, h.parts, h.ours, h.theirs, hshared, ?_, h.calls⟩
  intro hcancelled
  have hid : g'.id = g.id := h.mirrors.id
  have hold := h.cancelled
  simp only [Env.isCancelled, Env.perform, List.contains_append, Bool.or_eq_true, ← hcancels,
    hid] at hcancelled hold ⊢
  exact hcancelled.imp_right hold

/-! ### What happens to the others does not concern the part -/

theorem modify_left (h : b.Tied place g env g' env') {a : Nat} (ha : place a = none)
    {f : Component κ → Component κ} (houtline : ∀ c, (f c).outline = c.outline)
    (htheirs : ∀ c k, (f c).behavior = some k → c.behavior = some k ∨ b.theirs k) :
    b.Tied place (g.modify a f) env g' env' where
  mirrors := by
    rw [g.topology_modify houtline]
    exact h.mirrors
  parts := by
    intro a' i' ha'
    have hne : a ≠ a' := by
      rintro rfl
      exact nomatch ha.symm.trans ha'
    rw [← h.parts ha', Graph.bare?, g.modify_getElem?, if_neg hne]
    rfl
  ours := by
    intro a' i' k ha' hk
    rcases Graph.behaviors_modify htheirs hk with hold | ⟨rfl, -⟩
    · exact h.ours ha' hold
    · exact nomatch ha.symm.trans ha'
  theirs := by
    intro a' k ha' hk
    rcases Graph.behaviors_modify htheirs hk with hold | ⟨-, hnew⟩
    · exact h.theirs ha' hold
    · exact hnew
  shared := h.shared
  cancelled := h.cancelled
  calls := h.calls

theorem setBehavior_left (h : b.Tied place g env g' env') {a : Nat} (ha : place a = none)
    {k : Option κ} (hk : ∀ k', k = some k' → b.theirs k') :
    b.Tied place (g.modify a fun c => { c with behavior := k }) env g' env' := by
  apply h.modify_left ha
  · intro c
    rfl
  · intro c k' hk'
    exact .inr (hk k' hk')

theorem markAtEnd_left (h : b.Tied place g env g' env') {a : Nat} (ha : place a = none)
    (index : Nat) :
    b.Tied place (g.modify a (·.modifyPort index fun p => { p with atEnd := true })) env g' env' := by
  apply h.modify_left ha
  · intro c
    refine Component.outline_modifyPort (fun p => ?_) c index
    rfl
  · intro c k hk
    exact .inl hk

theorem record_left (h : b.Tied place g env g' env') {a : Nat} (ha : place a = none) (call : Call) :
    b.Tied place g (env.record (.call g.id a call)) g' env' where
  mirrors := h.mirrors
  parts := h.parts
  ours := h.ours
  theirs := h.theirs
  shared := h.shared
  cancelled := h.cancelled
  calls := by
    simp only [Env.record_journal, Journal.services_record_call, List.filterMap_append, h.calls]
    split <;> simp [Placement.lift, ha]

theorem refuse_left (h : b.Tied place g env g' env') (f : Fault) :
    b.Tied place g (env.record (.refused g.id f)) g' env' where
  mirrors := h.mirrors
  parts := h.parts
  ours := h.ours
  theirs := h.theirs
  shared := h.shared
  cancelled := h.cancelled
  calls := by simpa using h.calls

theorem perform_left (h : b.Tied place g env g' env') {x : Act ω α} {fair : α → Prop}
    (hx : x.Aloof b.view fair) :
    fair (env.perform x).1 ∧ b.Tied place g (env.perform x).2 g' env' := by
  obtain ⟨hfair, hshared⟩ := hx env.shared
  refine ⟨hfair, h.mirrors, h.parts, h.ours, h.theirs, hshared.trans h.shared, ?_, h.calls⟩
  intro hcancelled
  have hold := h.cancelled hcancelled
  simp only [Env.isCancelled, Env.perform, List.contains_append, Bool.or_eq_true] at hold ⊢
  exact .inr hold

end Border.Tied

/-! ## Pulls of the part -/

/-- Two turns in tandem. -/
structure Border.Turns (b : Border κ ω σ) (place : Placement) (t t' : Turn κ ω) : Prop where
  tied : b.Tied place t.graph t.env t'.graph t'.env
  failure : t.failure.isSome = t'.failure.isSome

/-- Two requests in tandem come to the same. -/
structure Border.Answers (b : Border κ ω σ) (place : Placement) (fair : α → Prop)
    (x x' : Answer κ ω α) : Prop where
  result : x.result = x'.result
  fair : ∀ r, x.result = some r → fair r
  turns : b.Turns place x.turn x'.turn

/-- Filters of the part are brought to answer alike. -/
def Border.Converses (b : Border κ ω σ) (place : Placement) (converse : Converse κ ω) : Prop :=
  ∀ {a i : ComponentId} (port : String) {k : κ} {t t' : Turn κ ω}, place a = some i → b.ours k →
    b.Turns place t t' → b.Answers place (b.ours ·.2) (converse a port k t) (converse i port k t')

namespace Border

variable {b : Border κ ω σ} {place : Placement} {t t' : Turn κ ω} {fair : α → Prop}
  {fair' : β → Prop}

theorem Answers.pure {r : α} (ht : b.Turns place t t') (hr : fair r) :
    b.Answers place fair ⟨some r, t⟩ ⟨some r, t'⟩ where
  result := rfl
  fair := by
    rintro _ ⟨⟩
    exact hr
  turns := ht

theorem Answers.andThen {x x' : Answer κ ω α} {next next' : α → Turn κ ω → Answer κ ω β}
    (hx : b.Answers place fair x x')
    (hnext : ∀ r t t', fair r → b.Turns place t t' → b.Answers place fair' (next r t) (next' r t')) :
    b.Answers place fair' (x.andThen next) (x'.andThen next') := by
  obtain ⟨result, t⟩ := x
  obtain ⟨result', t'⟩ := x'
  obtain ⟨hresult, hfair, hturns⟩ := hx
  obtain rfl : result = result' := hresult
  cases result with
  | none => exact ⟨rfl, fun _ hr => (nomatch hr), hturns⟩
  | some r => exact hnext r t t' (hfair r rfl) hturns

theorem Turns.refuse (ht : b.Turns place t t') (f : Fault) :
    b.Turns place (t.refuse f) (t'.refuse f) :=
  ⟨ht.tied.refuse f, ht.failure⟩

theorem Turns.latch (ht : b.Turns place t t') {a i : Nat} (ha : place a = some i) (index : Nat)
    (answer : Except Fault Pull) :
    b.Turns place (t.latch a index answer) (t'.latch i index answer) := by
  match answer with
  | .ok .endOfStream => exact ⟨ht.tied.markAtEnd ha index, ht.failure⟩
  | .ok .again => exact ht
  | .ok (.message m) => exact ht
  | .error f => exact ht

theorem Turns.ask (ht : b.Turns place t t') {a i : Nat} (ha : place a = some i) (port : String) :
    b.Turns place (t.ask a port) (t'.ask i port) := by
  have htaken := ht.tied.setBehavior (k := none) ha nofun
  exact ⟨htaken.record ha (.asked port), ht.failure⟩

theorem Turns.accept (ht : b.Turns place t t') {a i : Nat} (ha : place a = some i) (port : String)
    (answer : Except Fault Pull) {k : κ} (hk : b.ours k) :
    b.Answers place (fun _ => True) (accept a port answer k t) (accept i port answer k t') := by
  have htied : b.Tied place (t.setBehavior a (some k)).graph
      ((t.setBehavior a (some k)).record a (.answered port answer)).env
      (t'.setBehavior i (some k)).graph
      ((t'.setBehavior i (some k)).record i (.answered port answer)).env := by
    refine (ht.tied.setBehavior ha ?_).record ha _
    rintro _ ⟨⟩
    exact hk
  cases answer with
  | ok pulled => exact .pure ⟨htied, ht.failure⟩ trivial
  | error cause =>
    refine .pure ⟨htied, ?_⟩ trivial
    have hfailure := ht.failure
    simp only [Turn.blame, Turn.record, Turn.setBehavior, Option.isSome_or, hfailure]
    rfl

section Pulls

variable [Behavior κ ω] {converse : Converse κ ω}

theorem Private.produce (h : b.Private) (hc : b.Converses place converse) {a i : Nat}
    (ha : place a = some i) (kind : Kind) (port : String) {k : κ} (hk : b.ours k)
    (ht : b.Turns place t t') :
    b.Answers place (b.ours ·.2) (produce converse kind a port k t)
      (produce converse kind i port k t') := by
  cases kind with
  | source =>
    obtain ⟨hvalue, hfair, htied⟩ := ht.tied.perform (h.emit port k hk)
    refine ⟨congrArg some hvalue, ?_, htied, ht.failure⟩
    rintro _ ⟨⟩
    exact hfair
  | filter => exact hc port ha hk ht
  | sink => exact .pure (ht.refuse _) hk

/-- A component of the part is asked in both graphs. -/
theorem Private.pullOutput (h : b.Private) (hc : b.Converses place converse) {a i : Nat}
    (ha : place a = some i) (index : Nat) (ht : b.Turns place t t') :
    b.Answers place (fun _ => True) (pullOutput converse a index t)
      (pullOutput converse i index t') := by
  have hbare := ht.tied.parts ha
  have hport := Graph.portAt?_of_bare? hbare index
  have hours : ∀ {c : Component κ} {k : κ}, t.graph.components[a]? = some c → c.behavior = some k →
      b.ours k :=
    fun hcomponent hk => ht.tied.ours ha (Graph.behaviors_eq_some.mpr ⟨_, hcomponent, hk⟩)
  unfold PullGraph.pullOutput
  rw [Graph.bare?, Graph.bare?] at hbare
  -- the same component stands at both positions, with the same ports, or none does
  cases hcomponent : t.graph.components[a]? with
  | none =>
    rw [hcomponent] at hbare
    rw [Option.map_eq_none_iff.mp hbare.symm]
    exact .pure (ht.refuse _) trivial
  | some c =>
    rw [hcomponent] at hbare
    obtain ⟨c', hcomponent', hsame⟩ := Option.map_eq_some_iff.mp hbare.symm
    rw [hcomponent']
    cases hp : t.graph.portAt? a index with
    | none =>
      rw [hp] at hport
      rw [Option.map_eq_none_iff.mp hport.symm]
      exact .pure (ht.refuse _) trivial
    | some p =>
      rw [hp] at hport
      obtain ⟨p', hp', hbareport⟩ := Option.map_eq_some_iff.mp hport.symm
      rw [hp']
      obtain ⟨hname, -⟩ := Port.eq_of_bare_eq hbareport
      obtain ⟨hname', hcls, hbehavior⟩ := Component.eq_of_bare_eq hsame
      have hkind : c'.kind = c.kind := congrArg ComponentClass.kind hcls
      dsimp only
      rw [hbehavior, hname, hname', hkind]
      cases hk : c.behavior with
      | none => exact .pure (ht.refuse _) trivial
      | some k =>
        refine (h.produce hc ha c.kind p.name (hours hcomponent hk) (ht.ask ha p.name)).andThen ?_
        rintro ⟨answer, k'⟩ t₁ t₁' hk' ht₁
        exact ht₁.accept ha p.name answer hk'

/-- An input port of the part is pulled in both graphs. -/
theorem Private.pullInput (h : b.Private) (hc : b.Converses place converse) {a i : Nat}
    (ha : place a = some i) (index : Nat) (ht : b.Turns place t t') :
    b.Answers place (fun _ => True) (pullInput converse a index t)
      (pullInput converse i index t') := by
  have hport := Graph.portAt?_of_bare? (ht.tied.parts ha) index
  unfold PullGraph.pullInput
  cases hp : t.graph.portAt? a index with
  | none =>
    rw [hp] at hport
    rw [Option.map_eq_none_iff.mp hport.symm]
    exact .pure (ht.refuse _) trivial
  | some p =>
    rw [hp] at hport
    obtain ⟨p', hp', hbareport⟩ := Option.map_eq_some_iff.mp hport.symm
    rw [hp']
    obtain ⟨hname, hend⟩ := Port.eq_of_bare_eq hbareport
    have hfeeder := ht.tied.mirrors.feeders ha index
    rw [Graph.topology_feeder? hp, Graph.topology_feeder? hp'] at hfeeder
    dsimp only
    rw [hend, hname]
    split
    · exact .pure ht trivial
    · cases hconn : t.graph.connectionOf? p with
      | none =>
        rw [hconn] at hfeeder
        rw [Option.map_eq_none_iff.mp hfeeder]
        exact .pure (ht.refuse _) trivial
      | some conn =>
        -- what feeds the port is of the part too, and feeds it in both graphs
        have hsevered := ht.tied.mirrors.severed
          ((Graph.topology_feeder? hp).trans (congrArg (Option.map _) hconn))
        rw [ha] at hsevered
        obtain ⟨i', hi'⟩ := Option.isSome_iff_exists.mp hsevered
        rw [hconn] at hfeeder
        have hlift : place.lift (conn.output.component, conn.output.index) =
            some (i', conn.output.index) := by simp [Placement.lift, hi']
        obtain ⟨conn', hconn', hsame⟩ := Option.map_eq_some_iff.mp (hfeeder.trans hlift)
        obtain ⟨hcomponent, hindex⟩ := Prod.mk.inj hsame
        rw [hconn']
        dsimp only
        rw [hcomponent, hindex]
        refine (h.pullOutput hc hi' conn.output.index ht).andThen fun answer t₁ t₁' _ ht₁ => ?_
        exact .pure (ht₁.latch ha index answer) trivial

theorem Private.pullNamed (h : b.Private) (hc : b.Converses place converse) {a i : Nat}
    (ha : place a = some i) (port : String) (ht : b.Turns place t t') :
    b.Answers place (fun _ => True) (pullNamed converse a port t)
      (pullNamed converse i port t') := by
  unfold PullGraph.pullNamed
  rw [Graph.portIndex?_of_bare? (ht.tied.parts ha)]
  cases t'.graph.components[i]?.bind (·.portIndex? port .input) with
  | none => exact .pure ht trivial
  | some index => exact h.pullInput hc ha index ht

theorem Private.pullBatch (h : b.Private) (hc : b.Converses place converse) {a i : Nat}
    (ha : place a = some i) (port : String) (max : Nat) (ht : b.Turns place t t') :
    b.Answers place (fun _ => True) (pullBatch converse a port max t)
      (pullBatch converse i port max t') := by
  induction max generalizing t t' with
  | zero => exact .pure ht trivial
  | succ max ih =>
    unfold PullGraph.pullBatch
    refine (h.pullNamed hc ha port ht).andThen fun r t₁ t₁' _ ht₁ => ?_
    match r with
    | .error f => exact .pure ht₁ trivial
    | .ok .again => exact .pure ht₁ trivial
    | .ok .endOfStream => exact .pure ht₁ trivial
    | .ok (.message m) =>
      refine (ih ht₁).andThen fun rest t₂ t₂' _ ht₂ => ?_
      exact .pure ht₂ trivial

/-- Dialogues that are alike are led to the same end. The induction is on the one in the whole
graph, since at its own number it is alike to two. -/
theorem Private.play (h : b.Private) (hc : b.Converses place converse) {a i : Nat}
    (ha : place a = some i) {d d' : Dialogue κ ω} (hd : d.Alike b d')
    (hplaceless : d.Placeless b place) (ht : b.Turns place t t') :
    b.Answers place (b.ours ·.next) (d.play converse a t) (d'.play converse i t') := by
  induction d generalizing d' t t' with
  | reply answer k =>
    cases hd with
    | reply _ hk => exact .pure ht hk
  | retry k =>
    cases hd with
    | retry hk => exact .pure ht hk
  | pull port f ih =>
    cases hd with
    | pull _ hnext =>
      refine (h.pullNamed hc ha port ht).andThen fun r _ _ _ ht₁ => ?_
      exact ih r (hnext r) (hplaceless r) ht₁
  | batch port max f ih =>
    cases hd with
    | batch _ _ hnext =>
      refine (h.pullBatch hc ha port max ht).andThen fun r _ _ _ ht₁ => ?_
      exact ih r (hnext r) (hplaceless r) ht₁
  | atEnd port f ih =>
    cases hd with
    | atEnd _ hnext =>
      unfold Dialogue.play
      rw [isAtEnd_of_bare? (ht.tied.parts ha)]
      exact ih _ (hnext _) (hplaceless _) ht
  | inputs f ih =>
    cases hd with
    | inputs hnext =>
      unfold Dialogue.play
      rw [Graph.inputNames_of_bare? (ht.tied.parts ha)]
      obtain ⟨hsame, hrest⟩ := hplaceless
      exact ih a _ ((hsame a i _ ha).trans (hnext i _)) (hrest a _) ht
  | look f ih =>
    cases hd with
    | look hnext =>
      unfold Dialogue.play
      exact ih _ (hnext _ _ ht.tied.shared) (hplaceless _) ht
  | act step d ih =>
    cases hd with
    | act hstep hnext =>
      unfold Dialogue.play
      obtain ⟨-, -, htied⟩ := ht.tied.perform hstep
      exact ih hnext hplaceless ⟨htied, ht.failure⟩

/-- **Whatever a filter of the part does, it does in both graphs.** The induction is on
patience. -/
theorem Private.converses (h : b.Private) (hplaceless : b.Placeless place) (patience : Nat) :
    b.Converses place (PullGraph.converse patience) := by
  induction patience with
  | zero =>
    intro a i port k t t' _ _ ht
    exact ⟨rfl, fun _ hr => (nomatch hr), ht⟩
  | succ patience ih =>
    intro a i port k t t' ha hk ht
    have hplay := h.play ih ha (h.answer port k hk) (hplaceless port k hk) ht
    refine hplay.andThen fun ending t₁ t₁' hnext ht₁ => ?_
    cases ending with
    | reply answer k' => exact .pure ht₁ hnext
    | retry k' => exact ih port ha hnext ht₁

end Pulls

/-! ## Pulls of the others -/

/-- A request of another component leaves the tie to the part as it was. -/
structure Spares (b : Border κ ω σ) (place : Placement) (g' : Graph κ ω) (env' : Env ω)
    (fair : α → Prop) (x : Answer κ ω α) : Prop where
  fair : ∀ r, x.result = some r → fair r
  tied : b.Tied place x.turn.graph x.turn.env g' env'

variable {g' : Graph κ ω} {env' : Env ω}

theorem Spares.pure {r : α} (ht : b.Tied place t.graph t.env g' env') (hr : fair r) :
    b.Spares place g' env' fair ⟨some r, t⟩ where
  fair := by
    rintro _ ⟨⟩
    exact hr
  tied := ht

theorem Spares.andThen {x : Answer κ ω α} {next : α → Turn κ ω → Answer κ ω β}
    (hx : b.Spares place g' env' fair x)
    (hnext : ∀ r t, fair r → b.Tied place t.graph t.env g' env' →
      b.Spares place g' env' fair' (next r t)) : b.Spares place g' env' fair' (x.andThen next) := by
  obtain ⟨result, t⟩ := x
  cases result with
  | none => exact ⟨fun _ hr => (nomatch hr), hx.tied⟩
  | some r => exact hnext r t (hx.fair r rfl) hx.tied

/-- Another component has answered, and another component learns of it. -/
theorem Tied.settle_left (ht : b.Tied place t.graph t.env g' env') {id a : Nat}
    (hid : place id = none) (ha : place a = none) (index : Nat) (port : String)
    (answer : Except Fault Pull) {k : κ} (hk : b.theirs k) :
    b.Tied place (t.settle id index a port answer k).graph
      (t.settle id index a port answer k).env g' env' := by
  have hback := ht.setBehavior_left (k := some k) ha (by rintro _ ⟨⟩; exact hk)
  have hanswered := hback.record_left ha (.answered port answer)
  match answer with
  | .ok .endOfStream => exact hanswered.markAtEnd_left hid index
  | .ok .again => exact hanswered
  | .ok (.message m) => exact hanswered
  | .error cause => exact hanswered

section Pulls

variable [Behavior κ ω] {converse : Converse κ ω}

/-- The other filters leave the tie as it is when they are brought to answer. -/
def Sidesteps (b : Border κ ω σ) (place : Placement) (g' : Graph κ ω) (env' : Env ω)
    (converse : Converse κ ω) : Prop :=
  ∀ {a : ComponentId} (port : String) {k : κ} {t : Turn κ ω}, place a = none → b.theirs k →
    b.Tied place t.graph t.env g' env' →
    b.Spares place g' env' (b.theirs ·.2) (converse a port k t)

theorem Aloof.produce (h : b.Aloof) (hc : b.Sidesteps place g' env' converse) {a : Nat}
    (ha : place a = none) (kind : Kind) (port : String) {k : κ} (hk : b.theirs k)
    (ht : b.Tied place t.graph t.env g' env') :
    b.Spares place g' env' (b.theirs ·.2) (produce converse kind a port k t) := by
  cases kind with
  | source =>
    obtain ⟨hfair, htied⟩ := ht.perform_left (h.emit port k hk)
    refine ⟨?_, htied⟩
    rintro _ ⟨⟩
    exact hfair
  | filter => exact hc port ha hk ht
  | sink => exact .pure (ht.refuse_left _) hk

/-- An input port of another component is pulled. -/
theorem Aloof.pullInput (h : b.Aloof) (hc : b.Sidesteps place g' env' converse) {id : Nat}
    (hid : place id = none) (index : Nat) (ht : b.Tied place t.graph t.env g' env') :
    b.Spares place g' env' (fun _ => True) (pullInput converse id index t) := by
  -- what feeds the port is not of the part either
  have houtside : ∀ {p out conn c k}, t.Asks id index p conn c out k →
      place conn.output.component = none := by
    intro p out conn c k hasks
    have hsevered := ht.mirrors.severed
      ((Graph.topology_feeder? hasks.port).trans (congrArg (Option.map _) hasks.connection))
    rw [hid] at hsevered
    exact Option.isNone_iff_eq_none.mp (Option.isSome_eq_false_iff.mp hsevered)
  have hasked : ∀ {p out conn c k}, t.Asks id index p conn c out k →
      b.Spares place g' env' (b.theirs ·.2) (PullGraph.produce converse c.kind
        conn.output.component out.name k (t.ask conn.output.component out.name)) := by
    intro p out conn c k hasks
    have ha := houtside hasks
    have hk := ht.theirs ha (Graph.behaviors_eq_some.mpr ⟨c, hasks.component, hasks.inPlace⟩)
    have htaken := ht.setBehavior_left (k := none) ha nofun
    exact h.produce hc ha c.kind out.name hk (htaken.record_left ha (.asked out.name))
  have hpulled := pullInput_pulled converse id index t
  generalize PullGraph.pullInput converse id index t = x at hpulled ⊢
  cases hpulled with
  | atEnd => exact .pure ht trivial
  | refused fault => exact .pure (ht.refuse_left fault) trivial
  | unanswered hasks hproduced =>
    have hspares := hasked hasks
    rw [hproduced] at hspares
    exact ⟨fun _ _ => trivial, hspares.tied⟩
  | @answered p out conn c k k' t' answer hasks hproduced =>
    have hspares := hasked hasks
    rw [hproduced] at hspares
    have hk' := hspares.fair (answer, k') rfl
    exact .pure (hspares.tied.settle_left hid (houtside hasks) index out.name answer hk') trivial

theorem Aloof.pullNamed (h : b.Aloof) (hc : b.Sidesteps place g' env' converse) {id : Nat}
    (hid : place id = none) (port : String) (ht : b.Tied place t.graph t.env g' env') :
    b.Spares place g' env' (fun _ => True) (pullNamed converse id port t) := by
  unfold PullGraph.pullNamed
  split
  · exact .pure ht trivial
  · exact h.pullInput hc hid _ ht

theorem Aloof.pullBatch (h : b.Aloof) (hc : b.Sidesteps place g' env' converse) {id : Nat}
    (hid : place id = none) (port : String) (max : Nat)
    (ht : b.Tied place t.graph t.env g' env') :
    b.Spares place g' env' (fun _ => True) (pullBatch converse id port max t) := by
  induction max generalizing t with
  | zero => exact .pure ht trivial
  | succ max ih =>
    unfold PullGraph.pullBatch
    refine (h.pullNamed hc hid port ht).andThen fun r t₁ _ ht₁ => ?_
    match r with
    | .error f => exact .pure ht₁ trivial
    | .ok .again => exact .pure ht₁ trivial
    | .ok .endOfStream => exact .pure ht₁ trivial
    | .ok (.message m) =>
      refine (ih ht₁).andThen fun rest t₂ _ ht₂ => ?_
      exact .pure ht₂ trivial

theorem Aloof.play (h : b.Aloof) (hc : b.Sidesteps place g' env' converse) {id : Nat}
    (hid : place id = none) {d : Dialogue κ ω} (hd : d.Aloof b)
    (ht : b.Tied place t.graph t.env g' env') :
    b.Spares place g' env' (b.theirs ·.next) (d.play converse id t) := by
  induction d generalizing t with
  | reply answer k => exact .pure ht hd
  | retry k => exact .pure ht hd
  | pull port next ih =>
    exact (h.pullNamed hc hid port ht).andThen fun r _ _ ht₁ => ih r (hd r) ht₁
  | batch port max next ih =>
    exact (h.pullBatch hc hid port max ht).andThen fun r _ _ ht₁ => ih r (hd r) ht₁
  | atEnd port next ih => exact ih _ (hd _) ht
  | inputs next ih => exact ih _ _ (hd _ _) ht
  | look next ih => exact ih _ (hd _) ht
  | act step next ih => exact ih hd.2 (ht.perform_left hd.1).2

/-- **Whatever the other filters do, the part does not notice.** The induction is on
patience. -/
theorem Aloof.sidesteps (h : b.Aloof) (patience : Nat) :
    b.Sidesteps place g' env' (PullGraph.converse patience) := by
  induction patience with
  | zero =>
    intro a port k t _ _ ht
    exact ⟨fun _ hr => (nomatch hr), ht⟩
  | succ patience ih =>
    intro a port k t ha hk ht
    refine (h.play ih ha (h.answer port k hk) ht).andThen fun ending t₁ hnext ht₁ => ?_
    cases ending with
    | reply answer k' => exact .pure ht₁ hnext
    | retry k' => exact ih port ha hnext ht₁

end Pulls
end Border

end PullGraph
