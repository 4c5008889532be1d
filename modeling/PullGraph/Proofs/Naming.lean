import PullGraph.Proofs.Connecting
import PullGraph.Proofs.Diagnosis

/-! # Ports by name

A port is told by its handle, or by the name of its component, its own and its direction. Names
are looked up from the front, so they lead to the first component and to the first port that
fit. In a graph that was built by requests no other fits (`lookUp_eq_ok_iff`), even where an
input and an output of a component share a name. Connecting by names is therefore connecting
by the handles that the names stand for, and names are unknown only if they stand for nothing.
-/
namespace PullGraph

variable {κ ω : Type}

namespace Graph

variable {g : Graph κ ω} {component port : String} {d : Direction} {p : PortHandle}

/-- The handle is that of a port in direction `d` with the name `port`, of a component with the
name `component`. -/
def Called (g : Graph κ ω) (component port : String) (d : Direction) (p : PortHandle) : Prop :=
  ∃ c ∈ g.components, ∃ x : Port, c.handleAt? p.index = some p ∧ c.ports[p.index]? = some x ∧
    c.name = component ∧ x.name = port ∧ x.direction = d

/-- The handle of a port says where the port is. -/
theorem handleAt?_of_wired (hw : g.topology.Wired) {c : Component κ} (hc : c ∈ g.components)
    {j : Nat} {x : Port} (hx : c.ports[j]? = some x) :
    c.handleAt? j = some ⟨g.id, c.id, j, x.direction⟩ := by
  obtain ⟨i, hi⟩ := List.mem_iff_getElem?.mp hc
  obtain ⟨-, hgraph⟩ := (consistent_of_wired hw).positions i c hi
  rw [Component.handleAt?, hx, hgraph]
  rfl

/-- The handle of a port resolves to the port. -/
theorem resolve_handle (hw : g.topology.Wired) {c : Component κ} (hc : c ∈ g.components)
    {j : Nat} {x : Port} (hx : c.ports[j]? = some x) :
    g.resolve ⟨g.id, c.id, j, x.direction⟩ = .ok (c, x) := by
  obtain ⟨i, hi⟩ := List.mem_iff_getElem?.mp hc
  obtain ⟨rfl, -⟩ := (consistent_of_wired hw).positions i c hi
  have hat : g.portAt? c.id j = some x := by
    rw [portAt?, hi]
    exact hx
  obtain ⟨c', hc', hresolve⟩ := resolve_of_portAt? (p := ⟨g.id, c.id, j, x.direction⟩) rfl hat
  obtain rfl := Option.some.inj (hi.symm.trans hc')
  exact hresolve

/-- **Names lead to the port that has them.** -/
theorem lookUp_eq_ok_iff (hw : g.topology.Wired) :
    g.lookUp component port d = .ok p ↔ g.Called component port d p := by
  constructor
  · intro h
    unfold lookUp at h
    split at h
    · rename_i p' hfound
      obtain rfl : p' = p := Except.ok.inj h
      obtain ⟨c, hc, hhandle⟩ := Option.bind_eq_some_iff.mp hfound
      obtain ⟨j, hj, hat⟩ := Option.bind_eq_some_iff.mp hhandle
      obtain ⟨hmem, hname⟩ := (find?_eq_some_iff hw).mp hc
      obtain ⟨x, hx, hd, hport⟩ := Component.getElem?_of_portIndex? hj
      have hindex : p'.index = j := by
        rw [Component.handleAt?, hx] at hat
        exact congrArg PortHandle.index (Option.some.inj hat).symm
      subst hindex
      exact ⟨c, List.mem_of_getElem? hmem, x, hat, hx, hname, hport, hd⟩
    · cases h
  · rintro ⟨c, hc, x, hat, hx, rfl, rfl, rfl⟩
    obtain ⟨i, hi⟩ := List.mem_iff_getElem?.mp hc
    obtain ⟨rfl, -⟩ := (consistent_of_wired hw).positions i c hi
    have hfind : g.find? c.name = some c := (find?_eq_some_iff hw).mpr ⟨hi, rfl⟩
    have hindex : c.portIndex? x.name x.direction = some p.index := portIndex?_eq_some hw hc hx
    have hhandle : c.handle? x.name x.direction = some p := by
      rw [Component.handle?, hindex]
      exact hat
    rw [lookUp, hfind, Option.bind_some, hhandle]

/-- Names are unknown iff no port has them. -/
theorem lookUp_eq_error_iff (hw : g.topology.Wired) {e : ConnectError} :
    g.lookUp component port d = .error e ↔
      e = .unknownPort component port ∧ ¬ ∃ p, g.Called component port d p := by
  constructor
  · intro h
    refine ⟨?_, ?_⟩
    · unfold lookUp at h
      split at h
      · cases h
      · exact (Except.error.inj h).symm
    · rintro ⟨p, hp⟩
      rw [(lookUp_eq_ok_iff hw).mpr hp] at h
      cases h
  · rintro ⟨rfl, hnone⟩
    unfold lookUp
    split
    · rename_i p hfound
      refine absurd ⟨p, (lookUp_eq_ok_iff hw).mp ?_⟩ hnone
      rw [lookUp, hfound]
    · rfl

/-! ## Connecting by names -/

variable {giver output taker input : String} {a b : PortHandle}

theorem link_of_called (hw : g.topology.Wired) (env : Env ω) (ha : g.Called giver output .output a)
    (hb : g.Called taker input .input b) :
    g.link giver output taker input env = g.connect a b env := by
  rw [link, (lookUp_eq_ok_iff hw).mpr ha, (lookUp_eq_ok_iff hw).mpr hb]

/-- What connecting by names does: the names of the output are looked up before those of the
input. -/
theorem link_named (hw : g.topology.Wired) (giver output taker input : String) (env : Env ω) :
    (¬ ∃ a, g.Called giver output .output a) ∧
      g.link giver output taker input env = ⟨.error (.unknownPort giver output), g, env⟩ ∨
    (∃ a, g.Called giver output .output a) ∧ (¬ ∃ b, g.Called taker input .input b) ∧
      g.link giver output taker input env = ⟨.error (.unknownPort taker input), g, env⟩ ∨
    ∃ a b, g.Called giver output .output a ∧ g.Called taker input .input b ∧
      g.link giver output taker input env = g.connect a b env := by
  by_cases hgiver : ∃ a, g.Called giver output .output a
  · refine .inr ?_
    obtain ⟨a, ha⟩ := hgiver
    by_cases htaker : ∃ b, g.Called taker input .input b
    · obtain ⟨b, hb⟩ := htaker
      exact .inr ⟨a, b, ha, hb, link_of_called hw env ha hb⟩
    · refine .inl ⟨⟨a, ha⟩, htaker, ?_⟩
      rw [link, (lookUp_eq_ok_iff hw).mpr ha, (lookUp_eq_error_iff hw).mpr ⟨rfl, htaker⟩]
  · refine .inl ⟨hgiver, ?_⟩
    rw [link, (lookUp_eq_error_iff hw).mpr ⟨rfl, hgiver⟩]

theorem Called.offers (hw : g.topology.Wired) (h : g.Called component port d p)
    (hp : p.graph = g.id) : g.topology.Offers p := by
  obtain ⟨c, hc, -, hat, -⟩ := h
  exact Issued.offers hw (fun _ => ⟨c, hc, hat⟩) hp

end Graph

section

variable [Behavior κ ω] {g : Graph κ ω} {env : Env ω} {added : List ComponentId}

/-- **Connecting by names is connecting by handles.** The names of a component and of a port of
it, with the direction, lead to the handle of this port. Two ports that are given by names are
unknown iff there is no such output, which is then reported, or else no such input, which is
reported then; this leaves everything as it was. In every other case the result and what it
leaves behind are those of connecting the two ports by their handles. -/
theorem Lifetime.link_by_handles (h : Lifetime added g env) :
    (∀ c ∈ g.components, ∀ (j : Nat) (x : Port), c.ports[j]? = some x →
      c.handleAt? j = some ⟨g.id, c.id, j, x.direction⟩ ∧
      g.lookUp c.name x.name x.direction = .ok ⟨g.id, c.id, j, x.direction⟩ ∧
      g.resolve ⟨g.id, c.id, j, x.direction⟩ = .ok (c, x)) ∧
    ∀ giver output taker input,
      (∀ component port,
        (g.link giver output taker input env).result = .error (.unknownPort component port) ↔
          (¬ ∃ a, g.Called giver output .output a) ∧ component = giver ∧ port = output ∨
          (∃ a, g.Called giver output .output a) ∧ (¬ ∃ b, g.Called taker input .input b) ∧
            component = taker ∧ port = input) ∧
      (∀ component port,
        (g.link giver output taker input env).result = .error (.unknownPort component port) →
          (g.link giver output taker input env).graph = g ∧
          (g.link giver output taker input env).env = env) ∧
      ∀ a b, g.Called giver output .output a → g.Called taker input .input b →
        g.link giver output taker input env = g.connect a b env := by
  have hw := h.sane.wired
  refine ⟨fun c hc j x hx => ?_, fun giver output taker input => ?_⟩
  · have hhandle := Graph.handleAt?_of_wired hw hc hx
    exact ⟨hhandle, (Graph.lookUp_eq_ok_iff hw).mpr ⟨c, hc, x, hhandle, hx, rfl, rfl, rfl⟩,
      Graph.resolve_handle hw hc hx⟩
  refine ⟨fun component port => ?unknown, fun component port hresult => ?unchanged,
    fun a b => Graph.link_of_called hw env⟩
  case unknown =>
    rcases g.link_named hw giver output taker input env with
      ⟨ha, hlink⟩ | ⟨ha, hb, hlink⟩ | ⟨a, b, ha, hb, hlink⟩
    · rw [hlink]
      simp [ha, eq_comm]
    · rw [hlink]
      simp [ha, hb, eq_comm]
    · have hknown := Graph.connect_ne_unknownPort (ha.offers hw) (hb.offers hw) env component port
      have hgiver : ∃ a, g.Called giver output .output a := ⟨a, ha⟩
      have htaker : ∃ b, g.Called taker input .input b := ⟨b, hb⟩
      rw [hlink]
      simp [hknown, hgiver, htaker]
  case unchanged =>
    rcases g.link_named hw giver output taker input env with
      ⟨-, hlink⟩ | ⟨-, -, hlink⟩ | ⟨a, b, ha, hb, hlink⟩
    · exact ⟨congrArg After.graph hlink, congrArg After.env hlink⟩
    · exact ⟨congrArg After.graph hlink, congrArg After.env hlink⟩
    · rw [hlink] at hresult
      exact absurd hresult
        (Graph.connect_ne_unknownPort (ha.offers hw) (hb.offers hw) env component port)

end

/-- The requests for a giver, a filter whose two ports have one name, and a taker. -/
def namesakesRequests : List (Request (Standard (List Message)) (List Message)) :=
  [.add (Standard.itemsClass "letters" [.int 1]) "giver" .nil,
    .add { Standard.passthroughClass with ports := [⟨"data", .output⟩, ⟨"data", .input⟩] } "middle"
      .nil,
    .add Standard.discardClass "taker" .nil]

/-- The graph that these requests build. -/
def namesakes : Graph (Standard (List Message)) (List Message) × Env (List Message) :=
  Graph.build "namesakes" .standard [] namesakesRequests

theorem namesakes_lifetime : Lifetime [0, 1, 2] namesakes.1 namesakes.2 := by
  refine .built (rfl : namesakes = Graph.build _ _ _ namesakesRequests) ?_
  simp [namesakesRequests, Request.runs, Request.Fits]

/-- The name that the filter's ports share leads to the input on one side of a connection and to
the output on the other. -/
theorem namesakes_link :
    Lifetime [0, 1, 2] namesakes.1 namesakes.2 ∧
      namesakes.1.lookUp "middle" "data" .input = .ok ⟨1, 1, 1, .input⟩ ∧
      namesakes.1.lookUp "middle" "data" .output = .ok ⟨1, 1, 0, .output⟩ ∧
      namesakes.1.link "middle" "data" "taker" "in" namesakes.2 =
        namesakes.1.connect ⟨1, 1, 0, .output⟩ ⟨1, 2, 0, .input⟩ namesakes.2 ∧
      (namesakes.1.link "taker" "in" "middle" "data" namesakes.2).result =
        .error (.unknownPort "taker" "in") ∧
      (namesakes.1.link "taker" "in" "middle" "data" namesakes.2).graph = namesakes.1 := by
  obtain ⟨hports, hlink⟩ := namesakes_lifetime.link_by_handles
  have hwired := hlink "middle" "data" "taker" "in"
  have hunknown := hlink "taker" "in" "middle" "data"
  refine ⟨namesakes_lifetime, (hports _ (List.mem_of_getElem? (i := 1) rfl) 1 _ rfl).2.1,
    (hports _ (List.mem_of_getElem? (i := 1) rfl) 0 _ rfl).2.1, ?_, rfl,
    (hunknown.2.1 "taker" "in" rfl).1⟩
  exact hwired.2.2 _ _
    ⟨_, List.mem_of_getElem? (i := 1) rfl, _, rfl, rfl, rfl, rfl, rfl⟩
    ⟨_, List.mem_of_getElem? (i := 2) rfl, _, rfl, rfl, rfl, rfl, rfl⟩

/-! ## Frozen graphs

To add a component and to connect ports by their handles is refused before anything else is
looked at. To connect them by names is not: the names have to be looked up first, and if they
stand for nothing that is what is told.
-/

section

variable [Behavior κ ω] {g : Graph κ ω} {env : Env ω} {added : List ComponentId}

/-- **A frozen graph refuses whatever would change it**, and tells that it is frozen, except that
names which stand for no port are told first, those of the output before those of the input. -/
theorem Lifetime.refused_as_frozen (h : Lifetime added g env) (hfrozen : g.state ≠ .configuring) :
    (∀ cls name settings, (g.add cls name settings env).result = .error (.frozen g.name)) ∧
    (∀ a b, (g.connect a b env).result = .error (.frozen g.name)) ∧
    ∀ giver output taker input,
      ((g.link giver output taker input env).result = .error (.frozen g.name) ↔
        (∃ a, g.Called giver output .output a) ∧ ∃ b, g.Called taker input .input b) ∧
      ((¬ ∃ a, g.Called giver output .output a) →
        (g.link giver output taker input env).result = .error (.unknownPort giver output)) ∧
      ((∃ a, g.Called giver output .output a) → (¬ ∃ b, g.Called taker input .input b) →
        (g.link giver output taker input env).result = .error (.unknownPort taker input)) := by
  refine ⟨fun cls name settings => ?add, fun a b => ?connect, fun giver output taker input => ?link⟩
  case add => rw [Graph.add_frozen hfrozen]
  case connect => rw [Graph.connect_frozen hfrozen]
  case link =>
    rcases g.link_named h.sane.wired giver output taker input env with
      ⟨hgiver, hlink⟩ | ⟨hgiver, htaker, hlink⟩ | ⟨a, b, ha, hb, hlink⟩
    · rw [hlink]
      simp [hgiver]
    · rw [hlink]
      simp [hgiver, htaker]
    · have hgiver : ∃ a, g.Called giver output .output a := ⟨a, ha⟩
      have htaker : ∃ b, g.Called taker input .input b := ⟨b, hb⟩
      rw [hlink, Graph.connect_frozen hfrozen]
      simp [hgiver, htaker]

end

/-- The pipeline after its first round. -/
def flowing : After (Standard (List Message)) (List Message) Bool :=
  (Request.runOnce 5).perform pipeline.1 pipeline.2

theorem flowing_lifetime : Lifetime [0, 1, 2] flowing.graph flowing.env :=
  pipeline_lifetime.call (.runOnce 5) trivial rfl

/-- After the first round of the pipeline two ports that are there are refused because it is
frozen, and a port that is not there because it is not there. -/
theorem flowing_refusals :
    Lifetime [0, 1, 2] flowing.graph flowing.env ∧ flowing.graph.state ≠ .configuring ∧
      (flowing.graph.link "giver" "out" "taker" "in" flowing.env).result =
        .error (.frozen "pipeline") ∧
      (flowing.graph.link "giver" "out" "taker" "out" flowing.env).result =
        .error (.unknownPort "taker" "out") := by
  have hfrozen : flowing.graph.state ≠ .configuring := by decide
  obtain ⟨-, -, hlink⟩ := flowing_lifetime.refused_as_frozen hfrozen
  have hgiver : ∃ a, flowing.graph.Called "giver" "out" .output a :=
    ⟨⟨1, 0, 0, .output⟩, _, List.mem_of_getElem? (i := 0) rfl, _, rfl, rfl, rfl, rfl, rfl⟩
  have htaker : ∃ b, flowing.graph.Called "taker" "in" .input b :=
    ⟨⟨1, 2, 0, .input⟩, _, List.mem_of_getElem? (i := 2) rfl, _, rfl, rfl, rfl, rfl, rfl⟩
  have hnone : ¬ ∃ b, flowing.graph.Called "taker" "out" .input b := by
    have herror : flowing.graph.lookUp "taker" "out" .input = .error (.unknownPort "taker" "out") :=
      rfl
    exact ((Graph.lookUp_eq_error_iff flowing_lifetime.sane.wired).mp herror).2
  exact ⟨flowing_lifetime, hfrozen, (hlink _ _ _ _).1.mpr ⟨hgiver, htaker⟩,
    (hlink _ _ _ _).2.2 hgiver hnone⟩

/-- So it is not refused as frozen whatever is asked of it. -/
theorem flowing_unknown_first :
    Lifetime [0, 1, 2] flowing.graph flowing.env ∧ flowing.graph.state ≠ .configuring ∧
      (flowing.graph.link "nobody" "out" "taker" "in" flowing.env).result =
        .error (.unknownPort "nobody" "out") ∧
      ¬ ∀ giver output taker input,
        (flowing.graph.link giver output taker input flowing.env).result =
          .error (.frozen flowing.graph.name) := by
  have hresult : (flowing.graph.link "nobody" "out" "taker" "in" flowing.env).result =
      .error (.unknownPort "nobody" "out") := rfl
  refine ⟨flowing_lifetime, by decide, hresult, fun hall => ?_⟩
  rw [hall] at hresult
  cases hresult

end PullGraph
