import PullGraph.Proofs.Lockstep

/-! # A graph and a part of it, built side by side

`Border.Twins` are a graph and the graph that holds only a part of its components. These are
added in the same order and connected in the same way in both, while the others come in between
as they like. Whatever the others are, twins are tied to each other when they have been built
(`Border.Twins.built`).
-/
namespace PullGraph

variable {κ ω σ : Type}

/-! ## Building two graphs in tandem -/

namespace Graph

variable {g : Graph κ ω}

theorem attach_bare (g : Graph κ ω) (p : PortHandle) (k : Nat) :
    (g.attach p k).components.map Component.bare = g.components.map Component.bare := by
  have hport : ∀ port : Port, Port.bare { port with connection := some k } = port.bare := fun _ => rfl
  refine map_modify_of_eq (fun c => ?_) g.components p.component
  simp only [Component.bare, Component.modifyPort, map_modify_of_eq hport]

/-- Connecting two ports is all about where components stand. -/
theorem bare?_join (g : Graph κ ω) (c : Connection) (a : Nat) : (g.join c).bare? a = g.bare? a := by
  have hmap : (g.join c).components.map Component.bare = g.components.map Component.bare :=
    (attach_bare _ c.input c.id).trans (g.attach_bare c.output c.id)
  rw [bare?, bare?, ← List.getElem?_map, hmap, List.getElem?_map]

theorem behaviors_join (g : Graph κ ω) (c : Connection) : (g.join c).behaviors = g.behaviors :=
  join_map (fun _ _ _ => rfl) g c

theorem bare?_push_of_lt {c : Component κ} {a : Nat} (h : a < g.components.length) :
    (g.push c).bare? a = g.bare? a := by
  rw [bare?, bare?, push, List.getElem?_append_left h]

theorem bare?_push_length (g : Graph κ ω) (c : Component κ) :
    (g.push c).bare? g.components.length = some c.bare := by
  simp [bare?, push]

theorem behaviors_push_eq_some {c : Component κ} {a : Nat} {k : κ}
    (h : (g.push c).behaviors[a]? = some (some k)) :
    g.behaviors[a]? = some (some k) ∨ a = g.components.length ∧ c.behavior = some k := by
  have hpush : (g.push c).behaviors = g.behaviors ++ [c.behavior] := by simp [behaviors, push]
  rw [hpush] at h
  rcases getElem?_concat_eq_some h with hold | ⟨ha, hk⟩
  · exact .inl hold
  · exact .inr ⟨by simpa [behaviors] using ha, hk.symm⟩

/-- All calls that serve a graph are of components that are in it. -/
def Heard (g : Graph κ ω) (env : Env ω) : Prop :=
  ∀ x ∈ env.journal.services g.id, x.1 < g.components.length

namespace Heard

variable {env env' : Env ω}

theorem note (h : g.Heard env) (n : Notice) : g.Heard (env.note n) := by
  intro x hx
  rw [Env.note, Env.record_journal, Journal.services_record_notice] at hx
  exact h x hx

theorem join (h : g.Heard env) (c : Connection) : (g.join c).Heard env := by
  intro x hx
  have hlength : (g.join c).components.length = g.components.length := by
    simpa [behaviors] using congrArg List.length (join_map (fun _ _ _ => rfl) g c :
      (g.join c).behaviors = g.behaviors)
  rw [hlength]
  exact h x hx

/-- A component is set up and added. -/
theorem push (h : g.Heard env) (name : String) (cls : ComponentClass κ) (k : κ) :
    (g.push (.fresh g.id g.components.length name cls k)).Heard
      (env.record (.call g.id g.components.length (.setUp none))) := by
  intro x hx
  have hlength : (g.push (.fresh g.id g.components.length name cls k)).components.length =
      g.components.length + 1 := by simp [Graph.push]
  change x ∈ (env.journal.record (.call g.id g.components.length (.setUp none))).services g.id at hx
  rw [Journal.services_record_call] at hx
  rw [hlength]
  rcases List.mem_append.mp hx with hold | hnew
  · exact Nat.lt_succ_of_lt (h x hold)
  · obtain rfl := List.mem_singleton.mp hnew
    exact Nat.lt_succ_self _

/-- A component could not be set up. -/
theorem botch (h : g.Heard env) (a : ComponentId) (cause : Fault) :
    g.Heard (env.record (.call g.id a (.setUp (some cause)))) := by
  intro x hx
  rw [Env.record_journal, Journal.services_record_of_not_isService rfl] at hx
  exact h x hx

end Heard

/-- What adding a component comes to that may be added. -/
theorem add_eq [Behavior κ ω] {cls : ComponentClass κ} {name : String}
    (h : g.mayAdd cls name = .ok ()) (settings : Settings) (env : Env ω) : ∃ first second third,
      let y := ((env.note first).note second).perform (Behavior.setUp settings cls.blank)
      g.add cls name settings env = match y.1.1 with
        | .error cause => ⟨.error (.setUp ⟨name, cls.name, cause⟩), g,
            y.2.record (.call g.id g.components.length (.setUp (some cause)))⟩
        | .ok () => ⟨.ok g.components.length,
            g.push (.fresh g.id g.components.length name cls y.1.2),
            (y.2.record (.call g.id g.components.length (.setUp none))).note third⟩ := by
  refine ⟨.adding g.name cls.name name, .settingUp name, .added g.name name g.components.length, ?_⟩
  generalize hrun : ((env.note (.adding g.name cls.name name)).note (.settingUp name)).perform
    (Behavior.setUp settings cls.blank) = y
  obtain ⟨⟨result, k⟩, env₁⟩ := y
  have hsetUp := setUp_create g.id g.components.length name cls settings hrun
  cases result with
  | error cause => simp only [add, h, hsetUp, Component.faultOf]
  | ok u =>
    simp only [add, h, hsetUp, Component.faultOf]
    rfl

end Graph

namespace Border

variable {b : Border κ ω σ} {place : Placement} {g g' : Graph κ ω} {env env' : Env ω}

/-- A component of the part is added to both graphs, in the same inner state. -/
theorem Tied.push (h : b.Tied place g env g' env') (hw : g.topology.Wired) (hheard : g.Heard env)
    (name : String) (cls : ComponentClass κ) {k : κ} (hk : b.ours k) :
    b.Tied (place.extend g.components.length g'.components.length)
      (g.push (.fresh g.id g.components.length name cls k)) env
      (g'.push (.fresh g'.id g'.components.length name cls k)) env' := by
  have hlength : g.topology.components.length = g.components.length := List.length_map _
  have hlength' : g'.topology.components.length = g'.components.length := List.length_map _
  have hkept : ∀ {a : Nat}, a ≠ g.components.length →
      place.extend g.components.length g'.components.length a = place a :=
    fun hne => place.extend_of_ne hne _
  have hlt : ∀ {a i : Nat}, place a = some i → a < g.components.length ∧ i < g'.components.length := by
    intro a i ha
    rw [← hlength, ← hlength']
    exact h.mirrors.lt ha
  refine ⟨?mirrors, ?parts, ?ours, ?theirs, h.shared, h.cancelled, ?calls⟩
  case mirrors =>
    rw [Graph.topology_push, Graph.topology_push, ← hlength, ← hlength']
    have hfree : ∀ (graph : GraphId) (id : ComponentId),
        ∀ s ∈ (Component.fresh graph id name cls k).outline.sockets, s.connection = none := by
      simp [Component.fresh, Component.create, Component.outline, Port.socket]
    exact h.mirrors.push hw rfl rfl rfl (hfree _ _) (hfree _ _)
  case parts =>
    intro a i ha
    by_cases hne : a = g.components.length
    · subst hne
      obtain rfl := Option.some.inj ((place.extend_self _ _).symm.trans ha)
      rw [Graph.bare?_push_length, Graph.bare?_push_length]
      rfl
    · rw [hkept hne] at ha
      obtain ⟨hold, hold'⟩ := hlt ha
      rw [Graph.bare?_push_of_lt hold, Graph.bare?_push_of_lt hold']
      exact h.parts ha
  case ours =>
    intro a i k' ha hk'
    rcases Graph.behaviors_push_eq_some hk' with hold | ⟨-, hnew⟩
    · by_cases hne : a = g.components.length
      · obtain ⟨c, hc, -⟩ := Graph.behaviors_eq_some.mp hold
        have hbound := (List.getElem?_eq_some_iff.mp hc).1
        omega
      · rw [hkept hne] at ha
        exact h.ours ha hold
    · obtain rfl := Option.some.inj hnew
      exact hk
  case theirs =>
    intro a k' ha hk'
    have hne : a ≠ g.components.length := by
      rintro rfl
      cases (place.extend_self _ _).symm.trans ha
    rcases Graph.behaviors_push_eq_some hk' with hold | ⟨heq, -⟩
    · rw [hkept hne] at ha
      exact h.theirs ha hold
    · exact absurd heq hne
  case calls =>
    -- the component has not been called before
    refine Eq.trans (List.filterMap_congr fun x hx => ?_) h.calls
    have hne := Nat.ne_of_lt (hheard x hx)
    simp only [Placement.lift, hkept hne]

/-- Another component is added. -/
theorem Tied.push_left (h : b.Tied place g env g' env') (name : String) (cls : ComponentClass κ)
    {k : κ} (hk : b.theirs k) :
    b.Tied place (g.push (.fresh g.id g.components.length name cls k)) env g' env' := by
  have hlength : g.topology.components.length = g.components.length := List.length_map _
  have hnew : place g.components.length = none := hlength ▸ h.mirrors.place_length
  refine ⟨?mirrors, ?parts, ?ours, ?theirs, h.shared, h.cancelled, h.calls⟩
  case mirrors =>
    rw [Graph.topology_push]
    refine h.mirrors.push_left hlength.symm ?_
    simp [Component.fresh, Component.create, Component.outline, Port.socket]
  case parts =>
    intro a i ha
    rw [Graph.bare?_push_of_lt (hlength ▸ (h.mirrors.lt ha).1)]
    exact h.parts ha
  case ours =>
    intro a i k' ha hk'
    rcases Graph.behaviors_push_eq_some hk' with hold | ⟨rfl, -⟩
    · exact h.ours ha hold
    · cases hnew.symm.trans ha
  case theirs =>
    intro a k' ha hk'
    rcases Graph.behaviors_push_eq_some hk' with hold | ⟨-, hfresh⟩
    · exact h.theirs ha hold
    · obtain rfl := Option.some.inj hfresh
      exact hk

/-- That a component could not be set up concerns neither graph. -/
theorem Tied.botch (h : b.Tied place g env g' env') {a i : Nat} (cause : Fault) :
    b.Tied place g (env.record (.call g.id a (.setUp (some cause)))) g'
      (env'.record (.call g'.id i (.setUp (some cause)))) := by
  refine ⟨h.mirrors, h.parts, h.ours, h.theirs, h.shared, h.cancelled, ?_⟩
  rw [Env.record_journal, Env.record_journal, Journal.services_record_of_not_isService rfl,
    Journal.services_record_of_not_isService rfl]
  exact h.calls

/-- Two ports of the part are connected in both graphs. -/
theorem Tied.join (h : b.Tied place g env g' env') {c c' : Connection}
    (hmirrors : Topology.Mirrors place (g.topology.join c) (g'.topology.join c')) :
    b.Tied place (g.join c) env (g'.join c') env' := by
  refine ⟨?_, fun ha => ?_, ?_, ?_, h.shared, h.cancelled, h.calls⟩
  · rw [Graph.topology_join, Graph.topology_join]
    exact hmirrors
  · rw [Graph.bare?_join, Graph.bare?_join]
    exact h.parts ha
  · rw [Graph.behaviors_join]
    exact h.ours
  · rw [Graph.behaviors_join]
    exact h.theirs

theorem Tied.join_left (h : b.Tied place g env g' env') {c : Connection}
    (hmirrors : Topology.Mirrors place (g.topology.join c) g'.topology) :
    b.Tied place (g.join c) env g' env' := by
  refine ⟨?_, fun ha => ?_, ?_, ?_, h.shared, h.cancelled, h.calls⟩
  · rw [Graph.topology_join]
    exact hmirrors
  · rw [Graph.bare?_join]
    exact h.parts ha
  · rw [Graph.behaviors_join]
    exact h.ours
  · rw [Graph.behaviors_join]
    exact h.theirs

end Border

/-! ## Twins -/

namespace Placement

/-- A port of the one graph stands where a port of the other does. -/
structure Sends (place : Placement) (p p' : PortHandle) : Prop where
  component : place p.component = some p'.component
  graph : p'.graph = p.graph
  index : p'.index = p.index
  direction : p'.direction = p.direction

/-- The placement once both graphs have been asked to add a component. -/
def grow (place : Placement) (r r' : Except AddError ComponentId) : Placement :=
  match r, r' with
  | .ok a, .ok i => place.extend a i
  | _, _ => place

end Placement

/-- A graph and the graph that holds only a part of its components, as they are built. The
conditions on what is done are on the whole: whichever way it is built, the part is built
beside it. A component of the part is one that is `ours` when it is new, and it is never
connected to one that is not. -/
inductive Border.Twins [Behavior κ ω] (b : Border κ ω σ) :
    Placement → Graph κ ω → Env ω → Graph κ ω → Env ω → Prop where
  /-- Both are created, where nothing has happened on either. -/
  | create (name name' : String) (config config' : RunConfig) {env env' : Env ω}
      (number : env'.nextGraph = env.nextGraph)
      (unheard : env.journal.about env.nextGraph = [])
      (unheard' : env'.journal.about env'.nextGraph = [])
      (shared : b.view env.shared = b.view env'.shared)
      (cancelled : env'.isCancelled env'.nextGraph = true → env.isCancelled env.nextGraph = true) :
      Twins b (fun _ => none) (Graph.create name config env : Graph κ ω × Env ω).1
        (Graph.create name config env : Graph κ ω × Env ω).2
        (Graph.create name' config' env' : Graph κ ω × Env ω).1
        (Graph.create name' config' env' : Graph κ ω × Env ω).2
  /-- Things happen that are not about the graphs and look the same to the part. -/
  | elsewhere {place : Placement} {g g' : Graph κ ω} {env env' env₁ env₁' : Env ω}
      (twins : Twins b place g env g' env')
      (about : env₁.journal.about g.id = env.journal.about g.id)
      (about' : env₁'.journal.about g'.id = env'.journal.about g'.id)
      (shared : b.view env₁.shared = b.view env₁'.shared)
      (cancelled : env₁'.isCancelled g'.id = true → env₁.isCancelled g.id = true) :
      Twins b place g env₁ g' env₁'
  /-- A component of the part is added to both, unless it cannot be set up. -/
  | ours {place : Placement} {g g' : Graph κ ω} {env env' : Env ω}
      (twins : Twins b place g env g' env') (cls : ComponentClass κ) (name : String)
      (settings : Settings) (new : b.ours cls.blank) (may : g.mayAdd cls name = .ok ()) :
      Twins b
        (place.grow (g.add cls name settings env).result (g'.add cls name settings env').result)
        (g.add cls name settings env).graph (g.add cls name settings env).env
        (g'.add cls name settings env').graph (g'.add cls name settings env').env
  /-- Another component is added to the whole. -/
  | theirs {place : Placement} {g g' : Graph κ ω} {env env' : Env ω}
      (twins : Twins b place g env g' env') (cls : ComponentClass κ) (name : String)
      (settings : Settings) (new : b.theirs cls.blank) :
      Twins b place (g.add cls name settings env).graph (g.add cls name settings env).env g' env'
  /-- A component cannot be added to the whole, whatever has come of trying. -/
  | failed {place : Placement} {g g' : Graph κ ω} {env env' env₁' : Env ω}
      (twins : Twins b place g env g' env') (cls : ComponentClass κ) (name : String)
      (settings : Settings) {e : AddError} (fails : (g.add cls name settings env).result = .error e)
      (about' : env₁'.journal.about g'.id = env'.journal.about g'.id)
      (shared : b.view (g.add cls name settings env).env.shared = b.view env₁'.shared)
      (cancelled : env₁'.isCancelled g'.id = true →
        (g.add cls name settings env).env.isCancelled g.id = true) :
      Twins b place (g.add cls name settings env).graph (g.add cls name settings env).env g' env₁'
  /-- Two ports of the part are connected in both. -/
  | join {place : Placement} {g g' : Graph κ ω} {env env' : Env ω}
      (twins : Twins b place g env g' env') {p q p' q' : PortHandle} {c : Connection}
      (issued : g.Issued p ∧ g.Issued q) (first : place.Sends p p') (second : place.Sends q q')
      (connects : (g.connect p q env).result = .ok c) :
      Twins b place (g.connect p q env).graph (g.connect p q env).env
        (g'.connect p' q' env').graph (g'.connect p' q' env').env
  /-- Two ports of others are connected. -/
  | joinOthers {place : Placement} {g g' : Graph κ ω} {env env' : Env ω}
      (twins : Twins b place g env g' env') {p q : PortHandle} {c : Connection}
      (issued : g.Issued p ∧ g.Issued q) (first : place p.component = none)
      (second : place q.component = none) (connects : (g.connect p q env).result = .ok c) :
      Twins b place (g.connect p q env).graph (g.connect p q env).env g' env'
  /-- The graphs are given policies. -/
  | follow {place : Placement} {g g' : Graph κ ω} {env env' : Env ω}
      (twins : Twins b place g env g' env') (policy policy' : Policy ω) :
      Twins b place { g with policy := policy } env { g' with policy := policy' } env'

/-- What holds of twins. -/
structure Border.Built (b : Border κ ω σ) (place : Placement) (g : Graph κ ω) (env : Env ω)
    (g' : Graph κ ω) (env' : Env ω) : Prop where
  tied : b.Tied place g env g' env'
  sane : g.Sane env
  sane' : g'.Sane env'
  configuring : g.state = .configuring
  configuring' : g'.state = .configuring
  heard : g.Heard env

theorem Graph.mayAdd_of {g : Graph κ ω} {cls : ComponentClass κ} {name : String}
    (hopen : g.state = .configuring) (hvalid : cls.validate = .ok ())
    (hname : ∀ c ∈ g.components, c.name ≠ name) : g.mayAdd cls name = .ok () := by
  have hnone : g.find? name = none := by
    refine List.find?_eq_none.mpr fun c hc => ?_
    simpa using hname c hc
  simp [mayAdd, isFrozen, hopen, hvalid, hnone]

namespace Border.Built

variable {b : Border κ ω σ} {place : Placement} {g g' : Graph κ ω} {env env' : Env ω}

/-- What stands in the part stands in the whole. -/
theorem exists_component (h : b.Built place g env g' env') {i : Nat} {c' : Component κ}
    (hc' : g'.components[i]? = some c') :
    ∃ a c, place a = some i ∧ g.components[a]? = some c ∧ c.bare = c'.bare := by
  have hi : i < g'.topology.components.length := by
    rw [show g'.topology.components.length = g'.components.length from List.length_map _]
    exact (List.getElem?_eq_some_iff.mp hc').1
  obtain ⟨a, ha⟩ := h.tied.mirrors.onto hi
  have hbare := h.tied.parts ha
  rw [Graph.bare?, Graph.bare?, hc'] at hbare
  obtain ⟨c, hc, hsame⟩ := Option.map_eq_some_iff.mp hbare
  exact ⟨a, c, ha, hc, hsame⟩

/-- What may be added to the whole may be added to the part. -/
theorem mayAdd (h : b.Built place g env g' env') {cls : ComponentClass κ} {name : String}
    (hmay : g.mayAdd cls name = .ok ()) : g'.mayAdd cls name = .ok () := by
  obtain ⟨-, hvalid, hname⟩ := Graph.mayAdd_eq_ok hmay
  refine Graph.mayAdd_of h.configuring' hvalid fun c' hmem heq => ?_
  obtain ⟨i, hc'⟩ := List.mem_iff_getElem?.mp hmem
  obtain ⟨a, c, -, hc, hsame⟩ := h.exists_component hc'
  obtain ⟨hsame, -⟩ := Component.eq_of_bare_eq hsame
  exact hname c (List.mem_of_getElem? hc) (hsame.trans heq)

/-- A port of the part that is free in the whole is free in the part. -/
theorem free (h : b.Built place g env g' env') {a i j : Nat} (ha : place a = some i)
    (hfree : ∃ port, g.portAt? a j = some port ∧ port.connection = none) :
    ∃ port, g'.portAt? i j = some port ∧ port.connection = none := by
  obtain ⟨port, hport, hnone⟩ := hfree
  have hbare := Graph.portAt?_of_bare? (h.tied.parts ha) j
  rw [hport] at hbare
  obtain ⟨port', hport', -⟩ := Option.map_eq_some_iff.mp hbare.symm
  have hsome := h.sane.wired.feeder?_isSome (g.topology_socket?_eq_some.mpr ⟨port, hport, rfl⟩)
  have hsome' := h.sane'.wired.feeder?_isSome (g'.topology_socket?_eq_some.mpr ⟨port', hport', rfl⟩)
  have hnofeeder : g.topology.feeder? a j = none := by
    rw [← Option.isNone_iff_eq_none, ← Option.isSome_eq_false_iff, hsome]
    change port.connection.isSome = false
    rw [hnone]
    rfl
  rw [h.tied.mirrors.feeders ha, hnofeeder] at hsome'
  exact ⟨port', hport', Option.isNone_iff_eq_none.mp (Option.isSome_eq_false_iff.mp hsome'.symm)⟩

/-- A handle of the part that the whole has given out has been given out by the part. -/
theorem issued (h : b.Built place g env g' env') {p p' : PortHandle} (hsends : place.Sends p p')
    (hissued : g.Issued p) : g'.Issued p' := by
  intro hgraph'
  have hid : g'.id = g.id := h.tied.mirrors.id
  obtain ⟨hgraph, s, hs, hd⟩ := hissued.offers h.sane.wired (hsends.graph.symm.trans (hgraph'.trans hid))
  obtain ⟨port, hport, rfl⟩ := g.topology_socket?_eq_some.mp hs
  have hbare := Graph.portAt?_of_bare? (h.tied.parts hsends.component) p.index
  rw [hport] at hbare
  obtain ⟨port', hport', hsame⟩ := Option.map_eq_some_iff.mp hbare.symm
  have hdirection := congrArg Port.direction hsame
  obtain ⟨c', hc', hget⟩ := Option.bind_eq_some_iff.mp hport'
  obtain ⟨hposition, hbelongs⟩ := h.sane'.wired.positions p'.component c'.outline
    (by rw [g'.topology_getElem?, hc']; rfl)
  refine ⟨c', List.mem_of_getElem? hc', ?_⟩
  have hdirection' : port'.direction = p'.direction := by
    rw [hsends.direction, ← hd]
    exact hdirection
  rw [Component.handleAt?, hsends.index, hget]
  have hcomponent : c'.id = p'.component := hposition
  have hgraph'' : c'.graph = p'.graph := hbelongs.trans hgraph'.symm
  simp only [Option.map_some, Option.some.injEq]
  rw [hcomponent, hgraph'', hdirection', ← hsends.index]

theorem create (name name' : String) (config config' : RunConfig) {env env' : Env ω}
    (hnumber : env'.nextGraph = env.nextGraph) (hunheard : env.journal.about env.nextGraph = [])
    (hunheard' : env'.journal.about env'.nextGraph = [])
    (hshared : b.view env.shared = b.view env'.shared)
    (hcancelled : env'.isCancelled env'.nextGraph = true → env.isCancelled env.nextGraph = true) :
    b.Built (fun _ => none) (Graph.create name config env : Graph κ ω × Env ω).1
      (Graph.create name config env : Graph κ ω × Env ω).2
      (Graph.create name' config' env' : Graph κ ω × Env ω).1
      (Graph.create name' config' env' : Graph κ ω × Env ω).2 := by
  have hsilent : ∀ {env : Env ω} (n : Notice), env.journal.about env.nextGraph = [] →
      (env.note n).journal.services env.nextGraph = [] := by
    intro env n h
    rw [Journal.services_eq, Env.about_note, h]
    rfl
  refine ⟨⟨?mirrors, ?parts, ?ours, ?theirs, hshared, hcancelled, ?calls⟩, .create name config hunheard,
    .create name' config' hunheard', rfl, rfl, ?heard⟩
  case mirrors =>
    have hid : (Graph.create name' config' env' : Graph κ ω × Env ω).1.id = env.nextGraph := hnumber
    change Topology.Mirrors _ ⟨env.nextGraph, [], [], []⟩ ⟨Graph.id _, [], [], []⟩
    rw [hid]
    exact .empty env.nextGraph
  case parts => exact fun ha => nomatch ha
  case ours => exact fun ha => nomatch ha
  case theirs => exact fun _ hk => nomatch hk
  case calls =>
    change List.filterMap _ ((env.note _).journal.services env.nextGraph) =
      (env'.note _).journal.services env'.nextGraph
    rw [hsilent _ hunheard, hsilent _ hunheard']
    rfl
  case heard =>
    intro x hx
    change x ∈ (env.note _).journal.services env.nextGraph at hx
    rw [hsilent _ hunheard] at hx
    cases hx

/-- Nothing has happened that concerns the part. -/
theorem meanwhile (h : b.Built place g env g' env') {env₁ env₁' : Env ω} (hsane : g.Sane env₁)
    (hsane' : g'.Sane env₁')
    (hservices : env₁.journal.services g.id = env.journal.services g.id)
    (hservices' : env₁'.journal.services g'.id = env'.journal.services g'.id)
    (hshared : b.view env₁.shared = b.view env₁'.shared)
    (hcancelled : env₁'.isCancelled g'.id = true → env₁.isCancelled g.id = true) :
    b.Built place g env₁ g' env₁' := by
  refine ⟨⟨h.tied.mirrors, h.tied.parts, h.tied.ours, h.tied.theirs, hshared, hcancelled, ?_⟩,
    hsane, hsane', h.configuring, h.configuring', ?_⟩
  · rw [hservices, hservices']
    exact h.tied.calls
  · intro x hx
    rw [hservices] at hx
    exact h.heard x hx

theorem elsewhere (h : b.Built place g env g' env') {env₁ env₁' : Env ω}
    (habout : env₁.journal.about g.id = env.journal.about g.id)
    (habout' : env₁'.journal.about g'.id = env'.journal.about g'.id)
    (hshared : b.view env₁.shared = b.view env₁'.shared)
    (hcancelled : env₁'.isCancelled g'.id = true → env₁.isCancelled g.id = true) :
    b.Built place g env₁ g' env₁' :=
  h.meanwhile (h.sane.elsewhere habout) (h.sane'.elsewhere habout')
    (Journal.services_of_about_eq habout) (Journal.services_of_about_eq habout') hshared hcancelled

section

variable [Behavior κ ω]

theorem ours (h : b.Built place g env g' env') (hprivate : b.Private) {cls : ComponentClass κ}
    {name : String} (settings : Settings) (hnew : b.ours cls.blank)
    (hmay : g.mayAdd cls name = .ok ()) :
    b.Built
      (place.grow (g.add cls name settings env).result (g'.add cls name settings env').result)
      (g.add cls name settings env).graph (g.add cls name settings env).env
      (g'.add cls name settings env').graph (g'.add cls name settings env').env := by
  have hsane := h.sane.add cls name settings
  have hsane' := h.sane'.add cls name settings
  have hstate := (g.add_builds cls name settings env).state
  have hstate' := (g'.add_builds cls name settings env').state
  obtain ⟨first, second, third, hadd⟩ := Graph.add_eq hmay settings env
  obtain ⟨first', second', third', hadd'⟩ := Graph.add_eq (h.mayAdd hmay) settings env'
  have hnoted := (((h.tied.note_left first).note_left second).note_right first').note_right second'
  obtain ⟨hvalue, hfair, hacted⟩ := hnoted.perform (hprivate.setUp settings cls.blank hnew)
  have hheard : g.Heard (((env.note first).note second).perform
      (Behavior.setUp settings cls.blank)).2 := (h.heard.note first).note second
  generalize ((env.note first).note second).perform (Behavior.setUp settings cls.blank) = y
    at hadd hvalue hfair hacted hheard
  generalize ((env'.note first').note second').perform (Behavior.setUp settings cls.blank) = y'
    at hadd' hvalue hacted
  obtain ⟨⟨result, k⟩, env₁⟩ := y
  obtain ⟨⟨result', k'⟩, env₁'⟩ := y'
  obtain ⟨rfl, rfl⟩ := Prod.mk.inj hvalue
  dsimp only at hadd hadd' hfair hacted hheard
  cases result with
  | error cause =>
    dsimp only at hadd hadd'
    rw [hadd] at hsane ⊢
    rw [hadd'] at hsane' ⊢
    exact ⟨hacted.botch cause, hsane, hsane', h.configuring, h.configuring', hheard.botch _ cause⟩
  | ok u =>
    dsimp only at hadd hadd'
    have hpushed := hacted.push h.sane.wired hheard name cls hfair
    have hcalled := hpushed.record (place.extend_self _ _) (.setUp none)
    rw [hadd] at hsane hstate ⊢
    rw [hadd'] at hsane' hstate' ⊢
    exact ⟨(hcalled.note_left third).note_right third', hsane, hsane', hstate.trans h.configuring,
      hstate'.trans h.configuring', (hheard.push name cls k).note third⟩

/-- Where a component of the part is added to the whole, it is added to the part. -/
theorem added (h : b.Built place g env g' env') (hprivate : b.Private) {cls : ComponentClass κ}
    {name : String} {settings : Settings} (hnew : b.ours cls.blank)
    (hmay : g.mayAdd cls name = .ok ()) {a : ComponentId}
    (hok : (g.add cls name settings env).result = .ok a) :
    (g'.add cls name settings env').result = .ok g'.components.length ∧
      (g'.add cls name settings env').graph.components.length = g'.components.length + 1 := by
  obtain ⟨first, second, third, hadd⟩ := Graph.add_eq hmay settings env
  obtain ⟨first', second', third', hadd'⟩ := Graph.add_eq (h.mayAdd hmay) settings env'
  have hnoted := (((h.tied.note_left first).note_left second).note_right first').note_right second'
  obtain ⟨hvalue, -, -⟩ := hnoted.perform (hprivate.setUp settings cls.blank hnew)
  rw [hadd] at hok
  rw [hadd']
  rw [← hvalue]
  cases hresult : (((env.note first).note second).perform
      (Behavior.setUp settings cls.blank)).1.1 with
  | error cause =>
    rw [hresult] at hok
    cases hok
  | ok u => exact ⟨rfl, List.length_append⟩

theorem failed (h : b.Built place g env g' env') {cls : ComponentClass κ} {name : String}
    {settings : Settings} {e : AddError} {env₁' : Env ω}
    (hfails : (g.add cls name settings env).result = .error e)
    (habout' : env₁'.journal.about g'.id = env'.journal.about g'.id)
    (hshared : b.view (g.add cls name settings env).env.shared = b.view env₁'.shared)
    (hcancelled : env₁'.isCancelled g'.id = true →
      (g.add cls name settings env).env.isCancelled g.id = true) :
    b.Built place (g.add cls name settings env).graph (g.add cls name settings env).env g' env₁' := by
  have hsane := h.sane.add cls name settings
  rcases g.add_cases cls name settings env with ⟨e', env₁, hadd, habout⟩ | ⟨-, k, env₁, hadd, -⟩
  · rw [hadd] at hsane hshared hcancelled ⊢
    refine h.meanwhile hsane (h.sane'.elsewhere habout') ?_ (Journal.services_of_about_eq habout')
      hshared hcancelled
    rcases habout with habout | ⟨-, f, habout⟩
    · exact Journal.services_of_about_eq habout
    · rw [Journal.services_eq, Journal.services_eq, habout]
      simp [Event.call?, Call.isService]
  · rw [hadd] at hfails
    cases hfails

theorem theirs (h : b.Built place g env g' env') (haloof : b.Aloof) {cls : ComponentClass κ}
    (name : String) (settings : Settings) (hnew : b.theirs cls.blank) :
    b.Built place (g.add cls name settings env).graph (g.add cls name settings env).env g' env' := by
  have hsane := h.sane.add cls name settings
  have hstate := (g.add_builds cls name settings env).state
  cases hmay : g.mayAdd cls name with
  | error e =>
    have hadd : g.add cls name settings env =
        ⟨.error e, g, env.note (.adding g.name cls.name name)⟩ := by
      simp only [Graph.add, hmay]
    rw [hadd] at hsane ⊢
    exact ⟨h.tied.note_left _, hsane, h.sane', h.configuring, h.configuring', h.heard.note _⟩
  | ok u =>
    obtain ⟨first, second, third, hadd⟩ := Graph.add_eq hmay settings env
    have hnoted := (h.tied.note_left first).note_left second
    obtain ⟨hfair, hacted⟩ := hnoted.perform_left (haloof.setUp settings cls.blank hnew)
    have hheard : g.Heard (((env.note first).note second).perform
        (Behavior.setUp settings cls.blank)).2 := (h.heard.note first).note second
    generalize ((env.note first).note second).perform (Behavior.setUp settings cls.blank) = y
      at hadd hfair hacted hheard
    obtain ⟨⟨result, k⟩, env₁⟩ := y
    dsimp only at hadd hfair hacted hheard
    have hlength : g.topology.components.length = g.components.length := List.length_map _
    have hfree : place g.components.length = none := hlength ▸ h.tied.mirrors.place_length
    cases result with
    | error cause =>
      dsimp only at hadd
      rw [hadd] at hsane ⊢
      exact ⟨hacted.record_left hfree _, hsane, h.sane', h.configuring, h.configuring',
        hheard.botch _ cause⟩
    | ok u =>
      dsimp only at hadd
      have hcalled := (hacted.push_left name cls hfair).record_left hfree (.setUp none)
      rw [hadd] at hsane hstate ⊢
      exact ⟨hcalled.note_left third, hsane, h.sane', hstate.trans h.configuring, h.configuring',
        (hheard.push name cls k).note third⟩

end

/-- Two ports of the part are connected in both graphs, and nothing stands against it in the
part if nothing does in the whole. -/
theorem join (h : b.Built place g env g' env') {p q p' q' : PortHandle} {c : Connection}
    (hissued : g.Issued p ∧ g.Issued q) (hfirst : place.Sends p p') (hsecond : place.Sends q q')
    (hconnects : (g.connect p q env).result = .ok c) :
    b.Built place (g.connect p q env).graph (g.connect p q env).env
      (g'.connect p' q' env').graph (g'.connect p' q' env').env := by
  have hsane := h.sane.connect hissued.1 hissued.2
  have hissued' := And.intro (h.issued hfirst hissued.1) (h.issued hsecond hissued.2)
  have hsane' := h.sane'.connect hissued'.1 hissued'.2
  have hplans := Graph.plans_of_connect hconnects
  have hid : g'.id = g.id := h.tied.mirrors.id
  -- which of the two is the output is the same in both
  obtain ⟨output, input, houtput, hinput, hends⟩ : ∃ output input, place.Sends c.output output ∧
      place.Sends c.input input ∧ (output = p' ∧ input = q' ∨ output = q' ∧ input = p') := by
    rcases hplans.ends with ⟨hout, hin⟩ | ⟨hout, hin⟩
    · exact ⟨p', q', hout ▸ hfirst, hin ▸ hsecond, .inl ⟨rfl, rfl⟩⟩
    · exact ⟨q', p', hout ▸ hsecond, hin ▸ hfirst, .inr ⟨rfl, rfl⟩⟩
  have hplans' : g'.Plans p' q' ⟨g'.connections.length, output, input⟩ := {
    open_ := h.configuring'
    first := hfirst.graph.trans (hplans.first.trans hid.symm)
    second := hsecond.graph.trans (hplans.second.trans hid.symm)
    ends := hends
    number := rfl
    output := houtput.direction.trans hplans.output
    input := hinput.direction.trans hplans.input
    apart := by
      intro heq
      have hsame : output.component = input.component := heq
      have hcomponent := houtput.component
      rw [hsame] at hcomponent
      exact hplans.apart (h.tied.mirrors.injective hcomponent hinput.component)
    outputFree := by
      have hfree := h.free houtput.component hplans.outputFree
      rwa [← houtput.index] at hfree
    inputFree := by
      have hfree := h.free hinput.component hplans.inputFree
      rwa [← hinput.index] at hfree }
  obtain ⟨hout, hin⟩ := Graph.Plans.offers h.sane.wired hplans hissued.1 hissued.2
  obtain ⟨hout', hin'⟩ := Graph.Plans.offers h.sane'.wired hplans' hissued'.1 hissued'.2
  have hmirrors := h.tied.mirrors.join h.sane.wired h.sane'.wired hplans.number rfl hout hin hout' hin'
    houtput.component hinput.component houtput.index hinput.index
  obtain ⟨first, second, hconnect⟩ := hplans.connect_eq env
  obtain ⟨first', second', hconnect'⟩ := hplans'.connect_eq env'
  rw [hconnect] at hsane ⊢
  rw [hconnect'] at hsane' ⊢
  have htied := (((h.tied.join hmirrors).note_left first).note_left second).note_right first'
  exact ⟨htied.note_right second', hsane, hsane', h.configuring, h.configuring',
    ((h.heard.join c).note first).note second⟩

theorem joinOthers (h : b.Built place g env g' env') {p q : PortHandle} {c : Connection}
    (hissued : g.Issued p ∧ g.Issued q) (hfirst : place p.component = none)
    (hsecond : place q.component = none) (hconnects : (g.connect p q env).result = .ok c) :
    b.Built place (g.connect p q env).graph (g.connect p q env).env g' env' := by
  have hsane := h.sane.connect hissued.1 hissued.2
  have hplans := Graph.plans_of_connect hconnects
  have houtside : place c.output.component = none ∧ place c.input.component = none := by
    rcases hplans.ends with ⟨hout, hin⟩ | ⟨hout, hin⟩
    · rw [hout, hin]
      exact ⟨hfirst, hsecond⟩
    · rw [hout, hin]
      exact ⟨hsecond, hfirst⟩
  obtain ⟨hout, hin⟩ := Graph.Plans.offers h.sane.wired hplans hissued.1 hissued.2
  have hmirrors := h.tied.mirrors.join_left h.sane.wired hplans.number hout hin houtside.1 houtside.2
  obtain ⟨first, second, hconnect⟩ := hplans.connect_eq env
  rw [hconnect] at hsane ⊢
  exact ⟨((h.tied.join_left hmirrors).note_left first).note_left second, hsane, h.sane',
    h.configuring, h.configuring', ((h.heard.join c).note first).note second⟩

theorem follow (h : b.Built place g env g' env') (policy policy' : Policy ω) :
    b.Built place { g with policy := policy } env { g' with policy := policy' } env' := by
  obtain ⟨⟨hmirrors, hparts, hours, htheirs, hshared, hcancelled, hcalls⟩, hsane, hsane', hopen,
    hopen', hheard⟩ := h
  exact ⟨⟨hmirrors, hparts, hours, htheirs, hshared, hcancelled, hcalls⟩,
    ⟨⟨hsane.wired, hsane.formed, hsane.stages, hsane.ledger⟩, hsane.inPlace⟩,
    ⟨⟨hsane'.wired, hsane'.formed, hsane'.stages, hsane'.ledger⟩, hsane'.inPlace⟩, hopen, hopen',
    hheard⟩

end Border.Built

/-- Twins are tied when they are built. -/
theorem Border.Twins.built [Behavior κ ω] {b : Border κ ω σ} {place : Placement}
    {g g' : Graph κ ω} {env env' : Env ω} (h : b.Twins place g env g' env')
    (hprivate : b.Private) (haloof : b.Aloof) : b.Built place g env g' env' := by
  induction h with
  | create name name' config config' hnumber hunheard hunheard' hshared hcancelled =>
    exact .create name name' config config' hnumber hunheard hunheard' hshared hcancelled
  | elsewhere _ habout habout' hshared hcancelled ih =>
    exact ih.elsewhere habout habout' hshared hcancelled
  | ours _ cls name settings hnew hmay ih => exact ih.ours hprivate settings hnew hmay
  | theirs _ cls name settings hnew ih => exact ih.theirs haloof name settings hnew
  | failed _ cls name settings hfails habout' hshared hcancelled ih =>
    exact ih.failed hfails habout' hshared hcancelled
  | join _ hissued hfirst hsecond hconnects ih => exact ih.join hissued hfirst hsecond hconnects
  | joinOthers _ hissued hfirst hsecond hconnects ih =>
    exact ih.joinOthers hissued hfirst hsecond hconnects
  | follow _ policy policy' ih => exact ih.follow policy policy'

end PullGraph
