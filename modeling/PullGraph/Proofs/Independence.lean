import PullGraph.Proofs.Freezing
import PullGraph.Proofs.Performance
import PullGraph.Proofs.Twins

/-! # Parts of a graph that are not connected

What the components of one part do in a run does not depend on the rest of the graph
(`Border.Twins.alike`), as long as no state is shared between the two and filters make nothing
of their own numbers. Standard components share none if what the one side collects is kept
apart from what the other does, and never ask for their numbers.
-/
namespace PullGraph

variable {κ ω σ α : Type}

theorem Graph.flags?_of_bare? {g g' : Graph κ ω} {a i : Nat} (h : g.bare? a = g'.bare? i) :
    g.flags? a = g'.flags? i := by
  have hflags : ∀ (g : Graph κ ω) (a : Nat),
      g.flags? a = (g.bare? a).map fun c => c.ports.map (·.atEnd) := by
    intro g a
    simp [flags?, bare?, Component.bare, Port.bare, Function.comp_def]
  rw [hflags, hflags, h]

theorem Graph.behaviors_of_bare? {g g' : Graph κ ω} {a i : Nat} (h : g.bare? a = g'.bare? i) :
    g.behaviors[a]? = g'.behaviors[i]? := by
  have hbehaviors : ∀ (g : Graph κ ω) (a : Nat), g.behaviors[a]? = (g.bare? a).map (·.behavior) := by
    intro g a
    simp [behaviors, bare?, Component.bare, Function.comp_def]
  rw [hbehaviors, hbehaviors, h]

/-- The part can be run if the whole can, and something in it is to be run. -/
theorem Border.Built.validate {b : Border κ ω σ} {place : Placement} {g g' : Graph κ ω}
    {env env' : Env ω} (h : b.Built place g env g' env') (hvalid : g.validate = .ok ())
    (hsink : ∃ s ∈ g.sinks, (place s).isSome = true) : g'.validate = .ok () := by
  obtain ⟨s, hs, hsome⟩ := hsink
  obtain ⟨i, hi⟩ := Option.isSome_iff_exists.mp hsome
  have hmem : i ∈ g'.topology.sinks := by
    rw [← h.tied.mirrors.sinks]
    exact List.mem_filterMap.mpr ⟨s, hs, hi⟩
  have hformed := (Graph.validate_iff h.sane.wired).mp hvalid
  exact (Graph.validate_iff h.sane'.wired).mpr (h.tied.mirrors.wellFormed h.sane.wired h.sane'.wired
    hformed ⟨i, h.sane'.wired.mem_sinks.mp hmem⟩)

/-- If a number of rounds of the whole go well, so do as many rounds of the part, and they lead
to the same for the part. -/
theorem Border.Twins.alike [Behavior κ ω] {b : Border κ ω σ} {place : Placement}
    {g g' : Graph κ ω} {env env' : Env ω} (h : b.Twins place g env g' env')
    (hprivate : b.Private) (hplaceless : b.Placeless place) (haloof : b.Aloof)
    (hvalid : g.validate = .ok ()) (hsink : ∃ s ∈ g.sinks, (place s).isSome = true)
    {patience k : Nat} (hwell : g.RunsWell patience k env) :
    g'.validate = .ok () ∧ g'.RunsWell patience k env' ∧
      (∀ i, i < g'.components.length ↔ ∃ a, place a = some i) ∧
      (∀ a i, place a = some i → ∃ flags inner,
        (g.played patience k env).1.flags? a = some flags ∧
        (g'.played patience k env').1.flags? i = some flags ∧
        (g.unclosed patience k env).1.behaviors[a]? = some inner ∧
        (g'.unclosed patience k env').1.behaviors[i]? = some inner) ∧
      ((g.played patience k env).2.journal.services g.id).filterMap place.lift =
        (g'.played patience k env').2.journal.services g'.id ∧
      ∀ j ≤ k, (g'.played patience j env').1.state = .finished →
        g'.played patience k env' = g'.played patience j env' ∧
        g'.unclosed patience k env' = g'.unclosed patience j env' := by
  have hbuilt := h.built hprivate haloof
  have hvalid' := hbuilt.validate hvalid hsink
  have hbegins : g.Begins env _ _ := .started hbuilt.configuring hvalid
  have hbegins' : g'.Begins env' _ _ := .started hbuilt.configuring' hvalid'
  obtain ⟨hwell', htied⟩ :=
    hprivate.unclosed hplaceless haloof hbuilt.tied hbegins hbegins' k hwell
  obtain ⟨hflags, hservices⟩ := hwell.played_keeps hbegins
  obtain ⟨hflags', hservices'⟩ := hwell'.played_keeps hbegins'
  have hlength : g'.topology.components.length = g'.components.length := List.length_map _
  refine ⟨hvalid', hwell', ?holds, ?parts, ?calls, ?settled⟩
  case holds =>
    intro i
    constructor
    · intro hi
      exact hbuilt.tied.mirrors.onto (hlength ▸ hi)
    · rintro ⟨a, ha⟩
      exact hlength ▸ (hbuilt.tied.mirrors.lt ha).2
  case parts =>
    intro a i ha
    have hbare := htied.parts ha
    have hthere : a < (g.unclosed patience k env).1.components.length := by
      simpa using (htied.mirrors.lt ha).1
    have hc := List.getElem?_eq_getElem hthere
    generalize (g.unclosed patience k env).1.components[a] = c at hc
    have hsomeFlags : (g.unclosed patience k env).1.flags? a = some (c.ports.map (·.atEnd)) := by
      simp [Graph.flags?, hc]
    have hsomeInner : (g.unclosed patience k env).1.behaviors[a]? = some c.behavior := by
      simp [Graph.behaviors, hc]
    refine ⟨c.ports.map (·.atEnd), c.behavior, (hflags a).trans hsomeFlags, ?_, hsomeInner, ?_⟩
    · exact (hflags' i).trans ((Graph.flags?_of_bare? hbare).symm.trans hsomeFlags)
    · exact (Graph.behaviors_of_bare? hbare).symm.trans hsomeInner
  case calls =>
    have hcalls := htied.calls
    rw [hwell.unclosed_id hbegins, hwell'.unclosed_id hbegins'] at hcalls
    rw [hservices, hservices', hcalls]
  case settled =>
    intro j hj hfinished
    refine hwell'.settled hj ?_ hfinished
    rw [hbuilt.configuring']
    decide

/-- The graph of the part is built as graphs are. -/
theorem Border.Twins.lifetime [Behavior κ ω] {b : Border κ ω σ} {place : Placement}
    {g g' : Graph κ ω} {env env' : Env ω} (h : b.Twins place g env g' env') (hprivate : b.Private)
    (haloof : b.Aloof) : ∃ added, Lifetime added g' env' := by
  induction h with
  | create name name' config config' _ _ hunheard' => exact ⟨_, .create name' config' hunheard'⟩
  | elsewhere _ _ habout' _ _ ih =>
    obtain ⟨added, hlife⟩ := ih
    exact ⟨added, hlife.elsewhere habout'⟩
  | ours _ cls name settings _ _ ih =>
    obtain ⟨added, hlife⟩ := ih
    exact ⟨_, hlife.call (.add cls name settings) trivial rfl⟩
  | theirs _ _ _ _ _ ih => exact ih
  | failed _ _ _ _ _ habout' _ _ ih =>
    obtain ⟨added, hlife⟩ := ih
    exact ⟨added, hlife.elsewhere habout'⟩
  | join htwins hissued hfirst hsecond _ ih =>
    obtain ⟨added, hlife⟩ := ih
    have hbuilt := htwins.built hprivate haloof
    exact ⟨_, hlife.call (.connect _ _)
      ⟨hbuilt.issued hfirst hissued.1, hbuilt.issued hsecond hissued.2⟩ rfl⟩
  | joinOthers _ _ _ _ _ ih => exact ih
  | follow _ policy policy' ih =>
    obtain ⟨added, hlife⟩ := ih
    exact ⟨_, hlife.call (.follow policy') trivial rfl⟩

/-- What is written down in rounds that go well are the calls that are performed. -/
theorem Lifetime.enacted_played [Behavior κ ω] {added : List ComponentId} {g : Graph κ ω}
    {env : Env ω} (h : Lifetime added g env) {patience k : Nat} (hwell : g.RunsWell patience k env) :
    Enacted ((g.played patience k env).2.journal.calls g.id) (g.played patience k env).1
      (g.played patience k env).2 := by
  induction k generalizing added g env with
  | zero => exact h.enacted
  | succ k ih =>
    have hid : (g.runOnce patience env).graph.id = g.id :=
      congrArg Topology.id (g.runOnce_ran patience env).topology_eq
    rw [← hid]
    exact ih (h.call (.runOnce patience) trivial hwell.1) hwell.2.2

/-! ## Every split has twins -/

/-- Keeps of the first `n` components those of a part, in their order. -/
def Placement.among (part : ComponentId → Bool) (n : Nat) : Placement := fun (a : Nat) =>
  if a < n ∧ part a = true then some ((List.range a).countP part) else none

namespace Placement

variable {part : ComponentId → Bool} {n a : Nat}

theorem among_of_lt (hlt : a < n) (ha : part a = true) :
    among part n a = some ((List.range a).countP part) :=
  if_pos ⟨hlt, ha⟩

theorem among_of_not (ha : part a = false) : among part n a = none := by
  apply if_neg
  rintro ⟨-, htrue⟩
  exact nomatch ha.symm.trans htrue

theorem among_zero : among part 0 = fun _ => none := by
  refine funext fun (a : Nat) => ?_
  apply if_neg
  omega

theorem among_succ (h : part n = true) :
    among part (n + 1) = (among part n).extend n ((List.range n).countP part) := by
  refine funext fun (a : Nat) => ?_
  by_cases ha : a = n
  · subst ha
    rw [extend_self, among_of_lt (Nat.lt_succ_self a) h]
  · have hiff : a < n + 1 ↔ a < n := by omega
    rw [extend_of_ne _ ha]
    simp only [among, hiff]

theorem among_succ_of_not (h : part n = false) : among part (n + 1) = among part n := by
  refine funext fun (a : Nat) => ?_
  by_cases ha : a = n
  · subst ha
    rw [among_of_not h, among_of_not h]
  · have hiff : a < n + 1 ↔ a < n := by omega
    simp only [among, hiff]

end Placement

/-- A topology falls into a part and a rest that share no state and are not connected. -/
structure Border.Splits (b : Border κ ω σ) (part : ComponentId → Bool) (T : Topology κ) : Prop where
  ours : ∀ {a : Nat} {cls : ComponentClass κ}, T.class? a = some cls → part a = true →
    b.ours cls.blank
  theirs : ∀ {a : Nat} {cls : ComponentClass κ}, T.class? a = some cls → part a = false →
    b.theirs cls.blank
  apart : ∀ c ∈ T.connections, part c.output.component = part c.input.component

namespace Border.Splits

variable {b : Border κ ω σ} {part : ComponentId → Bool} {T : Topology κ}

theorem of_push {o : Outline κ} (h : b.Splits part (T.push o)) : b.Splits part T where
  ours hcls := h.ours ((T.push_class?_of_lt o (Topology.lt_of_class? hcls)).trans hcls)
  theirs hcls := h.theirs ((T.push_class?_of_lt o (Topology.lt_of_class? hcls)).trans hcls)
  apart := h.apart

theorem of_join {c : Connection} (h : b.Splits part (T.join c)) : b.Splits part T where
  ours hcls := h.ours ((T.join_class? c _).trans hcls)
  theirs hcls := h.theirs ((T.join_class? c _).trans hcls)
  apart c' hc' := h.apart c' (List.mem_append_left _ hc')

variable [Behavior κ ω] {g : Graph κ ω} {env : Env ω}

omit [Behavior κ ω] in
theorem of_connect {p q : PortHandle} (h : b.Splits part (g.connect p q env).graph.topology) :
    b.Splits part g.topology := by
  rcases g.connect_cases p q env with ⟨e, env', hconnect, -⟩ | ⟨c, env', -, hconnect, -⟩
  · rwa [hconnect] at h
  · rw [hconnect, Graph.topology_join] at h
    exact h.of_join

/-- What a request leaves split was split before it. -/
theorem of_perform {r : Request κ ω} (h : b.Splits part (r.perform g env).graph.topology) :
    b.Splits part g.topology := by
  cases r with
  | add cls name settings =>
    change b.Splits part (g.add cls name settings env).graph.topology at h
    rcases g.add_cases cls name settings env with ⟨e, env', hadd, -⟩ | ⟨-, k, env', hadd, -⟩
    · rwa [hadd] at h
    · rw [hadd, Graph.topology_push] at h
      exact h.of_push
  | connect p q => exact of_connect h
  | link giver output taker input =>
    change b.Splits part (g.link giver output taker input env).graph.topology at h
    rcases g.link_cases giver output taker input env with ⟨e, hlink⟩ | ⟨p, q, -, -, hlink⟩
    · rwa [hlink] at h
    · rw [hlink] at h
      exact of_connect h
  | follow policy => exact h
  | runOnce patience => exact (g.runOnce_ran patience env).topology_eq ▸ h
  | run patience rounds => exact (g.run_ran patience rounds env).topology_eq ▸ h
  | cancel => exact h
  | teardown => exact g.teardown_topology env ▸ h

end Border.Splits

namespace Graph

theorem connect_length (g : Graph κ ω) (p q : PortHandle) (env : Env ω) :
    (g.connect p q env).graph.components.length = g.components.length := by
  rcases g.connect_cases p q env with ⟨e, env', hconnect, -⟩ | ⟨c, env', -, hconnect, -⟩
  · rw [hconnect]
  · rw [hconnect]
    simpa using (g.topology_join c ▸ g.topology.join_length c :
      (g.join c).topology.components.length = g.topology.components.length)

variable [Behavior κ ω] {g g' : Graph κ ω} {env env' : Env ω}

theorem Course.frozen {returned : Bool} (h : Course g env returned g' env')
    (hfrozen : g.state ≠ .configuring) : g'.state ≠ .configuring := by
  induction h with
  | done => exact hfrozen
  | pause => exact hfrozen
  | @broken g env id index patience hdue _ =>
    rw [(hdue.passes patience env).leads.state]
    exact hfrozen
  | next hstep _ ih =>
    apply ih
    rcases hstep.state_eq_or_endsRun with hsame | ⟨-, hends⟩
    · rw [hsame]
      exact hfrozen
    · rcases hends with hend | hend | hend <;> rw [hend] <;> exact nofun

/-- A graph that is still to be built has not been run. -/
theorem Ran.eq_of_configuring {returned : Bool} (h : Ran g env returned g' env')
    (hopen : g'.state = .configuring) : g' = g ∧ env' = env := by
  cases h with
  | unchanged => exact ⟨rfl, rfl⟩
  | resumed hrunning hcourse =>
    refine absurd hopen (hcourse.frozen ?_)
    rw [hrunning]
    exact nofun
  | started _ hvalid hcourse =>
    refine absurd hopen (hcourse.frozen ?_)
    rw [start_state hvalid env]
    exact nofun

end Graph

/-- A graph has been built for which there is one that holds only a part of its components. -/
def Border.HasTwin [Behavior κ ω] (b : Border κ ω σ) (part : ComponentId → Bool) (g : Graph κ ω)
    (env : Env ω) : Prop :=
  ∃ g' env', b.Twins (.among part g.components.length) g env g' env' ∧
    g'.components.length = (List.range g.components.length).countP part

namespace Border.HasTwin

variable [Behavior κ ω] {b : Border κ ω σ} {part : ComponentId → Bool} {g : Graph κ ω}
  {env : Env ω}

theorem elsewhere (h : b.HasTwin part g env) {env₁ : Env ω}
    (habout : env₁.journal.about g.id = env.journal.about g.id) : b.HasTwin part g env₁ := by
  obtain ⟨g', env', htwins, hlength⟩ := h
  refine ⟨g', { env' with shared := env₁.shared, cancelled := [] }, ?_, hlength⟩
  exact htwins.elsewhere habout rfl rfl nofun

theorem add (h : b.HasTwin part g env) (hprivate : b.Private) (haloof : b.Aloof)
    (cls : ComponentClass κ) (name : String) (settings : Settings)
    (hsplits : b.Splits part (g.add cls name settings env).graph.topology) :
    b.HasTwin part (g.add cls name settings env).graph (g.add cls name settings env).env := by
  obtain ⟨g', env', htwins, hlength⟩ := h
  rcases g.add_cases cls name settings env with ⟨e, env₁, hadd, -⟩ | ⟨hmay, k, env₁, hadd, -⟩
  · let env₁' : Env ω :=
      { env' with shared := (g.add cls name settings env).env.shared, cancelled := [] }
    have hfailed : b.Twins _ _ _ g' env₁' :=
      htwins.failed cls name settings (congrArg After.result hadd) rfl rfl nofun
    have hgraph : (g.add cls name settings env).graph = g := congrArg After.graph hadd
    rw [hgraph] at hfailed ⊢
    exact ⟨_, _, hfailed, hlength⟩
  · have hresult := congrArg After.result hadd
    have hsize : (g.add cls name settings env).graph.components.length = g.components.length + 1 := by
      rw [hadd]
      exact List.length_append
    have hcls : (g.add cls name settings env).graph.topology.class? g.components.length = some cls := by
      have hlast : (g.topology.push (Component.fresh g.id g.components.length name cls k).outline).class?
          g.topology.components.length = some cls := Topology.push_class?_length _
      rw [hadd, Graph.topology_push]
      simpa using hlast
    have hcount : (List.range (g.components.length + 1)).countP part =
        (List.range g.components.length).countP part + [g.components.length].countP part := by
      rw [List.range_succ, List.countP_append]
    unfold HasTwin
    rw [hsize]
    cases hpart : part g.components.length with
    | true =>
      have hnew := hsplits.ours hcls hpart
      have hours := htwins.ours cls name settings hnew hmay
      obtain ⟨hresult', hsize'⟩ := (htwins.built hprivate haloof).added hprivate hnew hmay hresult
      rw [hresult, hresult', hlength] at hours
      rw [Placement.among_succ hpart]
      refine ⟨_, _, hours, ?_⟩
      rw [hsize', hlength, hcount]
      simp [hpart]
    | false =>
      rw [Placement.among_succ_of_not hpart]
      refine ⟨_, _, htwins.theirs cls name settings (hsplits.theirs hcls hpart), ?_⟩
      rw [hlength, hcount]
      simp [hpart]

theorem connect (h : b.HasTwin part g env) (hw : g.topology.Wired) {p q : PortHandle}
    (hissued : g.Issued p ∧ g.Issued q)
    (hsplits : b.Splits part (g.connect p q env).graph.topology) :
    b.HasTwin part (g.connect p q env).graph (g.connect p q env).env := by
  rcases g.connect_cases p q env with ⟨e, env₁, hconnect, habout⟩ | ⟨c, env₁, hplans, hconnect, -⟩
  · rw [hconnect]
    exact h.elsewhere habout
  · obtain ⟨g', env', htwins, hlength⟩ := h
    have hresult := congrArg After.result hconnect
    have hlt : ∀ {x : PortHandle}, g.topology.Offers x → x.component < g.components.length := by
      intro x hx
      simpa using hx.lt
    have hp := hlt (hissued.1.offers hw hplans.first)
    have hq := hlt (hissued.2.offers hw hplans.second)
    have hsame : part p.component = part q.component := by
      have hmem : c ∈ (g.connect p q env).graph.topology.connections := by
        rw [hconnect, Graph.topology_join]
        exact List.mem_append_right _ (List.mem_singleton_self c)
      have hapart := hsplits.apart c hmem
      rcases hplans.ends with ⟨hout, hin⟩ | ⟨hout, hin⟩ <;> rw [hout, hin] at hapart
      · exact hapart
      · exact hapart.symm
    unfold HasTwin
    rw [g.connect_length]
    cases hpart : part p.component with
    | true =>
      -- the ports of the part are where the placement sends their components
      have hsends : ∀ {x : PortHandle}, x.component < g.components.length →
          part x.component = true → (Placement.among part g.components.length).Sends x
            { x with component := (List.range x.component).countP part } :=
        fun hlt hx => ⟨Placement.among_of_lt hlt hx, rfl, rfl, rfl⟩
      exact ⟨_, _, htwins.join hissued (hsends hp hpart) (hsends hq (hsame.symm.trans hpart)) hresult,
        (g'.connect_length _ _ _).trans hlength⟩
    | false =>
      exact ⟨_, _, htwins.joinOthers hissued (Placement.among_of_not hpart)
        (Placement.among_of_not (hsame.symm.trans hpart)) hresult, hlength⟩

end Border.HasTwin

/-- **Every split has twins.** For each graph that has been built and falls into a part and a
rest, there is the graph that holds the part only. -/
theorem Lifetime.hasTwin [Behavior κ ω] {b : Border κ ω σ} {part : ComponentId → Bool}
    {added : List ComponentId} {g : Graph κ ω} {env : Env ω} (h : Lifetime added g env)
    (hopen : g.state = .configuring) (hsplits : b.Splits part g.topology)
    (hprivate : b.Private) (haloof : b.Aloof) : b.HasTwin part g env := by
  induction h with
  | @create name config env hunheard =>
    have htwins : b.Twins (fun _ => none) _ _ _ _ :=
      .create name name config config rfl hunheard hunheard rfl id
    exact ⟨_, _, Placement.among_zero ▸ htwins, rfl⟩
  | elsewhere _ habout ih => exact (ih hopen hsplits).elsewhere habout
  | @call added g env hlife r hfits _ ih =>
    have hopen₀ : g.state = .configuring := by
      by_contra hfrozen
      exact r.frozen_of_frozen hfrozen env hopen
    have hbefore := ih hopen₀ hsplits.of_perform
    have of_ran : ∀ {returned : Bool} {g₁ : Graph κ ω} {env₁ : Env ω},
        Graph.Ran g env returned g₁ env₁ → g₁.state = .configuring → b.HasTwin part g₁ env₁ := by
      intro returned g₁ env₁ hran hopen₁
      obtain ⟨rfl, rfl⟩ := hran.eq_of_configuring hopen₁
      exact hbefore
    cases r with
    | add cls name settings => exact hbefore.add hprivate haloof cls name settings hsplits
    | connect p q => exact hbefore.connect hlife.sane.wired hfits hsplits
    | link giver output taker input =>
      change b.Splits part (g.link giver output taker input env).graph.topology at hsplits
      change b.HasTwin part (g.link giver output taker input env).graph
        (g.link giver output taker input env).env
      rcases g.link_cases giver output taker input env with ⟨e, hlink⟩ | ⟨p, q, hp, hq, hlink⟩
      · rw [hlink]
        exact hbefore
      · rw [hlink] at hsplits ⊢
        exact hbefore.connect hlife.sane.wired ⟨hp, hq⟩ hsplits
    | follow policy =>
      obtain ⟨g', env', htwins, hlength⟩ := hbefore
      exact ⟨_, _, htwins.follow policy policy, hlength⟩
    | runOnce patience => exact of_ran (g.runOnce_ran patience env) hopen
    | run patience rounds => exact of_ran (g.run_ran patience rounds env) hopen
    | cancel => exact hbefore.elsewhere rfl
    | teardown =>
      change (g.teardown env).graph.state = .configuring at hopen
      rw [g.teardown_state, hopen₀] at hopen
      cases hopen

/-! ## Standard components -/

theorem Act.Alike.pure {view : ω → σ} {fair : α → Prop} {a : α} (h : fair a) :
    Act.Alike view fair (Act.pure a) (Act.pure a) :=
  fun _ _ hview => ⟨rfl, h, hview, rfl⟩

theorem Act.Aloof.pure {view : ω → σ} {fair : α → Prop} {a : α} (h : fair a) :
    Act.Aloof view fair (Act.pure a) :=
  fun _ => ⟨h, rfl⟩

namespace Standard

/-- What is collected goes where `view` sees it, and only there is it looked at. -/
def KeepsWithin (view : ω → σ) : Standard ω → Prop
  | .collect store => ∀ m w w', view w = view w' → view (store m w) = view (store m w')
  | _ => True

/-- What is collected goes where `view` does not see it. -/
def KeepsOut (view : ω → σ) : Standard ω → Prop
  | .collect store => ∀ m w, view (store m w) = view w
  | _ => True

/-- The border between standard components that collect where `view` sees it and others. -/
def border (view : ω → σ) : Border (Standard ω) ω σ := ⟨view, KeepsWithin view, KeepsOut view⟩

variable {view : ω → σ}

/-- A counter stays one when it is set up. -/
theorem setUpCounter_state (settings : Settings) (next stop : Int64) :
    ∃ next' stop', (setUpCounter settings next stop : Except Fault Unit × Standard ω).2 =
      .counter next' stop' := by
  unfold setUpCounter
  split
  · exact ⟨_, _, rfl⟩
  · split <;> exact ⟨_, _, rfl⟩

/-- A source that gives a message does not become a collector, nor does what is none. -/
theorem emit_state {P : Standard ω → Prop} (hcounter : ∀ next stop, P (.counter next stop))
    (hitems : ∀ rest, P (.items rest)) {k : Standard ω} (hk : P k) : P (emit k).2 := by
  unfold emit
  split
  · split
    · exact hcounter _ _
    · exact hk
  · exact hitems _
  · exact hk

theorem border_private : (border view).Private where
  setUp settings k hk := by
    cases k with
    | counter next stop =>
      obtain ⟨next', stop', hstate⟩ := setUpCounter_state (ω := ω) settings next stop
      apply Act.Alike.pure
      change KeepsWithin view _
      rw [hstate]
      trivial
    | _ => exact Act.Alike.pure hk
  emit port k hk := by
    apply Act.Alike.pure
    exact emit_state (P := KeepsWithin view) (fun _ _ => trivial) (fun _ => trivial) hk
  answer port k hk := by
    cases k with
    | transform f =>
      refine .pull _ fun r => ?_
      split
      · split
        · exact .reply _ trivial
        · exact .retry trivial
        · exact .reply _ trivial
      · exact .reply _ trivial
    | _ => exact .pull _ fun r => .reply r hk
  receive port arrival k hk := by
    cases arrival with
    | none => exact Act.Alike.pure hk
    | some m =>
      cases k with
      | collect store =>
        intro w w' hview
        exact ⟨rfl, hk, hk m w w' hview, rfl⟩
      | _ => exact Act.Alike.pure hk

/-- Standard filters do not ask for their numbers. -/
theorem border_placeless (place : Placement) : (border view).Placeless place := by
  intro port k hk
  cases k with
  | transform f =>
    intro r
    dsimp only
    split
    · split <;> exact trivial
    · exact trivial
  | _ => exact fun r => trivial

theorem border_aloof : (border view).Aloof where
  setUp settings k hk := by
    cases k with
    | counter next stop =>
      obtain ⟨next', stop', hstate⟩ := setUpCounter_state (ω := ω) settings next stop
      apply Act.Aloof.pure
      change KeepsOut view _
      rw [hstate]
      trivial
    | _ => exact Act.Aloof.pure hk
  emit port k hk := by
    apply Act.Aloof.pure
    exact emit_state (P := KeepsOut view) (fun _ _ => trivial) (fun _ => trivial) hk
  answer port k hk := by
    cases k with
    | transform f =>
      intro r
      dsimp only
      split
      · split <;> exact trivial
      · exact trivial
    | _ => exact fun r => hk
  receive port arrival k hk := by
    cases arrival with
    | none => exact Act.Aloof.pure hk
    | some m =>
      cases k with
      | collect store =>
        intro w
        exact ⟨hk, hk m w⟩
      | _ => exact Act.Aloof.pure hk

end Standard

/-! ## Independence -/

/-- **Parts of a graph that are not connected do not influence each other.** Take a graph that
has been built and can be run. Let a part of its components, with at least one sink, be
connected to none of the others and share no state with them, and let its filters make nothing
of their own numbers. There is then a graph that holds this part only, its components added in
the same order and connected in the same way. And if `k` rounds of the whole go well, so do `k`
rounds of each such graph. They leave the components of the part with the same flags and, up to
the end of the runs, in the same inner states; and the same calls were made of them, in the same
order, each of which was performed. If the graph of the part has finished after `j` rounds
already, it is still as it was then. -/
theorem Lifetime.parts_independent [Behavior κ ω] {b : Border κ ω σ} {part : ComponentId → Bool}
    {added : List ComponentId} {g : Graph κ ω} {env : Env ω} (h : Lifetime added g env)
    (hopen : g.state = .configuring) (hvalid : g.validate = .ok ())
    (hsplits : b.Splits part g.topology) (hprivate : b.Private) (haloof : b.Aloof)
    (hplaceless : b.Placeless (.among part g.components.length))
    (hsink : ∃ s ∈ g.sinks, part s = true) {patience k : Nat} (hwell : g.RunsWell patience k env) :
    let place := Placement.among part g.components.length
    (∃ g' env', b.Twins place g env g' env') ∧
      Enacted ((g.played patience k env).2.journal.calls g.id) (g.played patience k env).1
        (g.played patience k env).2 ∧
      ∀ g' env', b.Twins place g env g' env' →
        g'.validate = .ok () ∧ g'.RunsWell patience k env' ∧
        (∀ i, i < g'.components.length ↔ ∃ a, place a = some i) ∧
        (∀ a i, place a = some i → ∃ flags inner,
          (g.played patience k env).1.flags? a = some flags ∧
          (g'.played patience k env').1.flags? i = some flags ∧
          (g.unclosed patience k env).1.behaviors[a]? = some inner ∧
          (g'.unclosed patience k env').1.behaviors[i]? = some inner) ∧
        ((g.played patience k env).2.journal.services g.id).filterMap place.lift =
          (g'.played patience k env').2.journal.services g'.id ∧
        Enacted ((g'.played patience k env').2.journal.calls g'.id) (g'.played patience k env').1
          (g'.played patience k env').2 ∧
        ∀ j ≤ k, (g'.played patience j env').1.state = .finished →
          g'.played patience k env' = g'.played patience j env' ∧
          g'.unclosed patience k env' = g'.unclosed patience j env' := by
  intro place
  obtain ⟨s, hs, hpart⟩ := hsink
  have hlt : s < g.components.length := by
    obtain ⟨c, hc, -⟩ := g.topology_kind?_eq_some.mp (h.sane.wired.mem_sinks.mp hs)
    exact (List.getElem?_eq_some_iff.mp hc).1
  have hplaced : (place s).isSome = true :=
    Option.isSome_iff_exists.mpr ⟨_, Placement.among_of_lt hlt hpart⟩
  obtain ⟨g₀, env₀, htwins, -⟩ := h.hasTwin hopen hsplits hprivate haloof
  refine ⟨⟨g₀, env₀, htwins⟩, h.enacted_played hwell, ?_⟩
  intro g' env' htwins'
  obtain ⟨hvalid', hwell', hholds, hparts, hcalls, hsettled⟩ :=
    htwins'.alike hprivate hplaceless haloof hvalid ⟨s, hs, hplaced⟩ hwell
  obtain ⟨added', hlife'⟩ := htwins'.lifetime hprivate haloof
  exact ⟨hvalid', hwell', hholds, hparts, hcalls, hlife'.enacted_played hwell', hsettled⟩

/-- What two sinks have collected. -/
abbrev Shelves : Type := List Message × List Message

/-- Gives two words. -/
def wordsClass : ComponentClass (Standard Shelves) :=
  Standard.itemsClass "source.words" [.text "a", .text "b"]

/-- Gives three numbers. -/
def numbersClass : ComponentClass (Standard Shelves) :=
  Standard.itemsClass "source.numbers" [.int 1, .int 2, .int 3]

/-- Collects on the first shelf. -/
def leftClass : ComponentClass (Standard Shelves) :=
  Standard.collectClass "sink.left" fun m w => (w.1 ++ [m], w.2)

/-- Collects on the second shelf. -/
def rightClass : ComponentClass (Standard Shelves) :=
  Standard.collectClass "sink.right" fun m w => (w.1, w.2 ++ [m])

/-- Numbers go to the second shelf and words to the first. -/
def fanout : Graph (Standard Shelves) Shelves × Env Shelves :=
  Graph.build "fanout" .standard ([], [])
    [.add numbersClass "numbers" .nil, .add wordsClass "words" .nil, .add rightClass "right" .nil,
    .add leftClass "left" .nil, .link "words" "out" "left" "in",
    .link "numbers" "out" "right" "in"]

/-- The words of `fanout` alone. -/
def wordsOnly : Graph (Standard Shelves) Shelves × Env Shelves :=
  Graph.build "words" .standard ([], [])
    [.add wordsClass "words" .nil, .add leftClass "left" .nil, .link "words" "out" "left" "in"]

/-- The components of `fanout` that the words pass. -/
def passesWords (a : ComponentId) : Bool := a == 1 || a == 3

theorem among_passesWords :
    Placement.among passesWords 4 = (Placement.extend (fun _ => none) 1 0).extend 3 1 := by
  rw [Placement.among_succ (n := 3) rfl, Placement.among_succ_of_not (n := 2) rfl,
    Placement.among_succ (n := 1) rfl, Placement.among_succ_of_not (n := 0) rfl,
    Placement.among_zero]
  rfl

theorem fanout_lifetime : Lifetime [0, 1, 2, 3] fanout.1 fanout.2 := by
  refine .built (rfl : fanout = Graph.build _ _ _ _) ?_
  simp [Request.runs, Request.Fits]

theorem fanout_twins : (Standard.border Prod.fst).Twins (Placement.among passesWords 4)
    fanout.1 fanout.2 wordsOnly.1 wordsOnly.2 := by
  rw [among_passesWords]
  let place : Placement := (Placement.extend (fun _ => none) 1 0).extend 3 1
  have hunheard : ({ shared := ([], []) } : Env Shelves).journal.about 1 = [] := rfl
  have hcreate : (Standard.border Prod.fst).Twins _ _ _ _ _ :=
    .create (κ := Standard Shelves) "fanout" "words" .standard .standard rfl hunheard hunheard rfl id
  have hnumbers := hcreate.theirs numbersClass "numbers" .nil trivial
  have hwords := hnumbers.ours wordsClass "words" .nil trivial rfl
  have hright := hwords.theirs rightClass "right" .nil (fun _ _ => rfl)
  have hleft : (Standard.border Prod.fst).Twins place _ _ _ _ :=
    hright.ours leftClass "left" .nil (fun m _ _ h => congrArg (· ++ [m]) h) rfl
  have houtput : place.Sends ⟨1, 1, 0, .output⟩ ⟨1, 0, 0, .output⟩ := ⟨rfl, rfl, rfl, rfl⟩
  have hinput : place.Sends ⟨1, 3, 0, .input⟩ ⟨1, 1, 0, .input⟩ := ⟨rfl, rfl, rfl, rfl⟩
  have hjoin := hleft.join
    ⟨Graph.lookUp_issued (rfl : Graph.lookUp _ "words" "out" .output = .ok ⟨1, 1, 0, .output⟩),
      Graph.lookUp_issued (rfl : Graph.lookUp _ "left" "in" .input = .ok ⟨1, 3, 0, .input⟩)⟩
    houtput hinput rfl
  exact hjoin.joinOthers
    ⟨Graph.lookUp_issued (rfl : Graph.lookUp _ "numbers" "out" .output = .ok ⟨1, 0, 0, .output⟩),
      Graph.lookUp_issued (rfl : Graph.lookUp _ "right" "in" .input = .ok ⟨1, 2, 0, .input⟩)⟩
    rfl rfl rfl

theorem fanout_splits : (Standard.border Prod.fst).Splits passesWords fanout.1.topology where
  ours {a cls} hcls hpart := by
    have ha : a = 1 ∨ a = 3 := by simpa [passesWords] using hpart
    rcases ha with rfl | rfl
    · obtain rfl := Option.some.inj hcls
      trivial
    · obtain rfl := Option.some.inj hcls
      exact fun m _ _ h => congrArg (· ++ [m]) h
  theirs {a cls} hcls hpart := by
    have hlt : a < 4 := Topology.lt_of_class? hcls
    have hout : a ≠ 1 ∧ a ≠ 3 := by simpa [passesWords] using hpart
    obtain rfl | rfl : a = 0 ∨ a = 2 := by omega
    · obtain rfl := Option.some.inj hcls
      trivial
    · obtain rfl := Option.some.inj hcls
      exact fun _ _ => rfl
  apart := by decide

/-- After four rounds of `fanout` the words are where they are after four of their own, of which
the last was refused: the words had all come after three, when numbers were still to come. -/
theorem fanout_independent :
    Lifetime [0, 1, 2, 3] fanout.1 fanout.2 ∧ fanout.1.validate = .ok () ∧
      (Standard.border Prod.fst).Splits passesWords fanout.1.topology ∧
      fanout.1.RunsWell 5 4 fanout.2 ∧ wordsOnly.1.RunsWell 5 4 wordsOnly.2 ∧
      (fanout.1.played 5 4 fanout.2).1.flags? 3 = some [true] ∧
      (wordsOnly.1.played 5 4 wordsOnly.2).1.flags? 1 = some [true] ∧
      ((fanout.1.played 5 4 fanout.2).2.journal.services 1).filterMap
        (Placement.among passesWords 4).lift =
          (wordsOnly.1.played 5 4 wordsOnly.2).2.journal.services 1 ∧
      ((wordsOnly.1.played 5 4 wordsOnly.2).2.journal.services 1).length = 11 ∧
      (fanout.1.played 5 3 fanout.2).1.state = .running ∧
      (wordsOnly.1.played 5 3 wordsOnly.2).1.state = .finished ∧
      wordsOnly.1.played 5 4 wordsOnly.2 = wordsOnly.1.played 5 3 wordsOnly.2 := by
  have hwell : fanout.1.RunsWell 5 4 fanout.2 :=
    ⟨rfl, .inl rfl, rfl, .inl rfl, rfl, .inl rfl, rfl, .inr rfl, trivial⟩
  obtain ⟨-, -, halike⟩ := fanout_lifetime.parts_independent rfl rfl fanout_splits
    Standard.border_private Standard.border_aloof (Standard.border_placeless _)
    ⟨3, by decide, rfl⟩ hwell
  obtain ⟨-, hwell', -, hparts, hcalls, -, hsettled⟩ := halike _ _ fanout_twins
  obtain ⟨flags, inner, hflags, hflags', -⟩ := hparts 3 1 rfl
  obtain rfl : [true] = flags := Option.some.inj hflags
  exact ⟨fanout_lifetime, rfl, fanout_splits, hwell, hwell', hflags, hflags', hcalls, rfl, rfl, rfl,
    (hsettled 3 (by decide) rfl).1⟩

/-! ### Filters that tell their numbers -/

/-- Components that keep nothing and share nothing: sources have nothing to give, and filters
answer with their own numbers. -/
inductive Teller where
  | teller

instance : Behavior Teller Unit where
  setUp _ k := Act.pure (.ok (), k)
  emit _ k := Act.pure (.ok .again, k)
  answer _ k := .inputs fun id _ => .reply (.ok (.message (.int (.ofNat id)))) k
  consume _ _ k := Act.pure (.ok (), k)
  endOfStream _ k := Act.pure (.ok (), k)
  finalize k := Act.pure (.ok (), k)

namespace Teller

def sourceClass : ComponentClass Teller where
  name := "source"
  kind := .source
  ports := [⟨"out", .output⟩]
  blank := teller

def filterClass : ComponentClass Teller where
  name := "filter"
  kind := .filter
  ports := [⟨"in", .input⟩, ⟨"out", .output⟩]
  blank := teller

def sinkClass : ComponentClass Teller where
  name := "sink"
  kind := .sink
  ports := [⟨"in", .input⟩]
  blank := teller

/-- There is nothing to see. -/
def border : Border Teller Unit Unit := ⟨id, fun _ => True, fun _ => True⟩

theorem border_private : border.Private where
  setUp _ _ _ := Act.Alike.pure trivial
  emit _ _ _ := Act.Alike.pure trivial
  answer _ _ _ := .inputs fun _ _ => .reply _ trivial
  receive _ arrival _ _ := by
    cases arrival <;> exact Act.Alike.pure trivial

theorem border_aloof : border.Aloof where
  setUp _ _ _ := Act.Aloof.pure trivial
  emit _ _ _ := Act.Aloof.pure trivial
  answer _ _ _ := fun _ _ => trivial
  receive _ arrival _ _ := by
    cases arrival <;> exact Act.Aloof.pure trivial

/-- A source with a sink, and after them a source, a filter that tells its number, and a sink. -/
def whole : Graph Teller Unit × Env Unit :=
  Graph.build "whole" .standard ()
    [.add sourceClass "source" .nil, .add sinkClass "sink" .nil, .add sourceClass "giver" .nil,
    .add filterClass "teller" .nil, .add sinkClass "taker" .nil, .link "source" "out" "sink" "in",
    .link "giver" "out" "teller" "in", .link "teller" "out" "taker" "in"]

/-- The last three components of `whole` alone. -/
def alone : Graph Teller Unit × Env Unit :=
  Graph.build "alone" .standard ()
    [.add sourceClass "giver" .nil, .add filterClass "teller" .nil, .add sinkClass "taker" .nil,
    .link "giver" "out" "teller" "in", .link "teller" "out" "taker" "in"]

/-- The components of `whole` that are in `alone`. -/
def tells (a : ComponentId) : Bool := decide (2 ≤ a)

theorem whole_lifetime : Lifetime [0, 1, 2, 3, 4] whole.1 whole.2 := by
  refine .built (rfl : whole = Graph.build _ _ _ _) ?_
  simp [Request.runs, Request.Fits]

theorem whole_splits : border.Splits tells whole.1.topology where
  ours _ _ := trivial
  theirs _ _ := trivial
  apart := by decide

theorem among_tells : Placement.among tells 5 =
    ((Placement.extend (fun _ => none) 2 0).extend 3 1).extend 4 2 := by
  rw [Placement.among_succ (n := 4) rfl, Placement.among_succ (n := 3) rfl,
    Placement.among_succ (n := 2) rfl, Placement.among_succ_of_not (n := 1) rfl,
    Placement.among_succ_of_not (n := 0) rfl, Placement.among_zero]
  rfl

theorem whole_twins : border.Twins (Placement.among tells 5) whole.1 whole.2 alone.1 alone.2 := by
  rw [among_tells]
  let place : Placement := ((Placement.extend (fun _ => none) 2 0).extend 3 1).extend 4 2
  have hunheard : ({ shared := () } : Env Unit).journal.about 1 = [] := rfl
  have hcreate : border.Twins _ _ _ _ _ :=
    .create (κ := Teller) "whole" "alone" .standard .standard rfl hunheard hunheard rfl id
  have hothers := (hcreate.theirs sourceClass "source" .nil trivial).theirs sinkClass "sink" .nil
    trivial
  have hgiver := hothers.ours sourceClass "giver" .nil trivial rfl
  have hteller := hgiver.ours filterClass "teller" .nil trivial rfl
  have htaker : border.Twins place _ _ _ _ := hteller.ours sinkClass "taker" .nil trivial rfl
  have hothersJoined := htaker.joinOthers
    ⟨Graph.lookUp_issued (rfl : Graph.lookUp _ "source" "out" .output = .ok ⟨1, 0, 0, .output⟩),
      Graph.lookUp_issued (rfl : Graph.lookUp _ "sink" "in" .input = .ok ⟨1, 1, 0, .input⟩)⟩
    rfl rfl rfl
  have hsent : place.Sends ⟨1, 2, 0, .output⟩ ⟨1, 0, 0, .output⟩ ∧
      place.Sends ⟨1, 3, 0, .input⟩ ⟨1, 1, 0, .input⟩ ∧
      place.Sends ⟨1, 3, 1, .output⟩ ⟨1, 1, 1, .output⟩ ∧
      place.Sends ⟨1, 4, 0, .input⟩ ⟨1, 2, 0, .input⟩ :=
    ⟨⟨rfl, rfl, rfl, rfl⟩, ⟨rfl, rfl, rfl, rfl⟩, ⟨rfl, rfl, rfl, rfl⟩, ⟨rfl, rfl, rfl, rfl⟩⟩
  have hjoined := hothersJoined.join
    ⟨Graph.lookUp_issued (rfl : Graph.lookUp _ "giver" "out" .output = .ok ⟨1, 2, 0, .output⟩),
      Graph.lookUp_issued (rfl : Graph.lookUp _ "teller" "in" .input = .ok ⟨1, 3, 0, .input⟩)⟩
    hsent.1 hsent.2.1 rfl
  exact hjoined.join
    ⟨Graph.lookUp_issued (rfl : Graph.lookUp _ "teller" "out" .output = .ok ⟨1, 3, 1, .output⟩),
      Graph.lookUp_issued (rfl : Graph.lookUp _ "taker" "in" .input = .ok ⟨1, 4, 0, .input⟩)⟩
    hsent.2.2.1 hsent.2.2.2 rfl

/-- A filter that tells its own number tells another one in the whole than alone, though the part
shares no state with the others and is not connected to them. So after one round other calls
have been made of its sink. -/
theorem numbers_differ :
    Lifetime [0, 1, 2, 3, 4] whole.1 whole.2 ∧ whole.1.state = .configuring ∧
      whole.1.validate = .ok () ∧ border.Splits tells whole.1.topology ∧ border.Private ∧
      border.Aloof ∧ (∃ s ∈ whole.1.sinks, tells s = true) ∧ whole.1.RunsWell 5 1 whole.2 ∧
      border.Twins (.among tells 5) whole.1 whole.2 alone.1 alone.2 ∧
      (((whole.1.played 5 1 whole.2).2.journal.services 1).filterMap
        (Placement.among tells 5).lift).getLast? = some (2, .consumed "in" (.int 3) none) ∧
      ((alone.1.played 5 1 alone.2).2.journal.services 1).getLast? =
        some (2, .consumed "in" (.int 1) none) ∧
      ((whole.1.played 5 1 whole.2).2.journal.services 1).filterMap
        (Placement.among tells 5).lift ≠ (alone.1.played 5 1 alone.2).2.journal.services 1 := by
  have hwhole : (((whole.1.played 5 1 whole.2).2.journal.services 1).filterMap
      (Placement.among tells 5).lift).getLast? = some (2, .consumed "in" (.int 3) none) := rfl
  have halone : ((alone.1.played 5 1 alone.2).2.journal.services 1).getLast? =
      some (2, .consumed "in" (.int 1) none) := rfl
  refine ⟨whole_lifetime, rfl, rfl, whole_splits, border_private, border_aloof, ⟨4, by decide, rfl⟩,
    ⟨rfl, .inl rfl, trivial⟩, whole_twins, hwhole, halone, ?_⟩
  intro heq
  rw [heq, halone] at hwhole
  simp at hwhole

end Teller

end PullGraph
