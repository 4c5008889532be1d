import PullGraph.Run.Round
import PullGraph.Proofs.Rounds
import PullGraph.Proofs.Scenes

/-! # Closing a graph

A graph whose components are in place and not finalized is closed by finalizing each of
them, the last first: `Graph.Closes` says what is left of it, what the journal says and
which failures are reported, and that the components did what the journal says. Closing a
graph that has been closed does nothing at all.
-/
namespace PullGraph

variable {κ ω : Type}

/-- What the journal says of components that are finalized with given outcomes, in the
order in which they are in a graph. -/
def farewells (graph : GraphId) (ends : List (Component κ × Option Fault)) : List Event :=
  ends.reverse.map fun x => .call graph x.1.id (.finalized x.2)

/-- The failures among them, in the order in which they are finalized. -/
def failuresOf (ends : List (Component κ × Option Fault)) : List FinalizeFailure :=
  ends.reverse.filterMap fun x => x.2.map fun fault => ⟨x.1.id, x.1.name, fault⟩

@[simp] theorem farewells_cons (graph : GraphId) (x : Component κ × Option Fault)
    (ends : List (Component κ × Option Fault)) :
    farewells graph (x :: ends) = farewells graph ends ++ [.call graph x.1.id (.finalized x.2)] := by
  simp [farewells]

@[simp] theorem failuresOf_cons (x : Component κ × Option Fault)
    (ends : List (Component κ × Option Fault)) :
    failuresOf (x :: ends) =
      failuresOf ends ++ (x.2.map fun fault => ⟨x.1.id, x.1.name, fault⟩).toList := by
  cases h : x.2 <;> simp [failuresOf, h]

section Finalizing

variable [Behavior κ ω]

theorem Component.finalize_finalized {c : Component κ} (h : c.state = .finalized) (env : Env ω) :
    c.finalize env = (none, c, env) := by
  rw [finalize, if_pos h]

/-- Finalizing a component that is in place calls it, once. -/
theorem Component.finalize_spec {c : Component κ} (hstate : c.state ≠ .finalized)
    (hb : c.behavior.isSome = true) (env : Env ω) :
    ∃ k, (c.finalize env).2.1 = { c with behavior := some k, state := .finalized } ∧
      (c.finalize env).2.2.journal.about c.graph =
        env.journal.about c.graph ++ [.call c.graph c.id (.finalized (c.finalize env).1)] := by
  obtain ⟨k, hk⟩ := Option.isSome_iff_exists.mp hb
  simp only [finalize, if_neg hstate, hk]
  exact ⟨_, rfl, by simp⟩

/-- What finalizing a list of components does. -/
structure Finalizes (graph : GraphId) (cs : List (Component κ)) (env : Env ω)
    (failures : List FinalizeFailure) (cs' : List (Component κ)) (env' : Env ω) : Prop where
  finalized : ∀ c ∈ cs', c.state = .finalized
  inPlace : ∀ c ∈ cs', c.behavior.isSome = true
  ends : ∃ ends : List (Component κ × Option Fault), ends.map Prod.fst = cs ∧
    env'.journal.about graph = env.journal.about graph ++ farewells graph ends ∧
    failures = failuresOf ends

omit [Behavior κ ω] in
theorem Finalizes.nil (graph : GraphId) (env : Env ω) :
    Finalizes graph ([] : List (Component κ)) env [] [] env where
  finalized := by simp
  inPlace := by simp
  ends := ⟨[], rfl, by simp [farewells], rfl⟩

omit [Behavior κ ω] in
/-- One more component is finalized after those that follow it. -/
theorem Finalizes.cons {c : Component κ} {cs cs' : List (Component κ)} {env env' env'' : Env ω}
    {failures : List FinalizeFailure} (h : Finalizes c.graph cs env failures cs' env') (k : κ)
    {fault : Option Fault}
    (habout : env''.journal.about c.graph =
      env'.journal.about c.graph ++ [.call c.graph c.id (.finalized fault)]) :
    Finalizes c.graph (c :: cs) env
      (failures ++ (fault.map fun fault => ⟨c.id, c.name, fault⟩).toList)
      ({ c with behavior := some k, state := .finalized } :: cs') env'' := by
  obtain ⟨hfinalized, hinPlace, ends, rfl, habout', rfl⟩ := h
  refine ⟨?finalized, ?inPlace, (c, fault) :: ends, rfl, ?about, ?failures⟩
  case finalized => exact List.forall_mem_cons.mpr ⟨rfl, hfinalized⟩
  case inPlace => exact List.forall_mem_cons.mpr ⟨rfl, hinPlace⟩
  case about => rw [habout, habout', farewells_cons, List.append_assoc]
  case failures => rw [failuresOf_cons]

namespace Graph

/-- Components in place are finalized from the last to the first, whatever becomes of it. -/
theorem finalizeList_finalizes {graph : GraphId} (name : String) (cs : List (Component κ))
    (env : Env ω)
    (h : ∀ c ∈ cs, c.graph = graph ∧ c.state ≠ .finalized ∧ c.behavior.isSome = true) :
    Finalizes graph cs env (finalizeList name cs env).1 (finalizeList name cs env).2.1
      (finalizeList name cs env).2.2 := by
  induction cs with
  | nil => exact .nil graph env
  | cons c cs ih =>
    obtain ⟨⟨rfl, hstate, hb⟩, hrest⟩ := List.forall_mem_cons.mp h
    -- what follows `c` is finalized before it
    have hcs := ih hrest
    unfold finalizeList
    generalize finalizeList name cs env = x at hcs ⊢
    obtain ⟨failures, cs', env'⟩ := x
    obtain ⟨k, hk, hcall⟩ := Component.finalize_spec hstate hb env'
    dsimp only at hcs ⊢
    generalize c.finalize env' = y at hk hcall ⊢
    obtain ⟨fault, c', env''⟩ := y
    subst hk
    cases fault with
    | none =>
      have hcons := hcs.cons k hcall
      rw [Option.map_none, Option.toList_none, List.append_nil] at hcons
      exact hcons
    | some fault => exact hcs.cons k ((env''.about_note _ c.graph).trans hcall)

theorem finalizeList_finalized (name : String) {cs : List (Component κ)} (env : Env ω)
    (h : ∀ c ∈ cs, c.state = .finalized) : finalizeList name cs env = ([], cs, env) := by
  induction cs with
  | nil => rfl
  | cons c cs ih =>
    obtain ⟨hc, hcs⟩ := List.forall_mem_cons.mp h
    rw [finalizeList, ih hcs]
    dsimp only
    rw [Component.finalize_finalized hc]

/-- What finalizing a component leaves alone, finalizing a list of them does too. -/
theorem finalizeList_map {α : Type} {f : Component κ → α}
    (h : ∀ (c : Component κ) (env : Env ω), f (c.finalize env).2.1 = f c) (name : String)
    (cs : List (Component κ)) (env : Env ω) :
    (finalizeList name cs env).2.1.map f = cs.map f := by
  induction cs with
  | nil => rfl
  | cons c cs ih =>
    unfold finalizeList
    generalize finalizeList name cs env = x at ih ⊢
    obtain ⟨failures, cs', env'⟩ := x
    have hc := h c env'
    dsimp only at ih ⊢
    generalize c.finalize env' = y at hc ⊢
    obtain ⟨fault, c', env''⟩ := y
    dsimp only at hc ⊢
    cases fault <;> simp [hc, ih]

/-- Finalizing components leaves the topology alone. -/
theorem finalizeAll_topology (g : Graph κ ω) (env : Env ω) :
    (g.finalizeAll env).graph.topology = g.topology := by
  simp only [topology, finalizeAll, finalizeList_map Component.outline_finalize]

/-- To finalize a component is to let it do what it does then. One that has been finalized
or whose inner state is away is not called, and nothing says that it was. -/
theorem finalize_enacts {g : Graph κ ω} {before after : List (Component κ)} {c : Component κ}
    (hg : g.components = before ++ c :: after) (hid : c.id = before.length)
    (hgraph : c.graph = g.id) (env : Env ω) :
    g.Enacts env { g with components := before ++ (c.finalize env).2.1 :: after }
      (c.finalize env).2.2 := by
  unfold Component.finalize
  split
  · exact .of_eq (by simp [behaviors, hg]) rfl rfl
  · cases hk : c.behavior with
    | none =>
      refine .of_eq (by simp [behaviors, hg, hk]) rfl ?_
      exact Journal.calls_of_about_eq (env.about_note _ g.id)
    | some k =>
      have hat : g.behaviors[c.id]? = some (some k) := by simp [behaviors, hg, hid, hk]
      let result := Component.faultOf (Behavior.finalize k env.shared).value.1
      have habout : (((env.note (.finalizing c.name)).perform (Behavior.finalize k)).2.record
          (.call c.graph c.id (.finalized result))).journal.about g.id =
            env.journal.about g.id ++ [.call g.id c.id (.finalized result)] := by
        simp [hgraph]
      refine .of_react (Journal.calls_of_about habout) (fun away hrests => ?_) hat
        (by simp [behaviors, hg, hid]; rfl) rfl
      exact .finalized hrests

/-- So it is for all components from some position on; the last comes first. -/
theorem finalizeList_enacts {g : Graph κ ω} (hw : g.topology.Wired) (name : String)
    {before cs : List (Component κ)} (hg : g.components = before ++ cs) (env : Env ω) :
    g.Enacts env { g with components := before ++ (finalizeList name cs env).2.1 }
      (finalizeList name cs env).2.2 := by
  induction cs generalizing before env with
  | nil => exact .of_eq (by simp [behaviors, finalizeList, hg]) rfl rfl
  | cons c cs ih =>
    have houtline : g.topology.components[before.length]? = some c.outline := by simp [hg]
    obtain ⟨hid, hgraph⟩ := hw.positions before.length c.outline houtline
    have hlater : g.components = before ++ [c] ++ cs := by rw [hg, List.append_cons]
    have hcs := ih hlater env
    have htopology : { g with components := before ++ [c] ++ (finalizeList name cs env).2.1 }.topology
        = g.topology := by
      simp [topology, hg, finalizeList_map Component.outline_finalize]
    unfold finalizeList
    generalize finalizeList name cs env = x at hcs htopology ⊢
    obtain ⟨failures, cs', env'⟩ := x
    dsimp only at hcs htopology ⊢
    have hc := finalize_enacts (g := { g with components := before ++ [c] ++ cs' })
      (List.append_cons before c cs').symm hid hgraph env'
    have hboth := hcs.trans htopology rfl hc
    generalize c.finalize env' = y at hboth ⊢
    obtain ⟨fault, c', env''⟩ := y
    cases fault with
    | none => exact hboth
    | some fault =>
      obtain ⟨calls, hcalls, hplays⟩ := hboth
      refine ⟨calls, ?_, hplays⟩
      exact (Journal.calls_of_about_eq (env''.about_note _ g.id)).trans hcalls

theorem finalizeAll_enacts {g : Graph κ ω} (hw : g.topology.Wired) (env : Env ω) :
    g.Enacts env (g.finalizeAll env).graph (g.finalizeAll env).env :=
  finalizeList_enacts hw g.name (List.nil_append g.components).symm env

/-- What closing a graph does to it, and what it reports. -/
structure Closes (g : Graph κ ω) (env : Env ω) (failures : List FinalizeFailure)
    (g' : Graph κ ω) (env' : Env ω) : Prop where
  rest : g' = { g with components := g'.components }
  topology : g'.topology = g.topology
  finalized : ∀ c ∈ g'.components, c.state = .finalized
  inPlace : g'.InPlace
  ends : ∃ ends : List (Component κ × Option Fault), ends.map Prod.fst = g.components ∧
    env'.journal.about g.id = env.journal.about g.id ++ farewells g.id ends ∧
    failures = failuresOf ends
  enacts : g.Enacts env g' env'

section

variable {g g' : Graph κ ω} {env env' : Env ω} {failures : List FinalizeFailure} {notice : Notice}

/-- People may be told something before. -/
theorem Closes.of_note (h : g.Closes (env.note notice) failures g' env') :
    g.Closes env failures g' env' := by
  obtain ⟨calls, hcalls, hperforms⟩ := h.enacts
  rw [Journal.calls_of_about_eq (env.about_note notice g.id)] at hcalls
  have hends := h.ends
  rw [env.about_note] at hends
  exact ⟨h.rest, h.topology, h.finalized, h.inPlace, hends, calls, hcalls, hperforms⟩

/-- People may be told something afterwards. -/
theorem Closes.note (h : g.Closes env failures g' env') (notice : Notice) :
    g.Closes env failures g' (env'.note notice) := by
  obtain ⟨calls, hcalls, hperforms⟩ := h.enacts
  rw [← Journal.calls_of_about_eq (env'.about_note notice g.id)] at hcalls
  have hends := h.ends
  rw [← env'.about_note notice] at hends
  exact ⟨h.rest, h.topology, h.finalized, h.inPlace, hends, calls, hcalls, hperforms⟩

end

/-- Finalizing all components of a graph that are in place closes it. -/
theorem finalizeAll_closes {g : Graph κ ω} (hw : g.topology.Wired) (hplace : g.InPlace)
    (hstate : ∀ c ∈ g.components, c.state ≠ .finalized) (env : Env ω) :
    g.Closes env (g.finalizeAll env).result (g.finalizeAll env).graph (g.finalizeAll env).env := by
  have hgraph : ∀ c ∈ g.components, c.graph = g.id := by
    intro c hc
    obtain ⟨i, hi⟩ := List.mem_iff_getElem?.mp hc
    have houtline : g.topology.components[i]? = some c.outline := by simp [hi]
    exact (hw.positions i c.outline houtline).2
  obtain ⟨hfinalized, hinPlace, hends⟩ := finalizeList_finalizes g.name g.components env
    fun c hc => ⟨hgraph c hc, hstate c hc, hplace c hc⟩
  exact ⟨rfl, g.finalizeAll_topology env, hfinalized, hinPlace, hends, finalizeAll_enacts hw env⟩

/-- Finalizing the components of a closed graph does nothing. -/
theorem finalizeAll_finalized {g : Graph κ ω} (h : ∀ c ∈ g.components, c.state = .finalized)
    (env : Env ω) : g.finalizeAll env = ⟨[], g, env⟩ := by
  simp only [finalizeAll, finalizeList_finalized g.name env h]

/-- To end a graph that is not over is to close it. -/
theorem teardown_open {g : Graph κ ω} (hopen : g.state.isOver = false) (env : Env ω) :
    g.teardown env =
      (g.close .tornDown (env.note (.tearingDown g.name))).map TeardownError.check := by
  unfold teardown
  cases hstate : g.state with
  | configuring | running => rfl
  | finished | cancelled | faulted | tornDown =>
    rw [hstate] at hopen
    cases hopen

/-- To end a graph that has been closed does nothing. -/
theorem teardown_over {g : Graph κ ω} (hover : g.state.isOver = true)
    (h : ∀ c ∈ g.components, c.state = .finalized) (env : Env ω) :
    g.teardown env = ⟨.ok (), g, env.note (.tearingDown g.name)⟩ := by
  unfold teardown
  cases hstate : g.state with
  | configuring | running =>
    rw [hstate] at hover
    cases hover
  | finished | cancelled | faulted | tornDown =>
    dsimp only
    rw [finalizeAll_finalized h]
    rfl

/-! ## Runs leave the topology alone -/

theorem Advance.topology_eq {g g' : Graph κ ω} {env env' : Env ω} (h : Advance g env g' env') :
    g'.topology = g.topology := by
  cases h with
  | remark => rfl
  | tally => rfl
  | pull patience hdue _ => exact (hdue.passes patience env).leads.topology
  | close => exact finalizeAll_topology _ env

theorem Course.topology_eq {g g' : Graph κ ω} {env env' : Env ω} {returned : Bool}
    (h : Course g env returned g' env') : g'.topology = g.topology := by
  induction h with
  | done => rfl
  | pause => rfl
  | @broken g env id index patience hdue _ => exact (hdue.passes patience env).leads.topology
  | next hstep _ ih => exact ih.trans hstep.topology_eq

theorem Ran.topology_eq {g g' : Graph κ ω} {env env' : Env ω} {returned : Bool}
    (h : Ran g env returned g' env') : g'.topology = g.topology := by
  cases h with
  | unchanged => rfl
  | resumed _ hcourse => exact hcourse.topology_eq
  | started _ hvalid hcourse => exact hcourse.topology_eq.trans (start_topology hvalid env)

theorem teardown_topology (g : Graph κ ω) (env : Env ω) :
    (g.teardown env).graph.topology = g.topology := by
  unfold teardown
  refine (finalizeAll_topology _ _).trans ?_
  cases g.state <;> rfl

end Graph

end Finalizing
end PullGraph
