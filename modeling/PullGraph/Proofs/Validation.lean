import PullGraph.Proofs.Flow

/-! # The check and what it checks

`Graph.validate` walks upstream from the input ports of the sinks and remembers for each
component it is done with whether a source feeds it. Here the walk is tied to paths: a
mark that says so is right, a component that the walk comes by while it is still at
feeders of it lies on a cycle, and the walk goes as deep as it has to. So the check
passes iff the topology is well formed, and every error it reports is true.
-/
namespace PullGraph

open Relation

namespace Graph

variable {κ ω : Type} {g : Graph κ ω}

/-! ## The walk marks more and more components -/

/-- As many marks, and no more of them to be visited. -/
structure Shrinks (marks marks' : List Mark) : Prop where
  length : marks'.length = marks.length
  count : marks'.count .unvisited ≤ marks.count .unvisited

theorem Shrinks.refl (marks : List Mark) : Shrinks marks marks := ⟨rfl, Nat.le_refl _⟩

theorem Shrinks.trans {marks marks' marks'' : List Mark} (h : Shrinks marks marks')
    (h' : Shrinks marks' marks'') : Shrinks marks marks'' :=
  ⟨h'.length.trans h.length, Nat.le_trans h'.count h.count⟩

theorem Shrinks.set (marks : List Mark) (id : ComponentId) {m : Mark} (hm : m ≠ .unvisited) :
    Shrinks marks (marks.set id m) := by
  refine ⟨List.length_set, ?_⟩
  rcases Nat.lt_or_ge id marks.length with h | h
  · rw [List.count_set h]
    simp [hm]
  · exact Nat.le_of_eq (congrArg _ (List.set_eq_of_length_le h))

/-- To visit a component is to have one less to be visited. -/
theorem count_set_visiting {marks : List Mark} {id : ComponentId}
    (h : marks[id]? = some .unvisited) :
    (marks.set id .visiting).count .unvisited + 1 = marks.count .unvisited := by
  obtain ⟨hlt, hget⟩ := List.getElem?_eq_some_iff.mp h
  have hpos : 0 < marks.count .unvisited :=
    List.count_pos_iff.mpr (List.mem_of_getElem? h)
  rw [List.count_set hlt, hget]
  simp
  omega

/-- The steps of a visit to the feeders of some ports that comes to its end. -/
theorem visitPorts_cons_eq_ok {c : Component κ}
    {visit : ComponentId → List Mark → Except ValidationError (Bool × List Mark)} {p : Port}
    {ps : List Port} {marks marks' : List Mark} {fed : Bool} :
    visitPorts g c visit (p :: ps) marks = .ok (fed, marks') ↔
      ∃ a, g.feeder c p = .ok a ∧ ∃ fed₁ marks₁, visit a marks = .ok (fed₁, marks₁) ∧
        ∃ fed₂, visitPorts g c visit ps marks₁ = .ok (fed₂, marks') ∧ fed = (fed₁ || fed₂) := by
  rw [visitPorts]
  simp only [bind_eq_ok, Prod.exists]
  constructor
  · rintro ⟨a, ha, fed₁, marks₁, hv, fed₂, marks₂, hr, h⟩
    obtain ⟨rfl, rfl⟩ := Prod.mk.inj (Except.ok.inj h)
    exact ⟨a, ha, fed₁, marks₁, hv, fed₂, hr, rfl⟩
  · rintro ⟨a, ha, fed₁, marks₁, hv, fed₂, hr, rfl⟩
    exact ⟨a, ha, fed₁, marks₁, hv, fed₂, marks', hr, rfl⟩

/-- The steps of one that does not. -/
theorem visitPorts_cons_eq_error {c : Component κ}
    {visit : ComponentId → List Mark → Except ValidationError (Bool × List Mark)} {p : Port}
    {ps : List Port} {marks : List Mark} {e : ValidationError} :
    visitPorts g c visit (p :: ps) marks = .error e ↔
      g.feeder c p = .error e ∨ ∃ a, g.feeder c p = .ok a ∧
        (visit a marks = .error e ∨ ∃ fed₁ marks₁, visit a marks = .ok (fed₁, marks₁) ∧
          visitPorts g c visit ps marks₁ = .error e) := by
  rw [visitPorts]
  simp only [bind_eq_error, Prod.exists]
  refine or_congr Iff.rfl (exists_congr fun a => and_congr Iff.rfl (or_congr Iff.rfl ?_))
  refine exists_congr fun fed₁ => exists_congr fun marks₁ => and_congr Iff.rfl ?_
  constructor
  · rintro (h | ⟨_, _, _, h⟩)
    · exact h
    · cases h
  · exact Or.inl

theorem visitPorts_shrinks {c : Component κ}
    {visit : ComponentId → List Mark → Except ValidationError (Bool × List Mark)}
    (hvisit : ∀ a marks fed marks', visit a marks = .ok (fed, marks') → Shrinks marks marks')
    (ps : List Port) {marks marks' : List Mark} {fed : Bool}
    (h : visitPorts g c visit ps marks = .ok (fed, marks')) : Shrinks marks marks' := by
  induction ps generalizing marks fed with
  | nil =>
    obtain ⟨-, rfl⟩ := Prod.mk.inj (Except.ok.inj h)
    exact .refl _
  | cons p ps ih =>
    obtain ⟨a, -, fed₁, marks₁, hv, fed₂, hr, -⟩ := visitPorts_cons_eq_ok.mp h
    exact (hvisit a marks fed₁ marks₁ hv).trans (ih hr)

/-- What a visit does to a component that is there and to be visited, by its kind. -/
theorem visit_unvisited {id : ComponentId} {c : Component κ} {marks : List Mark}
    (hc : g.components[id]? = some c) (hm : marks[id]? = some .unvisited) (depth : Nat) :
    g.visit depth id marks =
      match c.kind, depth with
      | .source, _ => .ok (true, marks.set id (.done true))
      | .sink, _ => .ok (false, marks.set id (.done false))
      | .filter, 0 => .error (.cycle c.name)
      | .filter, depth + 1 =>
        visitPorts g c (g.visit depth) (inputPorts c) (marks.set id .visiting) >>=
          fun r => .ok (r.1, r.2.set id (.done r.1)) := by
  unfold visit
  simp only [hc, hm]
  cases c.kind <;> cases depth <;> rfl

/-- There is a mark for every component. -/
theorem exists_mark {id : ComponentId} {c : Component κ} {marks : List Mark}
    (hlen : marks.length = g.components.length) (hc : g.components[id]? = some c) :
    ∃ m, marks[id]? = some m := by
  have hlt : id < marks.length := hlen ▸ (List.getElem?_eq_some_iff.mp hc).1
  exact ⟨marks[id], List.getElem?_eq_getElem hlt⟩

theorem visit_absent {id : ComponentId} {marks : List Mark} (hc : g.components[id]? = none)
    (depth : Nat) : g.visit depth id marks = .ok (false, marks) := by
  unfold visit
  simp only [hc]

theorem visit_done {id : ComponentId} {c : Component κ} {marks : List Mark} {fed : Bool}
    (hc : g.components[id]? = some c) (hm : marks[id]? = some (.done fed)) (depth : Nat) :
    g.visit depth id marks = .ok (fed, marks) := by
  unfold visit
  simp only [hc, hm]

theorem visit_visiting {id : ComponentId} {c : Component κ} {marks : List Mark}
    (hc : g.components[id]? = some c) (hm : marks[id]? = some .visiting) (depth : Nat) :
    g.visit depth id marks = .error (.cycle c.name) := by
  unfold visit
  simp only [hc, hm]

theorem visit_shrinks {depth : Nat} {id : ComponentId} {marks marks' : List Mark} {fed : Bool}
    (h : g.visit depth id marks = .ok (fed, marks')) : Shrinks marks marks' := by
  induction depth using Nat.strongRecOn generalizing id marks fed marks' with
  | ind depth ih =>
    unfold visit at h
    split at h
    · obtain ⟨-, rfl⟩ := Prod.mk.inj (Except.ok.inj h)
      exact .refl _
    split at h
    · obtain ⟨-, rfl⟩ := Prod.mk.inj (Except.ok.inj h)
      exact .refl _
    · cases h
    split at h
    · obtain ⟨-, rfl⟩ := Prod.mk.inj (Except.ok.inj h)
      exact .set marks id (by simp)
    · obtain ⟨-, rfl⟩ := Prod.mk.inj (Except.ok.inj h)
      exact .set marks id (by simp)
    split at h
    · cases h
    · rename_i depth
      obtain ⟨⟨fed₁, marks₁⟩, hports, h⟩ := bind_eq_ok.mp h
      obtain ⟨-, rfl⟩ := Prod.mk.inj (Except.ok.inj h)
      have hfeeders := visitPorts_shrinks (fun _ _ _ _ => ih depth (Nat.lt_succ_self depth)) _ hports
      exact (Shrinks.set marks id (by simp)).trans (hfeeders.trans (.set marks₁ id (by simp)))

/-! ## The bound on the depth does not matter -/

theorem visitPorts_congr {c : Component κ}
    {visit visit' : ComponentId → List Mark → Except ValidationError (Bool × List Mark)}
    (bound : Nat)
    (hshrinks : ∀ a marks fed marks', visit a marks = .ok (fed, marks') → Shrinks marks marks')
    (hvisit : ∀ a marks, marks.length = g.components.length → marks.count .unvisited ≤ bound →
      visit a marks = visit' a marks)
    (ps : List Port) {marks : List Mark} (hlen : marks.length = g.components.length)
    (hcount : marks.count .unvisited ≤ bound) :
    visitPorts g c visit ps marks = visitPorts g c visit' ps marks := by
  induction ps generalizing marks with
  | nil => rfl
  | cons p ps ih =>
    rw [visitPorts, visitPorts]
    refine congrArg (g.feeder c p >>= ·) (funext fun a => ?_)
    rw [← hvisit a marks hlen hcount]
    cases hv : visit a marks with
    | error e => rfl
    | ok r =>
      obtain ⟨fed, marks₁⟩ := r
      obtain ⟨hlen₁, hcount₁⟩ := hshrinks a marks fed marks₁ hv
      change visitPorts g c visit ps marks₁ >>= _ = visitPorts g c visit' ps marks₁ >>= _
      rw [ih (hlen₁.trans hlen) (Nat.le_trans hcount₁ hcount)]

/-- **The walk goes as deep as it has to.**  A bound on its depth that is not below the
number of components to be visited has no influence. -/
theorem visit_depth_irrelevant {depth depth' : Nat} {id : ComponentId} {marks : List Mark}
    (hlen : marks.length = g.components.length) (h : marks.count .unvisited ≤ depth)
    (h' : marks.count .unvisited ≤ depth') : g.visit depth id marks = g.visit depth' id marks := by
  induction depth using Nat.strongRecOn generalizing depth' id marks with
  | ind depth ih =>
    cases hc : g.components[id]? with
    | none => rw [visit_absent hc, visit_absent hc]
    | some c =>
      obtain ⟨m, hm⟩ := exists_mark hlen hc
      cases m with
      | done fed => rw [visit_done hc hm, visit_done hc hm]
      | visiting => rw [visit_visiting hc hm, visit_visiting hc hm]
      | unvisited =>
        -- the visit takes one unit of depth and one of the components to be visited
        have hcount := count_set_visiting hm
        obtain ⟨d, rfl⟩ : ∃ d, depth = d + 1 := ⟨depth - 1, by omega⟩
        obtain ⟨d', rfl⟩ : ∃ d', depth' = d' + 1 := ⟨depth' - 1, by omega⟩
        have hfeeders : visitPorts g c (g.visit d) (inputPorts c) (marks.set id .visiting) =
            visitPorts g c (g.visit d') (inputPorts c) (marks.set id .visiting) := by
          refine visitPorts_congr (min d d') (fun _ _ _ _ => visit_shrinks) ?_ _
            (List.length_set.trans hlen) (by omega)
          intro a marks₁ hlen₁ hcount₁
          exact ih d (by omega) hlen₁ (by omega) (by omega)
        rw [visit_unvisited hc hm, visit_unvisited hc hm]
        cases c.kind with
        | source => rfl
        | sink => rfl
        | filter => exact congrArg (· >>= _) hfeeders

/-! ## What the walk finds -/

/-- The marks of components that the walk is done with are right. -/
structure Marked (g : Graph κ ω) (marks : List Mark) : Prop where
  length : marks.length = g.components.length
  done : ∀ (i : ComponentId) (fed : Bool), marks[i]? = some (.done fed) →
    g.topology.Sound i ∧ (fed = true ↔ g.topology.Fed i)

/-- How a part of the walk changes the marks: it is done with some more components, and
is back where it was. -/
structure Visits (g : Graph κ ω) (marks marks' : List Mark) : Prop extends
    Shrinks marks marks' where
  marked : Marked g marks'
  visiting : ∀ i : ComponentId, marks'[i]? = some .visiting ↔ marks[i]? = some .visiting

/-- Faults that can lie upstream of a component, or in it, as the check reports them. -/
inductive Objects (g : Graph κ ω) (id : ComponentId) : ValidationError → Prop where
  | cycle {i : ComponentId} {c : Component κ} (component : g.components[i]? = some c)
      (path : ReflTransGen g.topology.Feeds i id) (cycle : TransGen g.topology.Feeds i i) :
      Objects g id (.cycle c.name)
  | unconnected {i : ComponentId} {c : Component κ} {p : Port}
      (component : g.components[i]? = some c) (path : ReflTransGen g.topology.Feeds i id)
      (port : p ∈ inputPorts c) (unconnected : p.connection = none) :
      Objects g id (.unconnectedInput c.name p.name)

theorem Objects.of_path {a b : ComponentId} {e : ValidationError} (h : Objects g a e)
    (hab : ReflTransGen g.topology.Feeds a b) : Objects g b e := by
  cases h with
  | cycle hc hpath hcycle => exact .cycle hc (hpath.trans hab) hcycle
  | unconnected hc hpath hp hnone => exact .unconnected hc (hpath.trans hab) hp hnone

/-- What the walk from a component answers. -/
def Answers (g : Graph κ ω) (id : ComponentId) (marks : List Mark) :
    Except ValidationError (Bool × List Mark) → Prop
  | .ok (fed, marks') =>
    Visits g marks marks' ∧ g.topology.Sound id ∧ (fed = true ↔ g.topology.Fed id)
  | .error e => Objects g id e

theorem Visits.refl {marks : List Mark} (h : Marked g marks) : Visits g marks marks :=
  ⟨.refl marks, h, fun _ => Iff.rfl⟩

theorem Visits.trans {marks marks' marks'' : List Mark} (h : Visits g marks marks')
    (h' : Visits g marks' marks'') : Visits g marks marks'' :=
  ⟨h.toShrinks.trans h'.toShrinks, h'.marked, fun i => (h'.visiting i).trans (h.visiting i)⟩

theorem Marked.set_done {marks : List Mark} (h : Marked g marks) {id : ComponentId} {fed : Bool}
    (hsound : g.topology.Sound id) (hfed : fed = true ↔ g.topology.Fed id) :
    Marked g (marks.set id (.done fed)) := by
  refine ⟨List.length_set.trans h.length, fun i fed' hi => ?_⟩
  rw [List.getElem?_set] at hi
  split at hi
  · rename_i heq
    subst heq
    split at hi
    · obtain rfl : fed = fed' := by simpa using hi
      exact ⟨hsound, hfed⟩
    · cases hi
  · exact h.done i fed' hi

theorem Marked.set_visiting {marks : List Mark} (h : Marked g marks) (id : ComponentId) :
    Marked g (marks.set id .visiting) := by
  refine ⟨List.length_set.trans h.length, fun i fed hi => ?_⟩
  rw [List.getElem?_set] at hi
  split at hi
  · split at hi <;> simp at hi
  · exact h.done i fed hi

/-- The walk is done with a component once it is done with its feeders. -/
theorem Visits.close {id : ComponentId} {marks marks' : List Mark} {fed : Bool}
    (hm : marks[id]? = some .unvisited) (h : Visits g (marks.set id .visiting) marks')
    (hsound : g.topology.Sound id) (hfed : fed = true ↔ g.topology.Fed id) :
    Visits g marks (marks'.set id (.done fed)) where
  toShrinks := (Shrinks.set marks id (by simp)).trans
    (h.toShrinks.trans (.set marks' id (by simp)))
  marked := h.marked.set_done hsound hfed
  visiting := by
    intro i
    rcases Decidable.em (id = i) with rfl | hne
    · rw [hm, List.getElem?_set_self']
      simp
    · rw [List.getElem?_set_ne hne, h.visiting, List.getElem?_set_ne hne]

/-- What the walk to the feeders of a component finds, for some of its input ports, if the
visit to each feeder answers right. -/
theorem visitPorts_answers (hw : g.topology.Wired) {id : ComponentId} {c : Component κ}
    (hc : g.components[id]? = some c) {bound : Nat}
    {visit : ComponentId → List Mark → Except ValidationError (Bool × List Mark)}
    (hvisit : ∀ a marks, g.topology.Feeds a id → Marked g marks →
      (∀ v : ComponentId, marks[v]? = some .visiting → TransGen g.topology.Feeds a v) →
      marks.count .unvisited ≤ bound → Answers g a marks (visit a marks))
    (ps : List Port) (hps : ∀ p ∈ ps, p ∈ inputPorts c) {marks : List Mark}
    (hmarked : Marked g marks)
    (hopen : ∀ v : ComponentId, marks[v]? = some .visiting → ReflTransGen g.topology.Feeds id v)
    (hcount : marks.count .unvisited ≤ bound) :
    match visitPorts g c visit ps marks with
    | .ok (fed, marks') => Visits g marks marks' ∧
        (∀ p ∈ ps, ∃ a, g.feeder c p = .ok a ∧ g.topology.Sound a) ∧
        (fed = true ↔ ∃ p ∈ ps, ∃ a, g.feeder c p = .ok a ∧ g.topology.Fed a)
    | .error e => Objects g id e := by
  induction ps generalizing marks with
  | nil => exact ⟨.refl hmarked, by simp, by simp⟩
  | cons p ps ih =>
    have hp : p ∈ inputPorts c := hps p List.mem_cons_self
    have hps : ∀ p ∈ ps, p ∈ inputPorts c := fun q hq => hps q (List.mem_cons_of_mem p hq)
    cases hf : g.feeder c p with
    | error e =>
      obtain ⟨hnone, rfl⟩ := feeder_eq_error hw hc hp hf
      rw [visitPorts_cons_eq_error.mpr (.inl hf)]
      exact .unconnected hc .refl hp hnone
    | ok a =>
      have hfeeds : g.topology.Feeds a id := (exists_feeder_iff hw hc a).mp ⟨p, hp, hf⟩
      have hanswer := hvisit a marks hfeeds hmarked (fun v hv => .head' hfeeds (hopen v hv)) hcount
      cases hv : visit a marks with
      | error e =>
        rw [hv] at hanswer
        rw [visitPorts_cons_eq_error.mpr (.inr ⟨a, hf, .inl hv⟩)]
        exact hanswer.of_path (.single hfeeds)
      | ok r =>
        obtain ⟨fed₁, marks₁⟩ := r
        rw [hv] at hanswer
        obtain ⟨hvisits, hsound, hfed⟩ := hanswer
        have hrest := ih hps hvisits.marked (fun v h => hopen v ((hvisits.visiting v).mp h))
          (Nat.le_trans hvisits.count hcount)
        cases hr : visitPorts g c visit ps marks₁ with
        | error e =>
          rw [hr] at hrest
          rw [visitPorts_cons_eq_error.mpr (.inr ⟨a, hf, .inr ⟨fed₁, marks₁, hv, hr⟩⟩)]
          exact hrest
        | ok r =>
          obtain ⟨fed₂, marks₂⟩ := r
          rw [hr] at hrest
          obtain ⟨hvisits', hsound', hfed'⟩ := hrest
          rw [visitPorts_cons_eq_ok.mpr ⟨a, hf, fed₁, marks₁, hv, fed₂, hr, rfl⟩]
          refine ⟨hvisits.trans hvisits', ?_, ?_⟩
          · exact List.forall_mem_cons.mpr ⟨⟨a, hf, hsound⟩, hsound'⟩
          · simp [hfed, hfed', hf]

/-- What the walk finds when it comes to a component that feeds another, on its way to the
components being visited. -/
theorem visit_answers (hw : g.topology.Wired) {depth : Nat} {id : ComponentId} {marks : List Mark}
    (hfeeds : ∃ b, g.topology.Feeds id b) (hmarked : Marked g marks)
    (hopen : ∀ v : ComponentId, marks[v]? = some .visiting → TransGen g.topology.Feeds id v)
    (hcount : marks.count .unvisited ≤ depth) : Answers g id marks (g.visit depth id marks) := by
  induction depth using Nat.strongRecOn generalizing id marks with
  | ind depth ih =>
    obtain ⟨b, hb⟩ := hfeeds
    obtain ⟨kind, hkind, hnotsink⟩ := hw.kind_of_feeds hb
    obtain ⟨c, hc, rfl⟩ := g.topology_kind?_eq_some.mp hkind
    obtain ⟨m, hm⟩ := exists_mark hmarked.length hc
    cases m with
    | done fed =>
      rw [visit_done hc hm]
      exact ⟨.refl hmarked, hmarked.done id fed hm⟩
    | visiting =>
      -- the walk set out from `id`, and by `hopen` it came here against the connections
      rw [visit_visiting hc hm]
      exact .cycle hc .refl (hopen id hm)
    | unvisited =>
      have hvisiting := hmarked.set_visiting id
      rw [visit_unvisited hc hm]
      cases hk : c.kind with
      | sink => exact absurd hk hnotsink
      | source =>
        rw [hk] at hkind
        have hsound : g.topology.Sound id := .of_feeders (hw.plugged_source hkind)
          fun a ha => absurd ha (hw.not_feeds_source hkind)
        have hfed : true = true ↔ g.topology.Fed id := iff_of_true rfl ⟨id, hkind, .refl⟩
        have hclose := Visits.close hm (.refl hvisiting) hsound hfed
        rw [List.set_set] at hclose
        exact ⟨hclose, hsound, hfed⟩
      | filter =>
        have hcount' := count_set_visiting hm
        obtain ⟨d, rfl⟩ : ∃ d, depth = d + 1 := ⟨depth - 1, by omega⟩
        -- `id` itself is being visited now, so that a path to it may have no connections
        have hopen' : ∀ v : ComponentId, (marks.set id .visiting)[v]? = some .visiting →
            ReflTransGen g.topology.Feeds id v := by
          intro v hv
          rcases Decidable.em (id = v) with rfl | hne
          · exact .refl
          · rw [List.getElem?_set_ne hne] at hv
            exact (hopen v hv).to_reflTransGen
        have hports := visitPorts_answers hw hc
          (fun a marks ha hmarked hopen hcount =>
            ih d (Nat.lt_succ_self d) ⟨id, ha⟩ hmarked hopen hcount)
          (inputPorts c) (fun _ hp => hp) hvisiting hopen' (by omega)
        change Answers g id marks (visitPorts g c (g.visit d) (inputPorts c)
          (marks.set id .visiting) >>= fun r => .ok (r.1, r.2.set id (.done r.1)))
        cases hr : visitPorts g c (g.visit d) (inputPorts c) (marks.set id .visiting) with
        | error e =>
          rw [hr] at hports
          exact hports
        | ok r =>
          obtain ⟨fed, marks₁⟩ := r
          rw [hr] at hports
          obtain ⟨hvisits, hsounds, hfed⟩ := hports
          have hsound := sound_of_feeders hw hc hsounds
          have hfed : fed = true ↔ g.topology.Fed id :=
            hfed.trans (fed_iff_feeders hw hc (by simp [hk])).symm
          exact ⟨.close hm hvisits hsound hfed, hsound, hfed⟩

/-! ## The check -/

/-- An input port gets messages from a source, and all upstream of it is right. -/
def Supplied (g : Graph κ ω) (c : Component κ) (p : Port) : Prop :=
  ∃ a, g.feeder c p = .ok a ∧ g.topology.Sound a ∧ g.topology.Fed a

/-- Why the check fails, for each of its errors. -/
inductive Refuses (g : Graph κ ω) : ValidationError → Prop where
  | noSink (empty : g.sinks = []) : Refuses g .noSink
  | upstream {s : ComponentId} {e : ValidationError} (sink : s ∈ g.sinks) (fault : Objects g s e) :
      Refuses g e
  | unreachable {s : ComponentId} {c : Component κ} {p : Port} {a : ComponentId}
      (sink : s ∈ g.sinks) (component : g.components[s]? = some c) (port : p ∈ inputPorts c)
      (feeder : g.feeder c p = .ok a) (sound : g.topology.Sound a) (unfed : ¬ g.topology.Fed a) :
      Refuses g (.unreachable c.name p.name)

/-- What the check of the sinks leaves of the marks: none that says the walk is under way. -/
def Settled (g : Graph κ ω) (marks : List Mark) : Prop :=
  Marked g marks ∧ ∀ v : ComponentId, marks[v]? ≠ some .visiting

theorem Visits.settled {marks marks' : List Mark} (h : Visits g marks marks')
    (hs : Settled g marks) : Settled g marks' :=
  ⟨h.marked, fun v hv => hs.2 v ((h.visiting v).mp hv)⟩

theorem settled_unvisited :
    Settled g (List.replicate g.components.length .unvisited) := by
  refine ⟨⟨by simp, fun i fed h => ?_⟩, fun v h => ?_⟩
  · simp [List.getElem?_replicate] at h
  · simp [List.getElem?_replicate] at h

/-- What the check finds at some input ports of a sink. -/
theorem validatePorts_answers (hw : g.topology.Wired) {s : ComponentId} {c : Component κ}
    (hs : s ∈ g.sinks) (hc : g.components[s]? = some c) (ps : List Port)
    (hps : ∀ p ∈ ps, p ∈ inputPorts c) {marks : List Mark} (hmarks : Settled g marks) :
    match g.validatePorts c ps marks with
    | .ok marks' => Settled g marks' ∧ ∀ p ∈ ps, Supplied g c p
    | .error e => Refuses g e := by
  induction ps generalizing marks with
  | nil => exact ⟨hmarks, by simp⟩
  | cons p ps ih =>
    have hp : p ∈ inputPorts c := hps p List.mem_cons_self
    rw [validatePorts]
    cases hf : g.feeder c p with
    | error e =>
      obtain ⟨hnone, rfl⟩ := feeder_eq_error hw hc hp hf
      exact .upstream hs (.unconnected hc .refl hp hnone)
    | ok a =>
      have hfeeds : g.topology.Feeds a s := (exists_feeder_iff hw hc a).mp ⟨p, hp, hf⟩
      have hcount : marks.count .unvisited ≤ g.components.length :=
        hmarks.1.length ▸ List.count_le_length
      have hanswer : Answers g a marks (g.visit g.components.length a marks) :=
        visit_answers hw ⟨s, hfeeds⟩ hmarks.1 (fun v hv => absurd hv (hmarks.2 v)) hcount
      change match g.visit g.components.length a marks >>= _ with
        | .ok marks' => Settled g marks' ∧ ∀ q ∈ p :: ps, Supplied g c q
        | .error e => Refuses g e
      cases hv : g.visit g.components.length a marks with
      | error e =>
        rw [hv] at hanswer
        exact .upstream hs (hanswer.of_path (.single hfeeds))
      | ok r =>
        obtain ⟨fed, marks₁⟩ := r
        rw [hv] at hanswer
        obtain ⟨hvisits, hsound, hfed⟩ := hanswer
        cases fed with
        | false =>
          exact .unreachable hs hc hp hf hsound fun h => Bool.false_ne_true (hfed.mpr h)
        | true =>
          have hrest := ih (fun q hq => hps q (List.mem_cons_of_mem p hq))
            (hvisits.settled hmarks)
          change match g.validatePorts c ps marks₁ with
            | .ok marks' => Settled g marks' ∧ ∀ q ∈ p :: ps, Supplied g c q
            | .error e => Refuses g e
          cases hr : g.validatePorts c ps marks₁ with
          | error e =>
            rw [hr] at hrest
            exact hrest
          | ok marks₂ =>
            rw [hr] at hrest
            obtain ⟨hsettled, hsupplied⟩ := hrest
            exact ⟨hsettled, List.forall_mem_cons.mpr ⟨⟨a, hf, hsound, hfed.mp rfl⟩, hsupplied⟩⟩

/-- What the check finds at some of the sinks. -/
theorem validateSinks_answers (hw : g.topology.Wired) (ids : List ComponentId)
    (hids : ∀ s ∈ ids, s ∈ g.sinks) {marks : List Mark} (hmarks : Settled g marks) :
    match g.validateSinks ids marks with
    | .ok _ => ∀ s ∈ ids, ∀ c, g.components[s]? = some c → ∀ p ∈ inputPorts c, Supplied g c p
    | .error e => Refuses g e := by
  induction ids generalizing marks with
  | nil => simp [validateSinks]
  | cons s ids ih =>
    have hs : s ∈ g.sinks := hids s List.mem_cons_self
    have hids : ∀ s ∈ ids, s ∈ g.sinks := fun t ht => hids t (List.mem_cons_of_mem s ht)
    obtain ⟨c, hc, -⟩ := g.topology_kind?_eq_some.mp (hw.mem_sinks.mp hs)
    have hports := validatePorts_answers hw hs hc (inputPorts c) (fun _ hp => hp) hmarks
    simp only [validateSinks, hc]
    cases hr : g.validatePorts c (inputPorts c) marks with
    | error e =>
      rw [hr] at hports
      exact hports
    | ok marks₁ =>
      rw [hr] at hports
      obtain ⟨hsettled, hsupplied⟩ := hports
      have hrest := ih hids hsettled
      change match g.validateSinks ids marks₁ with
        | .ok _ => ∀ t ∈ s :: ids, ∀ c, g.components[t]? = some c →
            ∀ p ∈ inputPorts c, Supplied g c p
        | .error e => Refuses g e
      cases hr : g.validateSinks ids marks₁ with
      | error e =>
        rw [hr] at hrest
        exact hrest
      | ok marks₂ =>
        rw [hr] at hrest
        refine List.forall_mem_cons.mpr ⟨fun c' hc' => ?_, hrest⟩
        obtain rfl : c = c' := Option.some.inj (hc.symm.trans hc')
        exact hsupplied

/-- What the check finds. -/
theorem validate_answers (hw : g.topology.Wired) :
    match g.validate with
    | .ok () => g.sinks ≠ [] ∧
        ∀ s ∈ g.sinks, ∀ c, g.components[s]? = some c → ∀ p ∈ inputPorts c, Supplied g c p
    | .error e => Refuses g e := by
  unfold validate
  by_cases hempty : g.sinks = []
  · simp only [hempty, List.isEmpty_nil, if_true]
    exact .noSink hempty
  · have hsinks := validateSinks_answers hw g.sinks (fun _ h => h) settled_unvisited
    simp only [List.isEmpty_iff, hempty, if_false]
    cases hr : g.validateSinks g.sinks (List.replicate g.components.length .unvisited) with
    | error e =>
      rw [hr] at hsinks
      exact hsinks
    | ok marks =>
      rw [hr] at hsinks
      exact ⟨hempty, hsinks⟩

/-- If every input port of every sink is supplied, the topology is well formed. -/
theorem wellFormed_of_supplied (hw : g.topology.Wired) (hne : g.sinks ≠ [])
    (h : ∀ s ∈ g.sinks, ∀ c, g.components[s]? = some c → ∀ p ∈ inputPorts c, Supplied g c p) :
    g.topology.WellFormed := by
  -- a sink is never visited: that it is sound follows from what feeds it
  have hsound : ∀ s, g.topology.kind? s = some .sink → g.topology.Sound s := by
    intro s hs
    obtain ⟨c, hc, -⟩ := g.topology_kind?_eq_some.mp hs
    refine sound_of_feeders hw hc fun p hp => ?_
    obtain ⟨a, ha, hsound, -⟩ := h s (hw.mem_sinks.mpr hs) c hc p hp
    exact ⟨a, ha, hsound⟩
  refine ⟨?sink, ?plugged, ?acyclic, ?fed⟩
  case sink =>
    obtain ⟨s, hs⟩ := List.exists_mem_of_ne_nil g.sinks hne
    exact ⟨s, hw.mem_sinks.mp hs⟩
  case plugged =>
    rintro i ⟨s, hs, hpath⟩
    exact (hsound s hs).plugged i hpath
  case acyclic =>
    rintro i ⟨s, hs, hpath⟩
    exact (hsound s hs).not_cycle hpath
  case fed =>
    intro i j s hi hs hd
    obtain ⟨c, hc, -⟩ := g.topology_kind?_eq_some.mp hi
    obtain ⟨p, hp, rfl⟩ := g.topology_socket?_eq_some.mp hs
    obtain ⟨a, ha, -, hfed⟩ :=
      h i (hw.mem_sinks.mpr hi) c hc p ((mem_inputPorts_iff hc).mpr ⟨j, hp, hd⟩)
    obtain ⟨conn, hconn, hinput, rfl⟩ := (feeder_eq_ok_iff hw hp hd).mp ha
    exact ⟨conn, hconn, hinput, hfed⟩

/-- Nothing lies upstream of a sink of a well-formed topology that the check objects to. -/
theorem Objects.not_wellFormed {s : ComponentId} {e : ValidationError} (h : Objects g s e)
    (hs : g.topology.kind? s = some .sink) : ¬ g.topology.WellFormed := by
  intro hwf
  cases h with
  | @cycle i c hc hpath hcycle => exact hwf.acyclic i ⟨s, hs, hpath⟩ hcycle
  | @unconnected i c p hc hpath hp hnone =>
    obtain ⟨j, hport, hd⟩ := (mem_inputPorts_iff hc).mp hp
    have hsocket := g.topology_socket?_eq_some.mpr ⟨p, hport, rfl⟩
    have hsome : p.connection.isSome := hwf.plugged i ⟨s, hs, hpath⟩ j p.socket hsocket hd
    rw [hnone] at hsome
    cases hsome

/-- A topology that the check refuses is not well formed. -/
theorem Refuses.not_wellFormed (hw : g.topology.Wired) {e : ValidationError} (h : Refuses g e) :
    ¬ g.topology.WellFormed := by
  cases h with
  | noSink hempty =>
    rintro ⟨⟨s, hs⟩, -, -, -⟩
    have hmem : s ∈ g.sinks := hw.mem_sinks.mpr hs
    rw [hempty] at hmem
    cases hmem
  | upstream hs hobjects => exact hobjects.not_wellFormed (hw.mem_sinks.mp hs)
  | @unreachable s c p a hs hc hp hf _ hunfed =>
    intro hwf
    obtain ⟨j, hport, hd⟩ := (mem_inputPorts_iff hc).mp hp
    have hsocket := g.topology_socket?_eq_some.mpr ⟨p, hport, rfl⟩
    obtain ⟨conn, hconn, hinput, hfed⟩ := hwf.fed s j p.socket (hw.mem_sinks.mp hs) hsocket hd
    have hf' : g.feeder c p = .ok conn.output.component :=
      (feeder_eq_ok_iff hw hport hd).mpr ⟨conn, hconn, hinput, rfl⟩
    obtain rfl : a = conn.output.component := Except.ok.inj (hf.symm.trans hf')
    exact hunfed hfed

/-- **The check passes iff the topology is well formed.** -/
theorem validate_iff (hw : g.topology.Wired) :
    g.validate = .ok () ↔ g.topology.WellFormed := by
  have hanswers := validate_answers hw
  cases hv : g.validate with
  | error e =>
    rw [hv] at hanswers
    exact iff_of_false (by simp) (hanswers.not_wellFormed hw)
  | ok u =>
    rw [hv] at hanswers
    exact iff_of_true rfl (wellFormed_of_supplied hw hanswers.1 hanswers.2)

end Graph
end PullGraph
