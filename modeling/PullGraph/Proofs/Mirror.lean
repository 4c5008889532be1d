import Mathlib.Data.List.Basic
import PullGraph.Proofs.Building
import PullGraph.Proofs.Flow

/-! # A part of a graph as a graph of its own

If no connection leads from some components of a graph to the others, they can stand in a
graph of their own, wired as they were. There they have other positions, and so have their
connections. `Topology.Mirrors` says how the two graphs match; adding components and
connecting ports, either on both sides or among the others only, keeps it. A part that has a
sink can run by itself if the whole graph can.
-/
namespace PullGraph

open Relation

variable {κ : Type}

/-- Where components of one graph stand in another, if they do. -/
abbrev Placement := ComponentId → Option ComponentId

namespace Placement

/-- Where something of a component stands, such as one of its ports. -/
def lift {α : Type} (place : Placement) (x : ComponentId × α) : Option (ComponentId × α) :=
  (place x.1).map fun i => (i, x.2)

/-- The placement with one more component. -/
def extend (place : Placement) (a i : ComponentId) : Placement := fun b =>
  if b = a then some i else place b

theorem extend_self (place : Placement) (a i : ComponentId) : place.extend a i a = some i :=
  if_pos rfl

theorem extend_of_ne (place : Placement) {a b : ComponentId} (h : b ≠ a) (i : ComponentId) :
    place.extend a i b = place b :=
  if_neg h

end Placement

namespace Topology

variable {T T' : Topology κ}

/-- The class of the component at a position. -/
def class? (T : Topology κ) (i : Nat) : Option (ComponentClass κ) := T.components[i]?.map (·.cls)

theorem kind?_eq_map (i : Nat) : T.kind? i = (T.class? i).map ComponentClass.kind := by
  rw [kind?, class?, Option.map_map]
  rfl

theorem lt_of_class? {i : Nat} {cls : ComponentClass κ} (h : T.class? i = some cls) :
    i < T.components.length := by
  obtain ⟨o, ho, -⟩ := Option.map_eq_some_iff.mp h
  exact (List.getElem?_eq_some_iff.mp ho).1

theorem push_class?_of_lt (o : Outline κ) {i : Nat} (hi : i < T.components.length) :
    (T.push o).class? i = T.class? i := by
  rw [class?, class?, push_getElem?_of_lt o hi]

theorem push_class?_length (o : Outline κ) : (T.push o).class? T.components.length = some o.cls := by
  simp [class?, Topology.push]

theorem join_class? (c : Connection) (i : Nat) : (T.join c).class? i = T.class? i := by
  unfold class?
  rw [← List.getElem?_map, ← List.getElem?_map, join_map fun _ _ => rfl]

theorem join_length (c : Connection) : (T.join c).components.length = T.components.length := by
  have hmap : (T.join c).components.map (·.id) = T.components.map (·.id) := join_map (fun _ _ => rfl) c
  simpa using congrArg List.length hmap

/-! ## What feeds a port -/

/-- The output port that the connection of a port leads from. -/
def feeder? (T : Topology κ) (i j : Nat) : Option (ComponentId × Nat) :=
  (((T.socket? i j).bind (·.connection)).bind (T.connections[·]?)).map fun c =>
    (c.output.component, c.output.index)

theorem feeder?_eq_some {i j : Nat} {x : ComponentId × Nat} :
    T.feeder? i j = some x ↔ ∃ s k c, T.socket? i j = some s ∧ s.connection = some k ∧
      T.connections[k]? = some c ∧ (c.output.component, c.output.index) = x := by
  simp only [feeder?, Option.map_eq_some_iff, Option.bind_eq_some_iff]
  constructor
  · rintro ⟨c, ⟨k, ⟨s, hs, hk⟩, hc⟩, hx⟩
    exact ⟨s, k, c, hs, hk, hc, hx⟩
  · rintro ⟨s, k, c, hs, hk, hc, hx⟩
    exact ⟨c, ⟨k, ⟨s, hs, hk⟩, hc⟩, hx⟩

theorem feeder?_of_length_le {i : Nat} (h : T.components.length ≤ i) (j : Nat) :
    T.feeder? i j = none := by
  rw [feeder?, socket?, List.getElem?_eq_none h]
  rfl

theorem Wired.feeder?_lt (hw : T.Wired) {i j b jo : Nat} (h : T.feeder? i j = some (b, jo)) :
    b < T.components.length := by
  obtain ⟨s, k, c, -, -, hc, hx⟩ := feeder?_eq_some.mp h
  obtain ⟨rfl, -⟩ := Prod.mk.inj hx
  exact (hw.outputs c (List.mem_of_getElem? hc)).1.lt

/-- A port that is connected has a feeder. -/
theorem Wired.feeder?_isSome (hw : T.Wired) {i j : Nat} {s : Socket} (hs : T.socket? i j = some s) :
    (T.feeder? i j).isSome = s.connection.isSome := by
  cases hk : s.connection with
  | none => simp [feeder?, hs, hk]
  | some k =>
    obtain ⟨c, hc, -⟩ := (hw.ends i j s hs k).mp hk
    simp [feeder?, hs, hk, hc]

/-- The feeder of an input port, seen from the connection. -/
theorem Wired.feeder?_input (hw : T.Wired) {c : Connection} (hc : c ∈ T.connections) :
    T.feeder? c.input.component c.input.index = some (c.output.component, c.output.index) := by
  obtain ⟨k, hk⟩ := List.mem_iff_getElem?.mp hc
  obtain ⟨⟨hid, s, hs, hd⟩, hdir⟩ := hw.inputs c hc
  have hend : c.input = ⟨T.id, c.input.component, c.input.index, s.direction⟩ := by rw [hd, ← hid]
  exact feeder?_eq_some.mpr ⟨s, k, c, hs, (hw.ends _ _ s hs k).mpr ⟨c, hk, .inr hend⟩, hk, rfl⟩

/-- The connection of an input port, seen from its feeder. -/
theorem Wired.connection_of_feeder? (hw : T.Wired) {i j : Nat} {s : Socket} {x : ComponentId × Nat}
    (hs : T.socket? i j = some s) (hd : s.direction = .input) (h : T.feeder? i j = some x) :
    ∃ c ∈ T.connections, c.input = ⟨T.id, i, j, .input⟩ ∧
      (c.output.component, c.output.index) = x := by
  obtain ⟨s', k, c, hs', hk, hc, hx⟩ := feeder?_eq_some.mp h
  obtain rfl : s = s' := Option.some.inj (hs.symm.trans hs')
  obtain ⟨c', hc', hinput⟩ := hw.input_of_connection hs hd hk
  obtain rfl : c = c' := Option.some.inj (hc.symm.trans hc')
  exact ⟨c, List.mem_of_getElem? hc, hinput, hx⟩

theorem push_feeder? {o : Outline κ} (h : ∀ s ∈ o.sockets, s.connection = none) (i j : Nat) :
    (T.push o).feeder? i j = T.feeder? i j := by
  rcases Nat.lt_or_ge i T.components.length with hi | hi
  · rw [feeder?, feeder?, push_socket?_of_lt o hi]
    rfl
  · rw [feeder?_of_length_le hi]
    refine Option.eq_none_iff_forall_ne_some.mpr fun x hx => ?_
    obtain ⟨s, k, c, hs, hk, -⟩ := feeder?_eq_some.mp hx
    rcases push_socket?_eq_some hs with hold | ⟨-, hmem⟩
    · exact absurd (lt_of_socket? hold) (Nat.not_lt.mpr hi)
    · rw [h s hmem] at hk
      cases hk

/-- A new connection feeds the ports that it joins, and no other port is fed otherwise. -/
theorem Wired.join_feeder? (hw : T.Wired) {c : Connection} (hnew : c.id = T.connections.length)
    (hout : T.Offers c.output) (hin : T.Offers c.input) (i j : Nat) :
    (T.join c).feeder? i j =
      if (c.output.component = i ∧ c.output.index = j) ∨ (c.input.component = i ∧ c.input.index = j)
      then some (c.output.component, c.output.index) else T.feeder? i j := by
  rw [feeder?, join_socket?]
  split
  · rename_i hend
    obtain ⟨s, hs⟩ : ∃ s, T.socket? i j = some s := by
      rcases hend with ⟨rfl, rfl⟩ | ⟨rfl, rfl⟩
      · exact ⟨_, hout.2.choose_spec.1⟩
      · exact ⟨_, hin.2.choose_spec.1⟩
    have hsocket : ((T.socket? i j).map (·.plug c.id)).bind (·.connection) = some c.id := by
      rw [hs]
      rfl
    rw [hsocket, Option.bind_some, join_connections_new hnew]
    rfl
  · rw [feeder?]
    cases hs : T.socket? i j with
    | none => rfl
    | some s =>
      cases hk : s.connection with
      | none => simp [hk]
      | some k =>
        obtain ⟨c', hc', -⟩ := (hw.ends i j s hs k).mp hk
        simp [hk, hc', join_connections_of_eq_some hc']

theorem Wired.feeds_iff (hw : T.Wired) {a b : ComponentId} :
    T.Feeds b a ↔ ∃ j jo s, T.socket? a j = some s ∧ s.direction = .input ∧
      T.feeder? a j = some (b, jo) := by
  constructor
  · rintro ⟨c, hc, rfl, rfl⟩
    obtain ⟨⟨-, s, hs, hd⟩, hdir⟩ := hw.inputs c hc
    exact ⟨_, _, s, hs, hd.trans hdir, hw.feeder?_input hc⟩
  · rintro ⟨j, jo, s, hs, hd, hfeeder⟩
    obtain ⟨c, hc, hinput, hx⟩ := hw.connection_of_feeder? hs hd hfeeder
    exact ⟨c, hc, (Prod.mk.inj hx).1, congrArg PortHandle.component hinput⟩

/-! ## Mirrors -/

/-- The components that `place` places are all of `T'`, and in `T'` they are fed by the same
ports as in `T`. In `T` no connection leads from them to others or from others to them. -/
structure Mirrors (place : Placement) (T T' : Topology κ) : Prop where
  id : T'.id = T.id
  classes : ∀ {a i : Nat}, place a = some i → ∃ cls, T.class? a = some cls ∧ T'.class? i = some cls
  injective : ∀ {a b i : Nat}, place a = some i → place b = some i → a = b
  onto : ∀ {i : Nat}, i < T'.components.length → ∃ a, place a = some i
  feeders : ∀ {a i : Nat}, place a = some i →
    ∀ j, T'.feeder? i j = (T.feeder? a j).bind place.lift
  severed : ∀ {a b j jo : Nat}, T.feeder? a j = some (b, jo) →
    (place b).isSome = (place a).isSome
  sinks : T.sinks.filterMap place = T'.sinks

namespace Mirrors

variable {place : Placement}

theorem empty (id : GraphId) :
    Mirrors (fun _ => none) (⟨id, [], [], []⟩ : Topology κ) ⟨id, [], [], []⟩ where
  id := rfl
  classes h := nomatch h
  injective h := nomatch h
  onto h := nomatch h
  feeders h := nomatch h
  severed _ := rfl
  sinks := rfl

theorem lt (h : Mirrors place T T') {a i : Nat} (hi : place a = some i) :
    a < T.components.length ∧ i < T'.components.length := by
  obtain ⟨cls, hcls, hcls'⟩ := h.classes hi
  exact ⟨lt_of_class? hcls, lt_of_class? hcls'⟩

theorem place_length (h : Mirrors place T T') : place T.components.length = none := by
  cases hi : place T.components.length with
  | none => rfl
  | some i => exact absurd (h.lt hi).1 (Nat.lt_irrefl _)

/-! ### Building -/

/-- A component is added on both sides. -/
theorem push (h : Mirrors place T T') (hw : T.Wired) {o o' : Outline κ}
    (hid : o.id = T.components.length) (hid' : o'.id = T'.components.length) (hcls : o'.cls = o.cls)
    (hfree : ∀ s ∈ o.sockets, s.connection = none) (hfree' : ∀ s ∈ o'.sockets, s.connection = none) :
    Mirrors (place.extend T.components.length T'.components.length) (T.push o) (T'.push o') := by
  have hold : ∀ {a i}, place.extend T.components.length T'.components.length a = some i →
      a ≠ T.components.length → place a = some i := by
    intro a i hi hne
    rwa [place.extend_of_ne hne] at hi
  have hkept : ∀ {b}, b < T.components.length →
      place.extend T.components.length T'.components.length b = place b :=
    fun hlt => place.extend_of_ne (Nat.ne_of_lt hlt) _
  refine ⟨h.id, ?classes, ?injective, ?onto, ?feeders, ?severed, ?sinks⟩
  case classes =>
    intro a i hi
    by_cases ha : a = T.components.length
    · subst ha
      obtain rfl := Option.some.inj ((place.extend_self _ _).symm.trans hi)
      exact ⟨o.cls, push_class?_length o, hcls ▸ push_class?_length o'⟩
    · obtain ⟨hlt, hlt'⟩ := h.lt (hold hi ha)
      rw [push_class?_of_lt o hlt, push_class?_of_lt o' hlt']
      exact h.classes (hold hi ha)
  case injective =>
    intro a b i ha hb
    by_cases hna : a = T.components.length
    · by_cases hnb : b = T.components.length
      · rw [hna, hnb]
      · subst hna
        obtain rfl := Option.some.inj ((place.extend_self _ _).symm.trans ha)
        exact absurd (h.lt (hold hb hnb)).2 (Nat.lt_irrefl _)
    · by_cases hnb : b = T.components.length
      · subst hnb
        obtain rfl := Option.some.inj ((place.extend_self _ _).symm.trans hb)
        exact absurd (h.lt (hold ha hna)).2 (Nat.lt_irrefl _)
      · exact h.injective (hold ha hna) (hold hb hnb)
  case onto =>
    intro i hi
    by_cases hnew : i = T'.components.length
    · exact ⟨T.components.length, hnew ▸ place.extend_self _ _⟩
    · have hlength : (T'.push o').components.length = T'.components.length + 1 := by
        simp [Topology.push]
      obtain ⟨a, ha⟩ := h.onto (i := i) (by omega)
      exact ⟨a, (hkept (h.lt ha).1).trans ha⟩
  case feeders =>
    intro a i hi j
    rw [push_feeder? hfree, push_feeder? hfree']
    by_cases hna : a = T.components.length
    · subst hna
      obtain rfl := Option.some.inj ((place.extend_self _ _).symm.trans hi)
      rw [feeder?_of_length_le (Nat.le_refl _), feeder?_of_length_le (Nat.le_refl _)]
      rfl
    · rw [h.feeders (hold hi hna) j]
      cases hfeeder : T.feeder? a j with
      | none => rfl
      | some x =>
        obtain ⟨b, jo⟩ := x
        simp only [Option.bind_some, Placement.lift, hkept (hw.feeder?_lt hfeeder)]
  case severed =>
    intro a b j jo hfeeder
    rw [push_feeder? hfree] at hfeeder
    obtain ⟨s, k, c, hs, -⟩ := feeder?_eq_some.mp hfeeder
    rw [hkept (lt_of_socket? hs), hkept (hw.feeder?_lt hfeeder)]
    exact h.severed hfeeder
  case sinks =>
    have hsinks : T.sinks.filterMap (place.extend T.components.length T'.components.length) =
        T'.sinks := by
      rw [← h.sinks]
      refine List.filterMap_congr fun s hs => hkept ?_
      rw [hw.sinks] at hs
      exact List.mem_range.mp (List.mem_filter.mp hs).1
    have hkind : o'.kind = o.kind := congrArg ComponentClass.kind hcls
    simp only [Topology.push, hkind, hid, hid']
    split
    · rw [List.filterMap_append, hsinks]
      simp [place.extend_self]
    · exact hsinks

/-- A component is added among the others. -/
theorem push_left (h : Mirrors place T T') {o : Outline κ} (hid : o.id = T.components.length)
    (hfree : ∀ s ∈ o.sockets, s.connection = none) : Mirrors place (T.push o) T' := by
  refine ⟨h.id, fun hi => ?_, h.injective, h.onto, fun hi j => ?_, fun hfeeder => ?_, ?_⟩
  · rw [push_class?_of_lt o (h.lt hi).1]
    exact h.classes hi
  · rw [push_feeder? hfree]
    exact h.feeders hi j
  · rw [push_feeder? hfree] at hfeeder
    exact h.severed hfeeder
  · have hnone : [o.id].filterMap place = [] := by simp [hid, h.place_length]
    simp only [Topology.push]
    split
    · rw [List.filterMap_append, hnone, List.append_nil, h.sinks]
    · exact h.sinks

/-- Two ports are connected on both sides. -/
theorem join (h : Mirrors place T T') (hw : T.Wired) (hw' : T'.Wired) {c c' : Connection}
    (hnew : c.id = T.connections.length) (hnew' : c'.id = T'.connections.length)
    (hout : T.Offers c.output) (hin : T.Offers c.input)
    (hout' : T'.Offers c'.output) (hin' : T'.Offers c'.input)
    (houtput : place c.output.component = some c'.output.component)
    (hinput : place c.input.component = some c'.input.component)
    (houtputIndex : c'.output.index = c.output.index)
    (hinputIndex : c'.input.index = c.input.index) : Mirrors place (T.join c) (T'.join c') := by
  -- a component stands where an end of the one connection is iff it is where that end of the
  -- other one is
  have hiff : ∀ {a i b i' : Nat}, place a = some i → place b = some i' → (i' = i ↔ b = a) := by
    intro a i b i' ha hb
    constructor
    · rintro rfl
      exact h.injective hb ha
    · rintro rfl
      exact Option.some.inj (hb.symm.trans ha)
  refine ⟨h.id, fun hi => ?classes, h.injective, fun hi => ?onto, fun {a i} hi j => ?feeders,
    fun {a b j jo} hfeeder => ?severed, h.sinks⟩
  case classes =>
    rw [join_class?, join_class?]
    exact h.classes hi
  case onto =>
    rw [join_length] at hi
    exact h.onto hi
  case feeders =>
    rw [hw.join_feeder? hnew hout hin, hw'.join_feeder? hnew' hout' hin']
    simp only [hiff hi houtput, hiff hi hinput, houtputIndex, hinputIndex]
    split
    · simp [Placement.lift, houtput]
    · exact h.feeders hi j
  case severed =>
    rw [hw.join_feeder? hnew hout hin] at hfeeder
    split at hfeeder
    · rename_i hend
      obtain ⟨rfl, rfl⟩ := Prod.mk.inj (Option.some.inj hfeeder)
      rcases hend with ⟨rfl, -⟩ | ⟨rfl, -⟩
      · rfl
      · rw [houtput, hinput]
        rfl
    · exact h.severed hfeeder

/-- Two ports are connected among the others. -/
theorem join_left (h : Mirrors place T T') (hw : T.Wired) {c : Connection}
    (hnew : c.id = T.connections.length) (hout : T.Offers c.output) (hin : T.Offers c.input)
    (houtput : place c.output.component = none) (hinput : place c.input.component = none) :
    Mirrors place (T.join c) T' := by
  refine ⟨h.id, fun hi => ?classes, h.injective, h.onto, fun {a i} hi j => ?feeders,
    fun {a b j jo} hfeeder => ?severed, h.sinks⟩
  case classes =>
    rw [join_class?]
    exact h.classes hi
  case feeders =>
    rw [hw.join_feeder? hnew hout hin, if_neg]
    · exact h.feeders hi j
    · rintro (⟨rfl, -⟩ | ⟨rfl, -⟩)
      · exact nomatch houtput.symm.trans hi
      · exact nomatch hinput.symm.trans hi
  case severed =>
    rw [hw.join_feeder? hnew hout hin] at hfeeder
    split at hfeeder
    · rename_i hend
      obtain ⟨rfl, rfl⟩ := Prod.mk.inj (Option.some.inj hfeeder)
      rcases hend with ⟨rfl, -⟩ | ⟨rfl, -⟩
      · rfl
      · rw [houtput, hinput]
    · exact h.severed hfeeder

/-! ### A part that can run by itself -/

theorem kind?_eq (h : Mirrors place T T') {a i : Nat} (hi : place a = some i) :
    T'.kind? i = T.kind? a := by
  obtain ⟨cls, hcls, hcls'⟩ := h.classes hi
  rw [kind?_eq_map, kind?_eq_map, hcls, hcls']

/-- The ports of a component are the same on both sides, but for their connections. -/
theorem socket? (h : Mirrors place T T') (hw : T.Wired) (hw' : T'.Wired) {a i : Nat}
    (hi : place a = some i) (j : Nat) :
    (T'.socket? i j).map Socket.spec = (T.socket? a j).map Socket.spec := by
  obtain ⟨cls, hcls, hcls'⟩ := h.classes hi
  obtain ⟨o, ho, rfl⟩ := Option.map_eq_some_iff.mp hcls
  obtain ⟨o', ho', hsame⟩ := Option.map_eq_some_iff.mp hcls'
  have hports := (hw.schemas o (List.mem_of_getElem? ho)).2
  have hports' := (hw'.schemas o' (List.mem_of_getElem? ho')).2
  simp only [Topology.socket?, ho, ho', Option.bind_some, ← List.getElem?_map, hports, hports', hsame]

theorem exists_socket? (h : Mirrors place T T') (hw : T.Wired) (hw' : T'.Wired) {a i j : Nat}
    (hi : place a = some i) {s' : Socket} (hs' : T'.socket? i j = some s') :
    ∃ s, T.socket? a j = some s ∧ s.direction = s'.direction := by
  have hspec := h.socket? hw hw' hi j
  rw [hs'] at hspec
  obtain ⟨s, hs, hsame⟩ := Option.map_eq_some_iff.mp hspec.symm
  exact ⟨s, hs, congrArg PortSpec.direction hsame⟩

/-- What feeds a component of the part is in the part, and feeds it there as it does in the
whole. -/
theorem feeds_of_feeds (h : Mirrors place T T') (hw : T.Wired) (hw' : T'.Wired) {a b i : Nat}
    (hi : place a = some i) (hfeeds : T.Feeds b a) : ∃ i', place b = some i' ∧ T'.Feeds i' i := by
  obtain ⟨j, jo, s, hs, hd, hfeeder⟩ := hw.feeds_iff.mp hfeeds
  have hsome := h.severed hfeeder
  rw [hi] at hsome
  obtain ⟨i', hi'⟩ := Option.isSome_iff_exists.mp hsome
  have hspec := h.socket? hw hw' hi j
  rw [hs] at hspec
  obtain ⟨s', hs', hsame⟩ := Option.map_eq_some_iff.mp hspec
  refine ⟨i', hi', hw'.feeds_iff.mpr ⟨j, jo, s', hs', ?_, ?_⟩⟩
  · exact (congrArg PortSpec.direction hsame).trans hd
  · rw [h.feeders hi, hfeeder]
    simp [Placement.lift, hi']

theorem feeds_back (h : Mirrors place T T') (hw : T.Wired) (hw' : T'.Wired) {a i i' : Nat}
    (hi : place a = some i) (hfeeds : T'.Feeds i' i) : ∃ b, place b = some i' ∧ T.Feeds b a := by
  obtain ⟨j, jo, s', hs', hd, hfeeder⟩ := hw'.feeds_iff.mp hfeeds
  obtain ⟨s, hs, hdir⟩ := h.exists_socket? hw hw' hi hs'
  rw [h.feeders hi] at hfeeder
  obtain ⟨⟨b, jo'⟩, hx, hlift⟩ := Option.bind_eq_some_iff.mp hfeeder
  obtain ⟨i'', hb, heq⟩ := Option.map_eq_some_iff.mp hlift
  obtain ⟨rfl, rfl⟩ := Prod.mk.inj heq
  exact ⟨b, hb, hw.feeds_iff.mpr ⟨j, jo', s, hs, hdir.trans hd, hx⟩⟩

theorem path_back (h : Mirrors place T T') (hw : T.Wired) (hw' : T'.Wired) {a i i' : Nat}
    (hi : place a = some i) (hpath : ReflTransGen T'.Feeds i' i) :
    ∃ b, place b = some i' ∧ ReflTransGen T.Feeds b a := by
  induction hpath using ReflTransGen.head_induction_on with
  | refl => exact ⟨a, hi, .refl⟩
  | head hfeeds _ ih =>
    obtain ⟨b, hb, hrest⟩ := ih
    obtain ⟨b', hb', hfeeds'⟩ := h.feeds_back hw hw' hb hfeeds
    exact ⟨b', hb', hrest.head hfeeds'⟩

theorem path_of_path (h : Mirrors place T T') (hw : T.Wired) (hw' : T'.Wired) {a b i : Nat}
    (hi : place a = some i) (hpath : ReflTransGen T.Feeds b a) :
    ∃ i', place b = some i' ∧ ReflTransGen T'.Feeds i' i := by
  induction hpath using ReflTransGen.head_induction_on with
  | refl => exact ⟨i, hi, .refl⟩
  | head hfeeds _ ih =>
    obtain ⟨i', hi', hrest⟩ := ih
    obtain ⟨i'', hi'', hfeeds'⟩ := h.feeds_of_feeds hw hw' hi' hfeeds
    exact ⟨i'', hi'', hrest.head hfeeds'⟩

theorem serves_back (h : Mirrors place T T') (hw : T.Wired) (hw' : T'.Wired) {i : Nat}
    (hserves : T'.Serves i) : ∃ a, place a = some i ∧ T.Serves a := by
  obtain ⟨s, hs, hpath⟩ := hserves
  obtain ⟨o, ho, -⟩ := Option.map_eq_some_iff.mp hs
  obtain ⟨b, hb⟩ := h.onto (List.getElem?_eq_some_iff.mp ho).1
  obtain ⟨a, ha, hpath'⟩ := h.path_back hw hw' hb hpath
  exact ⟨a, ha, b, (h.kind?_eq hb).symm.trans hs, hpath'⟩

/-- **A part with a sink can run by itself** if the whole can. -/
theorem wellFormed (h : Mirrors place T T') (hw : T.Wired) (hw' : T'.Wired) (hformed : T.WellFormed)
    (hsink : ∃ s, T'.kind? s = some .sink) : T'.WellFormed where
  sink := hsink
  plugged := by
    intro i hserves j s' hs' hd
    obtain ⟨a, ha, hserves'⟩ := h.serves_back hw hw' hserves
    obtain ⟨s, hs, hdir⟩ := h.exists_socket? hw hw' ha hs'
    have hplugged := hformed.plugged a hserves' j s hs (hdir.trans hd)
    rw [← hw.feeder?_isSome hs] at hplugged
    obtain ⟨⟨b, jo⟩, hfeeder⟩ := Option.isSome_iff_exists.mp hplugged
    have hsome := h.severed hfeeder
    rw [ha] at hsome
    obtain ⟨i', hi'⟩ := Option.isSome_iff_exists.mp hsome
    rw [← hw'.feeder?_isSome hs', h.feeders ha, hfeeder]
    simp [Placement.lift, hi']
  acyclic := by
    intro i hserves hcycle
    obtain ⟨a, ha, hserves'⟩ := h.serves_back hw hw' hserves
    obtain ⟨i', hfeeds, hpath⟩ := TransGen.head'_iff.mp hcycle
    obtain ⟨b, hb, hpath'⟩ := h.path_back hw hw' ha hpath
    obtain ⟨a', ha', hfeeds'⟩ := h.feeds_back hw hw' hb hfeeds
    obtain rfl := h.injective ha ha'
    exact hformed.acyclic a hserves' (TransGen.head'_iff.mpr ⟨b, hfeeds', hpath'⟩)
  fed := by
    intro i j s' hkind hs' hd
    obtain ⟨a, ha⟩ := h.onto (lt_of_socket? hs')
    obtain ⟨s, hs, hdir⟩ := h.exists_socket? hw hw' ha hs'
    obtain ⟨c, hc, hinput, source, hsource, hpath⟩ :=
      hformed.fed a j s ((h.kind?_eq ha).symm.trans hkind) hs (hdir.trans hd)
    have hfeeder := hw.feeder?_input hc
    rw [hinput] at hfeeder
    have hfeeder' := h.feeders ha j
    rw [hfeeder] at hfeeder'
    have hsome := h.severed hfeeder
    rw [ha] at hsome
    obtain ⟨i', hi'⟩ := Option.isSome_iff_exists.mp hsome
    obtain ⟨i'', hi'', hpath'⟩ := h.path_of_path hw hw' hi' hpath
    obtain ⟨c', hc', hinput', hx⟩ := hw'.connection_of_feeder? hs' hd
      (hfeeder'.trans (show _ = some (i', c.output.index) by simp [Placement.lift, hi']))
    refine ⟨c', hc', hinput', i'', (h.kind?_eq hi'').trans hsource, ?_⟩
    rw [(Prod.mk.inj hx).1]
    exact hpath'

end Mirrors
end Topology
end PullGraph
