import PullGraph.Proofs.Schema
import PullGraph.Proofs.Topology

/-! # Wiring

A connection is written down three times: in the list of connections and at the two
ports that it joins. `Topology.Wired` says that the three agree, that a connection leads
from an output port to an input port of another component, that ports are as the
classes declare them, and that positions and the list of sinks are right. Adding a
component and connecting two free ports keep it, and nothing else touches the topology.
-/
namespace PullGraph

/-- The declaration that a port comes from. -/
def Socket.spec (s : Socket) : PortSpec := ⟨s.name, s.direction⟩

/-- A port as it is declared, not connected. -/
def PortSpec.socket (p : PortSpec) : Socket := ⟨p.name, p.direction, none⟩

/-- The port once connection `k` ends there. -/
def Socket.plug (s : Socket) (k : Nat) : Socket := { s with connection := some k }

namespace Topology

variable {κ : Type} (T : Topology κ)

/-- A handle of this topology names one of its ports, with the right direction. -/
def Offers (p : PortHandle) : Prop :=
  p.graph = T.id ∧ ∃ s, T.socket? p.component p.index = some s ∧ s.direction = p.direction

/-- Components and connections are where and what they say, and a port holds the number
of a connection iff it is one of its ends. -/
structure Wired : Prop where
  positions : ∀ (i : Nat) (o : Outline κ), T.components[i]? = some o → o.id = i ∧ o.graph = T.id
  names : (T.components.map (·.name)).Nodup
  schemas : ∀ o ∈ T.components, o.cls.validate = .ok () ∧ o.sockets.map Socket.spec = o.cls.ports
  sinks : T.sinks = (List.range T.components.length).filter fun i => T.kind? i = some .sink
  numbers : ∀ (k : Nat) (c : Connection), T.connections[k]? = some c → c.id = k
  outputs : ∀ c ∈ T.connections, T.Offers c.output ∧ c.output.direction = .output
  inputs : ∀ c ∈ T.connections, T.Offers c.input ∧ c.input.direction = .input
  apart : ∀ c ∈ T.connections, c.output.component ≠ c.input.component
  ends : ∀ i j s, T.socket? i j = some s → ∀ k, s.connection = some k ↔
    ∃ c : Connection, T.connections[k]? = some c ∧
      (c.output = ⟨T.id, i, j, s.direction⟩ ∨ c.input = ⟨T.id, i, j, s.direction⟩)

variable {T}

theorem lt_of_socket? {i j : Nat} {s : Socket} (h : T.socket? i j = some s) :
    i < T.components.length := by
  obtain ⟨o, ho, -⟩ := Option.bind_eq_some_iff.mp h
  exact (List.getElem?_eq_some_iff.mp ho).1

/-- The handle of a port is made of where the port is and of its direction. -/
theorem Offers.eq_mk {p : PortHandle} (h : T.Offers p) {i j : Nat} {s : Socket}
    (hs : T.socket? i j = some s) (hi : p.component = i) (hj : p.index = j) :
    p = ⟨T.id, i, j, s.direction⟩ := by
  obtain ⟨hid, s', hs', hd⟩ := h
  subst hi hj
  obtain rfl : s' = s := Option.some.inj (hs'.symm.trans hs)
  rw [hd, ← hid]

theorem Offers.lt {p : PortHandle} (h : T.Offers p) : p.component < T.components.length := by
  obtain ⟨-, s, hs, -⟩ := h
  exact lt_of_socket? hs

/-- A port is declared by the class of its component. -/
theorem Wired.declared (h : T.Wired) {i j : Nat} {s : Socket} (hs : T.socket? i j = some s) :
    ∃ o, T.components[i]? = some o ∧ o.cls.validate = .ok () ∧ s.spec ∈ o.cls.ports := by
  obtain ⟨o, ho, hj⟩ := Option.bind_eq_some_iff.mp hs
  obtain ⟨hvalid, hports⟩ := h.schemas o (List.mem_of_getElem? ho)
  refine ⟨o, ho, hvalid, ?_⟩
  rw [← hports]
  exact List.mem_map_of_mem (List.mem_of_getElem? hj)

/-- A component has ports only in the directions that its kind allows. -/
theorem Wired.allows (h : T.Wired) {i j : Nat} {s : Socket} {kind : Kind}
    (hs : T.socket? i j = some s) (hk : T.kind? i = some kind) : kind.allows s.direction = true := by
  obtain ⟨o, ho, hvalid, hmem⟩ := h.declared hs
  rw [kind?, ho] at hk
  obtain rfl : o.kind = kind := Option.some.inj hk
  exact ((o.cls.validate_eq_ok_iff.mp hvalid).2.1 _ hmem).2

/-- An input port that holds the number of a connection is the end of that connection. -/
theorem Wired.input_of_connection (h : T.Wired) {i j k : Nat} {s : Socket}
    (hs : T.socket? i j = some s) (hd : s.direction = .input) (hk : s.connection = some k) :
    ∃ c, T.connections[k]? = some c ∧ c.input = ⟨T.id, i, j, .input⟩ := by
  obtain ⟨c, hc, hend⟩ := (h.ends i j s hs k).mp hk
  rw [hd] at hend
  refine ⟨c, hc, ?_⟩
  rcases hend with hout | hin
  · have hdir := (h.outputs c (List.mem_of_getElem? hc)).2
    rw [hout] at hdir
    cases hdir
  · exact hin

/-! ## Adding a component -/

/-- The topology with one more component at its end. -/
def push (T : Topology κ) (o : Outline κ) : Topology κ :=
  { T with
    components := T.components ++ [o]
    sinks := if o.kind = .sink then T.sinks ++ [o.id] else T.sinks }

theorem push_getElem?_of_lt (o : Outline κ) {i : Nat} (hi : i < T.components.length) :
    (T.push o).components[i]? = T.components[i]? := by
  simp [push, List.getElem?_append_left hi]

theorem push_socket?_of_lt (o : Outline κ) {i : Nat} (hi : i < T.components.length) (j : Nat) :
    (T.push o).socket? i j = T.socket? i j := by
  unfold socket?
  rw [push_getElem?_of_lt o hi]

theorem push_socket?_eq_some {o : Outline κ} {i j : Nat} {s : Socket}
    (h : (T.push o).socket? i j = some s) :
    T.socket? i j = some s ∨ i = T.components.length ∧ s ∈ o.sockets := by
  obtain ⟨o', ho', hj⟩ := Option.bind_eq_some_iff.mp h
  rcases getElem?_concat_eq_some ho' with hold | ⟨hi, rfl⟩
  · exact Or.inl (by rw [socket?, hold]; exact hj)
  · exact Or.inr ⟨hi, List.mem_of_getElem? hj⟩

theorem Offers.push {p : PortHandle} (h : T.Offers p) (o : Outline κ) : (T.push o).Offers p := by
  obtain ⟨hid, s, hs, hd⟩ := h
  refine ⟨hid, s, ?_, hd⟩
  rw [push_socket?_of_lt o (lt_of_socket? hs), hs]

theorem push_sinks (h : T.sinks = (List.range T.components.length).filter fun i => T.kind? i = some .sink)
    {o : Outline κ} (hid : o.id = T.components.length) :
    (T.push o).sinks =
      (List.range (T.push o).components.length).filter fun i => (T.push o).kind? i = some .sink := by
  have hlen : (T.push o).components.length = T.components.length + 1 := by simp [Topology.push]
  have hold : ∀ i ∈ List.range T.components.length,
      decide ((T.push o).kind? i = some .sink) = decide (T.kind? i = some .sink) := by
    intro i hi
    rw [kind?, push_getElem?_of_lt o (List.mem_range.mp hi), ← kind?]
  have hnew : (T.push o).kind? T.components.length = some o.kind := by
    simp [kind?, Topology.push]
  have hsinks : (T.push o).sinks = if o.kind = .sink then T.sinks ++ [o.id] else T.sinks := rfl
  rw [hlen, List.range_succ, List.filter_append, List.filter_congr hold, ← h, hsinks, hid]
  by_cases hk : o.kind = .sink <;> simp [hnew, hk]

/-- A component of an accepted class, with a name of its own, may be added. -/
theorem Wired.push (h : T.Wired) {o : Outline κ} (hid : o.id = T.components.length)
    (hgraph : o.graph = T.id) (hname : ∀ o' ∈ T.components, o'.name ≠ o.name)
    (hvalid : o.cls.validate = .ok ()) (hsockets : o.sockets = o.cls.ports.map PortSpec.socket) :
    (T.push o).Wired where
  positions := by
    intro i o' ho'
    rcases getElem?_concat_eq_some ho' with hold | ⟨rfl, rfl⟩
    · exact h.positions i o' hold
    · exact ⟨hid, hgraph⟩
  names := by
    simp only [Topology.push, List.map_append, List.map_cons, List.map_nil]
    refine List.nodup_append.mpr ⟨h.names, List.pairwise_singleton _ _, ?_⟩
    intro x hx y hy hxy
    obtain ⟨o', ho', rfl⟩ := List.mem_map.mp hx
    rw [List.mem_singleton.mp hy] at hxy
    exact hname o' ho' hxy
  schemas := by
    intro o' ho'
    rcases List.mem_append.mp ho' with hold | hnew
    · exact h.schemas o' hold
    · rw [List.mem_singleton.mp hnew]
      refine ⟨hvalid, ?_⟩
      rw [hsockets, List.map_map]
      exact List.map_id _
  sinks := push_sinks h.sinks hid
  numbers := h.numbers
  outputs c hc := ⟨(h.outputs c hc).1.push o, (h.outputs c hc).2⟩
  inputs c hc := ⟨(h.inputs c hc).1.push o, (h.inputs c hc).2⟩
  apart := h.apart
  ends := by
    intro i j s hs k
    rcases push_socket?_eq_some hs with hold | ⟨rfl, hmem⟩
    · exact h.ends i j s hold k
    · -- the new component is at a position that no connection knows of
      rw [hsockets] at hmem
      obtain ⟨p, -, rfl⟩ := List.mem_map.mp hmem
      refine ⟨fun hk => (nomatch hk), ?_⟩
      rintro ⟨c, hc, hend⟩
      have hmem := List.mem_of_getElem? hc
      rcases hend with hout | hin
      · have hlt := (h.outputs c hmem).1.lt
        rw [hout] at hlt
        exact absurd hlt (Nat.lt_irrefl _)
      · have hlt := (h.inputs c hmem).1.lt
        rw [hin] at hlt
        exact absurd hlt (Nat.lt_irrefl _)

/-! ## Connecting two ports -/

/-- Notes at a port that connection `k` ends there. -/
def attach (T : Topology κ) (p : PortHandle) (k : Nat) : Topology κ :=
  { T with components := T.components.modify p.component fun o =>
      { o with sockets := o.sockets.modify p.index (·.plug k) } }

/-- The topology with one more connection. -/
def join (T : Topology κ) (c : Connection) : Topology κ :=
  { (T.attach c.output c.id).attach c.input c.id with connections := T.connections ++ [c] }

/-- A component is attached to in what it declares of its ports only. -/
theorem attach_map {α : Type} {f : Outline κ → α}
    (hf : ∀ (o : Outline κ) (l : List Socket), f { o with sockets := l } = f o) (p : PortHandle)
    (k : Nat) : (T.attach p k).components.map f = T.components.map f :=
  map_modify_of_eq (fun o => hf o _) T.components p.component

theorem attach_specs (p : PortHandle) (k : Nat) :
    (T.attach p k).components.map (fun o => (o.cls, o.sockets.map Socket.spec)) =
      T.components.map fun o => (o.cls, o.sockets.map Socket.spec) := by
  refine map_modify_of_eq (fun o => ?_) T.components p.component
  have hspec : ∀ s : Socket, (s.plug k).spec = s.spec := fun _ => rfl
  rw [map_modify_of_eq hspec]

theorem attach_socket? (p : PortHandle) (k i j : Nat) :
    (T.attach p k).socket? i j =
      if p.component = i ∧ p.index = j then (T.socket? i j).map (·.plug k) else T.socket? i j := by
  simp only [socket?, attach, List.getElem?_modify]
  cases T.components[i]? with
  | none => simp
  | some o =>
    by_cases hi : p.component = i
    · by_cases hj : p.index = j <;> simp [hi, hj]
    · simp [hi]

theorem join_map {α : Type} {f : Outline κ → α}
    (hf : ∀ (o : Outline κ) (l : List Socket), f { o with sockets := l } = f o) (c : Connection) :
    (T.join c).components.map f = T.components.map f :=
  (attach_map hf c.input c.id).trans (attach_map hf c.output c.id)

theorem join_specs (c : Connection) :
    (T.join c).components.map (fun o => (o.cls, o.sockets.map Socket.spec)) =
      T.components.map fun o => (o.cls, o.sockets.map Socket.spec) :=
  (attach_specs c.input c.id).trans (attach_specs c.output c.id)

theorem join_kind? (c : Connection) (i : Nat) : (T.join c).kind? i = T.kind? i := by
  unfold kind?
  rw [← List.getElem?_map, ← List.getElem?_map, join_map fun _ _ => rfl]

/-- A new connection is noted at the two ports that it joins, and nowhere else. -/
theorem join_socket? (c : Connection) (i j : Nat) :
    (T.join c).socket? i j =
      if (c.output.component = i ∧ c.output.index = j) ∨ (c.input.component = i ∧ c.input.index = j)
      then (T.socket? i j).map (·.plug c.id) else T.socket? i j := by
  change ((T.attach c.output c.id).attach c.input c.id).socket? i j = _
  rw [attach_socket?, attach_socket?]
  by_cases hin : c.input.component = i ∧ c.input.index = j
  · by_cases hout : c.output.component = i ∧ c.output.index = j
    · simp [hin, hout, Option.map_map, Function.comp_def, Socket.plug]
    · simp [hin, hout]
  · by_cases hout : c.output.component = i ∧ c.output.index = j <;> simp [hin, hout]

theorem Offers.join {p : PortHandle} (h : T.Offers p) (c : Connection) : (T.join c).Offers p := by
  obtain ⟨hid, s, hs, hd⟩ := h
  refine ⟨hid, ?_⟩
  rw [join_socket?, hs]
  split
  · exact ⟨s.plug c.id, rfl, hd⟩
  · exact ⟨s, rfl, hd⟩

theorem join_connections_of_eq_some {c c' : Connection} {k : Nat}
    (h : T.connections[k]? = some c') : (T.join c).connections[k]? = some c' := by
  change (T.connections ++ [c])[k]? = some c'
  rw [List.getElem?_append_left (List.getElem?_eq_some_iff.mp h).1, h]

theorem join_connections_new {c : Connection} {k : Nat} (hk : k = T.connections.length) :
    (T.join c).connections[k]? = some c := by
  subst hk
  change (T.connections ++ [c])[T.connections.length]? = some c
  simp

/-- At a port of the new connection stands its number and no other. -/
theorem Wired.ends_join_of_end (h : T.Wired) {c : Connection} (hnew : c.id = T.connections.length)
    {i j : Nat} {s : Socket} (hs : T.socket? i j = some s) (hfree : s.connection = none)
    (hend : c.output = ⟨T.id, i, j, s.direction⟩ ∨ c.input = ⟨T.id, i, j, s.direction⟩) (k : Nat) :
    (s.plug c.id).connection = some k ↔ ∃ c', (T.join c).connections[k]? = some c' ∧
      (c'.output = ⟨T.id, i, j, s.direction⟩ ∨ c'.input = ⟨T.id, i, j, s.direction⟩) := by
  constructor
  · intro hk
    obtain rfl : c.id = k := Option.some.inj hk
    exact ⟨c, join_connections_new hnew, hend⟩
  · rintro ⟨c', hc', hend'⟩
    rcases getElem?_concat_eq_some hc' with hold | ⟨hk, rfl⟩
    · -- the port was free, so no connection from before ends here
      have hsome := (h.ends i j s hs k).mpr ⟨c', hold, hend'⟩
      rw [hfree] at hsome
      cases hsome
    · exact congrArg some (hnew.trans hk.symm)

/-- At every other port stands what stood there before. -/
theorem Wired.ends_join_of_not_end (h : T.Wired) {c : Connection} {i j : Nat} {s : Socket}
    (hs : T.socket? i j = some s)
    (hend : ¬ ((c.output.component = i ∧ c.output.index = j) ∨
      (c.input.component = i ∧ c.input.index = j))) (k : Nat) :
    s.connection = some k ↔ ∃ c', (T.join c).connections[k]? = some c' ∧
      (c'.output = ⟨T.id, i, j, s.direction⟩ ∨ c'.input = ⟨T.id, i, j, s.direction⟩) := by
  rw [h.ends i j s hs k]
  constructor
  · rintro ⟨c', hc', hend'⟩
    exact ⟨c', join_connections_of_eq_some hc', hend'⟩
  · rintro ⟨c', hc', hend'⟩
    rcases getElem?_concat_eq_some hc' with hold | ⟨-, rfl⟩
    · exact ⟨c', hold, hend'⟩
    · refine absurd ?_ hend
      rcases hend' with hout | hin
      · exact Or.inl (by rw [hout]; exact ⟨rfl, rfl⟩)
      · exact Or.inr (by rw [hin]; exact ⟨rfl, rfl⟩)

/-- A free output port and a free input port of two components may be connected. -/
theorem Wired.join (h : T.Wired) {c : Connection} (hnew : c.id = T.connections.length)
    (hout : T.Offers c.output) (houtd : c.output.direction = .output)
    (hin : T.Offers c.input) (hind : c.input.direction = .input)
    (hapart : c.output.component ≠ c.input.component)
    (hfree : ∀ p s, p = c.output ∨ p = c.input → T.socket? p.component p.index = some s →
      s.connection = none) : (T.join c).Wired where
  positions := by
    have hmap : (T.join c).components.map (fun o => (o.id, o.graph)) =
        T.components.map fun o => (o.id, o.graph) := join_map (fun _ _ => rfl) c
    intro i o ho
    have hi : (T.components.map fun o => (o.id, o.graph))[i]? = some (o.id, o.graph) := by
      rw [← hmap, List.getElem?_map, ho]
      rfl
    rw [List.getElem?_map] at hi
    obtain ⟨o', ho', heq⟩ := Option.map_eq_some_iff.mp hi
    obtain ⟨hid, hgraph⟩ := Prod.mk.inj heq
    rw [← hid, ← hgraph]
    exact h.positions i o' ho'
  names := by
    rw [join_map fun _ _ => rfl]
    exact h.names
  schemas := by
    intro o ho
    have hmem := List.mem_map_of_mem (f := fun o : Outline κ => (o.cls, o.sockets.map Socket.spec)) ho
    rw [join_specs] at hmem
    obtain ⟨o', ho', heq⟩ := List.mem_map.mp hmem
    obtain ⟨hcls, hspecs⟩ := Prod.mk.inj heq
    rw [← hcls, ← hspecs]
    exact h.schemas o' ho'
  sinks := by
    have hlen : (T.join c).components.length = T.components.length := by
      have hmap : (T.join c).components.map (·.id) = T.components.map (·.id) :=
        join_map (fun _ _ => rfl) c
      simpa using congrArg List.length hmap
    simp only [hlen, join_kind?]
    exact h.sinks
  numbers := by
    intro k c' hc'
    rcases getElem?_concat_eq_some hc' with hold | ⟨hk, rfl⟩
    · exact h.numbers k c' hold
    · exact hnew.trans hk.symm
  outputs := by
    intro c' hc'
    rcases List.mem_append.mp hc' with hold | hc'
    · exact ⟨(h.outputs c' hold).1.join c, (h.outputs c' hold).2⟩
    · rw [List.mem_singleton.mp hc']
      exact ⟨hout.join c, houtd⟩
  inputs := by
    intro c' hc'
    rcases List.mem_append.mp hc' with hold | hc'
    · exact ⟨(h.inputs c' hold).1.join c, (h.inputs c' hold).2⟩
    · rw [List.mem_singleton.mp hc']
      exact ⟨hin.join c, hind⟩
  apart := by
    intro c' hc'
    rcases List.mem_append.mp hc' with hold | hc'
    · exact h.apart c' hold
    · rw [List.mem_singleton.mp hc']
      exact hapart
  ends := by
    intro i j s hs k
    rw [join_socket?] at hs
    split at hs
    · rename_i hend
      obtain ⟨s, hold, rfl⟩ := Option.map_eq_some_iff.mp hs
      rcases hend with ⟨rfl, rfl⟩ | ⟨rfl, rfl⟩
      · exact h.ends_join_of_end hnew hold (hfree _ s (Or.inl rfl) hold)
          (Or.inl (hout.eq_mk hold rfl rfl)) k
      · exact h.ends_join_of_end hnew hold (hfree _ s (Or.inr rfl) hold)
          (Or.inr (hin.eq_mk hold rfl rfl)) k
    · rename_i hend
      exact h.ends_join_of_not_end hs hend k

end Topology
end PullGraph
