import PullGraph.Proofs.Steps
import PullGraph.Standard

/-! # Lines

A source of a list of messages and filters one after another, each of which forwards a
message, drops it, puts another in its place or finds fault with it. What such a line makes
of its messages is first said of lists: `pushThrough` takes one message through the
filters, and `drain` goes on to the first that comes out. Then a pull at the end of a line is
shown to do just that (`Graph.Line.pull`): the filters keep nothing, so the list that the
source has left is all that changes.
-/
namespace PullGraph

variable {ω : Type}

/-! ## Stages -/

/-- A filter that treats every message by itself. -/
inductive Stage where
  | passthrough
  | transform (cls : String) (f : Message → Except String (Option Message))

namespace Stage

/-- What becomes of a message. -/
def apply : Stage → Message → Except String (Option Message)
  | .passthrough, m => .ok (some m)
  | .transform _ f, m => f m

/-- The inner state of the filter. -/
def state : Stage → Standard ω
  | .passthrough => .passthrough
  | .transform _ f => .transform f

/-- The class of the filter. -/
def cls : Stage → ComponentClass (Standard ω)
  | .passthrough => Standard.passthroughClass
  | .transform name f => Standard.transformClass name f

@[simp] theorem cls_kind (F : Stage) : (F.cls : ComponentClass (Standard ω)).kind = .filter := by
  cases F <;> rfl

theorem cls_ports (F : Stage) :
    (F.cls : ComponentClass (Standard ω)).ports = [⟨Standard.inputPort, .input⟩, ⟨"out", .output⟩] := by
  cases F <;> rfl

/-- To be set up changes nothing. -/
theorem setUp_cls (F : Stage) (settings : Settings) (w : ω) :
    (Behavior.setUp settings (F.cls : ComponentClass (Standard ω)).blank w).value.2 = F.state := by
  cases F <;> rfl

/-- What the filter does with what it pulls. -/
def react (F : Stage) : Except Fault Pull → Dialogue (Standard ω) ω
  | .ok (.message m) =>
    match F.apply m with
    | .ok (some m) => .reply (.ok (.message m)) F.state
    | .ok none => .retry F.state
    | .error text => .reply (.error (.own text)) F.state
  | r => .reply r F.state

theorem answer_state (F : Stage) (port : String) :
    (Behavior.answer port (F.state : Standard ω) : Dialogue (Standard ω) ω) =
      .pull Standard.inputPort F.react := by
  cases F with
  | transform name f => rfl
  | passthrough =>
    refine congrArg (Dialogue.pull Standard.inputPort) (funext fun r => ?_)
    match r with
    | .ok (.message m) | .ok .again | .ok .endOfStream | .error fault => rfl

end Stage

/-- Takes a message through stages. One that finds fault with it is given by its position. -/
def pushThrough : List Stage → Message → Except (Nat × String) (Option Message)
  | [], m => .ok (some m)
  | F :: Fs, m =>
    match F.apply m with
    | .error text => .error (0, text)
    | .ok none => .ok none
    | .ok (some m) =>
      match pushThrough Fs m with
      | .error (i, text) => .error (i + 1, text)
      | .ok o => .ok o

theorem pushThrough_concat (Fs : List Stage) (F : Stage) (m : Message) :
    pushThrough (Fs ++ [F]) m =
      match pushThrough Fs m with
      | .error e => .error e
      | .ok none => .ok none
      | .ok (some m) =>
        match F.apply m with
        | .error text => .error (Fs.length, text)
        | .ok o => .ok o := by
  induction Fs generalizing m with
  | nil =>
    simp only [List.nil_append, pushThrough, List.length_nil]
    match F.apply m with
    | .error text | .ok none | .ok (some m') => rfl
  | cons F₀ Fs ih =>
    simp only [List.cons_append, pushThrough, List.length_cons]
    match F₀.apply m with
    | .error text | .ok none => rfl
    | .ok (some m') =>
      dsimp only
      rw [ih m']
      match pushThrough Fs m' with
      | .error (i, text) | .ok none => rfl
      | .ok (some m'') =>
        dsimp only
        match F.apply m'' with
        | .error text | .ok o => rfl

/-- What comes out of a line next. -/
inductive Drained where
  | ended
  | message (m : Message) (rest : List Message)
  | failed (stage : Nat) (text : String)

/-- Takes messages through stages until one comes out or meets a fault. -/
def drain (Fs : List Stage) : List Message → Drained
  | [] => .ended
  | m :: ms =>
    match pushThrough Fs m with
    | .error (i, text) => .failed i text
    | .ok none => drain Fs ms
    | .ok (some m) => .message m ms

theorem drain_concat (Fs : List Stage) (F : Stage) (ms : List Message) :
    drain (Fs ++ [F]) ms =
      match drain Fs ms with
      | .ended => .ended
      | .failed i text => .failed i text
      | .message m rest =>
        match F.apply m with
        | .error text => .failed Fs.length text
        | .ok none => drain (Fs ++ [F]) rest
        | .ok (some m) => .message m rest := by
  induction ms with
  | nil => rfl
  | cons m ms ih =>
    rw [drain, drain, pushThrough_concat]
    match pushThrough Fs m with
    | .error (i, text) => rfl
    | .ok none => exact ih
    | .ok (some m') =>
      dsimp only
      match F.apply m' with
      | .error text | .ok none | .ok (some m'') => rfl

theorem length_lt_of_drain {Fs : List Stage} {ms rest : List Message} {m : Message}
    (h : drain Fs ms = .message m rest) : rest.length < ms.length := by
  induction ms with
  | nil => cases h
  | cons m₀ ms ih =>
    rw [drain] at h
    split at h
    · cases h
    · exact Nat.lt_succ_of_lt (ih h)
    · obtain ⟨-, rfl⟩ := Drained.message.inj h
      exact Nat.lt_succ_self _

/-! ## What a pull of a line leaves alone -/

section Draws

variable {κ : Type}

/-- What does not change while messages are drawn through a line. -/
structure Turn.Draws (t t' : Turn κ ω) : Prop where
  topology : t'.graph.topology = t.graph.topology
  state : t'.graph.state = t.graph.state
  name : t'.graph.name = t.graph.name
  stats : t'.graph.stats = t.graph.stats
  shared : t'.env.shared = t.env.shared
  cancelled : t'.env.cancelled = t.env.cancelled

namespace Turn.Draws

variable {t t' t'' : Turn κ ω}

theorem trans (h : t.Draws t') (h' : t'.Draws t'') : t.Draws t'' where
  topology := h'.topology.trans h.topology
  state := h'.state.trans h.state
  name := h'.name.trans h.name
  stats := h'.stats.trans h.stats
  shared := h'.shared.trans h.shared
  cancelled := h'.cancelled.trans h.cancelled

theorem ask (t : Turn κ ω) (a : ComponentId) (port : String) : t.Draws (t.ask a port) :=
  ⟨(t.ask_leads a port).topology, rfl, rfl, rfl, rfl, rfl⟩

theorem settle (t : Turn κ ω) (id index : Nat) (a : ComponentId) (port : String)
    (answer : Except Fault Pull) (k : κ) : t.Draws (t.settle id index a port answer k) := by
  have htopology := t.settle_topology id index a port answer k
  match answer with
  | .ok .again | .ok .endOfStream | .ok (.message m) | .error cause =>
    exact ⟨htopology, rfl, rfl, rfl, rfl, rfl⟩

end Turn.Draws
end Draws

/-! ## Lines of a graph -/

namespace Graph

variable {g g' : Graph (Standard ω) ω}

/-- Component `u` feeds the first port of component `b`, where the stream goes on. -/
def FedBy (g : Graph (Standard ω) ω) (b u : ComponentId) : Prop :=
  ∃ p conn out, g.portAt? b 0 = some p ∧ p.direction = .input ∧ p.name = Standard.inputPort ∧
    p.atEnd = false ∧ g.connectionOf? p = some conn ∧ conn.output.component = u ∧
    g.portAt? u conn.output.index = some out

/-- The component at the end of a line: the filter that is nearest, or the source itself. -/
def lineEnd (giver : ComponentId) : List (ComponentId × Stage) → ComponentId
  | [] => giver
  | (a, _) :: _ => a

/-- Filters lead up to a source, the nearest first, and all of them are in place. -/
def Line (g : Graph (Standard ω) ω) (giver : ComponentId) : List (ComponentId × Stage) → Prop
  | [] => g.topology.kind? giver = some .source
  | (a, F) :: path => g.topology.kind? a = some .filter ∧ g.behaviors[a]? = some (some F.state) ∧
      g.FedBy a (lineEnd giver path) ∧ g.Line giver path

theorem FedBy.congr {b u : ComponentId} (h : g.FedBy b u) (htopology : g'.topology = g.topology)
    (hports : ∀ i j, g'.portAt? i j = g.portAt? i j) : g'.FedBy b u := by
  obtain ⟨p, conn, out, hp, hd, hname, hopen, hconn, hu, hout⟩ := h
  refine ⟨p, conn, out, (hports _ _).trans hp, hd, hname, hopen, ?_, hu, (hports _ _).trans hout⟩
  rw [connectionOf?, show g'.connections = g.connections from
    congrArg Topology.connections htopology]
  exact hconn

theorem Line.congr {giver : ComponentId} {path : List (ComponentId × Stage)}
    (h : g.Line giver path) (htopology : g'.topology = g.topology)
    (hports : ∀ i j, g'.portAt? i j = g.portAt? i j)
    (hbehaviors : ∀ a ∈ path.map Prod.fst, g'.behaviors[a]? = g.behaviors[a]?) :
    g'.Line giver path := by
  induction path with
  | nil =>
    change g'.topology.kind? giver = some .source
    rw [htopology]
    exact h
  | cons x path ih =>
    obtain ⟨a, F⟩ := x
    obtain ⟨hkind, hstate, hfed, hline⟩ := h
    obtain ⟨ha, hrest⟩ := List.forall_mem_cons.mp hbehaviors
    exact ⟨htopology ▸ hkind, ha.trans hstate, hfed.congr htopology hports, ih hline hrest⟩

theorem Line.kind_of_mem {giver a : ComponentId} {path : List (ComponentId × Stage)}
    (h : g.Line giver path) (ha : a ∈ path.map Prod.fst) : g.topology.kind? a = some .filter := by
  induction path with
  | nil => cases ha
  | cons x path ih =>
    obtain ⟨hkind, -, -, hline⟩ := h
    rcases List.mem_cons.mp ha with rfl | ha
    · exact hkind
    · exact ih hline ha

/-! ## Pulling a line -/

/-- What a pull of a line comes to, by what comes out of the line next. The filters are given
in order from the source, and `blamed` is the failure that is kept. -/
def Yields (giver : ComponentId) (ids : List ComponentId) (t t' : Turn (Standard ω) ω)
    (r : Except Fault Pull) (blamed : Option Failure) : Drained → Prop
  | .ended => r = .ok .endOfStream ∧ blamed = none ∧
      t'.graph.behaviors = t.graph.behaviors.set giver (some (.items []))
  | .message m rest => r = .ok (.message m) ∧ blamed = none ∧
      (∀ i j, t'.graph.portAt? i j = t.graph.portAt? i j) ∧
      t'.graph.behaviors = t.graph.behaviors.set giver (some (.items rest))
  | .failed i text => (∃ cause, r = .error cause) ∧
      ∃ id, ids[i]? = some id ∧ blamed = some ⟨id, .own text⟩

/-- Messages that were drawn and dropped before make no difference. -/
theorem Yields.after {giver : ComponentId} {ids : List ComponentId} {t t' t'' : Turn (Standard ω) ω}
    {r : Except Fault Pull} {blamed : Option Failure} {outcome : Drained} {ms : List Message}
    (h : Yields giver ids t' t'' r blamed outcome)
    (hports : ∀ i j, t'.graph.portAt? i j = t.graph.portAt? i j)
    (hbehaviors : t'.graph.behaviors = t.graph.behaviors.set giver (some (.items ms))) :
    Yields giver ids t t'' r blamed outcome := by
  cases outcome with
  | ended =>
    obtain ⟨hr, hblamed, hset⟩ := h
    exact ⟨hr, hblamed, by rw [hset, hbehaviors, List.set_set]⟩
  | message m rest =>
    obtain ⟨hr, hblamed, hsame, hset⟩ := h
    exact ⟨hr, hblamed, fun i j => (hsame i j).trans (hports i j), by
      rw [hset, hbehaviors, List.set_set]⟩
  | failed i text => exact h

/-- A pull from the end of a line comes to what comes out of the line next. -/
def PullsLine (giver : ComponentId) (path : List (ComponentId × Stage)) : Prop :=
  ∀ (t : Turn (Standard ω) ω) (b : ComponentId) (ms : List Message) (patience : Nat),
    t.graph.Line giver path → t.graph.FedBy b (lineEnd giver path) →
    t.graph.behaviors[giver]? = some (some (.items ms)) → t.failure = none →
    path.length + ms.length ≤ patience →
    ∃ r t', pullInput (converse patience) b 0 t = ⟨some r, t'⟩ ∧ t.Draws t' ∧
      Yields giver (path.reverse.map Prod.fst) t t' r t'.failure
        (drain (path.reverse.map Prod.snd) ms)

theorem FedBy.pullNamed {t : Turn (Standard ω) ω} {a u : ComponentId} (h : t.graph.FedBy a u)
    (converse : Converse (Standard ω) ω) :
    PullGraph.pullNamed converse a Standard.inputPort t = pullInput converse a 0 t := by
  obtain ⟨p, conn, out, hp, hd, hname, -⟩ := h
  obtain ⟨c, hc, hport⟩ := Option.bind_eq_some_iff.mp hp
  have hindex : c.portIndex? Standard.inputPort .input = some 0 := by
    refine List.findIdx?_eq_some_iff_getElem.mpr ?_
    obtain ⟨hlt, hget⟩ := List.getElem?_eq_some_iff.mp hport
    exact ⟨hlt, by simp [hget, hd, hname], fun j hj => absurd hj (Nat.not_lt_zero j)⟩
  rw [PullGraph.pullNamed, hc]
  simp only [Option.bind_some, hindex]

/-- A filter that leads its dialogue at the end of a line. Where it drops a message it starts
over, with fewer messages and less patience: the induction is on patience. -/
theorem PullsLine.converse {giver : ComponentId} {path : List (ComponentId × Stage)}
    (h : @PullsLine ω giver path) (hgiver : giver ∉ path.map Prod.fst) (a : ComponentId)
    (F : Stage) (port : String) (patience : Nat) (t : Turn (Standard ω) ω) (ms : List Message)
    (hline : t.graph.Line giver path) (hfed : t.graph.FedBy a (lineEnd giver path))
    (hitems : t.graph.behaviors[giver]? = some (some (.items ms))) (hfailure : t.failure = none)
    (hpatience : path.length + 1 + ms.length ≤ patience) :
    ∃ answer t', converse patience a port F.state t = ⟨some (answer, F.state), t'⟩ ∧ t.Draws t' ∧
      Yields giver (path.reverse.map Prod.fst ++ [a]) t t' answer
        (t'.failure.or (Event.call t'.graph.id a (.answered port answer)).failure?)
        (drain (path.reverse.map Prod.snd ++ [F]) ms) := by
  induction patience generalizing t ms with
  | zero => omega
  | succ patience ih =>
    obtain ⟨r, t₁, hpull, hdraws, hyields⟩ :=
      h t a ms patience hline hfed hitems hfailure (by omega)
    rw [PullGraph.converse, F.answer_state, Dialogue.play, hfed.pullNamed, hpull, drain_concat]
    have hlength : (path.reverse.map Prod.fst).length = (path.reverse.map Prod.snd).length := by simp
    cases hdrain : drain (path.reverse.map Prod.snd) ms with
    | ended =>
      rw [hdrain] at hyields
      obtain ⟨rfl, hnone, hbehaviors⟩ := hyields
      refine ⟨.ok .endOfStream, t₁, rfl, hdraws, rfl, ?_, hbehaviors⟩
      rw [hnone]
      rfl
    | failed i text =>
      rw [hdrain] at hyields
      obtain ⟨⟨cause, rfl⟩, id, hid, hblamed⟩ := hyields
      refine ⟨.error cause, t₁, rfl, hdraws, ⟨cause, rfl⟩, id, ?_, ?_⟩
      · rw [List.getElem?_append_left (List.getElem?_eq_some_iff.mp hid).1, hid]
      · rw [hblamed]
        rfl
    | message m rest =>
      rw [hdrain] at hyields
      obtain ⟨rfl, hnone, hports, hbehaviors⟩ := hyields
      simp only [Answer.andThen, Stage.react]
      cases hm : F.apply m with
      | error text =>
        -- the filter is the last of those that the message went through
        refine ⟨.error (.own text), t₁, rfl, hdraws, ⟨_, rfl⟩, a, ?_, ?_⟩
        · rw [List.getElem?_append_right (by omega), hlength]
          simp
        · rw [hnone]
          rfl
      | ok o =>
        cases o with
        | some m' =>
          refine ⟨.ok (.message m'), t₁, rfl, hdraws, rfl, ?_, hports, hbehaviors⟩
          rw [hnone]
          rfl
        | none =>
          -- the message is dropped: the line is as it was, with fewer messages before it
          have hrest := length_lt_of_drain hdrain
          have hlt : giver < t.graph.behaviors.length := (List.getElem?_eq_some_iff.mp hitems).1
          have hline' : t₁.graph.Line giver path := by
            refine hline.congr hdraws.topology hports fun b hb => ?_
            have hne : giver ≠ b := by
              rintro rfl
              exact hgiver hb
            rw [hbehaviors, List.getElem?_set_ne hne]
          obtain ⟨answer, t', hconverse, hdraws', hyields'⟩ := ih t₁ rest hline'
            (hfed.congr hdraws.topology hports) (by rw [hbehaviors, List.getElem?_set_self hlt])
            hnone (by omega)
          exact ⟨answer, t', hconverse, hdraws.trans hdraws', hyields'.after hports hbehaviors⟩

/-- A pull of a port that is fed asks whoever feeds it. -/
theorem FedBy.pull {t : Turn (Standard ω) ω} {b u : ComponentId} (h : t.graph.FedBy b u)
    {kind : Kind} {k : Standard ω} (hkind : t.graph.topology.kind? u = some kind)
    (hk : t.graph.behaviors[u]? = some (some k)) (converse : Converse (Standard ω) ω) :
    ∃ port, pullInput converse b 0 t =
      (produce converse kind u port k (t.ask u port)).andThen fun r t' =>
        ⟨some (handOn r.1), t'.settle b 0 u port r.1 r.2⟩ := by
  obtain ⟨p, conn, out, hp, -, -, hopen, hconn, rfl, hout⟩ := h
  obtain ⟨c, hc, rfl⟩ := t.graph.topology_kind?_eq_some.mp hkind
  obtain ⟨c', hc', hinPlace⟩ := behaviors_eq_some.mp hk
  obtain rfl : c = c' := Option.some.inj (hc.symm.trans hc')
  exact ⟨out.name, pullInput_asks ⟨hp, hopen, hconn, hc, hout, hinPlace⟩⟩

theorem pullsLine_nil (giver : ComponentId) : @PullsLine ω giver [] := by
  intro t b ms patience hline (hfed : t.graph.FedBy b giver) hitems hfailure hpatience
  obtain ⟨port, hpull⟩ := hfed.pull hline hitems (PullGraph.converse patience)
  rw [hpull]
  have hdraws := fun r k => (Turn.Draws.ask t giver port).trans
    (Turn.Draws.settle (t.ask giver port) b 0 giver port r k)
  cases ms with
  | nil =>
    refine ⟨.ok .endOfStream, (t.ask giver port).settle b 0 giver port (.ok .endOfStream) (.items []),
      rfl, hdraws (.ok .endOfStream) (.items []), rfl, ?_, ?_⟩
    · rw [Turn.settle_failure]
      exact congrArg (Option.or · none) hfailure
    · rw [Turn.settle_behaviors, Turn.ask_behaviors, List.set_set]
  | cons m ms =>
    refine ⟨.ok (.message m), (t.ask giver port).settle b 0 giver port (.ok (.message m)) (.items ms),
      rfl, hdraws (.ok (.message m)) (.items ms), rfl, ?_, ?_, ?_⟩
    · rw [Turn.settle_failure]
      exact congrArg (Option.or · none) hfailure
    · intro i j
      rw [Turn.settle_portAt?, if_neg (nomatch ·.1), Turn.ask_portAt?]
    · rw [Turn.settle_behaviors, Turn.ask_behaviors, List.set_set]

/-- A filter that has answered is as it was before it was asked. -/
theorem Yields.settle {giver a b : ComponentId} {ids : List ComponentId} {port : String}
    {t t' : Turn (Standard ω) ω} {answer : Except Fault Pull} {k : Standard ω} {outcome : Drained}
    (h : Yields giver ids (t.ask a port) t' answer
      (t'.failure.or (Event.call t'.graph.id a (.answered port answer)).failure?) outcome)
    (hk : t.graph.behaviors[a]? = some (some k)) (ha : a ≠ giver) :
    Yields giver ids t (t'.settle b 0 a port answer k) (handOn answer)
      (t'.settle b 0 a port answer k).failure outcome := by
  rw [← Turn.settle_failure t' b 0 a port answer k] at h
  have hbehaviors : ∀ o : Standard ω,
      t'.graph.behaviors = (t.ask a port).graph.behaviors.set giver (some o) →
      (t'.settle b 0 a port answer k).graph.behaviors = t.graph.behaviors.set giver (some o) := by
    intro o ho
    -- the filter was taken out and is put back, so only the list of the source differs
    rw [Turn.settle_behaviors, ho, Turn.ask_behaviors, List.set_comm _ _ ha.symm, List.set_set,
      set_eq_self hk]
  cases outcome with
  | ended =>
    obtain ⟨rfl, hnone, hset⟩ := h
    exact ⟨rfl, hnone, hbehaviors _ hset⟩
  | message m rest =>
    obtain ⟨rfl, hnone, hports, hset⟩ := h
    refine ⟨rfl, hnone, fun i j => ?_, hbehaviors _ hset⟩
    rw [Turn.settle_portAt?, if_neg (nomatch ·.1), hports, Turn.ask_portAt?]
  | failed i text =>
    obtain ⟨⟨cause, rfl⟩, hblamed⟩ := h
    exact ⟨⟨.feederFailed, rfl⟩, hblamed⟩

theorem PullsLine.cons {giver : ComponentId} {path : List (ComponentId × Stage)}
    (h : @PullsLine ω giver path) (hgiver : giver ∉ path.map Prod.fst) {a : ComponentId}
    (ha : a ≠ giver) (hpath : a ∉ path.map Prod.fst) (F : Stage) :
    @PullsLine ω giver ((a, F) :: path) := by
  intro t b ms patience hline (hfed : t.graph.FedBy b a) hitems hfailure hpatience
  obtain ⟨hkind, hstate, hfeeder, hline⟩ := hline
  obtain ⟨port, hpull⟩ := hfed.pull hkind hstate (PullGraph.converse patience)
  have htopology := (t.ask_leads a port).topology
  have hline' : (t.ask a port).graph.Line giver path := by
    refine hline.congr htopology (t.ask_portAt? a port) fun i hi => ?_
    rw [Turn.ask_behaviors, List.getElem?_set_ne]
    rintro rfl
    exact hpath hi
  obtain ⟨answer, t', hconverse, hdraws, hyields⟩ := h.converse hgiver a F port patience
    (t.ask a port) ms hline' (hfeeder.congr htopology (t.ask_portAt? a port))
    (by rw [Turn.ask_behaviors, List.getElem?_set_ne ha, hitems]) hfailure hpatience
  rw [hpull, produce, hconverse]
  refine ⟨handOn answer, t'.settle b 0 a port answer F.state, rfl,
    (Turn.Draws.ask t a port).trans (hdraws.trans (Turn.Draws.settle ..)), ?_⟩
  simp only [List.reverse_cons, List.map_append, List.map_cons, List.map_nil]
  exact hyields.settle hstate ha

/-- **A pull of a line draws messages through its filters** until one comes out, one meets a
fault, or none is left. -/
theorem Line.pull {giver : ComponentId} {path : List (ComponentId × Stage)}
    (hnodup : (giver :: path.map Prod.fst).Nodup) : @PullsLine ω giver path := by
  induction path with
  | nil => exact pullsLine_nil giver
  | cons x path ih =>
    obtain ⟨a, F⟩ := x
    simp only [List.map_cons, List.nodup_cons, List.mem_cons, not_or] at hnodup
    obtain ⟨⟨hne, hgiver⟩, ha, hrest⟩ := hnodup
    exact (ih (List.nodup_cons.mpr ⟨hgiver, hrest⟩)).cons hgiver (Ne.symm hne) ha F

end Graph
end PullGraph
