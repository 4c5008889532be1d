import PullGraph.Proofs.Connecting
import PullGraph.Proofs.EndOfStream

/-! # Batches

A filter may pull several messages from an input port in one go. `afterPulls` is where it gets
to when it pulls the port one message at a time instead, and `nthPull` what the next of these
pulls brings. A batch is made of such pulls (`Drains`): it stops when it is full or with the
first pull that brings something else. So two batches, the first of them full, are one larger
batch; and since nothing takes back the end of a stream, there is nothing in a batch that
follows one which has met it.
-/
namespace PullGraph

variable {κ ω : Type}

/-- The batch with more messages before its own. -/
def Batch.prepend (ms : List Message) (b : Batch) : Batch :=
  { b with messages := ms ++ b.messages }

@[simp] theorem Batch.prepend_nil (b : Batch) : b.prepend [] = b := rfl

@[simp] theorem Batch.prepend_cons (m : Message) (ms : List Message) (b : Batch) :
    b.prepend (m :: ms) = (b.prepend ms).cons m := rfl

/-! ## One pull after another -/

section Pulls

variable [Behavior κ ω] (converse : Converse κ ω) (id : ComponentId) (port : String)

/-- The turn after `n` pulls of an input port, whatever they bring. -/
def afterPulls : Nat → Turn κ ω → Turn κ ω
  | 0, t => t
  | n + 1, t => afterPulls n (pullNamed converse id port t).turn

/-- What a pull of an input port brings that follows `n` others. -/
def nthPull (n : Nat) (t : Turn κ ω) : Option (Except Fault Pull) :=
  (pullNamed converse id port (afterPulls converse id port n t)).result

/-- The first pulls of an input port bring the messages `ms`, in this order. -/
def Brings (t : Turn κ ω) (ms : List Message) : Prop :=
  ∀ i m, ms[i]? = some m → nthPull converse id port i t = some (.ok (.message m))

/-- What pulling up to `max` messages comes to, of which `ms` are those that were pulled. -/
inductive Drains (max : Nat) (t : Turn κ ω) (ms : List Message) :
    Answer κ ω (Except Fault Batch) → Prop where
  | full (length : ms.length = max) :
      Drains max t ms ⟨some (.ok ⟨ms, false⟩), afterPulls converse id port ms.length t⟩
  /-- A pull brings no message: there is none yet, or the stream has ended. -/
  | stopped {pull : Pull} (length : ms.length < max)
      (last : nthPull converse id port ms.length t = some (.ok pull))
      (empty : pull.message? = none) :
      Drains max t ms ⟨some (.ok ⟨ms, pull.isEndOfStream⟩),
        afterPulls converse id port (ms.length + 1) t⟩
  | failed {fault : Fault} (length : ms.length < max)
      (last : nthPull converse id port ms.length t = some (.error fault)) :
      Drains max t ms ⟨some (.error fault), afterPulls converse id port (ms.length + 1) t⟩
  /-- Patience runs out in a pull. -/
  | unanswered (length : ms.length < max)
      (last : nthPull converse id port ms.length t = none) :
      Drains max t ms ⟨none, afterPulls converse id port (ms.length + 1) t⟩

variable {converse id port}

theorem afterPulls_succ (n : Nat) (t : Turn κ ω) :
    afterPulls converse id port (n + 1) t =
      (pullNamed converse id port (afterPulls converse id port n t)).turn := by
  induction n generalizing t with
  | zero => rfl
  | succ n ih => exact ih (pullNamed converse id port t).turn

theorem Brings.nil (t : Turn κ ω) : Brings converse id port t [] := by
  intro i m h
  cases h

theorem Brings.cons {t : Turn κ ω} {m : Message} {ms : List Message}
    (hm : (pullNamed converse id port t).result = some (.ok (.message m)))
    (hms : Brings converse id port (pullNamed converse id port t).turn ms) :
    Brings converse id port t (m :: ms) := by
  intro i m' h
  cases i with
  | zero =>
    obtain rfl := Option.some.inj h
    exact hm
  | succ i => exact hms i m' h

/-- A batch after one more message. -/
theorem Drains.cons {max : Nat} {t : Turn κ ω} {ms : List Message}
    {x : Answer κ ω (Except Fault Batch)} (m : Message)
    (h : Drains converse id port max (pullNamed converse id port t).turn ms x) :
    Drains converse id port (max + 1) t (m :: ms)
      (x.andThen fun rest t' => ⟨some (rest.map (Batch.cons m)), t'⟩) := by
  cases h with
  | full hlength => exact .full (congrArg (· + 1) hlength)
  | stopped hlength hlast hempty => exact .stopped (Nat.succ_lt_succ hlength) hlast hempty
  | failed hlength hlast => exact .failed (Nat.succ_lt_succ hlength) hlast
  | unanswered hlength hlast => exact .unanswered (Nat.succ_lt_succ hlength) hlast

/-- A batch whose first pull brings a message. -/
theorem pullBatch_message {t t' : Turn κ ω} {m : Message}
    (h : pullNamed converse id port t = ⟨some (.ok (.message m)), t'⟩) (max : Nat) :
    pullBatch converse id port (max + 1) t =
      (pullBatch converse id port max t').andThen
        fun rest t'' => ⟨some (rest.map (Batch.cons m)), t''⟩ := by
  rw [pullBatch, h]
  rfl

variable (converse id port) in
/-- **A batch is made of single pulls.** The induction is on how many messages may be pulled. -/
theorem pullBatch_drains (max : Nat) (t : Turn κ ω) :
    ∃ ms, Brings converse id port t ms ∧
      Drains converse id port max t ms (pullBatch converse id port max t) := by
  induction max generalizing t with
  | zero => exact ⟨[], .nil t, .full rfl⟩
  | succ max ih =>
    cases hx : pullNamed converse id port t with
    | mk result t' =>
    have hlast : nthPull converse id port 0 t = result := congrArg Answer.result hx
    have hturn : afterPulls converse id port 1 t = t' := congrArg Answer.turn hx
    have hroom : ([] : List Message).length < max + 1 := Nat.succ_pos max
    rcases result with _ | fault | pull
    · refine ⟨[], .nil t, ?_⟩
      rw [pullBatch, hx, ← hturn]
      exact .unanswered hroom hlast
    · refine ⟨[], .nil t, ?_⟩
      rw [pullBatch, hx, ← hturn]
      exact .failed hroom hlast
    cases pull with
    | again | endOfStream =>
      refine ⟨[], .nil t, ?_⟩
      rw [pullBatch, hx, ← hturn]
      exact .stopped hroom hlast rfl
    | message m =>
      obtain ⟨ms, hms, hdrains⟩ := ih (pullNamed converse id port t).turn
      refine ⟨m :: ms, .cons hlast hms, ?_⟩
      have hcons := hdrains.cons m
      rw [hx] at hcons
      rw [pullBatch_message hx]
      exact hcons

/-- A batch that comes about holds the messages that were pulled, and says that the stream has
ended exactly if the pull that follows them was made and said so. -/
theorem Drains.batch {max : Nat} {t : Turn κ ω} {ms : List Message}
    {x : Answer κ ω (Except Fault Batch)} (h : Drains converse id port max t ms x) {b : Batch}
    (hb : x.result = some (.ok b)) :
    b.messages = ms ∧ ms.length ≤ max ∧ (b.endOfStream = true ↔
      ms.length < max ∧ nthPull converse id port ms.length t = some (.ok .endOfStream)) := by
  cases h with
  | full hlength =>
    obtain rfl := Except.ok.inj (Option.some.inj hb)
    exact ⟨rfl, Nat.le_of_eq hlength, by simp [hlength]⟩
  | @stopped pull hlength hlast =>
    obtain rfl := Except.ok.inj (Option.some.inj hb)
    refine ⟨rfl, Nat.le_of_lt hlength, ?_⟩
    rw [hlast]
    cases pull <;> simp [Pull.isEndOfStream, hlength]
  | failed => cases hb
  | unanswered => cases hb

/-- A batch that met the end of the stream stopped with the pull that did. -/
theorem Drains.ended {max : Nat} {t : Turn κ ω} {ms : List Message}
    {x : Answer κ ω (Except Fault Batch)} (h : Drains converse id port max t ms x) {b : Batch}
    (hb : x.result = some (.ok b)) (hend : b.endOfStream = true) :
    ∃ t', (pullNamed converse id port t').result = some (.ok .endOfStream) ∧
      x.turn = (pullNamed converse id port t').turn := by
  obtain ⟨rfl, -, hlast⟩ := h.batch hb
  obtain ⟨hroom, hlast⟩ := hlast.mp hend
  refine ⟨afterPulls converse id port b.messages.length t, hlast, ?_⟩
  cases h with
  | full hfull => exact absurd hfull (Nat.ne_of_lt hroom)
  | stopped | failed | unanswered => exact afterPulls_succ _ t

/-- **A full batch and another one are one larger batch.** -/
theorem pullBatch_add {a : Nat} {t : Turn κ ω} {first : Batch}
    (h : (pullBatch converse id port a t).result = some (.ok first))
    (hfull : first.messages.length = a) (b : Nat) :
    pullBatch converse id port (a + b) t =
      (pullBatch converse id port b (pullBatch converse id port a t).turn).andThen
        fun second t' => ⟨some (second.map (Batch.prepend first.messages)), t'⟩ := by
  induction a generalizing t first with
  | zero =>
    obtain rfl := Except.ok.inj (Option.some.inj h)
    rw [Nat.zero_add]
    change _ = (pullBatch converse id port b t).andThen _
    generalize pullBatch converse id port b t = x
    obtain ⟨_ | _ | second, t'⟩ := x <;> rfl
  | succ a ih =>
    cases hx : pullNamed converse id port t with
    | mk result t₁ =>
    rcases result with _ | fault | pull
    · rw [pullBatch, hx] at h
      cases h
    · rw [pullBatch, hx] at h
      cases h
    cases pull with
    | again | endOfStream =>
      rw [pullBatch, hx] at h
      obtain rfl := Except.ok.inj (Option.some.inj h)
      cases hfull
    | message m =>
      rw [Nat.succ_add, pullBatch_message hx]
      rw [pullBatch_message hx] at h ⊢
      -- the rest of the first batch is full as well
      have hrest := @ih t₁
      generalize pullBatch converse id port a t₁ = y at hrest h ⊢
      obtain ⟨_ | _ | rest, t₂⟩ := y
      · cases h
      · cases h
      obtain rfl := Except.ok.inj (Option.some.inj h)
      rw [hrest rfl (Nat.succ.inj hfull)]
      change _ = (pullBatch converse id port b t₂).andThen _
      generalize pullBatch converse id port b t₂ = z
      obtain ⟨_ | _ | second, t₃⟩ := z <;> rfl

end Pulls

/-! ## After the end of a stream -/

theorem isAtEnd_iff {id : ComponentId} {port : String} {t : Turn κ ω} :
    isAtEnd id port t = true ↔ ∃ c j p, t.graph.components[id]? = some c ∧
      c.portIndex? port .input = some j ∧ t.graph.portAt? id j = some p ∧ p.atEnd = true := by
  unfold isAtEnd
  constructor
  · intro h
    obtain ⟨p, hp, hend⟩ := (Option.any_eq_true _ _).mp h
    obtain ⟨j, hj, hport⟩ := Option.bind_eq_some_iff.mp hp
    obtain ⟨c, hc, hindex⟩ := Option.bind_eq_some_iff.mp hj
    exact ⟨c, j, p, hc, hindex, hport, hend⟩
  · rintro ⟨c, j, p, hc, hindex, hport, hend⟩
    simp [hc, hindex, hport, hend]

namespace Graph

/-- A graph at a later time: it has grown, and streams that had ended still have. -/
structure Outlasts (g g' : Graph κ ω) : Prop where
  grows : g.topology.Grows g'.topology
  ends : g.KeepsEnds g'

namespace Outlasts

variable {g g' g'' : Graph κ ω}

theorem of_latches {S : Nat → Nat → Prop} (htopology : g'.topology = g.topology)
    (h : g.Latches S g') : g.Outlasts g' :=
  ⟨htopology ▸ .refl _, h.keepsEnds⟩

theorem refl (g : Graph κ ω) : g.Outlasts g := of_latches rfl (.refl (S := fun _ _ => True) g)

theorem trans (h : g.Outlasts g') (h' : g'.Outlasts g'') : g.Outlasts g'' where
  grows := h.grows.trans h'.grows
  ends := by
    intro i j p hp
    obtain ⟨p', hp', hend⟩ := h.ends i j p hp
    obtain ⟨p'', hp'', hend'⟩ := h'.ends i j p' hp'
    exact ⟨p'', hp'', fun hended => hend' (hend hended)⟩

end Outlasts

end Graph

/-- A port keeps its position among those of its component. -/
theorem Component.portIndex?_of_specs {c c' : Component κ} {name : String} {d : Direction} {j : Nat}
    (h : c.portIndex? name d = some j)
    (hspecs : ∀ (i : Nat) (p : Port), c.ports[i]? = some p →
      ∃ p' : Port, c'.ports[i]? = some p' ∧ p'.name = p.name ∧ p'.direction = p.direction) :
    c'.portIndex? name d = some j := by
  obtain ⟨hj, hmatch, hfirst⟩ := List.findIdx?_eq_some_iff_getElem.mp h
  obtain ⟨p', hp', hname, hd⟩ := hspecs j _ (List.getElem?_eq_getElem hj)
  obtain ⟨hj', rfl⟩ := List.getElem?_eq_some_iff.mp hp'
  refine List.findIdx?_eq_some_iff_getElem.mpr ⟨hj', by rwa [hname, hd], fun i hi => ?_⟩
  obtain ⟨p', hp', hname, hd⟩ := hspecs i _ (List.getElem?_eq_getElem (Nat.lt_trans hi hj))
  obtain ⟨hi', rfl⟩ := List.getElem?_eq_some_iff.mp hp'
  rw [hname, hd]
  exact hfirst i hi

/-- The name of a port still stands for it later. -/
theorem Graph.Outlasts.portIndex? {g g' : Graph κ ω} (h : g.Outlasts g') {id : ComponentId}
    {c : Component κ} (hc : g.components[id]? = some c) {port : String} {d : Direction} {j : Nat}
    (hindex : c.portIndex? port d = some j) :
    ∃ c', g'.components[id]? = some c' ∧ c'.portIndex? port d = some j := by
  -- the ports of the component, as the later graph has them
  have hports : ∀ (i : Nat) (q : Port), c.ports[i]? = some q →
      ∃ q', g'.portAt? id i = some q' ∧ q'.name = q.name ∧ q'.direction = q.direction := by
    intro i q hq
    have hat : g.portAt? id i = some q := by
      rw [Graph.portAt?, hc]
      exact hq
    obtain ⟨s, hs, hspec, -⟩ :=
      h.grows.socket id i q.socket (g.topology_socket?_eq_some.mpr ⟨q, hat, rfl⟩)
    obtain ⟨q', hq', rfl⟩ := g'.topology_socket?_eq_some.mp hs
    exact ⟨q', hq', congrArg PortSpec.name hspec, congrArg PortSpec.direction hspec⟩
  obtain ⟨p, hp, -⟩ := Component.getElem?_of_portIndex? hindex
  obtain ⟨p', hp', -⟩ := hports j p hp
  obtain ⟨c', hc', -⟩ := Option.bind_eq_some_iff.mp hp'
  refine ⟨c', hc', Component.portIndex?_of_specs hindex fun i q hq => ?_⟩
  obtain ⟨q', hq', hsame⟩ := hports i q hq
  rw [Graph.portAt?, hc'] at hq'
  exact ⟨q', hq', hsame⟩

/-- The end of a stream is still known later. -/
theorem isAtEnd_of_outlasts {id : ComponentId} {port : String} {t t' : Turn κ ω}
    (h : isAtEnd id port t = true) (hlater : t.graph.Outlasts t'.graph) :
    isAtEnd id port t' = true := by
  obtain ⟨c, j, p, hc, hindex, hp, hend⟩ := isAtEnd_iff.mp h
  obtain ⟨c', hc', hindex'⟩ := hlater.portIndex? hc hindex
  obtain ⟨p', hp', hended⟩ := hlater.ends id j p hp
  exact isAtEnd_iff.mpr ⟨c', j, p', hc', hindex', hp', hended hend⟩

section Ended

variable [Behavior κ ω] {id : ComponentId} {port : String} {t t' : Turn κ ω}

/-- A stream that has ended is not pulled any more. -/
theorem pullNamed_of_isAtEnd (converse : Converse κ ω) (h : isAtEnd id port t = true) :
    pullNamed converse id port t = ⟨some (.ok .endOfStream), t⟩ := by
  obtain ⟨c, j, p, hc, hindex, hp, hend⟩ := isAtEnd_iff.mp h
  simp only [pullNamed, hc, Option.bind_some, hindex]
  exact pullInput_atEnd hp hend

theorem pullInput_outlasts (patience : Nat) {index : Nat} {p : Port}
    (hp : t.graph.portAt? id index = some p) (hd : p.direction = .input) :
    t.graph.Outlasts (pullInput (converse patience) id index t).turn.graph := by
  have hpasses := pullInput_passes (passesReady_pullLaw.converse patience) hp hd
  exact .of_latches hpasses.leads.topology (pullInput_latches patience hp hd)

/-- A pull that says that the stream has ended leaves it noted. -/
theorem isAtEnd_of_pulled {patience : Nat}
    (h : (pullNamed (converse patience) id port t).result = some (.ok .endOfStream)) :
    isAtEnd id port (pullNamed (converse patience) id port t).turn = true := by
  unfold pullNamed at h ⊢
  cases hport : t.graph.components[id]?.bind (·.portIndex? port .input) with
  | none =>
    rw [hport] at h
    cases h
  | some j =>
    rw [hport] at h
    obtain ⟨c, hc, hindex⟩ := Option.bind_eq_some_iff.mp hport
    obtain ⟨p, hp, hd, -⟩ := Component.getElem?_of_portIndex? hindex
    have hat : t.graph.portAt? id j = some p := by
      rw [Graph.portAt?, hc]
      exact hp
    obtain ⟨c', hc', hindex'⟩ := (pullInput_outlasts patience hat hd).portIndex? hc hindex
    obtain ⟨p', hp', hend⟩ := pullInput_ends patience h
    exact isAtEnd_iff.mpr ⟨c', j, p', hc', hindex', hp', hend⟩

/-- **What can become of a graph** from the middle of a pull step on, as long as it runs: in
the rest of the step, in the steps that follow, and whatever is asked of it after that. -/
inductive Graph.Onward (g : Graph κ ω) : Graph κ ω → Prop where
  | here : Onward g g
  /-- A filter does whatever it does. -/
  | play {t : Turn κ ω} (now : Onward g t.graph) (patience : Nat) (id : ComponentId)
      (d : Dialogue κ ω) : Onward g (d.play (converse patience) id t).turn.graph
  | ask {t : Turn κ ω} (now : Onward g t.graph) (a : ComponentId) (port : String) :
      Onward g (t.ask a port).graph
  /-- A component answers, and the answer comes to the port that was pulled. -/
  | settle {t : Turn κ ω} (now : Onward g t.graph) (id : ComponentId) (index : Nat)
      (a : ComponentId) (port : String) (answer : Except Fault Pull) (k : κ) :
      Onward g (t.settle id index a port answer k).graph
  | pull {t : Turn κ ω} (now : Onward g t.graph) (patience : Nat) {id index : Nat} {p : Port}
      (port : t.graph.portAt? id index = some p) (input : p.direction = .input) :
      Onward g (pullInput (converse patience) id index t).turn.graph
  | deliver {g' : Graph κ ω} (now : Onward g g') (id : ComponentId) (index : Nat)
      (arrival : Option Message) (env : Env ω) : Onward g (g'.deliver id index arrival env).graph
  | tally {g' : Graph κ ω} (now : Onward g g') (stats : Stats) :
      Onward g { g' with stats := stats }
  | call {g' : Graph κ ω} (now : Onward g g') (r : Request κ ω) (env : Env ω) :
      Onward g (r.perform g' env).graph

theorem Graph.Onward.outlasts {g g' : Graph κ ω} (h : g.Onward g') : g.Outlasts g' := by
  induction h with
  | here => exact .refl g
  | @play t _ patience id d ih =>
    obtain ⟨htopology, hlatches⟩ := latchesAbove_law.pullLaw.play
      (latchesAbove_law.pullLaw.converse patience) id d t
    exact ih.trans (.of_latches htopology hlatches)
  | @ask t _ a port ih =>
    exact ih.trans (.of_latches (S := fun _ _ => True) (t.ask_leads a port).topology
      (.of_eq (t.ask_portAt? a port)))
  | @settle t _ id index a port answer k ih =>
    refine ih.trans ⟨t.settle_topology id index a port answer k ▸ .refl _, ?_⟩
    intro i j p hp
    rw [t.settle_portAt?]
    split
    · exact ⟨_, congrArg (Option.map _) hp, fun _ => rfl⟩
    · exact ⟨p, hp, fun hend => hend⟩
  | @pull t _ patience id index p hp hd ih =>
    exact ih.trans (pullInput_outlasts patience hp hd)
  | @deliver g' _ id index arrival env ih =>
    exact ih.trans (.of_latches (S := fun _ _ => True)
      (g'.deliver_passes id index arrival env).leads.topology
      (.of_eq (g'.deliver_portAt? id index arrival env)))
  | tally _ stats ih =>
    exact ih.trans (.of_latches (S := fun _ _ => True) rfl (.of_eq fun _ _ => rfl))
  | @call g' _ r env ih => exact ih.trans ⟨r.topology_grows g' env, r.keepsEnds g' env⟩

/-- **Pulling a batch is pulling again and again.** A batch makes the pulls of single messages,
until it is full or one of them brings something else. A batch that comes about holds what was
pulled, and says that the stream has ended exactly if the last of the pulls said so. If it is
full, it and the next one are what one larger batch is, with its failures and all that it
leaves behind. Once it has met the end of the stream, every batch of the port is empty and says
so, from then on, and nothing happens. -/
theorem pullBatch_iterates (patience : Nat) (id : ComponentId) (port : String) (max : Nat)
    (t : Turn κ ω) :
    (∃ ms, Brings (converse patience) id port t ms ∧
      Drains (converse patience) id port max t ms (pullBatch (converse patience) id port max t)) ∧
    ∀ first, (pullBatch (converse patience) id port max t).result = some (.ok first) →
      (Brings (converse patience) id port t first.messages ∧ first.messages.length ≤ max ∧
        (first.endOfStream = true ↔ first.messages.length < max ∧
          nthPull (converse patience) id port first.messages.length t =
            some (.ok .endOfStream))) ∧
      (first.messages.length = max → ∀ more,
        pullBatch (converse patience) id port (max + more) t =
          (pullBatch (converse patience) id port more
            (pullBatch (converse patience) id port max t).turn).andThen
              fun second t' => ⟨some (second.map (Batch.prepend first.messages)), t'⟩) ∧
      (first.endOfStream = true → ∀ patience' more (t' : Turn κ ω),
        (pullBatch (converse patience) id port max t).turn.graph.Onward t'.graph →
          pullBatch (converse patience') id port (more + 1) t' =
            ⟨some (.ok ⟨[], true⟩), t'⟩) := by
  obtain ⟨ms, hms, hdrains⟩ := pullBatch_drains (converse patience) id port max t
  refine ⟨⟨ms, hms, hdrains⟩, fun first hfirst => ?_⟩
  obtain ⟨rfl, hlength, hend⟩ := hdrains.batch hfirst
  refine ⟨⟨hms, hlength, hend⟩, fun hfull => pullBatch_add hfirst hfull, ?_⟩
  intro hended patience' more t' hlater
  obtain ⟨t₀, hlast, hturn⟩ := hdrains.ended hfirst hended
  rw [hturn] at hlater
  have hstill := isAtEnd_of_outlasts (isAtEnd_of_pulled hlast) hlater.outlasts
  rw [pullBatch, pullNamed_of_isAtEnd _ hstill]
  rfl

/-- The pipeline's filter pulls one of the two messages and then all that is left: together
that is a batch of both, and after it there is nothing more. -/
theorem pipeline_batches :
    let t : Turn (Standard (List Message)) (List Message) := ⟨pipeline.1, pipeline.2, none⟩
    let x := pullBatch (converse 5) 1 "in" 4 t
    (pullBatch (converse 5) 1 "in" 1 t).result = some (.ok ⟨[.int 1], false⟩) ∧
      x.result = some (.ok ⟨[.int 1, .int 2], true⟩) ∧
      x = (pullBatch (converse 5) 1 "in" 3 (pullBatch (converse 5) 1 "in" 1 t).turn).andThen
        (fun second t' => ⟨some (second.map (Batch.prepend [.int 1])), t'⟩) ∧
      ∀ more, pullBatch (converse 0) 1 "in" (more + 1) x.turn =
        ⟨some (.ok ⟨[], true⟩), x.turn⟩ := by
  intro t x
  have hone := (pullBatch_iterates 5 1 "in" 1 t).2 ⟨[.int 1], false⟩ rfl
  have hall := (pullBatch_iterates 5 1 "in" 4 t).2 ⟨[.int 1, .int 2], true⟩ rfl
  exact ⟨rfl, rfl, hone.2.1 rfl 3, fun more => hall.2.2 rfl 0 more x.turn .here⟩

end Ended
end PullGraph
