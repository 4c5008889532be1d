import Mathlib.Data.List.Basic
import PullGraph.Proofs.Schema

/-! # What is wrong with a declaration

`Kind.Admits` states the rules for the ports of a class, each for all of them at once. The check
goes through the ports one by one and stops at the first that does not fit those before it. A list
of ports is admitted exactly if each of them fits (`Kind.admits_concat`), so the port at which the
check stops ends the shortest beginning of the list that breaks a rule, and the check says what is
wrong with it.
-/
namespace PullGraph

variable {κ : Type}

/-! ## The rules -/

/-- Sources take nothing in, and sinks give nothing out. -/
def Kind.Forbids (kind : Kind) (d : Direction) : Prop :=
  kind = .source ∧ d = .input ∨ kind = .sink ∧ d = .output

/-- Two declarations are of one port. -/
def PortSpec.Same (p q : PortSpec) : Prop := p.direction = q.direction ∧ p.name = q.name

/-- The rules for the ports of a class. -/
structure Kind.Admits (kind : Kind) (ports : List PortSpec) : Prop where
  named : ∀ p ∈ ports, p.name ≠ ""
  directed : ∀ p ∈ ports, ¬ kind.Forbids p.direction
  distinct : ports.Pairwise fun p q => ¬ p.Same q

/-- The port at position `i` is the first one with which the ports up to it break a rule. -/
structure Kind.FirstOffence (kind : Kind) (ports : List PortSpec) (i : Nat) : Prop where
  breaks : ¬ kind.Admits (ports.take (i + 1))
  first : ∀ j < i, kind.Admits (ports.take (j + 1))

/-- What is wrong with a port that stands after the ports `before`. The name comes first, then the
direction, and a port can only be there already if neither is wrong. -/
inductive ComponentClass.Blames (c : ComponentClass κ) (before : List PortSpec) (p : PortSpec) :
    SchemaError → Prop where
  | unnamed (unnamed : p.name = "") : Blames c before p (.emptyPortName c.name)
  | misdirected (named : p.name ≠ "") (forbidden : c.kind.Forbids p.direction) :
      Blames c before p (.directionNotAllowed c.name c.kind p)
  | repeated (named : p.name ≠ "") (allowed : ¬ c.kind.Forbids p.direction)
      (declared : ∃ q ∈ before, q.Same p) : Blames c before p (.duplicatePort c.name p)

theorem Kind.allows_iff {kind : Kind} {d : Direction} : kind.allows d = true ↔ ¬ kind.Forbids d := by
  cases kind <;> cases d <;> simp [allows, Forbids]

theorem PortSpec.same_iff {p q : PortSpec} : p.Same q ↔ p = q := by
  cases p
  cases q
  simp [Same, and_comm]

theorem PortSpec.exists_same_iff {ports : List PortSpec} {p : PortSpec} :
    (∃ q ∈ ports, q.Same p) ↔ p ∈ ports := by
  simp [same_iff]

/-! ## Ports that are admitted -/

namespace Kind

variable {kind : Kind} {ports before : List PortSpec} {p : PortSpec}

/-- The rules with which the check of all ports agrees. -/
theorem admits_iff : kind.Admits ports ↔
    (∀ p ∈ ports, p.name.isEmpty = false ∧ kind.allows p.direction = true) ∧ ports.Nodup := by
  have hname : ∀ p : PortSpec, p.name.isEmpty = false ↔ p.name ≠ "" := by simp
  simp only [hname, allows_iff]
  constructor
  · rintro ⟨hnamed, hdirected, hdistinct⟩
    exact ⟨fun p hp => ⟨hnamed p hp, hdirected p hp⟩,
      hdistinct.imp fun hne heq => hne (PortSpec.same_iff.mpr heq)⟩
  · rintro ⟨hsound, hnodup⟩
    exact ⟨fun p hp => (hsound p hp).1, fun p hp => (hsound p hp).2,
      List.Pairwise.imp (fun hne hsame => hne (PortSpec.same_iff.mp hsame)) hnodup⟩

theorem admits_nil : kind.Admits [] := ⟨by simp, by simp, .nil⟩

/-- One more port is admitted if it has a name, its direction is not forbidden and it is not there
already. -/
theorem admits_concat : kind.Admits (before ++ [p]) ↔
    kind.Admits before ∧ p.name ≠ "" ∧ ¬ kind.Forbids p.direction ∧ ¬ ∃ q ∈ before, q.Same p := by
  constructor
  · rintro ⟨hnamed, hdirected, hdistinct⟩
    obtain ⟨hnamed, hname⟩ := List.forall_mem_append.mp hnamed
    obtain ⟨hdirected, hdirection⟩ := List.forall_mem_append.mp hdirected
    obtain ⟨hdistinct, -, hfresh⟩ := List.pairwise_append.mp hdistinct
    have hlast := List.mem_singleton_self p
    refine ⟨⟨hnamed, hdirected, hdistinct⟩, hname p hlast, hdirection p hlast, ?_⟩
    rintro ⟨q, hq, hsame⟩
    exact hfresh q hq p hlast hsame
  · rintro ⟨⟨hnamed, hdirected, hdistinct⟩, hname, hdirection, hfresh⟩
    refine ⟨List.forall_mem_append.mpr ⟨hnamed, List.forall_mem_singleton.mpr hname⟩,
      List.forall_mem_append.mpr ⟨hdirected, List.forall_mem_singleton.mpr hdirection⟩, ?_⟩
    refine List.pairwise_append.mpr ⟨hdistinct, List.pairwise_singleton _ _, fun q hq p' hp' => ?_⟩
    rw [List.mem_singleton.mp hp']
    exact fun hsame => hfresh ⟨q, hq, hsame⟩

/-- The first offence, by the ports before it. -/
theorem firstOffence_iff {i : Nat} (hp : ports[i]? = some p) : kind.FirstOffence ports i ↔
    kind.Admits (ports.take i) ∧ ¬ kind.Admits (ports.take i ++ [p]) := by
  have htake : ports.take (i + 1) = ports.take i ++ [p] := by
    rw [List.take_add_one, hp]
    rfl
  rw [← htake]
  constructor
  · rintro ⟨hbreaks, hfirst⟩
    refine ⟨?_, hbreaks⟩
    cases i with
    | zero => exact admits_nil
    | succ i => exact hfirst i (Nat.lt_succ_self i)
  · rintro ⟨hbefore, hbreaks⟩
    refine ⟨hbreaks, fun j hj => ?_⟩
    -- a beginning of an admitted list is admitted
    have hshorter : ports.take (j + 1) = (ports.take i).take (j + 1) := by
      rw [List.take_take, Nat.min_eq_left hj]
    rw [hshorter]
    exact ⟨fun q hq => hbefore.named q (List.mem_of_mem_take hq),
      fun q hq => hbefore.directed q (List.mem_of_mem_take hq),
      hbefore.distinct.sublist (List.take_sublist _ _)⟩

end Kind

/-! ## The check -/

namespace ComponentClass

variable {c : ComponentClass κ} {before seen ps : List PortSpec} {p : PortSpec} {e : SchemaError}

theorem checkPort_eq_error_iff : c.checkPort seen p = .error e ↔ c.Blames seen p e := by
  have hname : p.name.isEmpty = true ↔ p.name = "" := by simp
  unfold checkPort
  by_cases hunnamed : p.name = ""
  · rw [if_pos (hname.mpr hunnamed)]
    constructor
    · rintro ⟨⟩
      exact .unnamed hunnamed
    · intro h
      cases h with
      | unnamed => rfl
      | misdirected hnamed => exact absurd hunnamed hnamed
      | repeated hnamed => exact absurd hunnamed hnamed
  rw [if_neg (hname.not.mpr hunnamed)]
  by_cases hforbidden : c.kind.Forbids p.direction
  · have hallows : c.kind.allows p.direction = false := by
      rw [← Bool.not_eq_true, Kind.allows_iff, not_not]
      exact hforbidden
    rw [hallows, if_pos (by decide)]
    constructor
    · rintro ⟨⟩
      exact .misdirected hunnamed hforbidden
    · intro h
      cases h with
      | unnamed h => exact absurd h hunnamed
      | misdirected => rfl
      | repeated _ hallowed => exact absurd hforbidden hallowed
  rw [Kind.allows_iff.mpr hforbidden, if_neg (by decide)]
  constructor
  · intro h
    split at h
    next hmem =>
      cases h
      exact .repeated hunnamed hforbidden (PortSpec.exists_same_iff.mpr hmem)
    next => cases h
  · intro h
    cases h with
    | unnamed h => exact absurd h hunnamed
    | misdirected _ h => exact absurd h hforbidden
    | repeated _ _ hdeclared => exact if_pos (PortSpec.exists_same_iff.mp hdeclared)

/-- The check of a list stops at the first port with which something is wrong. -/
theorem checkPorts_eq_error_iff : c.checkPorts seen ps = .error e ↔
    ∃ before p after, ps = before ++ p :: after ∧ c.checkPorts seen before = .ok () ∧
      c.checkPort (before.reverse ++ seen) p = .error e := by
  induction ps generalizing seen with
  | nil => simp [checkPorts]
  | cons q ps ih =>
    have hcons : c.checkPorts seen (q :: ps) =
        (c.checkPort seen q).bind fun _ => c.checkPorts (q :: seen) ps := rfl
    cases hq : c.checkPort seen q with
    | error e' =>
      rw [hcons, hq]
      constructor
      · rintro ⟨⟩
        exact ⟨[], q, ps, rfl, rfl, hq⟩
      · rintro ⟨before, p, after, hps, hbefore, hp⟩
        cases before with
        | nil =>
          obtain ⟨rfl, rfl⟩ := List.cons.inj hps
          exact hq.symm.trans hp
        | cons q' before =>
          obtain ⟨rfl, rfl⟩ := List.cons.inj hps
          rw [checkPorts_cons, hq] at hbefore
          cases hbefore.1
    | ok u =>
      rw [hcons, hq]
      refine ih.trans ⟨?_, ?_⟩
      · rintro ⟨before, p, after, rfl, hbefore, hp⟩
        refine ⟨q :: before, p, after, rfl, (checkPorts_cons ..).mpr ⟨hq, hbefore⟩, ?_⟩
        rwa [List.reverse_cons, List.append_assoc]
      · rintro ⟨before, p, after, hps, hbefore, hp⟩
        cases before with
        | nil =>
          obtain ⟨rfl, rfl⟩ := List.cons.inj hps
          cases hq.symm.trans hp
        | cons q' before =>
          obtain ⟨rfl, rfl⟩ := List.cons.inj hps
          rw [List.reverse_cons, List.append_assoc] at hp
          exact ⟨before, p, after, rfl, ((checkPorts_cons ..).mp hbefore).2, hp⟩

theorem Blames.congr {before' : List PortSpec} (h : c.Blames before p e)
    (hmem : ∀ q, q ∈ before' ↔ q ∈ before) : c.Blames before' p e := by
  cases h with
  | unnamed h => exact .unnamed h
  | misdirected hnamed h => exact .misdirected hnamed h
  | repeated hnamed hallowed hdeclared =>
    exact .repeated hnamed hallowed (by simpa only [hmem] using hdeclared)

/-- Where something is wrong with a port a rule is broken. -/
theorem Blames.not_admits (h : c.Blames before p e) : ¬ c.kind.Admits (before ++ [p]) := by
  rw [Kind.admits_concat]
  rintro ⟨-, hnamed, hallowed, hfresh⟩
  cases h with
  | unnamed h => exact hnamed h
  | misdirected _ h => exact hallowed h
  | repeated _ _ h => exact hfresh h

theorem checkPorts_nil_eq_ok_iff : c.checkPorts [] ps = .ok () ↔ c.kind.Admits ps := by
  rw [checkPorts_eq_ok_iff, Kind.admits_iff]
  simp

/-- A list of ports is refused for the first offence in it. -/
theorem checkPorts_nil_eq_error_iff : c.checkPorts [] ps = .error e ↔
    ∃ i p, ps[i]? = some p ∧ c.kind.FirstOffence ps i ∧ c.Blames (ps.take i) p e := by
  rw [checkPorts_eq_error_iff]
  constructor
  · rintro ⟨before, p, after, rfl, hbefore, hp⟩
    have hblames : c.Blames before p e :=
      (checkPort_eq_error_iff.mp hp).congr fun q => by simp
    have hget : (before ++ p :: after)[before.length]? = some p := by simp
    refine ⟨before.length, p, hget, (Kind.firstOffence_iff hget).mpr ?_, ?_⟩
    · rw [List.take_left]
      exact ⟨checkPorts_nil_eq_ok_iff.mp hbefore, hblames.not_admits⟩
    · rwa [List.take_left]
  · rintro ⟨i, p, hp, hoffence, hblames⟩
    obtain ⟨hi, rfl⟩ := List.getElem?_eq_some_iff.mp hp
    have hsplit : ps = ps.take i ++ ps[i] :: ps.drop (i + 1) := by simp
    refine ⟨ps.take i, ps[i], ps.drop (i + 1), hsplit, ?_, ?_⟩
    · exact checkPorts_nil_eq_ok_iff.mpr ((Kind.firstOffence_iff hp).mp hoffence).1
    · exact checkPort_eq_error_iff.mpr (hblames.congr fun q => by simp)

/-- **A declaration is accepted exactly if it keeps the rules, and refused for the first port that
breaks one.** A class without a name is refused for that. Of any other class the check names
the first port with which the ports up to it break a rule, if there is one: that it has no name,
else that the kind of the class forbids its direction, else that it is there already. -/
theorem validate_first_offence (c : ComponentClass κ) :
    (c.validate = .ok () ↔ c.name ≠ "" ∧ c.kind.Admits c.ports) ∧
    (c.name = "" → c.validate = .error .emptyClassName) ∧
    (c.name ≠ "" → ∀ e, c.validate = .error e ↔
      ∃ i p, c.ports[i]? = some p ∧ c.kind.FirstOffence c.ports i ∧
        c.Blames (c.ports.take i) p e) := by
  have hempty : c.name.isEmpty = true ↔ c.name = "" := by simp
  refine ⟨?_, fun hname => ?_, fun hname e => ?_⟩
  · rw [validate_eq_ok_iff, Kind.admits_iff]
    simp
  · rw [validate, if_pos (hempty.mpr hname)]
  · rw [validate, if_neg (hempty.not.mpr hname)]
    exact checkPorts_nil_eq_error_iff

/-- An input and an output of a filter may share a name, a second input may not. That another port
has no name at all is not reported, for it comes later. -/
theorem echo_refused :
    let c : ComponentClass Unit := { name := "echo", kind := .filter, blank := (), ports :=
      [⟨"data", .input⟩, ⟨"data", .output⟩, ⟨"data", .input⟩, ⟨"", .output⟩] }
    c.name ≠ "" ∧ c.validate = .error (.duplicatePort "echo" ⟨"data", .input⟩) ∧
      ∃ i p, c.ports[i]? = some p ∧ c.kind.FirstOffence c.ports i ∧
        c.Blames (c.ports.take i) p (.duplicatePort "echo" ⟨"data", .input⟩) := by
  intro c
  have hname : c.name ≠ "" := by decide
  have hrefused : c.validate = .error (.duplicatePort "echo" ⟨"data", .input⟩) := by decide +kernel
  exact ⟨hname, hrefused, (c.validate_first_offence.2.2 hname _).mp hrefused⟩

end ComponentClass
end PullGraph
