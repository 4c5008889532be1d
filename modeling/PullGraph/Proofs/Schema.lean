import PullGraph.Schema

/-! # When the declaration of a class is sound -/
namespace PullGraph.ComponentClass

variable {κ : Type} (c : ComponentClass κ)

theorem checkPort_eq_ok_iff (seen : List PortSpec) (p : PortSpec) :
    c.checkPort seen p = .ok () ↔
      p.name.isEmpty = false ∧ c.kind.allows p.direction = true ∧ p ∉ seen := by
  unfold checkPort
  split
  · simp_all
  · split
    · simp_all
    · split <;> simp_all

theorem checkPorts_cons (seen : List PortSpec) (p : PortSpec) (ps : List PortSpec) :
    c.checkPorts seen (p :: ps) = .ok () ↔
      c.checkPort seen p = .ok () ∧ c.checkPorts (p :: seen) ps = .ok () := by
  rw [checkPorts]
  cases c.checkPort seen p with
  | error e => exact ⟨fun h => (nomatch h), fun h => (nomatch h.1)⟩
  | ok u => exact ⟨fun h => ⟨rfl, h⟩, fun h => h.2⟩

/-- The check of a list of ports passes iff each of them is sound by itself and none
occurs twice, among them or among the ones before. -/
theorem checkPorts_eq_ok_iff (ps seen : List PortSpec) :
    c.checkPorts seen ps = .ok () ↔
      (∀ p ∈ ps, p.name.isEmpty = false ∧ c.kind.allows p.direction = true) ∧
        ps.Nodup ∧ ∀ p ∈ ps, p ∉ seen := by
  induction ps generalizing seen with
  | nil => simp [checkPorts]
  | cons p ps ih =>
    rw [checkPorts_cons, checkPort_eq_ok_iff, ih]
    constructor
    · rintro ⟨⟨hname, hallows, hseen⟩, hsound, hnodup, hfresh⟩
      refine ⟨List.forall_mem_cons.mpr ⟨⟨hname, hallows⟩, hsound⟩, ?_, ?_⟩
      · exact List.nodup_cons.mpr ⟨fun hp => hfresh p hp List.mem_cons_self, hnodup⟩
      · exact List.forall_mem_cons.mpr
          ⟨hseen, fun q hq hs => hfresh q hq (List.mem_cons_of_mem p hs)⟩
    · rintro ⟨hsound, hnodup, hfresh⟩
      obtain ⟨hp, hsound⟩ := List.forall_mem_cons.mp hsound
      obtain ⟨hnot, hnodup⟩ := List.nodup_cons.mp hnodup
      obtain ⟨hseen, hfresh⟩ := List.forall_mem_cons.mp hfresh
      refine ⟨⟨hp.1, hp.2, hseen⟩, hsound, hnodup, ?_⟩
      intro q hq hs
      rcases List.mem_cons.mp hs with rfl | hs
      · exact hnot hq
      · exact hfresh q hq hs

/-- A class is accepted iff it has a name and its ports have names, stand in directions
that its kind allows, and differ from each other in name or direction. -/
theorem validate_eq_ok_iff :
    c.validate = .ok () ↔
      c.name.isEmpty = false ∧
        (∀ p ∈ c.ports, p.name.isEmpty = false ∧ c.kind.allows p.direction = true) ∧
          c.ports.Nodup := by
  unfold validate
  split
  · simp_all
  · rw [checkPorts_eq_ok_iff]
    simp_all

end PullGraph.ComponentClass
