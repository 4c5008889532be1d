import Mathlib.Data.List.Nodup
import PullGraph.Proofs.Schema
import PullGraph.Standard

/-! # What a registry holds

A registry keeps its classes twice: their names in a list, in order of registration, and the
classes themselves in a map by name. Seen from outside it is a list of classes to which each
sound class of a new name is added at the end, so that of two classes of one name the first
stays (`Built.holds_exactly_accepted`).
-/
namespace PullGraph.Registry

variable {κ : Type} {r : Registry κ} {accepted : List (ComponentClass κ)}

/-- A class may join others if its declaration is sound and none of them has its name. -/
def Joins (c : ComponentClass κ) (accepted : List (ComponentClass κ)) : Prop :=
  c.validate = .ok () ∧ ∀ d ∈ accepted, d.name ≠ c.name

instance (c : ComponentClass κ) : Decidable (c.validate = .ok ()) :=
  decidable_of_iff _ c.validate_eq_ok_iff.symm

instance (c : ComponentClass κ) (accepted : List (ComponentClass κ)) :
    Decidable (Joins c accepted) :=
  inferInstanceAs (Decidable (_ ∧ _))

/-- The accepted classes after one more was offered. -/
def accept (accepted : List (ComponentClass κ)) (c : ComponentClass κ) :
    List (ComponentClass κ) :=
  if Joins c accepted then accepted ++ [c] else accepted

/-- The registries that one gets by registering classes, from nothing or from the standard
classes on, each with the classes that were accepted, the earliest first. -/
inductive Built : Registry κ → List (ComponentClass κ) → Prop where
  | empty : Built .empty []
  | standard {ω : Type} (f : Standard ω → κ) (j : Journal) :
      Built (withStandard f j).1 (Standard.classes.map (·.map f))
  | register {r : Registry κ} {accepted : List (ComponentClass κ)} (h : Built r accepted)
      (c : ComponentClass κ) (j : Journal) : Built (r.register c j).2.1 (accept accepted c)

/-- Both parts of a registry agree with a list of sound classes of different names. -/
structure Lists (r : Registry κ) (l : List (ComponentClass κ)) : Prop where
  order : r.order = l.map (·.name)
  size : r.size = l.length
  lookup : ∀ name c, r.lookup name = some c ↔ c ∈ l ∧ c.name = name
  nodup : (l.map (·.name)).Nodup
  sound : ∀ c ∈ l, c.validate = .ok ()

theorem lists_empty : (empty : Registry κ).Lists [] where
  order := rfl
  size := rfl
  lookup name c := by simp [Registry.lookup, empty]
  nodup := List.nodup_nil
  sound := by simp

namespace Lists

theorem lookup_eq_none (h : r.Lists accepted) (name : String) :
    r.lookup name = none ↔ ∀ c ∈ accepted, c.name ≠ name := by
  rw [Option.eq_none_iff_forall_ne_some]
  constructor
  · intro hnone c hc hname
    exact hnone c ((h.lookup name c).mpr ⟨hc, hname⟩)
  · intro hfree c hc
    obtain ⟨hmem, hname⟩ := (h.lookup name c).mp hc
    exact hfree c hmem hname

theorem contains_eq_false (h : r.Lists accepted) (name : String) :
    r.byName.contains name = false ↔ ∀ c ∈ accepted, c.name ≠ name := by
  rw [← h.lookup_eq_none, Registry.lookup, Std.HashMap.contains_eq_isSome_getElem?]
  exact Option.isSome_eq_false_iff.trans Option.isNone_iff_eq_none

theorem classes_eq (h : r.Lists accepted) : r.classes = accepted := by
  have hfound : ∀ c ∈ accepted, r.lookup c.name = some c :=
    fun c hc => (h.lookup c.name c).mpr ⟨hc, rfl⟩
  rw [classes, h.order, List.filterMap_map]
  calc accepted.filterMap (r.lookup ∘ (·.name)) = accepted.filterMap some :=
        List.filterMap_congr hfound
    _ = accepted := List.filterMap_some

/-- One more class keeps the two parts in step, because nothing stands under its name. -/
theorem add {c : ComponentClass κ} (h : r.Lists accepted) (hj : Joins c accepted) :
    (Registry.mk (r.order ++ [c.name]) (r.byName.insert c.name c)).Lists (accepted ++ [c]) where
  order := by simp [h.order]
  size := by
    have hfree := (h.contains_eq_false c.name).mpr hj.2
    have hsize : r.byName.size = accepted.length := h.size
    simp [Registry.size, Std.HashMap.size_insert, ← Std.HashMap.contains_iff_mem, hfree, hsize]
  lookup name d := by
    have hold : r.byName[name]? = some d ↔ d ∈ accepted ∧ d.name = name := h.lookup name d
    rw [Registry.lookup, Std.HashMap.getElem?_insert, List.mem_append, List.mem_singleton]
    split
    next heq =>
      have hname : c.name = name := by simpa using heq
      subst hname
      constructor
      · rintro ⟨⟩
        exact ⟨.inr rfl, rfl⟩
      · rintro ⟨hd | rfl, hname⟩
        · exact absurd hname (hj.2 d hd)
        · rfl
    next hne =>
      have hname : c.name ≠ name := by simpa using hne
      rw [hold]
      constructor
      · exact fun hd => ⟨.inl hd.1, hd.2⟩
      · rintro ⟨hd | rfl, hd'⟩
        · exact ⟨hd, hd'⟩
        · exact absurd hd' hname
  nodup := by
    rw [List.map_append, List.nodup_append]
    refine ⟨h.nodup, List.nodup_singleton _, ?_⟩
    intro name hname name' hname'
    obtain ⟨d, hd, rfl⟩ := List.mem_map.mp hname
    rw [List.mem_singleton.mp hname']
    exact hj.2 d hd
  sound := List.forall_mem_append.mpr ⟨h.sound, by simpa using hj.1⟩

/-- What a registry answers when a class is offered: an unsound declaration is reported before
a name that is taken. -/
theorem insert_eq (h : r.Lists accepted) (c : ComponentClass κ) :
    r.insert c =
      match c.validate with
      | .error e => .error (.schema e)
      | .ok () =>
        if ∀ d ∈ accepted, d.name ≠ c.name then
          .ok ⟨r.order ++ [c.name], r.byName.insert c.name c⟩
        else .error (.duplicate c.name) := by
  unfold Registry.insert
  cases c.validate with
  | error e => rfl
  | ok u =>
    simp only [← h.contains_eq_false]
    cases r.byName.contains c.name <;> rfl

theorem register (h : r.Lists accepted) (c : ComponentClass κ) (j : Journal) :
    (r.register c j).2.1.Lists (accept accepted c) := by
  unfold Registry.register accept
  rw [h.insert_eq]
  cases hv : c.validate with
  | error e => simpa [Joins, hv] using h
  | ok u =>
    by_cases hfree : ∀ d ∈ accepted, d.name ≠ c.name
    · have hj : Joins c accepted := ⟨hv, hfree⟩
      simpa only [if_pos hfree, if_pos hj] using h.add hj
    · have hj : ¬ Joins c accepted := fun hj => hfree hj.2
      simpa only [if_neg hfree, if_neg hj] using h

theorem registerAll (h : r.Lists accepted) (j : Journal) (cs : List (ComponentClass κ)) :
    (r.registerAll j cs).1.Lists (cs.foldl accept accepted) := by
  induction cs generalizing r j accepted with
  | nil => exact h
  | cons c cs ih => exact ih (h.register c j) _

end Lists

/-- All standard classes are accepted. -/
theorem foldl_accept_standard {ω : Type} (f : Standard ω → κ) :
    (Standard.classes.map (·.map f)).foldl accept [] = Standard.classes.map (·.map f) := rfl

theorem Built.lists (h : Built r accepted) : r.Lists accepted := by
  induction h with
  | empty => exact lists_empty
  | standard f j =>
    rw [← foldl_accept_standard]
    exact lists_empty.registerAll j _
  | register h c j ih => exact ih.register c j

/-- **A registry is the list of the classes it accepted.** It names each of them once, in order
of registration, counts them, finds each under its name and nothing else under any name; all of
them are sound. Queries to other names are refused. A class is refused if its declaration is not
sound, and otherwise if its name is taken; refused classes leave both parts of the registry as
they are. -/
theorem Built.holds_exactly_accepted (h : Built r accepted) :
    (r.classes = accepted ∧ r.order = accepted.map (·.name) ∧ (accepted.map (·.name)).Nodup ∧
      r.size = accepted.length) ∧
    (∀ name, (∀ c, r.lookup name = some c ↔ c ∈ accepted ∧ c.name = name) ∧
      (r.lookup name = none ↔ ∀ c ∈ accepted, c.name ≠ name)) ∧
    (∀ c ∈ accepted, c.validate = .ok ()) ∧
    (∀ cls, (∀ c ∈ accepted, c.name ≠ cls) → ∀ name params j,
      r.query cls name params j = (.error (.unknownClass cls), j)) ∧
    ∀ c j,
      (∀ e, c.validate = .error e → (r.register c j).1 = .error (.schema e)) ∧
      (c.validate = .ok () → (∃ d ∈ accepted, d.name = c.name) →
        (r.register c j).1 = .error (.duplicate c.name)) ∧
      (Joins c accepted → (r.register c j).1 = .ok () ∧
        (r.register c j).2.1.classes = accepted ++ [c]) ∧
      (¬ Joins c accepted → (r.register c j).2.1 = r) := by
  have hl := h.lists
  refine ⟨⟨hl.classes_eq, hl.order, hl.nodup, hl.size⟩,
    fun name => ⟨hl.lookup name, hl.lookup_eq_none name⟩, hl.sound, ?_, ?_⟩
  · intro cls hfree name params j
    rw [query, (hl.lookup_eq_none cls).mpr hfree]
  · intro c j
    refine ⟨?_, ?_, ?_, ?_⟩
    · intro e hv
      rw [Registry.register, hl.insert_eq, hv]
    · rintro hv ⟨d, hd, hname⟩
      rw [Registry.register, hl.insert_eq, hv]
      dsimp only
      rw [if_neg fun hfree => hfree d hd hname]
    · intro hj
      have hclasses := (hl.register c j).classes_eq
      rw [accept, if_pos hj] at hclasses
      refine ⟨?_, hclasses⟩
      rw [Registry.register, hl.insert_eq, hj.1]
      dsimp only
      rw [if_pos hj.2]
    · intro hj
      rw [Registry.register, hl.insert_eq]
      cases hv : c.validate with
      | error e => rfl
      | ok u =>
        dsimp only
        rw [if_neg fun hfree => hj ⟨hv, hfree⟩]

/-- A class of a new name joins the standard ones; another one of that name does not. -/
theorem words_registered_once :
    let words : ComponentClass (Standard Unit) := Standard.itemsClass "words" []
    let r := ((withStandard id {}).1.register words {}).2.1
    Built r (Standard.classes ++ [words]) ∧ r.size = 4 ∧ r.lookup "words" = some words ∧
      (r.register (Standard.itemsClass "words" [.text "a"]) {}).1 =
        .error (.duplicate "words") := by
  intro words r
  have hbuilt : Built r (Standard.classes ++ [words]) := (Built.standard id {}).register words {}
  obtain ⟨⟨-, -, -, hsize⟩, hlookup, -, -, hregister⟩ := hbuilt.holds_exactly_accepted
  have hmem : words ∈ Standard.classes ++ [words] := by simp
  exact ⟨hbuilt, hsize, ((hlookup "words").1 words).mpr ⟨hmem, rfl⟩,
    (hregister _ {}).2.1 rfl ⟨words, hmem, rfl⟩⟩

end PullGraph.Registry
