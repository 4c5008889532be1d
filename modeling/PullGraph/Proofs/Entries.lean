import Mathlib.Data.String.Basic
import PullGraph.Settings

/-! # Maps and the entries they are made of

A map keeps its keys in increasing order, so it is determined by the value of each key. Put
together from a list of entries, it gives each key the last value that the list has for it
(`Settings.gathers_ofList`), and no other map in order does (`Settings.Gathers.unique`).
-/
namespace PullGraph

/-- The value that a list of entries gives to a key: the last one. -/
def lastValue? (entries : List (String × Value)) (key : String) : Option Value :=
  (entries.reverse.find? (·.1 = key)).map (·.2)

theorem lastValue?_cons (e : String × Value) (entries : List (String × Value)) (key : String) :
    lastValue? (e :: entries) key =
      (lastValue? entries key).or (if e.1 = key then some e.2 else none) := by
  unfold lastValue?
  rw [List.reverse_cons, List.find?_append]
  cases entries.reverse.find? (·.1 = key) with
  | some e' => rfl
  | none => by_cases he : e.1 = key <;> simp [he]

theorem mem_of_lastValue? {entries : List (String × Value)} {key : String} {v : Value}
    (h : lastValue? entries key = some v) : (key, v) ∈ entries := by
  obtain ⟨e, he, rfl⟩ := Option.map_eq_some_iff.mp h
  obtain rfl : e.1 = key := by simpa using List.find?_some he
  exact List.mem_reverse.mp (List.mem_of_find?_eq_some he)

namespace Settings

variable {s s' : Settings} {entries : List (String × Value)} {key k : String} {v w : Value}

/-- What holds of a map is seen entry by entry. -/
@[elab_as_elim, induction_eliminator]
theorem entryInduction {motive : Settings → Prop} (nil : motive .nil)
    (cons : ∀ k v rest, motive rest → motive (.cons k v rest)) : ∀ s, motive s
  | .nil => nil
  | .cons k v rest => cons k v rest (entryInduction nil cons rest)

/-- The keys stand in increasing order. -/
def Increasing (s : Settings) : Prop := s.toList.Pairwise (·.1 < ·.1)

theorem increasing_nil : nil.Increasing := List.Pairwise.nil

theorem increasing_cons {rest : Settings} :
    (cons k v rest).Increasing ↔ (∀ e ∈ rest.toList, k < e.1) ∧ rest.Increasing :=
  List.pairwise_cons

/-! ## The value of a key -/

theorem mem_of_get? (h : s.get? key = some v) : (key, v) ∈ s.toList := by
  induction s with
  | nil => cases h
  | cons k w rest ih =>
    rw [get?] at h
    split at h
    next hk =>
      cases h
      rw [hk]
      exact List.mem_cons_self
    · exact List.mem_cons_of_mem _ (ih h)

theorem get?_of_mem (hs : s.Increasing) (h : (key, v) ∈ s.toList) : s.get? key = some v := by
  induction s with
  | nil => cases h
  | cons k w rest ih =>
    obtain ⟨hk, hrest⟩ := increasing_cons.mp hs
    rw [get?]
    rcases List.mem_cons.mp h with heq | hmem
    · cases heq
      rw [if_pos rfl]
    · have hlt : k < key := hk _ hmem
      rw [if_neg (ne_of_lt hlt), ih hrest hmem]

theorem get?_insert (s : Settings) (k key : String) (v : Value) :
    (s.insert k v).get? key = if k = key then some v else s.get? key := by
  induction s with
  | nil => rfl
  | cons k' w rest ih =>
    rw [insert]
    split
    · rw [get?]
    · split
      next hk =>
        subst hk
        rw [get?, get?]
        split <;> rfl
      next hk =>
        rw [get?, get?, ih]
        split
        next hk' => rw [if_neg fun h => hk (h.trans hk'.symm)]
        · rfl

theorem mem_toList_insert {e : String × Value} (h : e ∈ (s.insert k v).toList) :
    e = (k, v) ∨ e ∈ s.toList := by
  induction s with
  | nil => exact .inl (List.mem_singleton.mp h)
  | cons k' w rest ih =>
    rw [insert] at h
    split at h
    · exact List.mem_cons.mp h
    · split at h
      · exact (List.mem_cons.mp h).imp_right (List.mem_cons_of_mem _)
      · rcases List.mem_cons.mp h with rfl | hmem
        · exact .inr List.mem_cons_self
        · exact (ih hmem).imp_right (List.mem_cons_of_mem _)

/-! ## Order -/

theorem Increasing.insert (hs : s.Increasing) (k : String) (v : Value) :
    (s.insert k v).Increasing := by
  induction s with
  | nil => exact List.pairwise_singleton _ _
  | cons k' w rest ih =>
    obtain ⟨hk', hrest⟩ := increasing_cons.mp hs
    rw [Settings.insert]
    split
    next hlt =>
      refine increasing_cons.mpr ⟨?_, hs⟩
      intro e he
      rcases List.mem_cons.mp he with rfl | hmem
      · exact hlt
      · exact lt_trans hlt (hk' e hmem)
    next hle =>
      split
      next heq =>
        subst heq
        exact increasing_cons.mpr ⟨hk', hrest⟩
      next hne =>
        refine increasing_cons.mpr ⟨?_, ih hrest⟩
        intro e he
        rcases mem_toList_insert he with rfl | hmem
        · exact lt_of_le_of_ne (not_lt.mp hle) (Ne.symm hne)
        · exact hk' e hmem

/-- Maps in order that agree on every key are the same. -/
theorem Increasing.eq_of_get? (hs : s.Increasing) (hs' : s'.Increasing)
    (h : ∀ key, s.get? key = s'.get? key) : s = s' := by
  induction s generalizing s' with
  | nil =>
    cases s' with
    | nil => rfl
    | cons k v rest =>
      have hk := h k
      rw [get?, get?, if_pos rfl] at hk
      cases hk
  | cons k v rest ih =>
    obtain ⟨hk, hrest⟩ := increasing_cons.mp hs
    cases s' with
    | nil =>
      have hk := h k
      rw [get?, get?, if_pos rfl] at hk
      cases hk
    | cons k' v' rest' =>
      obtain ⟨hk', hrest'⟩ := increasing_cons.mp hs'
      -- neither of the two first keys can be missing on the other side
      have hle : ∀ {k k' : String} {v v' : Value} {rest rest' : Settings},
          (∀ e ∈ rest'.toList, k' < e.1) →
          (cons k v rest).get? k = (cons k' v' rest').get? k → k' ≤ k := by
        intro k k' v v' rest rest' hk' heq
        rw [get?, if_pos rfl] at heq
        rcases List.mem_cons.mp (mem_of_get? heq.symm) with hfirst | hlater
        · exact le_of_eq (Prod.mk.inj hfirst).1.symm
        · exact le_of_lt (hk' _ hlater)
      obtain rfl : k = k' := le_antisymm (hle hk (h k').symm) (hle hk' (h k))
      have hv := h k
      rw [get?, get?, if_pos rfl, if_pos rfl] at hv
      cases hv
      rw [ih hrest hrest']
      intro key
      have hkey := h key
      rw [get?, get?] at hkey
      split at hkey
      next heq =>
        subst heq
        have hnone : ∀ {rest : Settings}, (∀ e ∈ rest.toList, k < e.1) → rest.get? k = none := by
          intro rest hrest
          by_contra hsome
          obtain ⟨w, hw⟩ := Option.ne_none_iff_exists'.mp hsome
          exact lt_irrefl k (hrest _ (mem_of_get? hw))
        rw [hnone hk, hnone hk']
      · exact hkey

/-! ## Entries -/

/-- A map is in order and gives each key the last value that the entries have for it. -/
structure Gathers (s : Settings) (entries : List (String × Value)) : Prop where
  increasing : s.Increasing
  get? (key : String) : s.get? key = lastValue? entries key

theorem Gathers.unique (h : s.Gathers entries) (h' : s'.Gathers entries) : s = s' :=
  h.increasing.eq_of_get? h'.increasing fun key => (h.get? key).trans (h'.get? key).symm

theorem get?_foldl_insert (entries : List (String × Value)) (s : Settings) (key : String) :
    (entries.foldl (fun s e => s.insert e.1 e.2) s).get? key =
      (lastValue? entries key).or (s.get? key) := by
  induction entries generalizing s with
  | nil => rfl
  | cons e entries ih =>
    rw [List.foldl_cons, ih, get?_insert, lastValue?_cons, Option.or_assoc]
    congr 1
    split <;> rfl

theorem Increasing.foldl_insert (hs : s.Increasing) (entries : List (String × Value)) :
    (entries.foldl (fun s e => s.insert e.1 e.2) s).Increasing := by
  induction entries generalizing s with
  | nil => exact hs
  | cons e entries ih => exact ih (hs.insert e.1 e.2)

theorem gathers_ofList (entries : List (String × Value)) : (ofList entries).Gathers entries where
  increasing := increasing_nil.foldl_insert entries
  get? key := by
    rw [ofList, get?_foldl_insert, Settings.get?, Option.or_none]

/-- Every entry of a map is among those that it is made of. -/
theorem Gathers.mem (h : s.Gathers entries) {e : String × Value} (he : e ∈ s.toList) :
    e ∈ entries := by
  have hget := get?_of_mem h.increasing he
  rw [h.get?] at hget
  exact mem_of_lastValue? hget

theorem Increasing.gathers (hs : s.Increasing) : s.Gathers s.toList where
  increasing := hs
  get? key := by
    induction s with
    | nil => rfl
    | cons k v rest ih =>
      obtain ⟨hk, hrest⟩ := increasing_cons.mp hs
      rw [Settings.get?, toList, lastValue?_cons, ← ih hrest]
      split
      next heq =>
        subst heq
        cases hget : rest.get? k with
        | none => rfl
        | some w => exact absurd (hk _ (mem_of_get? hget)) (lt_irrefl k)
      · rw [Option.or_none]

/-! ## Depth and order at every level -/

theorem depth_pos (s : Settings) : 0 < s.depth := by
  induction s with
  | nil => exact Nat.one_pos
  | cons k v rest ih =>
    rw [depth]
    omega

theorem depth_le_iff {n : Nat} : s.depth ≤ n + 1 ↔ ∀ e ∈ s.toList, e.2.depth ≤ n := by
  induction s with
  | nil => simp [depth, toList]
  | cons k v rest ih =>
    rw [depth, toList, List.forall_mem_cons, ← ih]
    dsimp only
    omega

theorem ordered_iff : s.Ordered ↔ s.Increasing ∧ ∀ e ∈ s.toList, e.2.Ordered := by
  induction s with
  | nil => simp [Ordered, Increasing, toList]
  | cons k v rest ih =>
    rw [Ordered, increasing_cons, toList, List.forall_mem_cons, ih]
    tauto

end Settings
end PullGraph
