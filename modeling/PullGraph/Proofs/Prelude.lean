/-! # Lists and results

General facts about lists with a changed or an added member, and about computations
that may fail.
-/
namespace PullGraph

/-- What `f` sees of a list with one member changed, if it sees the change as `m'`. -/
theorem map_modify {α β : Type} {f : α → β} {m : α → α} {m' : β → β} (h : ∀ a, f (m a) = m' (f a))
    (l : List α) (i : Nat) : (l.modify i m).map f = (l.map f).modify i m' := by
  apply List.ext_getElem?
  intro j
  rw [List.getElem?_map, List.getElem?_modify, List.getElem?_modify, List.getElem?_map]
  cases l[j]? with
  | none => rfl
  | some a => by_cases hij : i = j <;> simp [hij, h]

/-- A change that `f` does not see. -/
theorem map_modify_of_eq {α β : Type} {f : α → β} {m : α → α} (h : ∀ a, f (m a) = f a) (l : List α)
    (i : Nat) : (l.modify i m).map f = l.map f := by
  have hid : (l.modify i m).map f = (l.map f).modify i id := map_modify h l i
  rw [hid, List.modify_id]

/-- A change that `f` sees as one to a fixed value. -/
theorem map_modify_eq_set {α β : Type} {f : α → β} {m : α → α} {b : β} (h : ∀ a, f (m a) = b)
    (l : List α) (i : Nat) : (l.modify i m).map f = (l.map f).set i b := by
  induction l generalizing i with
  | nil => cases i <;> rfl
  | cons a l ih =>
    cases i with
    | zero => simp [h]
    | succ i => simp [ih]

/-- A change to what stands there already. -/
theorem set_eq_self {α : Type} {l : List α} {i : Nat} {a : α} (h : l[i]? = some a) :
    l.set i a = l := by
  obtain ⟨hi, rfl⟩ := List.getElem?_eq_some_iff.mp h
  exact List.set_getElem_self hi

/-- What `f` sees of a list that grows by members that it does not see. -/
theorem filterMap_append_of_none {α β : Type} {f : α → Option β} (l : List α) {l' : List α}
    (h : ∀ a ∈ l', f a = none) : (l ++ l').filterMap f = l.filterMap f := by
  rw [List.filterMap_append, List.filterMap_eq_nil_iff.mpr h, List.append_nil]

/-- The members of a list are counted in order. -/
theorem pairwise_zipIdx {α : Type} (l : List α) : l.zipIdx.Pairwise fun x y => x.2 < y.2 := by
  rw [← List.pairwise_map, List.zipIdx_map_snd]
  exact List.pairwise_lt_range'

/-- What stands in a list with one more member at its end. -/
theorem getElem?_concat_eq_some {α : Type} {l : List α} {a b : α} {i : Nat}
    (h : (l ++ [a])[i]? = some b) : l[i]? = some b ∨ i = l.length ∧ b = a := by
  rcases Nat.lt_or_ge i l.length with hi | hi
  · rw [List.getElem?_append_left hi] at h
    exact Or.inl h
  · rw [List.getElem?_append_right hi] at h
    obtain ⟨hab, hz⟩ : a = b ∧ i - l.length = 0 := by
      simpa [List.getElem?_singleton, and_comm] using h
    exact Or.inr ⟨by omega, hab.symm⟩

theorem bind_eq_ok {ε α β : Type} {x : Except ε α} {f : α → Except ε β} {b : β} :
    x >>= f = .ok b ↔ ∃ a, x = .ok a ∧ f a = .ok b := by
  cases x <;> simp [bind, Except.bind]

theorem bind_eq_map {ε α β : Type} (x : Except ε α) (f : α → β) :
    (x >>= fun a => pure (f a)) = x.map f := by
  cases x <;> rfl

theorem bind_eq_error {ε α β : Type} {x : Except ε α} {f : α → Except ε β} {e : ε} :
    x >>= f = .error e ↔ x = .error e ∨ ∃ a, x = .ok a ∧ f a = .error e := by
  cases x <;> simp [bind, Except.bind]

theorem mapError_id {ε α : Type} (x : Except ε α) : x.mapError id = x := by
  cases x <;> rfl

theorem mapError_bind {ε ε' α β : Type} (e : ε → ε') (x : Except ε α) (f : α → Except ε β) :
    (x >>= f).mapError e = x.mapError e >>= fun a => (f a).mapError e := by
  cases x <;> rfl

theorem mapError_eq_ok {ε ε' α : Type} {e : ε → ε'} {x : Except ε α} {a : α} :
    x.mapError e = .ok a ↔ x = .ok a := by
  cases x with
  | error e' => exact iff_of_false (fun h => by cases h) (fun h => by cases h)
  | ok b =>
    constructor
    · intro h
      exact congrArg Except.ok (Except.ok.inj h)
    · intro h
      exact congrArg Except.ok (Except.ok.inj h)

end PullGraph
