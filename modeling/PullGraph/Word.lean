/-! # Integers of 64 bits

The integers in messages and settings have 64 bits. An integer from elsewhere becomes
one of them only if it is in range: it never wraps around.
-/
namespace PullGraph

/-- The 64-bit integer of the same value, if there is one. -/
def toInt64? (n : Int) : Option Int64 :=
  if Int64.minValue.toInt ≤ n && n ≤ Int64.maxValue.toInt then some (Int64.ofInt n) else none

/-- Only a 64-bit integer's own value is turned into it. -/
theorem toInt64?_eq_some_iff {n : Int} {w : Int64} : toInt64? n = some w ↔ w.toInt = n := by
  have low := w.minValue_le_toInt
  have high := w.toInt_le
  simp only [toInt64?, Int64.toInt_minValue, Int64.toInt_maxValue, Bool.and_eq_true,
    decide_eq_true_eq] at *
  constructor
  · intro h
    split at h
    next inRange =>
      cases h
      exact Int64.toInt_ofInt_of_le inRange.1 (by omega)
    · contradiction
  · intro h
    subst h
    rw [if_pos ⟨low, high⟩, Int64.ofInt_toInt]

end PullGraph
