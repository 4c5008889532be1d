/-! # Durations

A duration is a number of nanoseconds with an upper bound: at most
`2 ^ 64 - 1` seconds and `999999999` nanoseconds. Multiplication saturates
there.
-/
namespace PullGraph

/-- The longest duration, in nanoseconds. -/
def Duration.limit : Nat := UInt64.size * 1000000000 - 1

/-- A span of time in nanoseconds, at most `Duration.limit`. -/
structure Duration where
  nanos : Nat
  bounded : nanos ≤ Duration.limit
  deriving DecidableEq

namespace Duration

/-- No time at all. -/
def zero : Duration := ⟨0, Nat.zero_le _⟩

/-- `n` nanoseconds, or the longest duration if that is shorter. -/
def clamp (n : Nat) : Duration := ⟨min n limit, Nat.min_le_right _ _⟩

/-- Whole seconds and the nanoseconds beyond them. -/
def ofParts (seconds nanos : Nat) : Duration := clamp (seconds * 1000000000 + nanos)

/-- A number of milliseconds. -/
def ofMillis (n : UInt64) : Duration :=
  ⟨n.toNat * 1000000, by
    have := n.toNat_lt_size
    unfold limit
    omega⟩

/-- Whole milliseconds, of which the lowest 64 bits are kept. -/
def toMillis (d : Duration) : UInt64 := UInt64.ofNat (d.nanos / 1000000)

/-- The shorter of two durations. -/
def min (a b : Duration) : Duration := if a.nanos ≤ b.nanos then a else b

/-- `factor` times a duration, saturating at the longest one. -/
def scale (d : Duration) (factor : Nat) : Duration := clamp (d.nanos * factor)

/-- A decimal fraction `whole + part / unit` with `places` places, without trailing zeros. -/
def decimalText (whole part places : Nat) : String :=
  let digits := (Nat.toDigits 10 part).leftpad places '0'
  let kept := (digits.reverse.dropWhile (· == '0')).reverse
  if kept.isEmpty then s!"{whole}" else s!"{whole}." ++ String.ofList kept

/-- A duration in the largest of the units s, ms, µs, ns that it fills. -/
def text (d : Duration) : String :=
  if d.nanos ≥ 1000000000 then
    decimalText (d.nanos / 1000000000) (d.nanos % 1000000000) 9 ++ "s"
  else if d.nanos ≥ 1000000 then
    decimalText (d.nanos / 1000000) (d.nanos % 1000000) 6 ++ "ms"
  else if d.nanos ≥ 1000 then
    decimalText (d.nanos / 1000) (d.nanos % 1000) 3 ++ "µs"
  else
    s!"{d.nanos}ns"

end Duration
end PullGraph
