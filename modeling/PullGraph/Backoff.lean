import PullGraph.Duration

/-! # Exponential backoff

How long to wait after a round in which no component had anything to give. The
wait doubles with every idle round in a row up to a maximum, and the policy may
give up after a number of them.
-/
namespace PullGraph

/-- Waiting times that double from `initial` up to `maximum`. -/
structure Backoff where
  initial : Duration
  maximum : Duration
  /-- Idle rounds in a row that are tolerated; `none` tolerates any number. -/
  limit : Option UInt32
  deriving DecidableEq

namespace Backoff

/-- From one to a hundred milliseconds, for at most a thousand idle rounds. -/
def standard : Backoff := ⟨.ofMillis 1, .ofMillis 100, some 1000⟩

/-- How many times the initial wait is due after `idle` idle rounds: it doubles
with each round after the first, and stays at `2 ^ 32 - 1` once it has outgrown
32 bits. -/
def factor (idle : UInt32) : Nat :=
  if idle.toNat - 1 < 32 then Nat.pow 2 (idle.toNat - 1) else UInt32.size - 1

/-- The wait after `idle` idle rounds in a row, or `none` beyond the limit. -/
def delay (b : Backoff) (idle : UInt32) : Option Duration :=
  if b.limit.any (· < idle) then none
  else some ((b.initial.scale (factor idle)).min b.maximum)

end Backoff
end PullGraph
