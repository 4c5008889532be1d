/-! # Versions

A version has three numbers and is ordered by the first in which two versions
differ.
-/
namespace PullGraph

/-- A version number. -/
structure Version where
  major : UInt32
  minor : UInt32
  patch : UInt32
  deriving DecidableEq, Repr

namespace Version

/-- The version of this library. -/
def library : Version := ⟨0, 1, 0⟩

/-- Lexicographic comparison: major, then minor, then patch. -/
def compare (a b : Version) : Ordering :=
  (Ord.compare a.major b.major).then
    ((Ord.compare a.minor b.minor).then (Ord.compare a.patch b.patch))

/-- The later of two versions. -/
def max (a b : Version) : Version :=
  if a.compare b = .gt then a else b

/-- The version as text, its numbers divided by points. -/
def text (v : Version) : String :=
  s!"{v.major.toNat}.{v.minor.toNat}.{v.patch.toNat}"

end Version
end PullGraph
