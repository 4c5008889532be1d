import PullGraph.Json.Problem

/-! # Numerals

A numeral is scanned as its digits and then given a value: an integer if it is
written as one and fits 64 bits, otherwise a floating-point number. At most the
digits that fit 64 bits count, and one step of floating-point arithmetic by a power
of ten follows; a numeral too large for that is malformed.
-/
namespace PullGraph.Json

/-- A numeral by its parts. -/
structure Numeral where
  negative : Bool
  whole : List Char
  fraction : List Char
  /-- Sign (`true` below zero) and digits of the exponent. -/
  exponent : Option (Bool × List Char)
  deriving DecidableEq, Repr

/-- Whether a character is a decimal digit. -/
def isDigit (c : Char) : Bool := '0' ≤ c && c ≤ '9'

/-- At least one digit; `cut` is the problem when the text ends before it. -/
def digits (cut : Problem) (cs : List Char) : Except Problem (List Char × List Char) :=
  match cs with
  | [] => .error cut
  | c :: _ =>
    if isDigit c then .ok (cs.takeWhile isDigit, cs.dropWhile isDigit) else .error .malformed

/-- The digits before the point: a single zero, or digits that do not start with one. -/
def wholePart (cut : Problem) (cs : List Char) : Except Problem (List Char × List Char) :=
  match cs with
  | '0' :: c :: rest => if isDigit c then .error .malformed else .ok (['0'], c :: rest)
  | _ => digits cut cs

/-- The point and the digits behind it, if there is one. -/
def fractionPart (cut : Problem) (cs : List Char) : Except Problem (List Char × List Char) :=
  match cs with
  | '.' :: rest => digits cut rest
  | _ => .ok ([], cs)

/-- The sign of an exponent, and whether it is a minus. -/
def exponentSign : List Char → Bool × List Char
  | '-' :: rest => (true, rest)
  | '+' :: rest => (false, rest)
  | cs => (false, cs)

/-- The exponent, if there is one. -/
def exponentPart (cut : Problem) (cs : List Char) :
    Except Problem (Option (Bool × List Char) × List Char) :=
  match cs with
  | c :: rest =>
    if c = 'e' || c = 'E' then do
      let (sign, rest) := exponentSign rest
      let (ds, rest) ← digits cut rest
      pure (some (sign, ds), rest)
    else .ok (none, cs)
  | [] => .ok (none, [])

/-- A numeral without its sign, which has been read before. -/
def scanNumeral (cut : Problem) (negative : Bool) (cs : List Char) :
    Except Problem (Numeral × List Char) := do
  let (whole, cs) ← wholePart cut cs
  let (fraction, cs) ← fractionPart cut cs
  let (exponent, cs) ← exponentPart cut cs
  pure (⟨negative, whole, fraction, exponent⟩, cs)

/-- The value of a decimal digit. -/
def digitValue (c : Char) : Nat := c.toNat - '0'.toNat

/-- Reads digits into a number as long as it stays below `2 ^ 64`; the digits from
the first that does not fit are left over. -/
def gather (acc : Nat) : List Char → Nat × List Char
  | [] => (acc, [])
  | d :: ds =>
    if acc * 10 + digitValue d < UInt64.size then gather (acc * 10 + digitValue d) ds
    else (acc, d :: ds)

/-- The number that digits denote. -/
def digitsValue (ds : List Char) : Nat := ds.foldl (fun n d => n * 10 + digitValue d) 0

/-- `x * 10 ^ e`, malformed when it leaves the floating-point range. -/
def scale (x : Float) (e : Int) : Except Problem Float :=
  if 0 ≤ e then
    if e ≤ 308 then
      let y := x * Float.ofScientific 1 false e.toNat
      if y.isInf then .error .malformed else .ok y
    else if x == 0.0 then .ok x
    else .error .malformed
  else if -308 ≤ e then .ok (x / Float.ofScientific 1 false (-e).toNat)
  else if x == 0.0 then .ok x
  else scale (x / Float.ofScientific 1 false 308) (e + 308)
termination_by e.natAbs
decreasing_by omega

/-- The value of a numeral. -/
inductive Number where
  | int (n : Int)
  | float (x : Float)

/-- What was found, when a number stands where something else was expected. -/
def Number.found : Number → Found
  | .int n => .int n
  | .float x => .float x

/-- The greatest exponent that is counted out: it fits 31 bits. -/
def exponentLimit : Nat := Nat.pow 2 31 - 1

namespace Numeral

/-- A number with the sign of the numeral. -/
def signed (l : Numeral) (x : Float) : Float := if l.negative then -x else x

/-- The value of a numeral with a fraction, an exponent or too many digits:
`significand * 10 ^ shift`, moved by the written exponent. -/
def floatValue (l : Numeral) (significand : Nat) (shift : Int) : Except Problem Number :=
  let x := (UInt64.ofNat significand).toFloat
  match l.exponent with
  | none => (scale x shift).map fun y => .float (l.signed y)
  | some (below, ds) =>
    let e := digitsValue ds
    if exponentLimit < e then
      if significand ≠ 0 && !below then .error .malformed else .ok (.float (l.signed 0.0))
    else
      (scale x (if below then shift - e else shift + e)).map fun y => .float (l.signed y)

/-- The value of a numeral written as an integer of at most 64 bits. Below zero it
is an integer only down to `-2 ^ 63`, and a negative zero is none. -/
def intValue (l : Numeral) (n : Nat) : Number :=
  if !l.negative then .int n
  else if n = 0 || Nat.pow 2 63 < n then .float (-(UInt64.ofNat n).toFloat)
  else .int (-n)

/-- The value of a numeral. -/
def value (l : Numeral) : Except Problem Number :=
  let (significand, dropped) := gather 0 l.whole
  if dropped.isEmpty && l.fraction.isEmpty && l.exponent.isNone then
    .ok (l.intValue significand)
  else
    let (full, unread) := gather significand l.fraction
    l.floatValue full (dropped.length - (l.fraction.length - unread.length : Nat) : Int)

end Numeral
end PullGraph.Json
