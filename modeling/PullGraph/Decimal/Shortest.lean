/-! # The shortest decimal of a binary fraction

Every real close enough to a binary floating-point number reads back as that
number. The shortest decimal for it is the multiple of the largest power of ten
that still lies in this interval; of two such multiples the nearer one is taken.
-/
namespace PullGraph.Decimal

/-- A positive number `mantissa * 2 ^ exponent`, and whether the numbers below it
lie twice as close as those above. -/
structure Binary where
  mantissa : Nat
  exponent : Int
  closeBelow : Bool

/-- A decimal number `digits * 10 ^ exponent`. -/
structure Scaled where
  digits : Nat
  exponent : Int
  deriving DecidableEq, Repr

namespace Binary

/-- The number in quarters of `2 ^ exponent`, over `denominator`. -/
def numerator (b : Binary) : Nat := 4 * b.mantissa * Nat.pow 2 b.exponent.toNat

/-- A quarter of the distance to the next number, over `denominator`. -/
def quarter (b : Binary) : Nat := Nat.pow 2 b.exponent.toNat

/-- The common denominator of `numerator` and `quarter`. -/
def denominator (b : Binary) : Nat := 4 * Nat.pow 2 (-b.exponent).toNat

/-- The least value that reads back, over `denominator`. -/
def low (b : Binary) : Nat := b.numerator - (if b.closeBelow then 1 else 2) * b.quarter

/-- The greatest value that reads back, over `denominator`. -/
def high (b : Binary) : Nat := b.numerator + 2 * b.quarter

/-- Whether `d * 10 ^ e` reads back as the number. The ends of the interval belong
to it when the mantissa is even. -/
def admits (b : Binary) (d : Nat) (e : Int) : Bool :=
  let value := d * Nat.pow 10 e.toNat * b.denominator
  let scale := Nat.pow 10 (-e).toNat
  if b.mantissa % 2 = 0 then b.low * scale ≤ value && value ≤ b.high * scale
  else b.low * scale < value && value < b.high * scale

/-- A multiple of `10 ^ e` that reads back: of the two neighbours of the number,
the nearer one that does. Of two that are equally near, the even multiple is taken. -/
def onGrid (b : Binary) (e : Int) : Option Scaled :=
  let step := Nat.pow 10 e.toNat * b.denominator
  let value := b.numerator * Nat.pow 10 (-e).toNat
  let below := value / step
  let twice := 2 * (value % step)
  let nearer := if twice < step || twice = step && below % 2 = 0 then below else below + 1
  let other := if nearer = below then below + 1 else below
  if b.admits nearer e then some ⟨nearer, e⟩
  else if b.admits other e then some ⟨other, e⟩
  else none

/-- The shortest decimal that reads back, searched from the coarsest grid down. -/
def shortest (b : Binary) : Scaled :=
  ((List.range 660).findSome? fun (i : Nat) => b.onGrid (309 - i)).getD ⟨0, 0⟩

end Binary

/-- The absolute value of a finite number in binary; `none` for zero. -/
def ofFloat (x : Float) : Option Binary :=
  let bits := x.toBits.toNat % Nat.pow 2 63
  let field : Nat := bits / Nat.pow 2 52
  let fraction := bits % Nat.pow 2 52
  if bits = 0 then none
  else if field = 0 then some ⟨fraction, -1074, false⟩
  else some ⟨Nat.pow 2 52 + fraction, (field : Int) - 1075, fraction = 0 && 1 < field⟩

/-- How a decimal is written. -/
structure Layout where
  /-- The powers of ten that are written out, from the least to the greatest. -/
  positional : Int × Int
  /-- What stands behind a whole number. -/
  wholeEnding : String
  /-- What precedes a non-negative power of ten. -/
  exponentSign : String

/-- The digits `ds`, the first of which counts `10 ^ power`, in a layout. -/
def Layout.write (l : Layout) (ds : List Char) (power : Int) : String :=
  if l.positional.1 ≤ power && power ≤ l.positional.2 then
    if power < 0 then
      String.ofList ('0' :: '.' :: List.replicate (-power - 1).toNat '0' ++ ds)
    else
      let whole := (ds.take (power.toNat + 1)).rightpad (power.toNat + 1) '0'
      let rest := ds.drop (power.toNat + 1)
      if rest.isEmpty then String.ofList whole ++ l.wholeEnding
      else String.ofList (whole ++ '.' :: rest)
  else
    let rest := ds.drop 1
    let point := if rest.isEmpty then "" else "."
    let sign := if power < 0 then "-" else l.exponentSign
    String.ofList (ds.take 1) ++ point ++ String.ofList rest ++ "e" ++ sign ++ s!"{power.natAbs}"

/-- A finite number by its shortest decimal. -/
def Layout.float (l : Layout) (x : Float) : String :=
  let sign := if x.toBits.toNat < Nat.pow 2 63 then "" else "-"
  match ofFloat x with
  | none => sign ++ "0" ++ l.wholeEnding
  | some b =>
    let d := b.shortest
    let ds := Nat.toDigits 10 d.digits
    sign ++ l.write ds (d.exponent + ds.length - 1)

end PullGraph.Decimal
