import TileStream.Numeric.Binary

/-!
# The shortest decimal that reads back

Every float owns an interval of reals that round to it. The shortest decimal inside that interval is
found grid by grid: with one digit, with two, and so on up to seventeen, where one always fits. On
each grid only the two neighbours of the exact value can be nearest.
-/

namespace TileStream

/-- The decimal `digits · 10 ^ exponent`. -/
structure Decimal where
  digits : Nat
  exponent : Int
  deriving DecidableEq, Repr

namespace Decimal

/-- The fraction `num · base ^ e`, as numerator and denominator. -/
def scaled (num base : Nat) (e : Int) : Nat × Nat :=
  if 0 ≤ e then (num * Nat.pow base e.toNat, 1) else (num, Nat.pow base (-e).toNat)

/-- The number of decimal digits of a positive whole number, zero for zero. -/
def width (n : Nat) : Nat := if n == 0 then 0 else (Nat.toDigits 10 n).length

/-- The exponent `k` with `10 ^ (k - 1) ≤ num / den < 10 ^ k`. -/
def magnitude (num den : Nat) : Int :=
  if den ≤ num then width (num / den)
  else 1 - (width ((den + num - 1) / num - 1) : Int)

/-- The interval of reals that round to a float: its ends over one denominator, and whether the
ends belong to it. -/
structure Interval where
  low : Nat
  value : Nat
  high : Nat
  den : Nat
  closed : Bool

/-- The interval of a positive finite float. Below a power of two the neighbours lie closer. -/
def Interval.ofBinary (b : Binary) : Interval :=
  let near := b.mantissa == Binary.hidden && b.exponent != Binary.leastExponent
  let (num, den) := scaled 1 2 (b.exponent - 2)
  { low := (4 * b.mantissa - (if near then 1 else 2)) * num
    value := 4 * b.mantissa * num
    high := (4 * b.mantissa + 2) * num
    den := den
    closed := b.mantissa % 2 == 0 }

namespace Interval

/-- Whether the fraction `num / den` lies in the interval. -/
def holds (i : Interval) (num den : Nat) : Bool :=
  if i.closed then i.low * den ≤ num * i.den && num * i.den ≤ i.high * den
  else i.low * den < num * i.den && num * i.den < i.high * den

/-- The neighbour of the value on the grid of step `10 ^ e` that lies in the interval, the nearer
one of two, the upper one when both are equally near. -/
def onGrid (i : Interval) (e : Int) : Option Decimal :=
  let (stepNum, stepDen) := scaled 1 10 e
  let below := i.value * stepDen / (i.den * stepNum)
  let fits (d : Nat) : Bool := i.holds (d * stepNum) stepDen
  let twice := 2 * (i.value * stepDen % (i.den * stepNum))
  match fits below, fits (below + 1) with
  | false, false => none
  | true, false => some ⟨below, e⟩
  | false, true => some ⟨below + 1, e⟩
  | true, true => if i.den * stepNum ≤ twice then some ⟨below + 1, e⟩ else some ⟨below, e⟩

end Interval

/-- The shortest decimal that reads back as the positive number `b`, and of those the nearest. -/
def shortest (b : Binary) : Decimal :=
  let i := Interval.ofBinary b
  let k := magnitude i.value i.den
  let grids := (List.range 17).map fun (n : Nat) => k - ((n : Int) + 1)
  (grids.findSome? i.onGrid).getD ⟨b.mantissa, b.exponent⟩

/-- The decimal written out without an exponent. -/
def positional (d : Decimal) : String :=
  let digits := Nat.toDigits 10 d.digits
  let text (cs : List Char) : String := String.ofList cs
  if 0 ≤ d.exponent then text (digits ++ List.replicate d.exponent.toNat '0')
  else
    let places := (-d.exponent).toNat
    let padded := List.replicate (places + 1 - digits.length) '0' ++ digits
    let whole := padded.take (padded.length - places)
    text whole ++ "." ++ text (padded.drop (padded.length - places))

/-- The decimal without trailing zeros after the point. -/
def normalised (d : Decimal) : Decimal :=
  let rec strip : Nat → Nat → Int → Decimal
    | 0, n, e => ⟨n, e⟩
    | fuel + 1, n, e => if e < 0 && n % 10 == 0 then strip fuel (n / 10) (e + 1) else ⟨n, e⟩
  strip (width d.digits) d.digits d.exponent

end Decimal

/-- The text of a float: the shortest digits that read back, never an exponent, no point for a
whole number. -/
def Numeric.plainText (x : Float) : String :=
  match Binary.ofFloat? x with
  | none => if x.isNaN then "NaN" else if x < 0.0 then "-inf" else "inf"
  | some b =>
    let size :=
      if b.mantissa == 0 then "0" else (Decimal.shortest b).normalised.positional
    if b.negative then "-" ++ size else size

end TileStream
