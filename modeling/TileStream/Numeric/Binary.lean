/-!
# Floats as exact binary numbers

A finite float is `± mantissa · 2 ^ exponent` with whole mantissa and exponent. `Binary.ofFloat?`
reads these off the bits; what follows here is exact arithmetic on them: the value as a rational,
the nearest whole number of a scaled value, and the remainder of a division.
-/

namespace TileStream

/-- The finite binary number `± mantissa · 2 ^ exponent`. -/
structure Binary where
  negative : Bool
  mantissa : Nat
  exponent : Int
  deriving DecidableEq, Repr

namespace Binary

/-- The largest whole number that fits the fraction field of a float, plus one. -/
abbrev hidden : Nat := 4503599627370496

/-- The least exponent of a float, shared by all subnormal numbers. -/
abbrev leastExponent : Int := -1074

/-- The parts of a finite float; none for an infinity or a NaN. -/
def ofFloat? (x : Float) : Option Binary :=
  let bits := x.toBits.toNat
  let negative := bits / 9223372036854775808 == 1
  let field : Nat := bits / hidden % 2048
  let fraction := bits % hidden
  if field == 2047 then none
  else if field == 0 then some ⟨negative, fraction, leastExponent⟩
  else some ⟨negative, hidden + fraction, leastExponent + ((field : Int) - 1)⟩

/-- `2 ^ n` for a whole `n` of either sign. -/
def twoPow (n : Int) : Rat :=
  if 0 ≤ n then (Nat.pow 2 n.toNat : Rat) else 1 / (Nat.pow 2 (-n).toNat : Rat)

/-- The exact value. -/
def toRat (b : Binary) : Rat :=
  let size := (b.mantissa : Rat) * twoPow b.exponent
  if b.negative then -size else size

/-- The exact value of a float, zero where it has none. -/
def ratOfFloat (x : Float) : Rat := ((ofFloat? x).map toRat).getD 0

end Binary

/-- The whole number nearest to `num / den`; of two equally near ones the even one. -/
def roundHalfEven (num den : Nat) : Nat :=
  let q := num / den
  let twice := 2 * (num % den)
  if twice < den || (twice == den && q % 2 == 0) then q else q + 1

namespace Binary

/-- The size of the number times `scale`, rounded to the nearest whole number, ties to even. -/
def scaledSize (b : Binary) (scale : Nat) : Nat :=
  if 0 ≤ b.exponent then b.mantissa * scale * Nat.pow 2 b.exponent.toNat
  else roundHalfEven (b.mantissa * scale) (Nat.pow 2 (-b.exponent).toNat)

/-- The float `size · 2 ^ exponent`, exact where that is a float, with the given sign. -/
def float (negative : Bool) (size : Nat) (exponent : Int) : Float :=
  let x := (Float.ofNat size).scaleB exponent
  if negative then -x else x

end Binary

/-- What is left of `x` after taking away `y` a whole number of times, with the sign of `x`. It is
exact: both are brought to one exponent and divided as whole numbers. -/
def Numeric.remainder (x y : Float) : Float :=
  match Binary.ofFloat? x, Binary.ofFloat? y with
  | some a, some b =>
    if b.mantissa == 0 then 0.0 / 0.0
    else
      let e := min a.exponent b.exponent
      let m := a.mantissa * Nat.pow 2 (a.exponent - e).toNat
      let d := b.mantissa * Nat.pow 2 (b.exponent - e).toNat
      Binary.float a.negative (m % d) e
  | some _, none => if y.isNaN then y else x
  | none, _ => 0.0 / 0.0

end TileStream
