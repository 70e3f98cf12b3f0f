import TileStream.Numeric.Shortest
import TileStream.Text.Blank

/-!
# Numbers in text

Whole numbers are an optional plus sign and ASCII digits, and must lie below a bound. Floats are an
optional sign and a decimal with or without an exponent, or the name of infinity or of NaN. Nothing
else may stand before or after.
-/

namespace TileStream.Text

/-- The value of a decimal digit. -/
def digitValue (c : Char) : Nat := c.toNat - '0'.toNat

/-- The number written by a list of decimal digits, the first one leading. -/
def digitsValue (ds : List Char) : Nat := ds.foldl (fun n d => 10 * n + digitValue d) 0

/-- The whole number written by a nonempty list of ASCII digits. -/
def readDigits (cs : List Char) : Option Nat :=
  if cs.isEmpty || !cs.all Char.isDigit then none else some (digitsValue cs)

/-- The whole number below `bound` that a text writes, with or without a plus sign. -/
def readWhole (bound : Nat) (cs : List Char) : Option Nat :=
  let digits := match cs with
    | '+' :: rest => rest
    | _ => cs
  (readDigits digits).filter (· < bound)

/-- The decimal `digits · 10 ^ exponent` as the nearest float. Far beyond the range of floats the
answer is infinity or zero at once. -/
def nearestFloat (d : Decimal) : Float :=
  let top := d.exponent + Decimal.width d.digits
  if d.digits == 0 || top < -400 then 0.0
  else if 400 < top then 1.0 / 0.0
  else if 0 ≤ d.exponent then OfScientific.ofScientific d.digits false d.exponent.toNat
  else OfScientific.ofScientific d.digits true (-d.exponent).toNat

/-- The value of an exponent part: nothing, or `e` with an optional sign and digits. -/
def readExponent : List Char → Option Int
  | [] => some 0
  | e :: rest =>
    if e = 'e' ∨ e = 'E' then
      match rest with
      | '-' :: digits => (readDigits digits).map fun n => -(n : Int)
      | '+' :: digits => (readDigits digits).map fun n => (n : Int)
      | digits => (readDigits digits).map fun n => (n : Int)
    else none

/-- The decimal a text writes: digits with an optional point, at least one digit, and an optional
exponent. -/
def readDecimal (cs : List Char) : Option Decimal :=
  let whole := cs.takeWhile Char.isDigit
  let rest := cs.dropWhile Char.isDigit
  let (places, rest) := match rest with
    | '.' :: tail => (tail.takeWhile Char.isDigit, tail.dropWhile Char.isDigit)
    | _ => ([], rest)
  if whole.isEmpty && places.isEmpty then none
  else (readExponent rest).map fun e => ⟨digitsValue (whole ++ places), e - places.length⟩

/-- The float that an unsigned text writes. -/
def readMagnitude (cs : List Char) : Option Float :=
  let name := String.ofList (lower cs)
  if name = "inf" ∨ name = "infinity" then some (1.0 / 0.0)
  else if name = "nan" then some (0.0 / 0.0)
  else (readDecimal cs).map nearestFloat

/-- The float that a text writes. -/
def readFloat : List Char → Option Float
  | '-' :: rest => (readMagnitude rest).map (- ·)
  | '+' :: rest => readMagnitude rest
  | cs => readMagnitude cs

end TileStream.Text
