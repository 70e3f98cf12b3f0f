import TileStream.Fault

/-!
# Comparing floats where one may be NaN

The larger and the smaller of two floats are the other one when one is NaN. A clamp needs bounds
that form a range, and lets NaN through.
-/

namespace TileStream.Numeric

/-- The larger of two floats; the other one when one is NaN. -/
def larger (a b : Float) : Float :=
  if a < b || a.isNaN then b else a

/-- The smaller of two floats; the other one when one is NaN. -/
def smaller (a b : Float) : Float :=
  if b < a || a.isNaN then b else a

/-- `x` brought between `lo` and `hi`; NaN stays. -/
def between (lo hi x : Float) : Float :=
  if x < lo then lo else if hi < x then hi else x

/-- `x` brought between `lo` and `hi`, a fault when they are not a range. -/
def clamp (lo hi x : Float) : Checked Float :=
  if lo ≤ hi then .ok (between lo hi x) else .error .emptyRange

/-- The whole part, towards zero. -/
def truncate (x : Float) : Float :=
  if x < 0.0 then x.ceil else x.floor

/-- What is left of `x` without its whole part. -/
def fraction (x : Float) : Float := x - truncate x

/-- The ratio of a circle's circumference to its diameter. -/
def pi : Float := 3.14159265358979323846

/-- Degrees as radians. -/
def toRadians (degrees : Float) : Float := degrees * (pi / 180.0)

/-- Radians as degrees. -/
def toDegrees (radians : Float) : Float := radians * (180.0 / pi)

end TileStream.Numeric
