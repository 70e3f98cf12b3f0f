/-!
# Hexadecimal text

Digits of both cases are read and small ones are written. Bytes are written with two digits each.
-/

namespace TileStream.Text.Hex

/-- The value of a hexadecimal digit. -/
def digit? (c : Char) : Option Nat :=
  if '0' ≤ c && c ≤ '9' then some (c.toNat - 48)
  else if 'a' ≤ c && c ≤ 'f' then some (c.toNat - 87)
  else if 'A' ≤ c && c ≤ 'F' then some (c.toNat - 55)
  else none

/-- The number that hexadecimal digits write. -/
def value? (cs : List Char) : Option Nat :=
  cs.foldlM (fun n c => (digit? c).map (16 * n + ·)) 0

/-- The last `width` digits of a number, with zeros in front. -/
def ofNat (width n : Nat) : String :=
  String.ofList <| (List.range width).reverse.map fun i => Nat.digitChar (n / Nat.pow 16 i % 16)

/-- Two digits for each byte. -/
def ofBytes (bytes : List UInt8) : String := String.join (bytes.map fun b => ofNat 2 b.toNat)

/-- The bytes that pairs of digits write. -/
def bytes? : List Char → Option (List UInt8)
  | [] => some []
  | [_] => none
  | a :: b :: rest => do return (← value? [a, b]).toUInt8 :: (← bytes? rest)

end TileStream.Text.Hex
