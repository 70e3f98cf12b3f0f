import TileStream.Text.Hex

/-!
# Endpoints

An endpoint is an internet address and the number of a channel there, as in `127.0.0.1:80` and
`[::1]:80`. Four decimal bytes without leading zeros make an address of the fourth version; eight
hexadecimal groups make one of the sixth, in which `::` stands for one or more groups of zero and
the last two groups may be written as four bytes. The readers take what they know off the front of
a text and return the rest.
-/

namespace TileStream

/-- An internet address and the number of a channel there. -/
inductive Endpoint where
  | v4 (bytes : List Nat) (channel : Nat)
  | v6 (groups : List Nat) (scope channel : Nat)
  deriving DecidableEq, Repr

namespace Endpoint

/-- The rest after a given character. -/
def skip (c : Char) : List Char → Option (List Char)
  | [] => none
  | d :: rest => if d = c then some rest else none

/-- The number in front, of digits up to a radix, and the rest. -/
def number (radix bound : Nat) (maxDigits : Option Nat) (leadingZeros : Bool) (cs : List Char) :
    Option (Nat × List Char) := do
  let isDigit (c : Char) : Bool := (Text.Hex.digit? c).any (· < radix)
  let digits := cs.takeWhile isDigit
  let value := digits.foldl (fun n c => radix * n + (Text.Hex.digit? c).getD 0) 0
  let tooLong := maxDigits.any (· < digits.length)
  let padded := !leadingZeros && digits.head? = some '0' && 1 < digits.length
  if digits.isEmpty || tooLong || padded || bound ≤ value then none
  else return (value, cs.dropWhile isDigit)

/-- The decimal byte in front. -/
def byte (cs : List Char) : Option (Nat × List Char) := number 10 256 (some 3) false cs

/-- The hexadecimal group in front. -/
def group (cs : List Char) : Option (Nat × List Char) := number 16 65536 (some 4) true cs

/-- The four bytes in front, with points between them. -/
def fourBytes (cs : List Char) : Option (List Nat × List Char) := do
  let (a, cs) ← byte cs
  let (b, cs) ← byte (← skip '.' cs)
  let (c, cs) ← byte (← skip '.' cs)
  let (d, cs) ← byte (← skip '.' cs)
  return ([a, b, c, d], cs)

/-- Two groups from four bytes. -/
def groupsOfBytes : List Nat → List Nat
  | [a, b, c, d] => [256 * a + b, 256 * c + d]
  | _ => []

/-- As many groups as are in front, up to `room`, with colons between them. Four bytes may take the
place of the last two and end the groups, which the flag tells. -/
def groupsFrom : (room : Nat) → (first : Bool) → List Char → List Nat × Bool × List Char
  | 0, _, cs => ([], false, cs)
  | room + 1, first, cs =>
    match if first then some cs else skip ':' cs with
    | none => ([], false, cs)
    | some start =>
      match if 0 < room then fourBytes start else none with
      | some (bytes, rest) => (groupsOfBytes bytes, true, rest)
      | none =>
        match group start with
        | none => ([], false, cs)
        | some (g, rest) =>
          let (gs, ended, rest) := groupsFrom room false rest
          (g :: gs, ended, rest)

/-- The eight groups in front. -/
def eightGroups (cs : List Char) : Option (List Nat × List Char) := do
  let (front, ended, cs) := groupsFrom 8 true cs
  if front.length = 8 then return (front, cs)
  if ended then none
  let cs ← skip ':' cs
  let cs ← skip ':' cs
  let (back, _, cs) := groupsFrom (7 - front.length) true cs
  return (front ++ List.replicate (8 - front.length - back.length) 0 ++ back, cs)

/-- The channel in front, after a colon. -/
def channelOf (cs : List Char) : Option (Nat × List Char) := do
  number 10 65536 none true (← skip ':' cs)

/-- The scope in front, zero when there is none. -/
def scopeOf (cs : List Char) : Nat × List Char :=
  match (skip '%' cs).bind (number 10 4294967296 none true) with
  | some (scope, rest) => (scope, rest)
  | none => (0, cs)

/-- The endpoint of the fourth version in front. -/
def endpoint4 (cs : List Char) : Option (Endpoint × List Char) := do
  let (bytes, cs) ← fourBytes cs
  let (channel, cs) ← channelOf cs
  return (.v4 bytes channel, cs)

/-- The endpoint of the sixth version in front, its address between brackets. -/
def endpoint6 (cs : List Char) : Option (Endpoint × List Char) := do
  let (groups, cs) ← eightGroups (← skip '[' cs)
  let (scope, cs) := scopeOf cs
  let (channel, cs) ← channelOf (← skip ']' cs)
  return (.v6 groups scope channel, cs)

/-- The endpoint that a text writes. -/
def ofText? (text : List Char) : Option Endpoint := do
  let (e, rest) ← (endpoint4 text).or (endpoint6 text)
  if rest.isEmpty then return e else none

/-- Whether a channel of the address can be opened while no interface of the machine is up. Every
address of the fourth version can be, also when it is written as one of the sixth; of the sixth
version only the address that stands for all. -/
def canOpen : Endpoint → Bool
  | v4 _ _ => true
  | v6 groups _ _ =>
    let front := groups.dropLast.dropLast
    groups.all (· == 0) || front == [0, 0, 0, 0, 0, 65535]

end Endpoint

end TileStream
