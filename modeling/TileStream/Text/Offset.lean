import TileStream.Fault

/-!
# Offsets in bytes

The place of a character in a text is counted in the bytes of the characters before it, as UTF-8
encodes them. A text can be cut between two characters; an offset inside of one, or behind the end of
the text, is a fault.
-/

namespace TileStream.Text

/-- The characters of a text with their offsets, that of the first one given. -/
def withOffsets : (first : Nat) → List Char → List (Nat × Char)
  | _, [] => []
  | first, c :: cs => (first, c) :: withOffsets (first + c.utf8Size) cs

/-- A text cut at an offset: what is before it, and what is after it. -/
def cutAt : Nat → List Char → Checked (List Char × List Char)
  | 0, cs => .ok ([], cs)
  | _ + 1, [] => .error .offset
  | offset + 1, c :: cs =>
    if c.utf8Size ≤ offset + 1 then
      (cutAt (offset + 1 - c.utf8Size) cs).map fun (before, after) => (c :: before, after)
    else .error .offset

/-- What is between two offsets. -/
def between (first last : Nat) (cs : List Char) : Checked (List Char) := do
  let (before, _) ← cutAt last cs
  let (_, part) ← cutAt first before
  return part

end TileStream.Text
