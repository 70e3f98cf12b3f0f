/-!
# Occurrences of a text in another

They are looked for from the left, and those that are replaced do not overlap.
-/

namespace TileStream.Text

/-- Whether `part` occurs in a text. -/
def occurs (part : List Char) : List Char → Bool
  | [] => part.isEmpty
  | c :: cs => part.isPrefixOf (c :: cs) || occurs part cs

/-- The text with its first `skipped` characters left out and every occurrence of `part` after them
replaced. -/
def replaceFrom (part new : List Char) : (skipped : Nat) → List Char → List Char
  | _, [] => []
  | skipped + 1, _ :: cs => replaceFrom part new skipped cs
  | 0, c :: cs =>
    if part.isPrefixOf (c :: cs) then new ++ replaceFrom part new (part.length - 1) cs
    else c :: replaceFrom part new 0 cs

/-- The text with every occurrence of a nonempty part replaced. -/
def replace (part new cs : List Char) : List Char := replaceFrom part new 0 cs

end TileStream.Text
