import TileStream.Geo.Tile
import TileStream.Settings.Loader

/-!
# Address templates

The address of a tile is a template with the tile's zoom, column and row in place of the
placeholders. `TileId.address` puts them in one after the other, `TileId.addressAtOnce` in one pass
over the template.
-/

namespace TileStream

/-- A number in decimal digits. -/
def Text.decimal (n : Nat) : List Char := (toString n).toList

namespace TileId

/-- The placeholders with the numbers of a tile that take their places. -/
def substitutions (t : TileId) : List (List Char × List Char) :=
  placeholders.zip [Text.decimal t.zoom.toNat, Text.decimal t.x.toNat, Text.decimal t.y.toNat]

/-- The address of a tile: each placeholder is replaced throughout, one after the other. -/
def address (t : TileId) (template : List Char) : List Char :=
  t.substitutions.foldl (fun cs (placeholder, number) => Text.replace placeholder number cs) template

/-- The template with its first `skipped` characters left out and the placeholders after them
replaced, in one pass. -/
def addressFrom (t : TileId) : (skipped : Nat) → List Char → List Char
  | _, [] => []
  | skipped + 1, _ :: cs => t.addressFrom skipped cs
  | 0, c :: cs =>
    match t.substitutions.find? fun (placeholder, _) => placeholder.isPrefixOf (c :: cs) with
    | some (placeholder, number) => number ++ t.addressFrom (placeholder.length - 1) cs
    | none => c :: t.addressFrom 0 cs

/-- The template with all placeholders replaced in one pass. -/
def addressAtOnce (t : TileId) (template : List Char) : List Char := t.addressFrom 0 template

end TileId

end TileStream
