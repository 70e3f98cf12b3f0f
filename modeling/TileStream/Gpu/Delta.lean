import TileStream.Record.Basic

/-!
# Changes to the resident set

A delta lists quads to remove and then records to add. A quad whose record is replaced appears in
both. Later changes fold into a delta so that it stays one step from the state before it.
-/

namespace TileStream

/-- Quads to remove, then records to add. -/
structure ResidencyDelta where
  removed : List QuadId
  added : List QuadRecord
  deriving DecidableEq, Repr

namespace ResidencyDelta

/-- No change. -/
def empty : ResidencyDelta := ⟨[], []⟩

/-- Whether nothing changes. -/
def isEmpty (d : ResidencyDelta) : Bool := d.removed.isEmpty && d.added.isEmpty

/-- The delta with a record added last, in place of an earlier record of its quad. -/
def add (d : ResidencyDelta) (record : QuadRecord) : ResidencyDelta :=
  { d with added := d.added.filter (fun known => known.id ≠ record.id) ++ [record] }

/-- The delta with a quad removed. Removing a quad that the delta adds takes that addition back. -/
def remove (d : ResidencyDelta) (quad : QuadId) : ResidencyDelta :=
  let added := d.added.filter fun known => known.id ≠ quad
  if added.length = d.added.length && !d.removed.contains quad then
    { removed := d.removed ++ [quad], added }
  else { d with added }

/-- The delta followed by a later one. -/
def merge (d later : ResidencyDelta) : ResidencyDelta :=
  later.added.foldl add (later.removed.foldl remove d)

/-- The quads whose records are added. -/
def addedIds (d : ResidencyDelta) : List QuadId := d.added.map (·.id)

end ResidencyDelta

end TileStream
