import TileStream.Geo.Tile
import TileStream.Table

/-!
# Recency

A recency index knows when each of its quads was last seen. The time is a stamp that only grows, not
a clock. The index keeps the stamps by quad and the quads by stamp; quads with one stamp are in the
order of their ids, so the oldest quad is always a definite one.
-/

namespace TileStream

/-- Stamps by quad and quads by stamp. -/
structure Recency where
  stamps : Table QuadId Nat
  order : List (Nat × QuadId)
  deriving DecidableEq, Repr

namespace Recency

/-- No quad was seen. -/
def empty : Recency := ⟨.empty, []⟩

/-- The order of stamped quads: by stamp, then by id. -/
def older (a b : Nat × QuadId) : Bool := a.1 < b.1 || (a.1 = b.1 && a.2.before b.2)

/-- A stamped quad put into its place in an ordered list, once. -/
def place (e : Nat × QuadId) : List (Nat × QuadId) → List (Nat × QuadId)
  | [] => [e]
  | x :: xs =>
    if e = x then x :: xs
    else if older e x then e :: x :: xs
    else x :: place e xs

/-- The stamp of a quad. -/
def stamp? (r : Recency) (quad : QuadId) : Option Nat := r.stamps.get? quad

/-- Whether a quad was seen. -/
def contains (r : Recency) (quad : QuadId) : Bool := r.stamps.contains quad

/-- The index after `quad` was seen at `stamp`. A stamp never goes back. -/
def touch (r : Recency) (quad : QuadId) (stamp : Nat) : Recency :=
  match r.stamps.get? quad with
  | none => ⟨r.stamps.set quad stamp, place (stamp, quad) r.order⟩
  | some current =>
    if current < stamp then
      ⟨r.stamps.set quad stamp, place (stamp, quad) (r.order.erase (current, quad))⟩
    else r

/-- The index without a quad. -/
def erase (r : Recency) (quad : QuadId) : Recency :=
  match r.stamps.get? quad with
  | none => r
  | some current => ⟨r.stamps.erase quad, r.order.erase (current, quad)⟩

/-- The quad seen longest ago among those not pinned. -/
def oldestUnpinned (r : Recency) (pinned : QuadId → Bool) : Option QuadId :=
  (r.order.map (·.2)).find? fun quad => !pinned quad

/-- The number of quads seen. -/
def size (r : Recency) : Nat := r.stamps.size

/-- The quads seen. -/
def ids (r : Recency) : List QuadId := r.stamps.keys

end Recency

end TileStream
