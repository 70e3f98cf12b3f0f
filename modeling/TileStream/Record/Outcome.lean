/-!
# Outcomes of fetches

A fetch of one layer of one tile yields bytes or fails for one of three reasons. What a tile records
of it is a status: the bytes, or why they are missing.
-/

namespace TileStream

/-- The data of one layer of one tile. -/
abbrev Bytes := List UInt8

/-- Why a fetch yields no bytes. -/
inductive FetchFailure where
  /-- There is no data for the tile. -/
  | notFound
  /-- A failure that may pass. -/
  | transient (reason : String)
  /-- The bytes are not what they should be. -/
  | malformed (reason : String)
  deriving DecidableEq, Repr

/-- The outcome of a fetch. -/
abbrev Outcome := Except FetchFailure Bytes

namespace FetchFailure

/-- The failure in words. -/
def message : FetchFailure → String
  | notFound => "no data for this tile"
  | transient reason => "transient failure: " ++ reason
  | malformed reason => "malformed payload: " ++ reason

/-- Whether the failure may pass. -/
def isTransient : FetchFailure → Bool
  | transient _ => true
  | _ => false

end FetchFailure

/-- Whether a fetch failed in a way that may pass. -/
def Outcome.isTransient : Outcome → Bool
  | .error e => e.isTransient
  | .ok _ => false

/-- Why a layer of a tile is missing. -/
inductive Absence where
  | notFound
  /-- A failure that did not pass in time. -/
  | networkError
  | malformed
  deriving DecidableEq, Repr

/-- The final state of one layer of one tile. -/
inductive LayerState where
  | present (bytes : Bytes)
  | absent (reason : Absence)
  deriving DecidableEq, Repr

namespace LayerState

/-- What is recorded of an outcome. -/
def ofOutcome : Outcome → LayerState
  | .ok bytes => present bytes
  | .error .notFound => absent .notFound
  | .error (.transient _) => absent .networkError
  | .error (.malformed _) => absent .malformed

/-- The bytes, where there are any. -/
def bytes? : LayerState → Option Bytes
  | present bytes => some bytes
  | absent _ => none

/-- The number of bytes. -/
def size (s : LayerState) : Nat := (s.bytes?.map List.length).getD 0

end LayerState

end TileStream
