import TileStream.Pipeline.Calls

/-!
# Meters

What a running service counts: the outcomes of fetches by layer, and after each call of the pipeline
the quads finished and refused so far and how many stand where. A meter shows up once it has been
touched.
-/

namespace TileStream

/-- The meters touched so far, by name. -/
abbrev Meters := Table String Nat

/-- The word for the kind of an outcome. -/
def Outcome.kind : Outcome → String
  | .ok _ => "ok"
  | .error .notFound => "not_found"
  | .error (.transient _) => "transient"
  | .error (.malformed _) => "malformed"

namespace Meters

/-- Raises a counter. -/
def add (m : Meters) (name : String) (n : Nat) : Meters := m.set name ((m.get? name).getD 0 + n)

/-- The counter of the fetches of a layer with outcomes of a kind. -/
def fetchesTotal (layer : Layer) (outcome : Outcome) : String :=
  "terra_fetches_total\x7blayer=" ++ layer.name ++ ",outcome=" ++ outcome.kind ++ "\x7d"

/-- Counts the outcome of a fetch. -/
def countFetch (m : Meters) (layer : Layer) (outcome : Outcome) : Meters :=
  m.add (fetchesTotal layer outcome) 1

/-- Counts what a call of the pipeline finished and refused, and shows how many quads stand where
after it. -/
def countCall (m : Meters) (e : Effects) (t : Tally) : Meters :=
  m.add "terra_quads_completed_total" e.completed.length
    |>.add "terra_quads_refused_total" e.refused.length
    |>.set "terra_ram_cache_quads" t.cached
    |>.set "terra_gpu_quads" t.resident
    |>.set "terra_quads_in_flight" t.inFlight
    |>.set "terra_quads_queued" t.queued

end Meters

end TileStream
