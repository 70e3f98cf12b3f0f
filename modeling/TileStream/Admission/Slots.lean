import TileStream.Record.Basic
import TileStream.Fault
import TileStream.Table

/-!
# Slots

A quad past admission holds one of a limited number of slots until it is delivered or released.
Quads that find no free slot wait in a queue and are admitted in its order as slots come free.
-/

namespace TileStream

/-- Where a quad known to the slots stands. -/
inductive Stage where
  /-- Waiting for a slot. -/
  | queued
  /-- Holding a slot, waiting for the token bucket. -/
  | rateLimited
  /-- Holding a slot, its tiles being fetched. -/
  | assembling
  deriving DecidableEq, Repr

/-- Whether a quad of that stage holds a slot. -/
def Stage.holdsSlot : Stage → Bool
  | queued => false
  | _ => true

/-- The stages of the quads known, the queue, and the number of slots held. -/
structure Slots where
  limit : Nat
  stages : Table QuadId Stage
  queue : List QuadId
  inFlight : Nat
  deriving DecidableEq, Repr

namespace Slots

/-- That many free slots, at least one. -/
def ofLimit (limit : Nat) : Slots := ⟨max limit 1, .empty, [], 0⟩

/-- The stage of a quad. -/
def stage? (s : Slots) (quad : QuadId) : Option Stage := s.stages.get? quad

/-- Whether a quad is known. -/
def contains (s : Slots) (quad : QuadId) : Bool := s.stages.contains quad

/-- Admits a quad when a slot is free and queues it otherwise. Known quads are ignored. Returns the
quad when it was admitted. -/
def request (s : Slots) (quad : QuadId) : Slots × Option QuadId :=
  if s.contains quad then (s, none)
  else if s.inFlight < s.limit then
    ({ s with stages := s.stages.set quad .rateLimited, inFlight := s.inFlight + 1 }, some quad)
  else ({ s with stages := s.stages.set quad .queued, queue := s.queue ++ [quad] }, none)

/-- Admits the first quad of the queue when a slot is free. -/
def admitNext (s : Slots) : Slots × Option QuadId :=
  if s.limit ≤ s.inFlight then (s, none)
  else
    match s.queue with
    | [] => (s, none)
    | quad :: rest =>
      ({ s with
          stages := s.stages.set quad .rateLimited, queue := rest, inFlight := s.inFlight + 1 },
        some quad)

/-- Whether a quad holds a slot. -/
def holds (s : Slots) (quad : QuadId) : Bool := ((s.stage? quad).map Stage.holdsSlot).getD false

/-- Frees the slot of a quad and admits the next of the queue, which is returned. A quad that holds
no slot is ignored. A fault when no slot was counted as held. -/
def release (s : Slots) (quad : QuadId) : Checked (Slots × Option QuadId) :=
  if !s.holds quad then .ok (s, none)
  else if s.inFlight = 0 then .error .overflow
  else .ok ({ s with stages := s.stages.erase quad, inFlight := s.inFlight - 1 }.admitNext)

/-- Passes the record of a finished quad through and frees its slot on the way. -/
def deliver (s : Slots) (record : QuadRecord) : Checked (Slots × QuadRecord × Option QuadId) := do
  let (s, next) ← s.release record.id
  return (s, record, next)

/-- The slots without the queued quads that `keep` refuses. -/
def retainQueued (s : Slots) (keep : QuadId → Bool) : Slots :=
  { s with
    queue := s.queue.filter keep
    stages := (s.queue.filter fun quad => !keep quad).foldl Table.erase s.stages }

/-- Moves an admitted quad to another stage that holds a slot. -/
def mark (s : Slots) (quad : QuadId) (stage : Stage) : Slots :=
  if stage.holdsSlot && s.holds quad then
    { s with stages := s.stages.set quad stage }
  else s

/-- The number of quads waiting for a slot. -/
def queued (s : Slots) : Nat := s.queue.length

/-! ### Who waits -/

/-- A quad that is admitted leaves the queue. -/
theorem queued_admitNext (s : Slots) :
    s.admitNext.1.queued + s.admitNext.2.toList.length = s.queued := by
  unfold admitNext queued
  split
  · rfl
  · split <;> simp_all

/-- **A release moves at most one quad out of the queue,** the one it returns. -/
theorem queued_release {s s' : Slots} {quad : QuadId} {next : Option QuadId}
    (h : s.release quad = .ok (s', next)) : s'.queued + next.toList.length = s.queued := by
  unfold release at h
  split at h
  · cases h; rfl
  · split at h
    · cases h
    · have := queued_admitNext
        { s with stages := s.stages.erase quad, inFlight := s.inFlight - 1 }
      rw [Except.ok.inj h] at this
      exact this

@[simp] theorem queued_mark (s : Slots) (quad : QuadId) (stage : Stage) :
    (s.mark quad stage).queued = s.queued := by
  unfold mark queued; split <;> rfl

end Slots

end TileStream
