import TileStream.Admission.Slots
import TileStream.Admission.TokenBucket
import TileStream.Geo.Culling
import TileStream.Holdings
import TileStream.Join.Quads
import TileStream.Pipeline.Effects

/-!
# Turns of the pipeline

Demand flows from the camera through the holdings, the slots and the token bucket to the joins of
quads and tiles, and ends in fetches. Outcomes flow back until a finished quad lands in the holdings
and shows up in a delta.

A turn is a call under way: the pipeline so far, the effects so far, and the journal. Its steps are
small: `Turn.assemble` starts a quad, `Turn.loadTile` a tile, `Turn.finishTile` and `Turn.finish`
carry what is complete back. None of them puts a quad in the line of those that wait for a slot or
for a token, which `Turn.waiting_assemble` says.
-/

namespace TileStream

/-- The stages that a quad passes through on its way to the holdings. -/
structure Pipeline (τ κ : Type) where
  culling : Culling κ
  holdings : Holdings
  slots : Slots
  bucket : TokenBucket τ
  quads : QuadJoins
  tiles : TileJoins
  camera : Option κ

/-- A call under way. -/
structure Turn (τ κ : Type) where
  pipeline : Pipeline τ κ
  effects : Effects
  journal : List Notice

namespace Turn

variable {τ κ : Type}

/-- The quads that wait for a slot or for a token. -/
def waiting (t : Turn τ κ) : Nat := t.pipeline.bucket.size + t.pipeline.slots.queued

/-- The turn with one more line in its journal. -/
def note (t : Turn τ κ) (n : Notice) : Turn τ κ := { t with journal := t.journal ++ [n] }

/-- The turn with a quad waiting for a token, if there is one. -/
def await (t : Turn τ κ) : Option QuadId → Turn τ κ
  | .none => t
  | some quad => { t with pipeline.bucket := t.pipeline.bucket.request quad }

/-- Offers a finished quad to the cache. -/
def offer (t : Turn τ κ) (record : QuadRecord) (now : Instant) : Turn τ κ :=
  match t.pipeline.holdings.receive record now with
  | .ok (holdings, delta) =>
    { t with
      pipeline.holdings := holdings
      effects.delta := t.effects.delta.merge delta }
  | .error _ => { t with effects.refused := t.effects.refused ++ [record.id] }

/-- Gives back the slot of a finished quad, admits the next one, and offers the quad to the
cache. -/
def finish (now : Instant) (t : Turn τ κ) (record : QuadRecord) : Checked (Turn τ κ) := do
  let (slots, next) ← t.pipeline.slots.release record.id
  let t := { t with pipeline.slots := slots }.await next
  let t := { t with effects.completed := t.effects.completed ++ [record.id] }
  return (t.note (.finished record)).offer record now

/-- Passes a finished tile on to its quad. -/
def finishTile (now : Instant) (t : Turn τ κ) (record : TileRecord) : Checked (Turn τ κ) :=
  let (quads, finished) := t.pipeline.quads.deliver record
  let t := { t with pipeline.quads := quads }
  match finished with
  | .none => .ok t
  | some quad => t.finish now quad

/-- Starts to load a tile of a quad. -/
def loadTile (now : Instant) (t : Turn τ κ) (tile : TileId) : Checked (Turn τ κ) :=
  let (tiles, start) := t.pipeline.tiles.load tile
  let t := { t with pipeline.tiles := tiles }
  match start with
  | .fetch requests => .ok { t with effects.fetches := t.effects.fetches ++ requests }
  | .complete record => t.finishTile now record
  | .alreadyLoading => .ok (t.note (.calledAgain tile))

/-- Starts to load a quad that left the token bucket. -/
def assemble (now : Instant) (t : Turn τ κ) (quad : QuadId) : Checked (Turn τ κ) := do
  let t := { t with pipeline.slots := t.pipeline.slots.mark quad .assembling }.note (.started quad)
  let (quads, start) ← t.pipeline.quads.load quad
  let t := { t with pipeline.quads := quads }
  match start with
  | .started tiles => tiles.foldlM (loadTile now) t
  | .complete record => t.finish now record
  | .alreadyLoading => return t.note (.startedAgain quad)

/-! ### Who waits -/

@[simp] theorem waiting_await (t : Turn τ κ) (next : Option QuadId) :
    (t.await next).waiting = t.waiting + next.toList.length := by
  cases next with
  | none => rfl
  | some quad => simp [await, waiting]; omega

@[simp] theorem waiting_offer (t : Turn τ κ) (record : QuadRecord) (now : Instant) :
    (t.offer record now).waiting = t.waiting := by
  unfold offer; split <;> rfl

/-- A finished quad hands its slot on, so the line stays as long as it was. -/
theorem waiting_finish {now : Instant} {t t' : Turn τ κ} {record : QuadRecord}
    (h : t.finish now record = .ok t') : t'.waiting = t.waiting := by
  unfold finish at h
  cases hr : t.pipeline.slots.release record.id with
  | error e => rw [hr] at h; cases h
  | ok r =>
    rw [hr] at h
    cases h
    have hq := Slots.queued_release hr
    rw [waiting_offer]
    have : (({ t with pipeline.slots := r.1 } : Turn τ κ).await r.2).waiting = t.waiting := by
      rw [waiting_await]
      simp only [waiting]
      omega
    exact this

theorem waiting_finishTile {now : Instant} {t t' : Turn τ κ} {record : TileRecord}
    (h : t.finishTile now record = .ok t') : t'.waiting = t.waiting := by
  unfold finishTile at h
  cases hd : t.pipeline.quads.deliver record with
  | mk quads finished =>
    rw [hd] at h
    cases finished with
    | none => cases h; rfl
    | some quad => exact (waiting_finish h).trans rfl

theorem waiting_loadTile {now : Instant} {t t' : Turn τ κ} {tile : TileId}
    (h : t.loadTile now tile = .ok t') : t'.waiting = t.waiting := by
  unfold loadTile at h
  cases hl : t.pipeline.tiles.load tile with
  | mk tiles start =>
    rw [hl] at h
    cases start with
    | fetch requests => cases h; rfl
    | complete record => exact (waiting_finishTile h).trans rfl
    | alreadyLoading => cases h; rfl

/-- A measure that each step keeps is kept by a run of steps. -/
theorem foldlM_keeps {α : Type} {step : Turn τ κ → α → Checked (Turn τ κ)}
    (keeps : ∀ t t' a, step t a = .ok t' → t'.waiting = t.waiting) (as : List α)
    {t t' : Turn τ κ} (h : as.foldlM step t = .ok t') : t'.waiting = t.waiting := by
  induction as generalizing t with
  | nil => cases h; rfl
  | cons a as ih =>
    rw [List.foldlM_cons] at h
    cases hs : step t a with
    | error e => rw [hs] at h; cases h
    | ok u =>
      rw [hs] at h
      exact (ih h).trans (keeps _ _ _ hs)

/-- **A quad that is started puts none in the line.** -/
theorem waiting_assemble {now : Instant} {t t' : Turn τ κ} {quad : QuadId}
    (h : t.assemble now quad = .ok t') : t'.waiting = t.waiting := by
  unfold assemble at h
  simp only [note] at h
  cases hl : t.pipeline.quads.load quad with
  | error e => rw [hl] at h; cases h
  | ok r =>
    rw [hl] at h
    obtain ⟨quads, start⟩ := r
    have key : ∀ u : Turn τ κ, u.waiting = t.waiting → t'.waiting = u.waiting →
        t'.waiting = t.waiting := fun _ hu ht => ht.trans hu
    cases start with
    | started tiles =>
      refine key _ ?_ (foldlM_keeps (fun _ _ _ => waiting_loadTile) _ h)
      simp [waiting]
    | complete record =>
      refine key _ ?_ (waiting_finish h)
      simp [waiting]
    | alreadyLoading =>
      cases h
      simp [waiting]

end Turn

end TileStream
