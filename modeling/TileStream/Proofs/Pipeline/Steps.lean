import Mathlib.Logic.Relation
import TileStream.Pipeline.Calls

/-! # A call in small steps

A call of the pipeline goes down and comes back: a quad that leaves the token bucket orders its
tiles, a tile with nothing to fetch is complete at once, the last tile completes its quad, and a
finished quad lets the next one in. Here the same is told without the nesting, by a list of tasks
that is worked off from the front (`Turn.Step`). Every task is small, and each touches one or two
stages only, so what a step keeps is easy to say; what every step keeps, the call keeps.

* `Turn.comes_dispatch`: working off the tasks is what `Turn.dispatch` does. When the call faults,
  the tasks come to a place from where there is no step, so a call of which no such place can be
  reached does not fault.
* `Pipeline.steps_call`: the same for the calls, which differ in how they begin (`Pipeline.Opens`).
-/

namespace TileStream

/-- What is left to do in a call. -/
inductive Task where
  /-- The quad asks for a slot. -/
  | submit (quad : QuadId)
  /-- The quad left the token bucket. -/
  | start (quad : QuadId)
  /-- The tile is ordered. -/
  | call (tile : TileId)
  /-- The finished tile goes to its quad. -/
  | pass (record : TileRecord)
  /-- The finished quad gives its slot back. -/
  | finish (record : QuadRecord)
  /-- The finished quad is offered to the cache. -/
  | offer (record : QuadRecord)
  deriving DecidableEq, Repr

namespace Turn

variable {τ κ : Type}

/-- The turn after a quad left the token bucket. -/
def started (t : Turn τ κ) (quad : QuadId) : Turn τ κ :=
  { t with pipeline.slots := t.pipeline.slots.mark quad .assembling }.note (.started quad)

/-- The turn after a finished quad gave its slot back and let `next` in. -/
def released (t : Turn τ κ) (record : QuadRecord) (slots : Slots) (next : Option QuadId) :
    Turn τ κ :=
  let t := { t with pipeline.slots := slots }.await next
  { t with effects.completed := t.effects.completed ++ [record.id] }.note (.finished record)

/-! ### What the parts of a turn become -/

section

variable (t : Turn τ κ)

theorem await_eq (next : Option QuadId) : t.await next =
    { t with pipeline.bucket.pending := t.pipeline.bucket.pending ++ next.toList } := by
  cases next with
  | none => simp [await]
  | some quad => rfl

theorem pipeline_submit (quad : QuadId) : (t.submit quad).pipeline =
    { t.pipeline with
      slots := (t.pipeline.slots.request quad).1
      bucket.pending :=
        t.pipeline.bucket.pending ++ (t.pipeline.slots.request quad).2.toList } := by
  unfold submit
  dsimp only
  split
  · rw [await_eq]
  · rw [await_eq]; rfl

theorem effects_submit (quad : QuadId) : (t.submit quad).effects = t.effects := by
  unfold submit
  dsimp only
  split
  · rw [await_eq]
  · rw [await_eq]; rfl

theorem journal_submit (quad : QuadId) : (t.submit quad).journal =
    if t.pipeline.slots.contains quad then t.journal else t.journal ++ [.accepted quad] := by
  unfold submit
  dsimp only
  split
  · rw [await_eq]
  · rw [await_eq]; rfl

variable (record : QuadRecord) (slots : Slots) (next : Option QuadId)

theorem pipeline_released : (t.released record slots next).pipeline =
    { t.pipeline with
      slots, bucket.pending := t.pipeline.bucket.pending ++ next.toList } := by
  unfold released
  rw [await_eq]
  rfl

theorem effects_released : (t.released record slots next).effects =
    { t.effects with completed := t.effects.completed ++ [record.id] } := by
  unfold released
  rw [await_eq]
  rfl

theorem journal_released : (t.released record slots next).journal =
    t.journal ++ [.finished record] := by
  unfold released
  rw [await_eq]
  rfl

end

/-! ### Steps -/

variable [TokenArithmetic τ] {now : Instant}

/-- **One step of a call.** When nothing is left to do, the token bucket is asked for more. -/
inductive Step (now : Instant) : Turn τ κ × List Task → Turn τ κ × List Task → Prop
  | poll {t bucket quads} (h : t.pipeline.bucket.poll now = (bucket, quads)) :
    Step now (t, []) ({ t with pipeline.bucket := bucket }, quads.map .start)
  | submit {t quad rest} : Step now (t, .submit quad :: rest) (t.submit quad, rest)
  | start {t quad quads tiles rest}
    (h : t.pipeline.quads.load quad = .ok (quads, .started tiles)) :
    Step now (t, .start quad :: rest)
      ({ t.started quad with pipeline.quads := quads }, tiles.map .call ++ rest)
  | startEmpty {t quad quads record rest}
    (h : t.pipeline.quads.load quad = .ok (quads, .complete record)) :
    Step now (t, .start quad :: rest)
      ({ t.started quad with pipeline.quads := quads }, .finish record :: rest)
  | startAgain {t quad quads rest}
    (h : t.pipeline.quads.load quad = .ok (quads, .alreadyLoading)) :
    Step now (t, .start quad :: rest)
      ({ t.started quad with pipeline.quads := quads }.note (.startedAgain quad), rest)
  | call {t tile tiles requests rest} (h : t.pipeline.tiles.load tile = (tiles, .fetch requests)) :
    Step now (t, .call tile :: rest)
      ({ t with pipeline.tiles := tiles, effects.fetches := t.effects.fetches ++ requests }, rest)
  | callEmpty {t tile tiles record rest}
    (h : t.pipeline.tiles.load tile = (tiles, .complete record)) :
    Step now (t, .call tile :: rest) ({ t with pipeline.tiles := tiles }, .pass record :: rest)
  | callAgain {t tile tiles rest} (h : t.pipeline.tiles.load tile = (tiles, .alreadyLoading)) :
    Step now (t, .call tile :: rest)
      ({ t with pipeline.tiles := tiles }.note (.calledAgain tile), rest)
  | pass {t record quads rest} (h : t.pipeline.quads.deliver record = (quads, none)) :
    Step now (t, .pass record :: rest) ({ t with pipeline.quads := quads }, rest)
  | passLast {t record quads quad rest}
    (h : t.pipeline.quads.deliver record = (quads, some quad)) :
    Step now (t, .pass record :: rest) ({ t with pipeline.quads := quads }, .finish quad :: rest)
  | finish {t record slots next rest}
    (h : t.pipeline.slots.release record.id = .ok (slots, next)) :
    Step now (t, .finish record :: rest) (t.released record slots next, .offer record :: rest)
  | offer {t record holdings delta rest}
    (h : t.pipeline.holdings.receive record now = .ok (holdings, delta)) :
    Step now (t, .offer record :: rest)
      ({ t with
          pipeline.holdings := holdings, effects.delta := t.effects.delta.merge delta }, rest)
  | refuse {t record e rest} (h : t.pipeline.holdings.receive record now = .error e) :
    Step now (t, .offer record :: rest)
      ({ t with effects.refused := t.effects.refused ++ [record.id] }, rest)

/-- Any number of steps of a call. -/
abbrev Steps (now : Instant) : Turn τ κ × List Task → Turn τ κ × List Task → Prop :=
  Relation.ReflTransGen (Step now)

/-- The tasks come to a place from where there is no step. -/
def Sticks (now : Instant) (w : Turn τ κ × List Task) : Prop :=
  ∃ w', Steps now w w' ∧ ∀ w'', ¬ Step now w' w''

/-- What comes of working tasks off until `rest` is left: the turn, or no way on after a fault. -/
def Comes (now : Instant) (w : Turn τ κ × List Task) (rest : List Task) : Checked (Turn τ κ) → Prop
  | .ok t => Steps now w (t, rest)
  | .error _ => Sticks now w

/-- What some tasks come to, whatever is left to do after them. -/
def Follows (now : Instant) (t : Turn τ κ) (tasks : List Task) (r : Checked (Turn τ κ)) : Prop :=
  ∀ rest, Comes now (t, tasks ++ rest) rest r

theorem Comes.of_steps {w w' : Turn τ κ × List Task} {rest : List Task} {r : Checked (Turn τ κ)}
    (h : Steps now w w') (hr : Comes now w' rest r) : Comes now w rest r := by
  cases r with
  | ok t => exact h.trans hr
  | error e =>
    obtain ⟨v, hv, hstuck⟩ := hr
    exact ⟨v, h.trans hv, hstuck⟩

/-- A step, and what the tasks that it leaves come to. -/
theorem Follows.of_step {t u : Turn τ κ} {tasks more : List Task} {r : Checked (Turn τ κ)}
    (h : ∀ rest, Step now (t, tasks ++ rest) (u, more ++ rest)) (hr : Follows now u more r) :
    Follows now t tasks r :=
  fun rest => .of_steps (.single (h rest)) (hr rest)

/-- Some tasks, and then others. -/
theorem Follows.bind {t : Turn τ κ} {tasks more : List Task} {r : Checked (Turn τ κ)}
    {f : Turn τ κ → Checked (Turn τ κ)} (hr : Follows now t tasks r)
    (hf : ∀ u, Follows now u more (f u)) : Follows now t (tasks ++ more) (r >>= f) := by
  intro rest
  rw [List.append_assoc]
  have hfirst := hr (more ++ rest)
  cases r with
  | error e => exact hfirst
  | ok u => exact .of_steps hfirst (hf u rest)

/-- A task for each member of a list. -/
theorem follows_foldlM {α : Type} {f : Turn τ κ → α → Checked (Turn τ κ)} {task : α → Task}
    (h : ∀ t a, Follows now t [task a] (f t a)) (as : List α) (t : Turn τ κ) :
    Follows now t (as.map task) (as.foldlM f t) := by
  induction as generalizing t with
  | nil => exact fun rest => Relation.ReflTransGen.refl
  | cons a as ih =>
    rw [List.foldlM_cons]
    exact (h t a).bind ih

theorem Steps.keeps {I : Turn τ κ × List Task → Prop}
    (hstep : ∀ {w w'}, I w → Step now w w' → I w') {w w' : Turn τ κ × List Task}
    (h : Steps now w w') (hw : I w) : I w' := by
  induction h with
  | refl => exact hw
  | tail _ hs ih => exact hstep ih hs

/-! ### The parts of a call -/

theorem follows_finish (t : Turn τ κ) (record : QuadRecord) :
    Follows now t [.finish record] (t.finish now record) := by
  unfold finish
  cases hr : t.pipeline.slots.release record.id with
  | error e =>
    refine fun rest => ⟨_, .refl, fun w hw => ?_⟩
    cases hw with
    | finish h => rw [hr] at h; cases h
  | ok r =>
    obtain ⟨slots, next⟩ := r
    have hoffer : Follows now (t.released record slots next) [.offer record]
        (.ok ((t.released record slots next).offer record now)) := by
      refine fun rest => .single ?_
      unfold offer
      split
      · next h => exact .offer h
      · next h => exact .refuse h
    exact .of_step (fun rest => .finish hr) hoffer

theorem follows_finishTile (t : Turn τ κ) (record : TileRecord) :
    Follows now t [.pass record] (t.finishTile now record) := by
  unfold finishTile
  cases hd : t.pipeline.quads.deliver record with
  | mk quads finished =>
    cases finished with
    | none => exact fun rest => .single (.pass hd)
    | some quad => exact .of_step (fun rest => .passLast hd) (follows_finish _ quad)

theorem follows_loadTile (t : Turn τ κ) (tile : TileId) :
    Follows now t [.call tile] (t.loadTile now tile) := by
  unfold loadTile
  cases hl : t.pipeline.tiles.load tile with
  | mk tiles start =>
    cases start with
    | fetch requests => exact fun rest => .single (.call hl)
    | complete record => exact .of_step (fun rest => .callEmpty hl) (follows_finishTile _ record)
    | alreadyLoading => exact fun rest => .single (.callAgain hl)

theorem follows_assemble (t : Turn τ κ) (quad : QuadId) :
    Follows now t [.start quad] (t.assemble now quad) := by
  unfold assemble
  simp only [note]
  cases hl : t.pipeline.quads.load quad with
  | error e =>
    refine fun rest => ⟨_, .refl, fun w hw => ?_⟩
    cases hw with
    | start h => rw [hl] at h; cases h
    | startEmpty h => rw [hl] at h; cases h
    | startAgain h => rw [hl] at h; cases h
  | ok r =>
    obtain ⟨quads, start⟩ := r
    cases start with
    | started tiles =>
      exact .of_step (fun rest => .start hl) (follows_foldlM follows_loadTile tiles _)
    | complete record => exact .of_step (fun rest => .startEmpty hl) (follows_finish _ record)
    | alreadyLoading => exact fun rest => .single (.startAgain hl)

/-- Quads that ask for a slot, one after the other. -/
theorem steps_submit (quads : List QuadId) (t : Turn τ κ) :
    Steps now (t, quads.map .submit) (quads.foldl submit t, []) := by
  induction quads generalizing t with
  | nil => exact .refl
  | cons quad quads ih => exact .head .submit (ih _)

/-- A round: the token bucket is asked, and the quads that it lets go are started. -/
theorem comes_round {t : Turn τ κ} {bucket : TokenBucket τ} {quads : List QuadId}
    (hp : t.pipeline.bucket.poll now = (bucket, quads)) :
    Comes now (t, []) [] (quads.foldlM (assemble now) { t with pipeline.bucket := bucket }) := by
  have h : Comes now ({ t with pipeline.bucket := bucket }, quads.map .start ++ []) [] _ :=
    follows_foldlM follows_assemble quads _ []
  rw [List.append_nil] at h
  exact .of_steps (.single (.poll hp)) h

/-- **Working off the tasks is what the end of a call does.** It is over when the token bucket lets
no more quads go. -/
theorem comes_dispatch (now : Instant) (t : Turn τ κ) : Comes now (t, []) [] (t.dispatch now) := by
  -- one case for each way a round can end, and the hypothesis for the rounds after it
  fun_induction dispatch now t with
  | case1 t bucket hp => exact comes_round hp
  | case2 t bucket quad rest hp e hs => exact hs ▸ comes_round hp
  | case3 t bucket quad rest hp u hs ih =>
    have h := comes_round hp
    rw [hs] at h
    exact .of_steps h ih

/-- Tasks, and then the end of the call. -/
theorem Comes.dispatch {w : Turn τ κ × List Task} {r : Checked (Turn τ κ)}
    (h : Comes now w [] r) : Comes now w [] (r >>= Turn.dispatch now) := by
  cases r with
  | error e => exact h
  | ok t => exact .of_steps h (comes_dispatch now t)

end Turn

end TileStream
