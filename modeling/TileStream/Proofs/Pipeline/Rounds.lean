import TileStream.Proofs.Fault
import TileStream.Proofs.Pipeline.Course

/-! # The rounds at the end of a call

Every call but the idle ones ends in rounds: the token bucket is asked, the quads that it lets go are
started, and so on until it lets none go. A quad with nothing to wait for is finished while its round
is still on and lets the next one in, so the rounds feed the line that they take from.

`Turn.Rounds` tells of any number of rounds and knows of no measure. `Pipeline.Dispatches` says where
the rounds of a call begin. There are only so many of them (`Pipeline.Run.rounds_end`): whoever is let
in was in the queue, so the quads of the rounds are the first of those that stood in the bucket and
then in the queue when the rounds began. Nothing is assumed of the arithmetic of the tokens.

* `Turn.Rounds.line`: what rounds start, followed by the line that they leave, is the line that they
  found.
* `Turn.Rounds.length_le`: no round is empty. -/

namespace TileStream

namespace Turn

variable {τ κ : Type}

/-! ### Who is started -/

section

variable {now : Instant} {t u : Turn τ κ}

theorem journal_offer (t : Turn τ κ) (record : QuadRecord) (now : Instant) :
    (t.offer record now).journal = t.journal := by
  unfold offer
  split <;> rfl

theorem startsIn_finish {record : QuadRecord} (h : t.finish now record = .ok u) :
    startsIn u.journal = startsIn t.journal := by
  obtain ⟨⟨slots, next⟩, -, h⟩ := Checked.bind_eq_ok h
  obtain rfl : (t.released record slots next).offer record now = u := Except.ok.inj h
  rw [journal_offer]
  exact startsIn_released t record slots next

theorem startsIn_finishTile {record : TileRecord} (h : t.finishTile now record = .ok u) :
    startsIn u.journal = startsIn t.journal := by
  unfold finishTile at h
  cases hd : t.pipeline.quads.deliver record with
  | mk quads finished =>
    rw [hd] at h
    cases finished with
    | none => cases h; rfl
    | some quad => exact (startsIn_finish h).trans rfl

theorem startsIn_loadTile {tile : TileId} (h : t.loadTile now tile = .ok u) :
    startsIn u.journal = startsIn t.journal := by
  unfold loadTile at h
  cases hl : t.pipeline.tiles.load tile with
  | mk tiles start =>
    rw [hl] at h
    cases start with
    | fetch requests => cases h; rfl
    | complete record => exact (startsIn_finishTile h).trans rfl
    | alreadyLoading =>
      cases h
      exact (startsIn_append _ _).trans (List.append_nil _)

/-- When each call tells of its own, all of them tell of theirs in order. -/
theorem startsIn_foldlM {α : Type} {f : Turn τ κ → α → Checked (Turn τ κ)} {g : α → List QuadId}
    (hf : ∀ {t u a}, f t a = .ok u → startsIn u.journal = startsIn t.journal ++ g a) (as : List α)
    (h : as.foldlM f t = .ok u) : startsIn u.journal = startsIn t.journal ++ as.flatMap g := by
  induction as generalizing t with
  | nil => cases h; exact (List.append_nil _).symm
  | cons a as ih =>
    rw [List.foldlM_cons] at h
    obtain ⟨v, hv, h⟩ := Checked.bind_eq_ok h
    rw [ih h, hf hv, List.append_assoc, List.flatMap_cons]

theorem startsIn_assemble {quad : QuadId} (h : t.assemble now quad = .ok u) :
    startsIn u.journal = startsIn t.journal ++ [quad] := by
  obtain ⟨⟨quads, start⟩, -, h⟩ := Checked.bind_eq_ok h
  rw [← startsIn_started t quad]
  cases start with
  | started tiles =>
    have htiles := startsIn_foldlM (fun hl => (startsIn_loadTile hl).trans (List.append_nil _).symm)
      tiles h
    rw [htiles]
    simp [started]
  | complete record => exact (startsIn_finish h).trans rfl
  | alreadyLoading =>
    cases h
    exact (startsIn_append _ _).trans (List.append_nil _)

end

/-! ### Rounds -/

variable [TokenArithmetic τ]

/-- **Any number of rounds,** each with the quads that it starts. -/
inductive Rounds (now : Instant) : Turn τ κ → List (List QuadId) → Turn τ κ → Prop
  | none {t} : Rounds now t [] t
  | more {t bucket quad rest u rounds v}
    (hp : t.pipeline.bucket.poll now = (bucket, quad :: rest))
    (hs : (quad :: rest).foldlM (assemble now) { t with pipeline.bucket := bucket } = .ok u)
    (h : Rounds now u rounds v) : Rounds now t ((quad :: rest) :: rounds) v

variable {now : Instant} {t u : Turn τ κ} {rounds : List (List QuadId)}

/-- Rounds are what a dispatch begins with. -/
theorem Rounds.dispatch (h : Rounds now t rounds u) : t.dispatch now = u.dispatch now := by
  induction h with
  | none => rfl
  | more hp hs h ih =>
    rw [← ih, Turn.dispatch]
    split
    · next hp' => rw [hp] at hp'; cases hp'
    · next hp' =>
      rw [hp] at hp'
      cases hp'
      split
      · next hs' => rw [hs] at hs'; cases hs'
      · next hs' => rw [hs] at hs'; cases hs'; rfl

/-- A dispatch goes through rounds until the bucket lets no quad go. -/
theorem exists_rounds {v : Turn τ κ} (h : t.dispatch now = .ok v) : ∃ rounds u bucket,
    Rounds now t rounds u ∧ u.pipeline.bucket.poll now = (bucket, []) ∧
      v = { u with pipeline.bucket := bucket } := by
  fun_induction Turn.dispatch now t with
  | case1 t bucket hp =>
    cases h
    exact ⟨[], t, bucket, .none, hp, rfl⟩
  | case2 => cases h
  | case3 t bucket quad rest hp u hs ih =>
    obtain ⟨rounds, w, bucket', hw, hend, hv⟩ := ih h
    exact ⟨_, w, bucket', .more hp hs hw, hend, hv⟩

theorem Rounds.steps (h : Rounds now t rounds u) : Steps now (t, []) (u, []) := by
  induction h with
  | none => exact .refl
  | more hp hs h ih =>
    have hround := comes_round hp
    rw [hs] at hround
    exact .trans hround ih

theorem Rounds.starts (h : Rounds now t rounds u) :
    startsIn u.journal = startsIn t.journal ++ rounds.flatten := by
  induction h with
  | none => exact (List.append_nil _).symm
  | @more t bucket quad rest u rounds v hp hs h ih =>
    have hround := startsIn_foldlM (g := fun q => [q]) startsIn_assemble (quad :: rest) hs
    rw [ih, hround, List.flatMap_singleton', List.append_assoc, List.flatten_cons]

theorem Rounds.length_le (h : Rounds now t rounds u) : rounds.length ≤ rounds.flatten.length := by
  induction h with
  | none => exact Nat.le_refl _
  | more hp hs h ih =>
    rw [List.flatten_cons, List.length_append, List.length_cons, List.length_cons]
    omega

/-- **What rounds start, followed by the line that they leave, is the line that they found.** -/
theorem Rounds.line (ha : t.pipeline.Agrees []) (h : Rounds now t rounds u) :
    rounds.flatten ++ (u.pipeline.bucket.pending ++ u.pipeline.slots.queue) =
      t.pipeline.bucket.pending ++ t.pipeline.slots.queue := by
  obtain ⟨news, hnews⟩ := advances_steps ha h.steps
  -- nobody asks for a slot in a round, so nobody is accepted
  have hnone : acceptsIn news = [] :=
    (List.append_eq_nil_iff.mp (List.sublist_nil.mp hnews.asked)).1
  have hcourse := hnews.course
  rw [hnone, List.append_nil] at hcourse
  simp only [course, h.starts, List.append_assoc] at hcourse
  exact List.append_cancel_left hcourse

end Turn

namespace Pipeline

variable {τ κ : Type} {p : Pipeline τ κ} {c : Call κ} {t : Turn τ κ}

/-- The quads that wait for a token and those that wait for a slot are different ones. -/
theorem Agrees.line_nodup (h : p.Agrees []) : (p.bucket.pending ++ p.slots.queue).Nodup := by
  have hall := h.consistent.nodup
  rw [← List.append_assoc] at hall
  exact List.nodup_append_comm.mp (List.nodup_append.mp hall).1

variable [TokenArithmetic τ]

/-! ### Where the rounds of a call begin -/

/-- **A call comes to its rounds,** at a turn. -/
inductive Dispatches (p : Pipeline τ κ) : Call κ → Turn τ κ → Prop
  | look {camera now needed holdings orders} (hn : p.culling camera = .ok needed)
    (hv : p.holdings.view needed now p.slots.contains = .ok (holdings, orders)) :
    Dispatches p (.updateCamera camera now)
      (orders.requests.foldl Turn.submit (p.looking camera holdings orders))
  | answer {tile layer outcome now tiles}
    (h : p.tiles.deliver tile layer outcome = (tiles, none)) :
    Dispatches p (.deliver tile layer outcome now) { p with tiles }.turn
  | answerLast {tile layer outcome now tiles record t}
    (h : p.tiles.deliver tile layer outcome = (tiles, some record))
    (hf : { p with tiles }.turn.finishTile now record = .ok t) :
    Dispatches p (.deliver tile layer outcome now) t
  | poll {now} : Dispatches p (.poll now) p.turn
  | resume {camera now needed holdings orders} (hoff : p.holdings.online = false)
    (hcam : p.camera = some camera) (hn : p.culling camera = .ok needed)
    (hv : { p.holdings with online := true }.view needed now p.slots.contains =
      .ok (holdings, orders)) :
    Dispatches p (.setOnline true now)
      (orders.requests.foldl Turn.submit (p.looking camera holdings orders))

theorem Dispatches.call_eq (h : p.Dispatches c t) : p.call c = t.dispatch c.now := by
  cases h with
  | look hn hv => exact updateCamera_eq hn hv
  | answer h =>
    show p.deliver _ _ _ _ = _
    unfold deliver
    rw [h]
    rfl
  | answerLast h hf =>
    show p.deliver _ _ _ _ = _
    unfold deliver
    rw [h]
    simp only [bind, Except.bind, hf]
    rfl
  | poll => rfl
  | resume hoff hcam hn hv =>
    rw [call, setOnline_of_offline hoff hcam]
    exact updateCamera_eq (p := { p with holdings.online := true }) hn hv

/-- A call comes to its rounds when nothing else is left to do. -/
theorem Dispatches.steps (h : p.Dispatches c t) :
    ∃ t₀ tasks, p.Opens c t₀ tasks ∧ Turn.Steps c.now (t₀, tasks) (t, []) := by
  cases h with
  | look hn hv => exact ⟨_, _, .look ⟨_, _, _, hn, hv, rfl, rfl⟩, Turn.steps_submit _ _⟩
  | answer h => exact ⟨_, _, .answer h, .refl⟩
  | @answerLast tile layer outcome now tiles record t h hf =>
    have hpass : Turn.Follows now { p with tiles }.turn [.pass record] _ :=
      Turn.follows_finishTile _ record
    rw [hf] at hpass
    exact ⟨_, _, .answer h, hpass []⟩
  | poll => exact ⟨_, _, .poll, .refl⟩
  | resume hoff hcam hn hv =>
    exact ⟨_, _, .resume hoff hcam ⟨_, _, _, hn, hv, rfl, rfl⟩, Turn.steps_submit _ _⟩

/-- An answered call comes to its rounds, unless it only notes whether the network is there. -/
theorem dispatches_of_call {t' : Turn τ κ} (hc : p.call c = .ok t') :
    (∃ t, p.Dispatches c t) ∨
      ∃ online now, c = .setOnline online now ∧ t' = { p with holdings.online := online }.turn := by
  obtain ⟨t₀, tasks, ho, -⟩ := steps_call hc
  cases ho with
  | look hl =>
    obtain ⟨_, _, _, hn, hv, -, -⟩ := hl
    exact .inl ⟨_, .look hn hv⟩
  | @answer tile layer outcome now tiles finished hd =>
    cases finished with
    | none => exact .inl ⟨_, .answer hd⟩
    | some record =>
      change p.deliver _ _ _ _ = _ at hc
      unfold deliver at hc
      rw [hd] at hc
      obtain ⟨u, hu, -⟩ := Checked.bind_eq_ok hc
      exact .inl ⟨u, .answerLast hd hu⟩
  | poll => exact .inl ⟨_, .poll⟩
  | @heed online now hheed =>
    rw [call, setOnline_of_heed hheed] at hc
    exact .inr ⟨online, now, rfl, (Except.ok.inj hc).symm⟩
  | resume hoff hcam hl =>
    obtain ⟨_, _, _, hn, hv, -, -⟩ := hl
    exact .inl ⟨_, .resume hoff hcam hn hv⟩

theorem Agrees.dispatches (ha : p.Agrees []) (h : p.Dispatches c t) : t.pipeline.Agrees [] := by
  obtain ⟨t₀, tasks, ho, hs⟩ := h.steps
  exact Turn.Steps.keeps (I := fun w => w.1.pipeline.Agrees w.2) agrees_step hs (agrees_open ha ho)

/-! ### Runs -/

variable {s : StreamSettings} {culling : Culling κ} {coverage : Coverage} {start : Pipeline τ κ}
  {past : List (Call κ × Turn τ κ)}

/-- **The rounds of a call come to an end, after every run and at any time.** Whatever rounds there are,
they are what the dispatch begins with. Each starts a quad, and together they start the first of the
quads that stood in the token bucket and then in the queue when they began, in that order and none
twice. So there are no more rounds than quads that stood there, and the dispatch is answered after the
last one. -/
theorem Run.rounds_end (hs : ofSettings s culling coverage = .ok start) (h : start.Run past p)
    (c : Call κ) :
    (∀ v, p.call c = .ok v → (∃ t, p.Dispatches c t) ∨
      ∃ online now, c = .setOnline online now ∧ v = { p with holdings.online := online }.turn) ∧
    ∀ t, p.Dispatches c t → p.call c = t.dispatch c.now ∧ ∀ now : Instant,
      (∃ rounds u bucket, Turn.Rounds now t rounds u ∧ u.pipeline.bucket.poll now = (bucket, []) ∧
        t.dispatch now = .ok { u with pipeline.bucket := bucket }) ∧
      ∀ rounds u, Turn.Rounds now t rounds u →
        t.dispatch now = u.dispatch now ∧
        startsIn u.journal = startsIn t.journal ++ rounds.flatten ∧
        rounds.flatten <+: t.pipeline.bucket.pending ++ t.pipeline.slots.queue ∧
        rounds.flatten.Nodup ∧
        rounds.length ≤ rounds.flatten.length ∧
        rounds.flatten.length ≤ t.pipeline.bucket.size + t.pipeline.slots.queued := by
  refine ⟨fun v => dispatches_of_call, fun t hd => ⟨hd.call_eq, fun now => ⟨?_, fun rounds u hr => ?_⟩⟩⟩
  all_goals have ha := (h.agrees hs).1.dispatches hd
  · obtain ⟨v, hv⟩ := ok_of_comes ha (Turn.comes_dispatch now t)
    obtain ⟨rounds, u, bucket, hr, hend, rfl⟩ := Turn.exists_rounds hv
    exact ⟨rounds, u, bucket, hr, hend, hv⟩
  · have hline : rounds.flatten <+: t.pipeline.bucket.pending ++ t.pipeline.slots.queue :=
      ⟨_, hr.line ha⟩
    refine ⟨hr.dispatch, hr.starts, hline, ha.line_nodup.sublist hline.sublist, hr.length_le, ?_⟩
    have hle := hline.length_le
    rwa [List.length_append] at hle

/-! ### Quads that are complete at once -/

/-- A pipeline with one slot, two tokens a second, and nothing to fetch. -/
def oneSlot : Pipeline Rat (List TileId) :=
  atRest { StreamSettings.standard with
    maxConcurrentQuads := 1, maxRequestsPerSecond := 2.0, enabledLayers := .empty } .ok (.ofDepth 4)

theorem ofSettings_oneSlot : ofSettings { StreamSettings.standard with
    maxConcurrentQuads := 1, maxRequestsPerSecond := 2.0, enabledLayers := .empty } .ok
    (.ofDepth 4) = .ok oneSlot := rfl

/-- Two quads have a token each. The third has the slot and no token, and the fourth waits for the
slot. -/
def fourLooks : List (Call (List TileId)) :=
  [.updateCamera [⟨2, 0, 0⟩] ⟨0⟩, .updateCamera [⟨2, 0, 2⟩] ⟨1⟩, .updateCamera [⟨2, 2, 0⟩] ⟨2⟩,
    .updateCamera [⟨2, 2, 0⟩, ⟨2, 2, 2⟩] ⟨3⟩]

/-- A second later the third quad lets the fourth in, which is started in the same call. -/
theorem Run.rounds_end_oneSlot : ∃ past p, oneSlot.Run past p ∧ past.map (·.1) = fourLooks ∧
    p.bucket.pending = [⟨1, 1, 0⟩] ∧ p.slots.queue = [⟨1, 1, 1⟩] ∧
    ∃ rounds u bucket, Turn.Rounds ⟨1000000000⟩ p.turn rounds u ∧
      u.pipeline.bucket.poll ⟨1000000000⟩ = (bucket, []) ∧
      rounds.flatten = [⟨1, 1, 0⟩, ⟨1, 1, 1⟩] ∧ rounds.length ≤ 2 := by
  have hreplay : (oneSlot.replay fourLooks).map (fun r => (r.2.bucket.pending, r.2.slots.queue,
      (r.2.turn.dispatch ⟨1000000000⟩).map fun v => startsIn v.journal)) =
      .ok ([⟨1, 1, 0⟩], [⟨1, 1, 1⟩], .ok [⟨1, 1, 0⟩, ⟨1, 1, 1⟩]) := by decide +kernel
  obtain ⟨past, p, hrun, hcalls, hout⟩ := exists_run_of_replay hreplay
  simp only [Prod.mk.injEq] at hout
  obtain ⟨hpending, hqueue, hstarts⟩ := hout
  obtain ⟨-, hrounds⟩ := Run.rounds_end ofSettings_oneSlot hrun (.poll ⟨1000000000⟩)
  obtain ⟨-, hrounds⟩ := hrounds p.turn .poll
  obtain ⟨⟨rounds, u, bucket, hr, hend, hlast⟩, hall⟩ := hrounds ⟨1000000000⟩
  obtain ⟨-, hstarted, -, -, hle, -⟩ := hall rounds u hr
  have hflat : rounds.flatten = [⟨1, 1, 0⟩, ⟨1, 1, 1⟩] := by
    rw [hlast] at hstarts
    exact hstarted.symm.trans (Except.ok.inj hstarts)
  rw [hflat] at hle
  exact ⟨past, p, hrun, hcalls, hpending, hqueue, rounds, u, bucket, hr, hend, hflat, hle⟩

end Pipeline

end TileStream
