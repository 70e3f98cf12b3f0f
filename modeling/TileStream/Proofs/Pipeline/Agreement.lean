import TileStream.Proofs.Admission.Slots
import TileStream.Proofs.Holdings.Changes
import TileStream.Proofs.Join.Quads
import TileStream.Proofs.Join.Tiles
import TileStream.Proofs.Pipeline.Runs

/-! # The stages agree

Slots, token bucket and joins each keep their own account of the quads and tiles under way, and no
call updates all of them at once. `Pipeline.Agrees` says how the accounts fit together in the middle
of a call, with some tasks left: a quad that left the token bucket is rate limited until its task is
done, a finished quad holds its slot until its task is done, and a tile that is ordered or came
complete is awaited by its quad though nothing is fetched for it. Without tasks the accounts are the
same (`Pipeline.Agrees.consistent`).

* `agrees_step`: every step keeps the agreement.
* `agrees_open`: every call begins in agreement if the pipeline was.
* `quiet_step`: in agreement, no quad or tile is ordered that is being loaded already. -/

namespace TileStream

namespace Task

/-- The quad that a task starts. -/
def starts? : Task → Option QuadId
  | start quad => some quad
  | _ => none

/-- The quad whose slot a task gives back. -/
def finishes? : Task → Option QuadId
  | finish record => some record.id
  | _ => none

/-- The tile that a task orders or passes on. -/
def handles? : Task → Option TileId
  | call tile => some tile
  | pass record => some record.id
  | _ => none

/-! ### The tasks of a list -/

variable {quads : List QuadId} {tiles : List TileId} {tasks : List Task}

/-- Tasks of a kind that has no part in a list. -/
theorem filterMap_none {α β : Type} {f : Task → Option β} {g : α → Task} (h : ∀ a, f (g a) = none)
    (as : List α) : (as.map g).filterMap f = [] := by
  rw [List.filterMap_map]
  exact List.filterMap_eq_nil_iff.mpr fun a _ => h a

theorem starts_start : (quads.map start).filterMap starts? = quads := by
  rw [List.filterMap_map]; exact List.filterMap_some

theorem starts_call : (tiles.map call ++ tasks).filterMap starts? = tasks.filterMap starts? := by
  rw [List.filterMap_append, filterMap_none fun _ => rfl, List.nil_append]

theorem finishes_call :
    (tiles.map call ++ tasks).filterMap finishes? = tasks.filterMap finishes? := by
  rw [List.filterMap_append, filterMap_none fun _ => rfl, List.nil_append]

theorem handles_call :
    (tiles.map call ++ tasks).filterMap handles? = tiles ++ tasks.filterMap handles? := by
  rw [List.filterMap_append, List.filterMap_map]
  exact congrArg (· ++ _) List.filterMap_some

end Task

/-- The quad or tile was ordered while it was being loaded already. -/
def Notice.isRepeat : Notice → Bool
  | startedAgain _ | calledAgain _ => true
  | _ => false

namespace Turn

variable {τ κ : Type} {t : Turn τ κ}

/-- Nothing was ordered while it was being loaded already. -/
def Quiet (t : Turn τ κ) : Prop := ∀ n ∈ t.journal, n.isRepeat = false

theorem Quiet.note {n : Notice} (h : t.Quiet) (hn : n.isRepeat = false) : (t.note n).Quiet := by
  intro m hm
  rcases List.mem_append.mp hm with hm | hm
  · exact h m hm
  · rw [List.mem_singleton.mp hm]
    exact hn

theorem Quiet.submit (h : t.Quiet) (quad : QuadId) : (t.submit quad).Quiet := by
  unfold Quiet
  rw [journal_submit]
  split
  · exact h
  · exact Quiet.note h rfl

theorem Quiet.started (h : t.Quiet) (quad : QuadId) : (t.started quad).Quiet :=
  Quiet.note (t := { t with pipeline.slots := _ }) h rfl

theorem Quiet.released (h : t.Quiet) (record : QuadRecord) (slots : Slots) (next : Option QuadId) :
    (t.released record slots next).Quiet := by
  unfold Quiet
  rw [journal_released]
  exact Quiet.note h rfl

end Turn

namespace Pipeline

variable {τ κ : Type} {p : Pipeline τ κ} {tasks : List Task}

/-- **The accounts of the stages agree,** but for the tasks that are left. -/
structure Agrees (p : Pipeline τ κ) (tasks : List Task) : Prop where
  slots : p.slots.Sound
  quads : p.quads.Sound
  keyed : p.tiles.Keyed
  known : ∀ q, p.slots.contains q = true → q.IsQuad
  submitted : ∀ q, .submit q ∈ tasks → q.IsQuad
  /-- The quads that left the token bucket, and those in it. -/
  line : p.slots.Lines (tasks.filterMap Task.starts? ++ p.bucket.pending)
  /-- The finished quads that still hold their slot. -/
  finishing_nodup : (tasks.filterMap Task.finishes?).Nodup
  finishing : ∀ q ∈ tasks.filterMap Task.finishes?, p.quads.isLoading q = false
  assembling : ∀ q, p.slots.stage? q = some .assembling ↔
    p.quads.isLoading q = true ∨ q ∈ tasks.filterMap Task.finishes?
  /-- The awaited tiles that are not being loaded. -/
  handled_nodup : (tasks.filterMap Task.handles?).Nodup
  handled : ∀ t ∈ tasks.filterMap Task.handles?, p.quads.Awaits t
  loading : ∀ t, p.tiles.isLoading t = true ↔
    p.quads.Awaits t ∧ t ∉ tasks.filterMap Task.handles?

namespace Agrees

/-- A task that starts, finishes and handles nothing is done. -/
theorem tail {task : Task} (h : p.Agrees (task :: tasks)) (hs : task.starts? = none)
    (hf : task.finishes? = none) (ht : task.handles? = none) : p.Agrees tasks := by
  obtain ⟨h1, h2, h3, h4, h5, h6, h7, h8, h9, h10, h11, h12⟩ := h
  simp only [List.filterMap_cons, hs, hf, ht] at *
  exact ⟨h1, h2, h3, h4, fun q hq => h5 q (List.mem_cons_of_mem _ hq), h6, h7, h8, h9, h10, h11,
    h12⟩

end Agrees

/-! ### Letting a quad in -/

/-- A known quad that asks again is ignored; another one is let in or queued. -/
theorem Agrees.request (h : p.Agrees tasks) {quad : QuadId} (hq : quad.IsQuad)
    {bucket : TokenBucket τ}
    (hb : bucket.pending = p.bucket.pending ++ (p.slots.request quad).2.toList) :
    Agrees { p with slots := (p.slots.request quad).1, bucket } tasks := by
  have ha := Slots.admits_request p.slots quad
  refine { h with
    slots := Slots.sound_request h.slots quad
    known := fun q hc => ?_
    line := ?_
    assembling := fun q => (ha.assembling q).trans (h.assembling q) }
  · rw [Slots.contains_request, Bool.or_eq_true, decide_eq_true_eq] at hc
    rcases hc with rfl | hc
    · exact hq
    · exact h.known q hc
  · show Slots.Lines _ (_ ++ bucket.pending)
    rw [hb, ← List.append_assoc]
    exact h.line.join ha

theorem Agrees.submit {t : Turn τ κ} {quad : QuadId}
    (h : t.pipeline.Agrees (.submit quad :: tasks)) : (t.submit quad).pipeline.Agrees tasks := by
  have hq := h.submitted quad List.mem_cons_self
  rw [Turn.pipeline_submit]
  exact (h.tail rfl rfl rfl).request hq rfl

/-- A finished quad leaves the slots, and the next one of the queue is let in. -/
theorem Agrees.release {record : QuadRecord} (h : p.Agrees (.finish record :: tasks))
    {slots : Slots} {next : Option QuadId} (hr : p.slots.release record.id = .ok (slots, next))
    {bucket : TokenBucket τ} (hb : bucket.pending = p.bucket.pending ++ next.toList) :
    Agrees { p with slots, bucket } tasks := by
  have hdup : (record.id :: tasks.filterMap Task.finishes?).Nodup := h.finishing_nodup
  have hmine : record.id ∈ record.id :: tasks.filterMap Task.finishes? := List.mem_cons_self
  have hstage := (h.assembling record.id).mpr (.inr hmine)
  have hidle : p.quads.isLoading record.id = false := h.finishing _ hmine
  obtain ⟨heq, hvacant⟩ := Slots.release_eq h.slots (Slots.holds_iff.mpr (.inr hstage))
  rw [heq, Except.ok.injEq] at hr
  have ha := Slots.admits_admitNext hvacant
  have hs := Slots.sound_admitNext hvacant
  have hc := Slots.contains_admitNext hvacant
  rw [hr] at ha hs hc
  -- the slots pass through a state in which the quad is gone and the next is not let in yet
  refine { h with
    slots := hs
    known := fun q hq => ?_
    submitted := fun q hq => h.submitted q (List.mem_cons_of_mem _ hq)
    line := ?_
    finishing_nodup := (List.nodup_cons.mp hdup).2
    finishing := fun q hq => h.finishing q (List.mem_cons_of_mem _ hq)
    assembling := fun q => ?_ }
  · rw [hc] at hq
    obtain ⟨stage, hst⟩ := Slots.contains_iff.mp hq
    exact h.known q (Slots.contains_of_stage? (Slots.stage?_vacate_iff.mp hst).2)
  · show Slots.Lines _ (_ ++ bucket.pending)
    rw [hb, ← List.append_assoc]
    exact (h.line.vacate (by rw [hstage]; simp)).join ha
  · show slots.stage? q = _ ↔ p.quads.isLoading q = true ∨ q ∈ tasks.filterMap Task.finishes?
    have hq : p.slots.stage? q = _ ↔ _ ∨ q ∈ record.id :: _ := h.assembling q
    rw [ha.assembling, Slots.stage?_vacate_iff, hq, List.mem_cons]
    by_cases he : q = record.id
    · subst he
      simp [hidle, (List.nodup_cons.mp hdup).1]
    · simp [he]

theorem Agrees.finish {t : Turn τ κ} {record : QuadRecord} {slots : Slots} {next : Option QuadId}
    (h : t.pipeline.Agrees (.finish record :: tasks))
    (hr : t.pipeline.slots.release record.id = .ok (slots, next)) :
    (t.released record slots next).pipeline.Agrees (.offer record :: tasks) := by
  rw [Turn.pipeline_released]
  have hrest : Agrees { t.pipeline with
      slots, bucket.pending := t.pipeline.bucket.pending ++ next.toList } tasks := h.release hr rfl
  exact { hrest with submitted := fun q hq => hrest.submitted q (by simpa using hq) }

/-! ### Starting a quad -/

/-- **A quad that left the token bucket is not being loaded yet,** so it is opened, or it has no
tiles and is finished at once. -/
theorem Agrees.load {quad : QuadId} (h : p.Agrees (.start quad :: tasks)) :
    quad.IsQuad ∧ p.quads.isLoading quad = false ∧ quad ∉ tasks.filterMap Task.finishes? := by
  have hline : p.slots.Lines (quad :: (tasks.filterMap Task.starts? ++ p.bucket.pending)) := h.line
  have hstage := (hline.mem quad).mp List.mem_cons_self
  have hnot : p.slots.stage? quad ≠ some .assembling := by rw [hstage]; simp
  rw [Ne, h.assembling, not_or, Bool.not_eq_true] at hnot
  exact ⟨h.known quad (Slots.contains_of_stage? hstage), hnot⟩

theorem Agrees.start {quad : QuadId} {quads : QuadJoins} {tiles : List TileId}
    (h : p.Agrees (.start quad :: tasks)) (hl : p.quads.load quad = .ok (quads, .started tiles)) :
    Agrees { p with slots := p.slots.mark quad .assembling, quads }
      (tiles.map .call ++ tasks) := by
  obtain ⟨hquad, hidle, hout⟩ := h.load
  obtain ⟨tiles', hc, hload⟩ := QuadJoins.load_eq hquad hidle
  rw [hl] at hload
  split at hload
  · cases hload
  · next hne =>
    cases hload
    obtain ⟨hline, hstage⟩ := Slots.Lines.mark h.line
    have hload : ∀ q, (p.quads.opened quad tiles.length).isLoading q =
        (decide (q = quad) || p.quads.isLoading q) := QuadJoins.isLoading_opened _
    have hawaits := QuadJoins.awaits_opened h.quads hquad hidle hc
    have hfinishing : ∀ q ∈ tasks.filterMap Task.finishes?, _ := h.finishing
    have hhandled : ∀ t ∈ tasks.filterMap Task.handles?, _ := h.handled
    have hloading : ∀ t, _ ↔ _ ∧ t ∉ tasks.filterMap Task.handles? := h.loading
    refine {
      slots := Slots.sound_mark h.slots quad _
      quads := QuadJoins.sound_opened h.quads hquad hc hne
      keyed := h.keyed
      known := fun q hq => h.known q (by rwa [Slots.contains_mark] at hq)
      submitted := fun q hq => h.submitted q (by simpa using hq)
      line := by rw [Task.starts_call]; exact hline
      finishing_nodup := by rw [Task.finishes_call]; exact h.finishing_nodup
      finishing := fun q hq => ?_
      assembling := fun q => ?_
      handled_nodup := ?_
      handled := fun t ht => ?_
      loading := fun t => ?_ }
    · rw [Task.finishes_call] at hq
      have hne : q ≠ quad := fun he => hout (he ▸ hq)
      rw [hload, hfinishing q hq]
      simp [hne]
    · rw [Task.finishes_call, hstage, h.assembling, hload, Bool.or_eq_true, decide_eq_true_eq,
        or_assoc]
      rfl
    · rw [Task.handles_call]
      refine List.nodup_append.mpr ⟨Coverage.nodup_children hquad hc, h.handled_nodup, ?_⟩
      rintro t ht t' ht' rfl
      exact (hawaits t).2 ht (hhandled t ht')
    · rw [Task.handles_call, List.mem_append] at ht
      exact (hawaits t).1.mpr (ht.symm.imp_left (hhandled t))
    · -- the new tiles are awaited and handled, so none of them is loading
      have hnew := (hawaits t).2
      rw [hloading, (hawaits t).1, Task.handles_call, List.mem_append]
      tauto

theorem Agrees.startEmpty {quad : QuadId} {quads : QuadJoins} {record : QuadRecord}
    (h : p.Agrees (.start quad :: tasks)) (hl : p.quads.load quad = .ok (quads, .complete record)) :
    Agrees { p with slots := p.slots.mark quad .assembling, quads } (.finish record :: tasks) := by
  obtain ⟨hquad, hidle, hout⟩ := h.load
  obtain ⟨tiles, hc, hload⟩ := QuadJoins.load_eq hquad hidle
  rw [hl] at hload
  split at hload
  · cases hload
    obtain ⟨hline, hstage⟩ := Slots.Lines.mark h.line
    refine { h with
      slots := Slots.sound_mark h.slots quad _
      known := fun q hq => h.known q (by rwa [Slots.contains_mark] at hq)
      submitted := fun q hq => h.submitted q (by simpa using hq)
      line := hline
      finishing_nodup := List.nodup_cons.mpr ⟨hout, h.finishing_nodup⟩
      finishing := fun q hq => ?_
      assembling := fun q => ?_ }
    · rcases List.mem_cons.mp hq with rfl | hq
      · exact hidle
      · exact h.finishing q hq
    · have hq : p.slots.stage? q = _ ↔ _ ∨ q ∈ tasks.filterMap Task.finishes? := h.assembling q
      show (p.slots.mark quad .assembling).stage? q = _ ↔ _ ∨ q ∈ quad :: _
      rw [hstage, hq, List.mem_cons]
      tauto
  · cases hload

theorem Agrees.not_startAgain {quad : QuadId} {quads : QuadJoins}
    (h : p.Agrees (.start quad :: tasks)) :
    p.quads.load quad ≠ .ok (quads, .alreadyLoading) := by
  obtain ⟨hquad, hidle, -⟩ := h.load
  obtain ⟨tiles, -, hload⟩ := QuadJoins.load_eq hquad hidle
  rw [hload]
  split <;> simp

/-! ### Ordering a tile -/

/-- An ordered tile is awaited and not being loaded yet. -/
theorem Agrees.idle {tile : TileId} (h : p.Agrees (.call tile :: tasks)) :
    p.quads.Awaits tile ∧ p.tiles.isLoading tile = false ∧
      tile ∉ tasks.filterMap Task.handles? := by
  have hdup : (tile :: tasks.filterMap Task.handles?).Nodup := h.handled_nodup
  have hmine : tile ∈ tile :: tasks.filterMap Task.handles? := List.mem_cons_self
  refine ⟨h.handled tile hmine, ?_, (List.nodup_cons.mp hdup).1⟩
  rw [← Bool.not_eq_true, h.loading]
  exact fun hl => hl.2 hmine

theorem Agrees.call {tile : TileId} {tiles : TileJoins} {requests : List Fetch}
    (h : p.Agrees (.call tile :: tasks)) (hl : p.tiles.load tile = (tiles, .fetch requests)) :
    Agrees { p with tiles } tasks := by
  obtain ⟨hawaits, hidle, hout⟩ := h.idle
  rcases p.tiles.load_cases tile with ⟨-, heq⟩ | ⟨-, heq⟩ | ⟨-, heq⟩ <;> rw [hl] at heq <;> cases heq
  refine { h with
    keyed := TileJoins.keyed_opened h.keyed
    submitted := fun q hq => h.submitted q (List.mem_cons_of_mem _ hq)
    handled_nodup := (List.nodup_cons.mp h.handled_nodup).2
    handled := fun t ht => h.handled t (List.mem_cons_of_mem _ ht)
    loading := fun t => ?_ }
  show (p.tiles.opened tile).isLoading t = true ↔ _
  have ht : p.tiles.isLoading t = true ↔ _ ∧ t ∉ tile :: _ := h.loading t
  rw [TileJoins.isLoading_opened, Bool.or_eq_true, decide_eq_true_eq, ht, List.mem_cons]
  by_cases he : t = tile
  · subst he; simp [hawaits, hout]
  · simp [he]

theorem Agrees.callEmpty {tile : TileId} {tiles : TileJoins} {record : TileRecord}
    (h : p.Agrees (.call tile :: tasks)) (hl : p.tiles.load tile = (tiles, .complete record)) :
    Agrees { p with tiles } (.pass record :: tasks) := by
  rcases p.tiles.load_cases tile with ⟨-, heq⟩ | ⟨-, heq⟩ | ⟨-, heq⟩ <;> rw [hl] at heq <;> cases heq
  exact { h with submitted := fun q hq => h.submitted q (by simpa using hq) }

theorem Agrees.not_callAgain {tile : TileId} {tiles : TileJoins}
    (h : p.Agrees (.call tile :: tasks)) : p.tiles.load tile ≠ (tiles, .alreadyLoading) := by
  rcases p.tiles.load_cases tile with ⟨hload, -⟩ | ⟨-, heq⟩ | ⟨-, heq⟩
  · rw [h.idle.2.1] at hload
    cases hload
  · rw [heq]; simp
  · rw [heq]; simp

/-! ### Passing a tile on -/

/-- A tile that was passed on is neither handled nor awaited any more. -/
theorem Agrees.passed {record : TileRecord} {quads : QuadJoins}
    (h : p.Agrees (.pass record :: tasks))
    (hawaits : ∀ t, quads.Awaits t ↔ p.quads.Awaits t ∧ t ≠ record.id) :
    (tasks.filterMap Task.handles?).Nodup ∧
      (∀ t ∈ tasks.filterMap Task.handles?, quads.Awaits t) ∧
      ∀ t, p.tiles.isLoading t = true ↔ quads.Awaits t ∧ t ∉ tasks.filterMap Task.handles? := by
  obtain ⟨hout, hdup⟩ : record.id ∉ tasks.filterMap Task.handles? ∧ _ :=
    List.nodup_cons.mp h.handled_nodup
  refine ⟨hdup, fun t ht => ?_, fun t => ?_⟩
  · refine (hawaits t).mpr ⟨h.handled t (List.mem_cons_of_mem _ ht), ?_⟩
    rintro rfl
    exact hout ht
  · have ht : _ ↔ _ ∧ t ∉ record.id :: _ := h.loading t
    rw [hawaits, ht, List.mem_cons, not_or, and_assoc]

theorem Agrees.pass {record : TileRecord} {quads : QuadJoins}
    (h : p.Agrees (.pass record :: tasks)) (hd : p.quads.deliver record = (quads, none)) :
    Agrees { p with quads } tasks := by
  obtain ⟨_, _, finished, -, -, heq, -, hsound, hawaits, hfin⟩ :=
    QuadJoins.deliver_of_awaits h.quads (h.handled record.id List.mem_cons_self)
  rw [hd] at heq
  cases heq
  obtain ⟨hdup, hhandled, hloading⟩ := h.passed hawaits
  rcases hfin with ⟨-, hload⟩ | ⟨r, hr, -⟩
  · exact { h with
      quads := hsound
      submitted := fun q hq => h.submitted q (List.mem_cons_of_mem _ hq)
      finishing := fun q hq => (hload q).trans (h.finishing q hq)
      assembling := fun q => by rw [hload]; exact h.assembling q
      handled_nodup := hdup
      handled := hhandled
      loading := hloading }
  · cases hr

/-- The last tile of a quad finishes it, and the quad is not being loaded any more. -/
theorem Agrees.passLast {record : TileRecord} {quads : QuadJoins} {finished : QuadRecord}
    (h : p.Agrees (.pass record :: tasks))
    (hd : p.quads.deliver record = (quads, some finished)) :
    Agrees { p with quads } (.finish finished :: tasks) := by
  obtain ⟨_, _, fin, -, hload, heq, -, hsound, hawaits, hfin⟩ :=
    QuadJoins.deliver_of_awaits h.quads (h.handled record.id List.mem_cons_self)
  rw [hd] at heq
  cases heq
  obtain ⟨hdup, hhandled, hloading⟩ := h.passed hawaits
  rcases hfin with ⟨hnone, -⟩ | ⟨r, hr, rfl, hgone⟩
  · cases hnone
  · cases hr
    have hfinishing : ∀ q ∈ tasks.filterMap Task.finishes?, _ := h.finishing
    have hfresh : finished.id ∉ tasks.filterMap Task.finishes? := fun hq => by
      rw [hfinishing _ hq] at hload
      cases hload
    refine { h with
      quads := hsound
      submitted := fun q hq => h.submitted q (by simpa using hq)
      finishing_nodup := List.nodup_cons.mpr ⟨hfresh, h.finishing_nodup⟩
      finishing := fun q hq => ?_
      assembling := fun q => ?_
      handled_nodup := hdup
      handled := hhandled
      loading := hloading }
    · rw [hgone]
      rcases List.mem_cons.mp hq with rfl | hq
      · simp
      · rw [hfinishing q hq, Bool.and_false]
    · have hq : _ ↔ _ ∨ q ∈ tasks.filterMap Task.finishes? := h.assembling q
      show _ ↔ _ ∨ q ∈ finished.id :: _
      rw [hq, hgone, List.mem_cons]
      by_cases he : q = finished.id
      · subst he; simp [hload]
      · simp [he]

/-! ### Steps and openings -/

/-- The quads that a look asks for are quads. -/
theorem Looks.agrees {camera : κ} {now : Instant} {t : Turn τ κ} (h : p.Agrees [])
    (hl : p.Looks camera now t tasks) : t.pipeline.Agrees tasks := by
  obtain ⟨needed, holdings, orders, -, hv, rfl, rfl⟩ := hl
  obtain ⟨-, ⟨residents, hh⟩, hreq⟩ := Holdings.view_eq_ok hv
  have ha := Slots.admits_retainQueued h.slots holdings.isDesired
  have hs : (orders.requests.map Task.submit).filterMap Task.starts? = [] :=
    Task.filterMap_none (fun _ => rfl) _
  have hf : (orders.requests.map Task.submit).filterMap Task.finishes? = [] :=
    Task.filterMap_none (fun _ => rfl) _
  have ht : (orders.requests.map Task.submit).filterMap Task.handles? = [] :=
    Task.filterMap_none (fun _ => rfl) _
  have hline := h.line.join ha
  rw [Option.toList_none, List.append_nil] at hline
  refine { h with
    slots := Slots.sound_retainQueued h.slots _
    known := fun q hq => ?_
    submitted := fun q hq => ?_
    line := hs ▸ hline
    finishing_nodup := hf ▸ h.finishing_nodup
    finishing := hf ▸ h.finishing
    assembling := fun q => ?_
    handled_nodup := ht ▸ h.handled_nodup
    handled := ht ▸ h.handled
    loading := ht ▸ h.loading }
  · exact h.known q (Slots.contains_of_retainQueued h.slots hq)
  · obtain ⟨q', hq', heq⟩ := List.mem_map.mp hq
    cases heq
    rw [hreq, Holdings.mem_requests, hh] at hq'
    obtain ⟨t, -, hp⟩ := Holdings.mem_parents.mp hq'.2.1
    exact TileId.isQuad_of_parent? hp
  · rw [hf]
    exact (ha.assembling q).trans (h.assembling q)

/-- A tile that an outcome completes is passed on to the quad that awaits it. -/
theorem Agrees.answer {tile : TileId} {layer : Layer} {outcome : Outcome} {tiles : TileJoins}
    {finished : Option TileRecord} (h : p.Agrees [])
    (hd : p.tiles.deliver tile layer outcome = (tiles, finished)) :
    Agrees { p with tiles } (finished.toList.map .pass) := by
  have hkeyed : (p.tiles.deliver tile layer outcome).1.Keyed := TileJoins.keyed_deliver h.keyed
  rw [hd] at hkeyed
  have hloading : ∀ t, p.tiles.isLoading t = true ↔ p.quads.Awaits t := fun t => by
    rw [h.loading]; simp
  rcases TileJoins.isLoading_deliver h.keyed hd with ⟨rfl, hsame⟩ | ⟨record, rfl, rfl, hl, hgone⟩
  · exact { h with keyed := hkeyed, loading := fun t => by rw [hsame]; exact h.loading t }
  · -- the finished tile stays awaited by its quad until its task is done
    refine { h with
      keyed := hkeyed
      submitted := fun q hq => by simp at hq
      handled_nodup := List.nodup_singleton record.id
      handled := fun t ht => ?_
      loading := fun t => ?_ }
    · rw [List.mem_singleton.mp ht]
      exact (hloading _).mp hl
    · show _ ↔ _ ∧ t ∉ [record.id]
      rw [hgone, Bool.and_eq_true, decide_eq_true_eq, hloading, List.mem_singleton, and_comm]

/-- **Every call begins in agreement.** -/
theorem agrees_open {c : Call κ} {t : Turn τ κ} (h : p.Agrees []) (ho : p.Opens c t tasks) :
    t.pipeline.Agrees tasks := by
  cases ho with
  | look hl => exact hl.agrees h
  | answer hd => exact h.answer hd
  | poll => exact h
  | heed => exact { h with }
  | resume _ _ hl =>
    have honline : Agrees { p with holdings.online := true } [] := { h with }
    exact hl.agrees honline

variable [TokenArithmetic τ]

theorem Agrees.poll {now : Instant} {bucket : TokenBucket τ} {quads : List QuadId}
    (h : p.Agrees []) (hp : p.bucket.poll now = (bucket, quads)) :
    Agrees { p with bucket } (quads.map .start) := by
  have hline := TokenBucket.pending_poll p.bucket now
  rw [hp] at hline
  have hf : (quads.map Task.start).filterMap Task.finishes? = [] := Task.filterMap_none (fun _ => rfl) _
  have ht : (quads.map Task.start).filterMap Task.handles? = [] := Task.filterMap_none (fun _ => rfl) _
  refine { h with
    submitted := fun q hq => by simp at hq
    line := ?_
    finishing_nodup := hf ▸ h.finishing_nodup
    finishing := hf ▸ h.finishing
    assembling := hf ▸ h.assembling
    handled_nodup := ht ▸ h.handled_nodup
    handled := ht ▸ h.handled
    loading := ht ▸ h.loading }
  rw [Task.starts_start, show quads ++ bucket.pending = _ from hline]
  exact h.line

/-- **Every step keeps the agreement.** -/
theorem agrees_step {now : Instant} {w w' : Turn τ κ × List Task}
    (h : w.1.pipeline.Agrees w.2) (hs : Turn.Step now w w') : w'.1.pipeline.Agrees w'.2 := by
  cases hs with
  | poll hp => exact h.poll hp
  | submit => exact h.submit
  | start hl => exact h.start hl
  | startEmpty hl => exact h.startEmpty hl
  | startAgain hl => exact absurd hl h.not_startAgain
  | call hl => exact h.call hl
  | callEmpty hl => exact h.callEmpty hl
  | callAgain hl => exact absurd hl h.not_callAgain
  | pass hd => exact h.pass hd
  | passLast hd => exact h.passLast hd
  | finish hr => exact h.finish hr
  | offer hr => exact { h.tail rfl rfl rfl with }
  | refuse hr => exact { h.tail rfl rfl rfl with }

/-- **No quad and no tile is ordered that is being loaded already.** -/
theorem quiet_step {now : Instant} {w w' : Turn τ κ × List Task} (h : w.1.pipeline.Agrees w.2)
    (hs : Turn.Step now w w') (hj : w.1.Quiet) : w'.1.Quiet := by
  cases hs with
  | poll | offer | refuse | pass | passLast | call | callEmpty => exact hj
  | submit => exact hj.submit _
  | start | startEmpty => exact hj.started _
  | startAgain hl => exact absurd hl h.not_startAgain
  | callAgain hl => exact absurd hl h.not_callAgain
  | finish => exact hj.released _ _ _

theorem agrees_ofSettings {s : StreamSettings} {culling : Culling κ} {coverage : Coverage}
    (h : ofSettings s culling coverage = .ok p) : p.Agrees [] := by
  obtain ⟨-, rfl⟩ := eq_of_ofSettings h
  exact
    { slots := Slots.sound_ofLimit _
      quads := QuadJoins.sound_ofCoverage _
      keyed := TileJoins.keyed_ofLayers _
      known := fun q hq => by cases hq
      submitted := fun q hq => by cases hq
      line := ⟨List.nodup_nil, fun q => by simp [atRest, Slots.ofLimit, Slots.stage?, TokenBucket.ofRate]⟩
      finishing_nodup := List.nodup_nil
      finishing := fun q hq => by cases hq
      assembling := fun q => by
        simp [atRest, Slots.ofLimit, Slots.stage?, QuadJoins.ofCoverage, QuadJoins.isLoading]
      handled_nodup := List.nodup_nil
      handled := fun t ht => by cases ht
      loading := fun t => by
        simp [atRest, TileJoins.ofLayers, TileJoins.isLoading, QuadJoins.not_awaits_ofCoverage] }

end Pipeline

end TileStream
