import TileStream.Proofs.Admission.Line
import TileStream.Proofs.Pipeline.Demand

/-! # First come, first served

A quad that is newly accepted goes through the queue of the slots and the line of the token bucket
before it is started. A quad enters the bucket by two doors, at once while a slot is free and when a
finished quad lets the next one in, so that the order is kept is not plain from either door. It is
kept since nobody is let in at once while others wait (`Slots.queue_request`).

The journals tell what was accepted, dropped and started. `standsIn` reads off them which entries of
the line were not taken out of it, and `Pipeline.Run.first_come_first_served` says that these are the
started quads, the quads in the bucket and the quads in the queue, in that order. Nothing is assumed
of the arithmetic of the tokens.

* `advances_step`: a step moves a quad on in the course, or adds a newly accepted one at its end.
* `course_call`: the same for a call, which may drop quads from the queue first. -/

namespace TileStream

/-! ### What a journal tells of the line -/

namespace Notice

/-- The quad that was started. -/
def started? : Notice → Option QuadId
  | started quad => some quad
  | _ => none

/-- The quad that was newly accepted. -/
def accepted? : Notice → Option QuadId
  | accepted quad => some quad
  | _ => none

/-- The quad that was dropped from the queue. -/
def dropped? : Notice → Option QuadId
  | dropped quad => some quad
  | _ => none

end Notice

/-- The quads that were started, in order. -/
def startsIn (journal : List Notice) : List QuadId := journal.filterMap Notice.started?

/-- The quads that were newly accepted, in order. -/
def acceptsIn (journal : List Notice) : List QuadId := journal.filterMap Notice.accepted?

/-- The quads that were dropped from the queue, in order. -/
def dropsIn (journal : List Notice) : List QuadId := journal.filterMap Notice.dropped?

/-- The accepted quads, without the dropped entries. -/
def standing (line : List QuadId) : Notice → List QuadId
  | .accepted quad => line ++ [quad]
  | .dropped quad => withoutLast line quad
  | _ => line

/-- The accepted quads of a journal in the order of acceptance, with exactly the dropped entries taken
out. -/
def standsIn (journal : List Notice) : List QuadId := journal.foldl standing []

/-- The journals of the calls, one after the other. -/
def journalOf {τ κ : Type} (past : List (Call κ × Turn τ κ)) : List Notice :=
  past.flatMap fun e => e.2.journal

/-- The quad that a task asks a slot for. -/
def Task.submits? : Task → Option QuadId
  | submit quad => some quad
  | _ => none

section

variable {line queue : List QuadId} {quad : QuadId} {journal news : List Notice}

theorem foldl_standing (hkept : dropsIn news = []) :
    news.foldl standing line = line ++ acceptsIn news := by
  induction news generalizing line with
  | nil => simp [acceptsIn]
  | cons n news ih =>
    cases n with
    | dropped quad => simp [dropsIn, Notice.dropped?] at hkept
    | accepted quad =>
      have h : news.foldl standing (line ++ [quad]) = line ++ [quad] ++ acceptsIn news := ih hkept
      simpa [acceptsIn, Notice.accepted?, standing] using h
    | started | startedAgain | calledAgain | finished => exact ih hkept

theorem standsIn_append (journal news : List Notice) :
    standsIn (journal ++ news) = news.foldl standing (standsIn journal) :=
  List.foldl_append

theorem startsIn_journalOf {τ κ : Type} (past : List (Call κ × Turn τ κ)) :
    startsIn (journalOf past) = past.flatMap fun e => startsIn e.2.journal :=
  List.filterMap_flatMap ..

theorem startsIn_append (journal news : List Notice) :
    startsIn (journal ++ news) = startsIn journal ++ startsIn news :=
  List.filterMap_append

theorem acceptsIn_append (journal news : List Notice) :
    acceptsIn (journal ++ news) = acceptsIn journal ++ acceptsIn news :=
  List.filterMap_append

theorem dropsIn_append (journal news : List Notice) :
    dropsIn (journal ++ news) = dropsIn journal ++ dropsIn news :=
  List.filterMap_append

theorem startsIn_dropped (gone : List QuadId) : startsIn (gone.map .dropped) = [] := by
  unfold startsIn
  rw [List.filterMap_map]
  exact List.filterMap_eq_nil_iff.mpr fun _ _ => rfl

theorem acceptsIn_dropped (gone : List QuadId) : acceptsIn (gone.map .dropped) = [] := by
  unfold acceptsIn
  rw [List.filterMap_map]
  exact List.filterMap_eq_nil_iff.mpr fun _ _ => rfl

theorem dropsIn_dropped (gone : List QuadId) : dropsIn (gone.map .dropped) = gone := by
  unfold dropsIn
  rw [List.filterMap_map]
  exact List.filterMap_some

/-- Dropping quads takes their entries out of the queue and leaves the rest of the line alone. -/
theorem foldl_standing_dropped (gone : List QuadId) (hgone : gone ⊆ queue) (hdup : gone.Nodup)
    (hnodup : queue.Nodup) :
    (gone.map Notice.dropped).foldl standing (line ++ queue) =
      line ++ queue.filter fun q => !gone.contains q := by
  rw [List.foldl_map]
  exact foldl_withoutLast gone hgone hdup hnodup

end

namespace Turn

variable {τ κ : Type}

/-! ### Steps -/

theorem startsIn_started (t : Turn τ κ) (quad : QuadId) :
    startsIn (t.started quad).journal = startsIn t.journal ++ [quad] :=
  startsIn_append _ _

theorem startsIn_submit (t : Turn τ κ) (quad : QuadId) :
    startsIn (t.submit quad).journal = startsIn t.journal := by
  rw [journal_submit]
  split
  · rfl
  · rw [startsIn_append]
    exact List.append_nil _

theorem startsIn_released (t : Turn τ κ) (record : QuadRecord) (slots : Slots)
    (next : Option QuadId) :
    startsIn (t.released record slots next).journal = startsIn t.journal := by
  rw [journal_released, startsIn_append]
  exact List.append_nil _

/-- The quads that were started, will be, wait for a token, and wait for a slot. -/
def course (w : Turn τ κ × List Task) : List QuadId :=
  startsIn w.1.journal ++ (w.2.filterMap Task.starts? ++
    (w.1.pipeline.bucket.pending ++ w.1.pipeline.slots.queue))

/-- **What some steps do to the course,** with the notices that they add to the journal. They drop
nobody, and a quad is accepted only when it asks. -/
structure Advances (w w' : Turn τ κ × List Task) (news : List Notice) : Prop where
  journal : w'.1.journal = w.1.journal ++ news
  course : course w' = course w ++ acceptsIn news
  kept : dropsIn news = []
  asked : (acceptsIn news ++ w'.2.filterMap Task.submits?).Sublist (w.2.filterMap Task.submits?)

theorem Advances.refl (w : Turn τ κ × List Task) : Advances w w [] :=
  ⟨by simp, by simp [acceptsIn], rfl, by simp [acceptsIn]⟩

theorem Advances.trans {w w' w'' : Turn τ κ × List Task} {news more : List Notice}
    (h : Advances w w' news) (h' : Advances w' w'' more) : Advances w w'' (news ++ more) := by
  refine ⟨?_, ?_, ?_, ?_⟩
  · rw [h'.journal, h.journal, List.append_assoc]
  · rw [h'.course, h.course, acceptsIn_append, List.append_assoc]
  · rw [dropsIn_append, h.kept, h'.kept]
    rfl
  · rw [acceptsIn_append, List.append_assoc]
    exact (h'.asked.append_left _).trans h.asked

/-- A quad that asks joins the course at its end, unless it is known already. -/
theorem advances_submit {t : Turn τ κ} {quad : QuadId} {rest : List Task}
    (hs : t.pipeline.slots.Sound) :
    ∃ news, Advances (t, .submit quad :: rest) (t.submit quad, rest) news := by
  have hqueue := Slots.queue_request hs quad
  have hjournal := journal_submit t quad
  have hcourse : course (t.submit quad, rest) = startsIn (t.submit quad).journal ++
      (rest.filterMap Task.starts? ++ (t.pipeline.bucket.pending ++ (t.pipeline.slots.queue ++
        if t.pipeline.slots.contains quad then [] else [quad]))) := by
    rw [← hqueue]
    simp only [course, pipeline_submit, List.append_assoc]
  by_cases hknown : t.pipeline.slots.contains quad = true
  · rw [if_pos hknown] at hcourse hjournal
    refine ⟨[], ?_, ?_, rfl, List.sublist_cons_self _ _⟩
    · rw [hjournal, List.append_nil]
    · rw [hcourse, hjournal, List.append_nil]
      exact (List.append_nil _).symm
  · rw [if_neg hknown] at hcourse hjournal
    refine ⟨[.accepted quad], hjournal, ?_, rfl, List.Sublist.refl _⟩
    have hnone : startsIn [.accepted quad] = [] := rfl
    have hask : course (t, .submit quad :: rest) = course (t, rest) := rfl
    rw [hcourse, hjournal, startsIn_append, hnone, List.append_nil, hask]
    simp only [course, List.append_assoc]
    rfl

/-- A quad that is started moves on within the course. -/
theorem advances_started (t : Turn τ κ) (quad : QuadId) (quads : QuadJoins) (rest : List Task) :
    Advances (t, .start quad :: rest) ({ t.started quad with pipeline.quads := quads }, rest)
      [.started quad] := by
  refine ⟨rfl, ?_, rfl, List.Sublist.refl _⟩
  have hnone : acceptsIn [.started quad] = [] := rfl
  simp only [course, started, note, Slots.queue_mark, startsIn_append, hnone, List.append_nil,
    List.append_assoc]
  rfl

/-- A notice that tells nothing of the line. -/
theorem advances_note {t u : Turn τ κ} {tasks rest : List Task} {n : Notice}
    (hj : u.journal = t.journal ++ [n])
    (hline : rest.filterMap Task.starts? ++ (u.pipeline.bucket.pending ++ u.pipeline.slots.queue) =
      tasks.filterMap Task.starts? ++ (t.pipeline.bucket.pending ++ t.pipeline.slots.queue))
    (hasks : rest.filterMap Task.submits? = tasks.filterMap Task.submits?)
    (hs : n.started? = none) (ha : n.accepted? = none) (hd : n.dropped? = none) :
    Advances (t, tasks) (u, rest) [n] := by
  have hnone : acceptsIn [n] = [] := List.filterMap_cons_none ha
  refine ⟨hj, ?_, List.filterMap_cons_none hd, ?_⟩
  · rw [course, course, hline, hnone, hj, startsIn_append]
    simp [startsIn, hs]
  · rw [hnone, hasks]
    exact List.Sublist.refl _

/-- Steps that tell nothing and leave the line alone. -/
theorem advances_of_eq {t u : Turn τ κ} {tasks rest : List Task} (hj : u.journal = t.journal)
    (hline : rest.filterMap Task.starts? ++ (u.pipeline.bucket.pending ++ u.pipeline.slots.queue) =
      tasks.filterMap Task.starts? ++ (t.pipeline.bucket.pending ++ t.pipeline.slots.queue))
    (hasks : rest.filterMap Task.submits? = tasks.filterMap Task.submits?) :
    Advances (t, tasks) (u, rest) [] := by
  refine ⟨by rw [hj, List.append_nil], ?_, rfl, ?_⟩
  · rw [course, course, hline, hj]
    exact (List.append_nil _).symm
  · rw [hasks]
    exact List.Sublist.refl _

variable [TokenArithmetic τ]

/-- **A step moves a quad on in the course,** adds one at its end, or leaves it alone. -/
theorem advances_step {now : Instant} {w w' : Turn τ κ × List Task}
    (hs : w.1.pipeline.slots.Sound) (hstep : Step now w w') : ∃ news, Advances w w' news := by
  cases hstep with
  | submit => exact advances_submit hs
  | @poll t bucket quads hp =>
    have hline := TokenBucket.pending_poll t.pipeline.bucket now
    rw [hp] at hline
    refine ⟨_, advances_of_eq rfl ?_ (Task.filterMap_none (fun _ => rfl) _)⟩
    rw [Task.starts_start, ← List.append_assoc]
    exact congrArg (· ++ _) hline
  | @start t quad quads tiles rest hl =>
    refine ⟨_, (advances_started t quad quads rest).trans (advances_of_eq rfl ?_ ?_)⟩
    · rw [Task.starts_call]
    · rw [List.filterMap_append, Task.filterMap_none fun _ => rfl]
      rfl
  | startEmpty => exact ⟨_, (advances_started _ _ _ _).trans (advances_of_eq rfl rfl rfl)⟩
  | startAgain =>
    exact ⟨_, (advances_started _ _ _ _).trans (advances_note rfl rfl rfl rfl rfl rfl)⟩
  | @finish t record slots next rest hr =>
    have hqueue := Slots.queue_release hr
    refine ⟨_, advances_note (journal_released _ _ _ _) ?_ rfl rfl rfl rfl⟩
    rw [pipeline_released, List.append_assoc, hqueue]
    rfl
  | callAgain => exact ⟨_, advances_note rfl rfl rfl rfl rfl rfl⟩
  | call | callEmpty | pass | passLast | offer | refuse => exact ⟨_, advances_of_eq rfl rfl rfl⟩

theorem advances_steps {now : Instant} {w w' : Turn τ κ × List Task}
    (ha : w.1.pipeline.Agrees w.2) (hs : Steps now w w') : ∃ news, Advances w w' news := by
  refine (Steps.keeps (I := fun v => v.1.pipeline.Agrees v.2 ∧ ∃ news, Advances w v news)
    ?_ hs ⟨ha, [], .refl w⟩).2
  rintro v v' ⟨hv, news, hnews⟩ hstep
  obtain ⟨more, hmore⟩ := advances_step hv.slots hstep
  exact ⟨Pipeline.agrees_step hv hstep, news ++ more, hnews.trans hmore⟩

end Turn

namespace Pipeline

variable {τ κ : Type} {p : Pipeline τ κ} {c : Call κ} {t : Turn τ κ} {tasks : List Task}
  {quad : QuadId}

/-! ### How calls begin -/

/-- The queued quads that a call prunes, by the turn that it leads to: those that a look finds not
desired. -/
def pruned (p : Pipeline τ κ) (c : Call κ) (t : Turn τ κ) : List QuadId :=
  if (p.looksAt? c).isSome then p.slots.queue.filter fun q => !t.pipeline.holdings.isDesired q else []

theorem Looks.pruned {camera : κ} {now : Instant} (hl : p.Looks camera now t tasks) :
    t.journal = (p.slots.queue.filter fun q => !t.pipeline.holdings.isDesired q).map .dropped ∧
      t.pipeline.slots.queue = p.slots.queue.filter t.pipeline.holdings.isDesired ∧
      t.pipeline.bucket = p.bucket := by
  obtain ⟨_, _, _, _, _, rfl, _⟩ := hl
  exact ⟨rfl, rfl, rfl⟩

theorem pruned_open (ho : p.Opens c t tasks) : t.journal = (p.pruned c t).map .dropped ∧
    t.pipeline.slots.queue = p.slots.queue.filter (fun q => !(p.pruned c t).contains q) ∧
    t.pipeline.bucket = p.bucket := by
  have hlook : ∀ keep : QuadId → Bool, p.slots.queue.filter keep =
      p.slots.queue.filter fun q => !(p.slots.queue.filter fun q => !keep q).contains q := by
    intro keep
    refine List.filter_congr fun q hq => ?_
    cases hk : keep q <;> simp [hk, hq]
  cases ho with
  | look hl =>
    obtain ⟨hj, hq, hb⟩ := hl.pruned
    exact ⟨hj, hq.trans (hlook _), hb⟩
  | resume hoff hcam hl =>
    obtain ⟨hj, hq, hb⟩ := hl.pruned
    have hprune : ∀ now, p.pruned (.setOnline true now) t =
        p.slots.queue.filter fun q => !t.pipeline.holdings.isDesired q := by
      simp [Pipeline.pruned, looksAt?, hoff, hcam]
    rw [hprune]
    exact ⟨hj, hq.trans (hlook _), hb⟩
  | answer | poll => exact ⟨rfl, by simp [Pipeline.pruned, looksAt?, turn], rfl⟩
  | @heed online now hheed =>
    have hprune : ∀ u : Turn τ κ, p.pruned (.setOnline online now) u = [] := by
      intro u
      cases online with
      | false => rfl
      | true => rcases hheed rfl with hon | hcam <;> simp [Pipeline.pruned, looksAt?, *]
    rw [hprune]
    exact ⟨rfl, by simp [turn], rfl⟩

/-- **A quad asks for a slot only in a look,** and when it is desired, wanted and not known. -/
theorem Opens.asks (ho : p.Opens c t tasks) (hq : .submit quad ∈ tasks) :
    (p.looksAt? c).isSome = true ∧ p.slots.contains quad = false ∧
      quad ∈ t.pipeline.holdings.desired ∧ t.pipeline.holdings.isWanted
        (t.pipeline.holdings.cache.isPinnedFull t.pipeline.holdings.isDesired) c.now quad = true := by
  have hlook : ∀ {p : Pipeline τ κ} {camera now}, p.Looks camera now t tasks →
      p.slots.contains quad = false ∧ quad ∈ t.pipeline.holdings.desired ∧
        t.pipeline.holdings.isWanted
          (t.pipeline.holdings.cache.isPinnedFull t.pipeline.holdings.isDesired) now quad = true := by
    rintro p camera now ⟨needed, holdings, orders, -, hv, rfl, rfl⟩
    obtain ⟨q, hmem, he⟩ := List.mem_map.mp hq
    cases he
    rw [(Holdings.view_eq_ok hv).2.2, Holdings.mem_requests] at hmem
    exact ⟨hmem.2.2.1, hmem.2.1, hmem.2.2.2⟩
  cases ho with
  | look hl => exact ⟨rfl, hlook hl⟩
  | resume hoff hcam hl =>
    exact ⟨by simp [looksAt?, hoff, hcam], hlook (p := { p with holdings.online := true }) hl⟩
  | answer | poll | heed => simp at hq

/-- Nothing is started before the steps of a call. -/
theorem starts_open (ho : p.Opens c t tasks) : tasks.filterMap Task.starts? = [] := by
  cases ho with
  | look hl | resume _ _ hl =>
    obtain ⟨_, _, _, _, _, _, rfl⟩ := hl
    exact Task.filterMap_none (fun _ => rfl) _
  | answer => exact Task.filterMap_none (fun _ => rfl) _
  | poll | heed => rfl

variable [TokenArithmetic τ]

/-! ### Calls -/

/-- The prunes of a call can be read off the pipeline that it leads to. -/
theorem pruned_steps {u : Turn τ κ} {rest : List Task} {now : Instant}
    (hs : Turn.Steps now (t, tasks) (u, rest)) : p.pruned c u = p.pruned c t := by
  have hdesired : u.pipeline.holdings.desired = t.pipeline.holdings.desired := desired_steps hs
  unfold pruned Holdings.isDesired
  rw [hdesired]

/-- What a call tells: whom it prunes, and then what its steps did. -/
theorem journal_call (ha : p.Agrees []) (hc : p.call c = .ok t) : ∃ t₀ tasks news,
    p.Opens c t₀ tasks ∧ Turn.Steps c.now (t₀, tasks) (t, []) ∧
      Turn.Advances (t₀, tasks) (t, []) news ∧
      t₀.journal = (p.pruned c t).map .dropped ∧ t.journal = (p.pruned c t).map .dropped ++ news := by
  obtain ⟨t₀, tasks, ho, hs⟩ := steps_call hc
  obtain ⟨news, hnews⟩ := Turn.advances_steps (agrees_open ha ho) hs
  have hj₀ := (pruned_open ho).1
  rw [pruned_steps hs]
  exact ⟨t₀, tasks, news, ho, hs, hnews, hj₀, hj₀ ▸ hnews.journal⟩

/-- **What a call does to the course:** it takes the pruned quads out of the queue, and what it accepts
comes last. -/
theorem course_call (ha : p.Agrees []) (hc : p.call c = .ok t) :
    startsIn t.journal ++ (t.pipeline.bucket.pending ++ t.pipeline.slots.queue) =
      p.bucket.pending ++ p.slots.queue.filter (fun q => !(p.pruned c t).contains q) ++
        acceptsIn t.journal := by
  obtain ⟨t₀, tasks, news, ho, -, ⟨-, hcourse, -, -⟩, hj₀, hj⟩ := journal_call ha hc
  obtain ⟨hj₁, hq₀, hb₀⟩ := pruned_open ho
  have hpruned : p.pruned c t₀ = p.pruned c t := by
    have hsame := hj₁.symm.trans hj₀
    exact List.map_injective_iff.mpr (fun _ _ he => Notice.dropped.inj he) hsame
  rw [hpruned] at hq₀
  simp only [Turn.course, hj₀, startsIn_dropped, starts_open ho, hq₀, hb₀, List.nil_append,
    List.filterMap_nil] at hcourse
  rw [hcourse, hj, acceptsIn_append, acceptsIn_dropped, List.nil_append]

/-- **A call accepts quads that ask in it,** in the order in which they do. -/
theorem accepts_call (ha : p.Agrees []) (hc : p.call c = .ok t) : ∃ t₀ tasks, p.Opens c t₀ tasks ∧
    Turn.Steps c.now (t₀, tasks) (t, []) ∧
    (acceptsIn t.journal).Sublist (tasks.filterMap Task.submits?) := by
  obtain ⟨t₀, tasks, news, ho, hs, ⟨-, -, -, hasked⟩, -, hj⟩ := journal_call ha hc
  rw [List.filterMap_nil, List.append_nil] at hasked
  rw [hj, acceptsIn_append, acceptsIn_dropped]
  exact ⟨t₀, tasks, ho, hs, hasked⟩

theorem asks_of_accepted (ha : p.Agrees []) (hc : p.call c = .ok t)
    (hq : quad ∈ acceptsIn t.journal) : ∃ t₀ tasks, p.Opens c t₀ tasks ∧
      Turn.Steps c.now (t₀, tasks) (t, []) ∧ .submit quad ∈ tasks := by
  obtain ⟨t₀, tasks, ho, hs, hasked⟩ := accepts_call ha hc
  obtain ⟨task, htask, he⟩ := List.mem_filterMap.mp (hasked.subset hq)
  cases task with
  | submit q =>
    cases he
    exact ⟨t₀, tasks, ho, hs, htask⟩
  | start | call | pass | finish | offer => cases he

/-- A call accepts only quads that were not known. -/
theorem fresh_of_accepted (ha : p.Agrees []) (hc : p.call c = .ok t)
    (hq : quad ∈ acceptsIn t.journal) : p.slots.contains quad = false := by
  obtain ⟨t₀, tasks, ho, -, hsubmit⟩ := asks_of_accepted ha hc hq
  exact (ho.asks hsubmit).2.1

/-! ### Runs -/

variable {s : StreamSettings} {culling : Culling κ} {coverage : Coverage} {start : Pipeline τ κ}
  {past : List (Call κ × Turn τ κ)}

theorem Run.course (hs : ofSettings s culling coverage = .ok start) (h : start.Run past p) :
    startsIn (journalOf past) ++ (p.bucket.pending ++ p.slots.queue) = standsIn (journalOf past) := by
  induction h with
  | rest =>
    obtain ⟨-, rfl⟩ := eq_of_ofSettings hs
    rfl
  | @call past p c t h hc ih =>
    have ha := (h.agrees hs).1
    obtain ⟨t₀, tasks, news, -, -, ⟨-, -, hkept, -⟩, -, hj⟩ := journal_call ha hc
    have hcourse := course_call ha hc
    have hgone : p.pruned c t ⊆ p.slots.queue ∧ (p.pruned c t).Nodup := by
      unfold pruned
      split
      · exact ⟨fun q hq => List.mem_of_mem_filter hq, ha.slots.queue_nodup.filter _⟩
      · exact ⟨List.nil_subset _, List.nodup_nil⟩
    have hpast : journalOf (past ++ [(c, t)]) = journalOf past ++ t.journal := by simp [journalOf]
    calc startsIn (journalOf (past ++ [(c, t)])) ++ (t.pipeline.bucket.pending ++ t.pipeline.slots.queue)
      _ = startsIn (journalOf past) ++
          (startsIn t.journal ++ (t.pipeline.bucket.pending ++ t.pipeline.slots.queue)) := by
        rw [hpast, startsIn_append, List.append_assoc]
      _ = startsIn (journalOf past) ++ p.bucket.pending ++
          p.slots.queue.filter (fun q => !(p.pruned c t).contains q) ++ acceptsIn t.journal := by
        rw [hcourse]
        simp only [List.append_assoc]
      _ = ((p.pruned c t).map Notice.dropped).foldl standing (standsIn (journalOf past)) ++
          acceptsIn news := by
        rw [← ih, ← List.append_assoc, foldl_standing_dropped _ hgone.1 hgone.2 ha.slots.queue_nodup,
          hj, acceptsIn_append, acceptsIn_dropped, List.nil_append]
      _ = standsIn (journalOf (past ++ [(c, t)])) := by
        rw [hpast, hj, standsIn_append, List.foldl_append, foldl_standing hkept]

/-- **First come, first served.** After every run the quads that were started, those in the token bucket
and those in the queue are, in this order, the quads that were newly accepted, in the order of
acceptance and without the pruned entries. No quad waits twice. A call prunes the queued quads that a
look finds not desired, in order, and no others; it accepts only quads that were not known; and what
waited before it goes first. -/
theorem Run.first_come_first_served (hs : ofSettings s culling coverage = .ok start)
    (h : start.Run past p) :
    startsIn (journalOf past) ++ (p.bucket.pending ++ p.slots.queue) = standsIn (journalOf past) ∧
    (p.bucket.pending ++ p.slots.queue).Nodup ∧
    ∀ c t, p.call c = .ok t →
      dropsIn t.journal = p.pruned c t ∧
      (∀ q ∈ acceptsIn t.journal, p.slots.contains q = false) ∧
      startsIn t.journal ++ (t.pipeline.bucket.pending ++ t.pipeline.slots.queue) =
        p.bucket.pending ++ p.slots.queue.filter (fun q => !(p.pruned c t).contains q) ++
          acceptsIn t.journal := by
  have ha := (h.agrees hs).1
  refine ⟨h.course hs, ?_, fun c t hc => ?_⟩
  · refine List.nodup_append.mpr ⟨ha.line.nodup, ha.slots.queue_nodup, ?_⟩
    rintro q hb q' hq rfl
    have hlimited := (ha.consistent.rateLimited q).mpr hb
    rw [(ha.consistent.queued q).mpr hq] at hlimited
    cases hlimited
  · obtain ⟨t₀, tasks, news, -, -, ⟨-, -, hkept, -⟩, -, hj⟩ := journal_call ha hc
    have hdrops : dropsIn t.journal = p.pruned c t := by
      rw [hj, dropsIn_append, dropsIn_dropped, hkept, List.append_nil]
    exact ⟨hdrops, fun q hq => fresh_of_accepted ha hc hq, course_call ha hc⟩

/-! ### A queue that is pruned -/

/-- A pipeline with two slots and a token a second. -/
def narrow : Pipeline Rat (List TileId) :=
  atRest { StreamSettings.standard with maxConcurrentQuads := 2, maxRequestsPerSecond := 1.0 } .ok
    (.ofDepth 4)

theorem ofSettings_narrow : ofSettings
    { StreamSettings.standard with maxConcurrentQuads := 2, maxRequestsPerSecond := 1.0 } .ok
    (.ofDepth 4) = .ok narrow := rfl

/-- Four quads are called for one after the other, and then the third is not any more. One of them is
started, one waits for a token, and the others wait for a slot. -/
def fiveLooks : List (Call (List TileId)) :=
  [.updateCamera [⟨2, 0, 0⟩] ⟨0⟩, .updateCamera [⟨2, 0, 0⟩, ⟨2, 0, 2⟩] ⟨1⟩,
    .updateCamera [⟨2, 0, 0⟩, ⟨2, 0, 2⟩, ⟨2, 2, 0⟩] ⟨2⟩,
    .updateCamera [⟨2, 0, 0⟩, ⟨2, 0, 2⟩, ⟨2, 2, 0⟩, ⟨2, 2, 2⟩] ⟨3⟩,
    .updateCamera [⟨2, 0, 0⟩, ⟨2, 0, 2⟩, ⟨2, 2, 2⟩] ⟨4⟩]

theorem Run.first_come_first_served_narrow : ∃ past p, narrow.Run past p ∧
    past.map (·.1) = fiveLooks ∧
    journalOf past = [.accepted ⟨1, 0, 0⟩, .started ⟨1, 0, 0⟩, .accepted ⟨1, 0, 1⟩,
      .accepted ⟨1, 1, 0⟩, .accepted ⟨1, 1, 1⟩, .dropped ⟨1, 1, 0⟩] ∧
    p.bucket.pending = [⟨1, 0, 1⟩] ∧ p.slots.queue = [⟨1, 1, 1⟩] ∧
    startsIn (journalOf past) ++ (p.bucket.pending ++ p.slots.queue) = standsIn (journalOf past) ∧
    standsIn (journalOf past) = [⟨1, 0, 0⟩, ⟨1, 0, 1⟩, ⟨1, 1, 1⟩] := by
  have hreplay : (narrow.replay fiveLooks).map
      (fun r => (journalOf r.1, r.2.bucket.pending, r.2.slots.queue)) =
      .ok ([.accepted ⟨1, 0, 0⟩, .started ⟨1, 0, 0⟩, .accepted ⟨1, 0, 1⟩, .accepted ⟨1, 1, 0⟩,
        .accepted ⟨1, 1, 1⟩, .dropped ⟨1, 1, 0⟩], [⟨1, 0, 1⟩], [⟨1, 1, 1⟩]) := by decide +kernel
  obtain ⟨past, p, hrun, hcalls, hout⟩ := exists_run_of_replay hreplay
  simp only [Prod.mk.injEq] at hout
  obtain ⟨hjournal, hpending, hqueue⟩ := hout
  obtain ⟨hcourse, -, -⟩ := Run.first_come_first_served ofSettings_narrow hrun
  refine ⟨past, p, hrun, hcalls, hjournal, hpending, hqueue, hcourse, ?_⟩
  rw [hjournal]
  decide

end Pipeline

end TileStream
