import TileStream.Proofs.Pipeline.Renewal
import TileStream.Proofs.Pipeline.Reports

/-! # Under a steady view nothing is ordered twice

While every look desires the same quads, a quad that was refused is desired still and is not cached.
What keeps the next look from ordering it again is that the cache which refused it is full of desired
quads, gives up none of them and lets no other in. A desired quad that is cached stays cached too, and is
wanted only when it lost a layer to the network. So there are two ways for a quad to need no loading
(`Holdings.Spares`), and under a steady view a quad that needs none will need none.

A quad that is started under such a view is being loaded until it is finished, and from then on it is
spared, unless its record lost a layer (`Pipeline.stowed_call`). In a run that brings no failure that may
pass, such a record is of an assembly that began before the run (`Pipeline.Run.loading_of_lost`). So
nothing has to be known of the quads that were under way or cached when the view became steady: each may
be started once more, and not twice (`Pipeline.Steady`). -/

namespace TileStream

namespace Call

/-- Whether the call is one that may find anew what is desired. Other calls leave it as it is
(`Pipeline.desired_call`). -/
def reviews {κ : Type} : Call κ → Bool
  | updateCamera _ _ | setOnline true _ => true
  | _ => false

/-- Whether the call brings a failure that may pass. -/
def isTransient {κ : Type} : Call κ → Bool
  | deliver _ _ outcome _ => outcome.isTransient
  | _ => false

theorem isTransient_of_brings {κ : Type} {c : Call κ} {f : Fetch} {outcome : Outcome}
    (h : .answered f outcome ∈ c.brings) : c.isTransient = outcome.isTransient := by
  cases c with
  | deliver tile layer outcome' now =>
    cases List.mem_singleton.mp h
    rfl
  | updateCamera | poll | setOnline => cases h

end Call

namespace Holdings

variable {h h' : Holdings} {quad : QuadId} {record : QuadRecord} {now : Instant}

/-- **Nothing is to be loaded for the quad.** What is cached of it lost nothing to the network, or it is
not cached and the cache is full of desired quads. -/
def Spares (h : Holdings) (quad : QuadId) : Prop :=
  (∃ record, h.cache.get? quad = some record ∧ record.hasNetworkFailure = false) ∨
    (h.cache.contains quad = false ∧ h.cache.isPinnedFull h.isDesired = true)

theorem Spares.not_wanted (hs : h.Spares quad) (now : Instant) :
    h.isWanted (h.cache.isPinnedFull h.isDesired) now quad = false := by
  unfold isWanted
  rcases hs with ⟨record, hget, hclean⟩ | ⟨hout, hfull⟩
  · rw [hget]
    simp [isStale, hclean]
  · cases hget : h.cache.get? quad with
    | none => simp [hfull]
    | some record =>
      have hin : h.cache.contains quad = true := QuadCache.contains_iff.mpr ⟨record, hget⟩
      rw [hout] at hin
      cases hin

/-- When the quads were seen does not matter, nor in what order they are desired. -/
theorem Spares.of_same (hs : h.Spares quad) (hc : h.cache.Sound) (hc' : h'.cache.Sound)
    (hentries : h'.cache.entries = h.cache.entries)
    (hcapacity : h'.cache.capacity = h.cache.capacity)
    (hsame : ∀ q ∈ h.desired, q ∈ h'.desired) : h'.Spares quad := by
  rcases hs with ⟨record, hget, hclean⟩ | ⟨hout, hfull⟩
  · left
    refine ⟨record, ?_, hclean⟩
    unfold QuadCache.get? at *
    rwa [hentries]
  · right
    constructor
    · unfold QuadCache.contains at *
      rwa [hentries]
    · refine QuadCache.isPinnedFull_of_same hc hc' hfull hentries hcapacity fun q hq => ?_
      rw [isDesired_iff] at *
      exact hsame q hq

/-- A quad that is finished spares none of the desired quads less than before. -/
theorem Spares.receive {delta : ResidencyDelta} (hs : h.Spares quad) (hc : h.cache.Sound)
    (hq : quad ∈ h.desired) (hne : quad ≠ record.id)
    (hr : h.receive record now = .ok (h', delta)) : h'.Spares quad := by
  obtain ⟨cache, evicted, hi, -, residents, rfl⟩ := receive_eq_ok hr
  rcases hs with ⟨stored, hget, hclean⟩ | ⟨hout, hfull⟩
  · left
    refine ⟨stored, ?_, hclean⟩
    rw [← hget]
    exact QuadCache.get?_insert_of_pinned hc hi hne (isDesired_iff.mpr hq)
  · right
    refine ⟨?_, QuadCache.isPinnedFull_insert hc hi hfull⟩
    rw [Bool.eq_false_iff]
    intro hin
    rcases QuadCache.contains_of_insert hc hi hin with he | hwas
    · exact hne he
    · rw [hout] at hwas
      cases hwas

theorem spares_of_receive {delta : ResidencyDelta} (hclean : record.hasNetworkFailure = false)
    (hr : h.receive record now = .ok (h', delta)) : h'.Spares record.id := by
  obtain ⟨cache, evicted, hi, -, residents, rfl⟩ := receive_eq_ok hr
  exact .inl ⟨record, QuadCache.get?_insert_self hi, hclean⟩

/-- **A quad that is refused is spared.** -/
theorem spares_of_refused {e : CacheFull} (hc : h.cache.Sound)
    (hr : h.receive record now = .error e) : h.Spares record.id :=
  .inr (QuadCache.insert_eq_error hc (receive_eq_error hr))

end Holdings

namespace Turn

variable {τ κ : Type} {w w' : Turn τ κ × List Task} {quad : QuadId} {now : Instant}

/-! ### Steps -/

/-- **The quad is spared,** or it was finished and lost a layer to the network. -/
def Stowed (quad : QuadId) (w : Turn τ κ × List Task) : Prop :=
  w.1.pipeline.holdings.Spares quad ∨
    ∃ record, record.id = quad ∧ .finished record ∈ w.1.journal ∧ record.hasNetworkFailure = true

variable [TokenArithmetic τ]

/-- A quad that is offered to the cache is stowed, and so are the desired quads that were. -/
theorem stowed_offer {t : Turn τ κ} {record : QuadRecord} {rest : List Task}
    (hc : t.pipeline.holdings.cache.Sound) (hq : quad ∈ t.pipeline.holdings.desired)
    (hj : .finished record ∈ t.journal)
    (h : quad = record.id ∨ t.pipeline.holdings.Spares quad)
    (hs : Step now (t, .offer record :: rest) w') : Stowed quad w' := by
  by_cases he : quad = record.id
  · subst he
    cases hs with
    | refuse hr => exact .inl (Holdings.spares_of_refused hc hr)
    | offer hr =>
      cases hlost : record.hasNetworkFailure with
      | false => exact .inl (Holdings.spares_of_receive hlost hr)
      | true => exact .inr ⟨record, rfl, hj, hlost⟩
  · have hspares := h.resolve_left he
    cases hs with
    | refuse hr => exact .inl hspares
    | offer hr => exact .inl (hspares.receive hc hq he hr)

theorem stowed_step {P : QuadRecord → Prop} (ha : w.1.pipeline.Agrees w.2)
    (hc : w.1.pipeline.holdings.cache.Sound) (ht : Traced P w)
    (hq : quad ∈ w.1.pipeline.holdings.desired) (hs : Step now w w') (h : Stowed quad w) :
    Stowed quad w' := by
  rcases h with hspares | ⟨record, hid, hj, hlost⟩
  · cases hs with
    | poll | start | startEmpty | startAgain | call | callEmpty | callAgain | pass | passLast
    | refuse => exact .inl hspares
    | submit =>
      left
      rw [pipeline_submit]
      exact hspares
    | finish =>
      left
      rw [pipeline_released]
      exact hspares
    | @offer t record _ _ rest hr =>
      have hj : .finished record ∈ t.journal := ht.offered record List.mem_cons_self
      exact stowed_offer hc hq hj (.inr hspares) (.offer hr)
  · right
    exact ⟨record, hid, journal_step ha hs hj, hlost⟩

/-- **A quad that is on its way is stowed in the end,** if it is desired. -/
theorem lands_stowed_step {P : QuadRecord → Prop} (ha : w.1.pipeline.Agrees w.2)
    (hc : w.1.pipeline.holdings.cache.Sound) (ht : Traced P w)
    (hq : quad ∈ w.1.pipeline.holdings.desired) (hs : Step now w w')
    (h : Lands (Stowed quad) quad w) : Lands (Stowed quad) quad w' := by
  refine lands_step ha hs h (stowed_step ha hc ht hq hs) ?_
  intro record rest hid hfirst hj
  obtain ⟨t, tasks⟩ := w
  cases hfirst
  exact stowed_offer hc hq hj (.inl hid.symm) hs

omit [TokenArithmetic τ] in
theorem lands_of_assembling {D : Turn τ κ × List Task → Prop} (ha : w.1.pipeline.Agrees w.2)
    (h : w.1.pipeline.slots.stage? quad = some .assembling) : Lands D quad w := by
  rcases (ha.assembling quad).mp h with hload | hfin
  · exact .inl hload
  · obtain ⟨task, htask, hid⟩ := List.mem_filterMap.mp hfin
    cases task with
    | finish record => exact .inr (.inl ⟨record, Option.some.inj hid, .inl htask⟩)
    | submit | start | call | pass | offer => cases hid

omit [TokenArithmetic τ] in
theorem assembling_of_started {t : Turn τ κ} {q : QuadId} {rest : List Task}
    (ha : t.pipeline.Agrees (.start q :: rest)) (hq : quad ∈ startsIn (t.started q).journal) :
    quad ∈ startsIn t.journal ∨
      (t.started q).pipeline.slots.stage? quad = some .assembling := by
  have hline : t.pipeline.slots.Lines (q :: (rest.filterMap Task.starts? ++ _)) := ha.line
  rw [startsIn_started, List.mem_append, List.mem_singleton] at hq
  exact hq.imp_right fun he => (hline.mark.2 quad).mpr (.inl he)

/-- A quad that is started is on its way at once. -/
theorem started_step {D : Turn τ κ × List Task → Prop} (ha : w.1.pipeline.Agrees w.2)
    (hs : Step now w w') (hq : quad ∈ startsIn w'.1.journal) :
    quad ∈ startsIn w.1.journal ∨ Lands D quad w' := by
  have ha' := Pipeline.agrees_step ha hs
  cases hs with
  | poll | call | callEmpty | pass | passLast | offer | refuse => exact .inl hq
  | submit =>
    rw [startsIn_submit] at hq
    exact .inl hq
  | finish =>
    rw [startsIn_released] at hq
    exact .inl hq
  | start | startEmpty => exact (assembling_of_started ha hq).imp_right (lands_of_assembling ha')
  | startAgain hl => exact absurd hl ha.not_startAgain
  | callAgain hl => exact absurd hl ha.not_callAgain

/-- **A desired quad is on its way or stowed,** if it was so at first or was started since. -/
structure Cares (quad : QuadId) (atFirst : Prop) (w : Turn τ κ × List Task) : Prop where
  agrees : w.1.pipeline.Agrees w.2
  demands : w.1.pipeline.Demands w.2
  traced : Traced (fun _ => True) w
  desired : quad ∈ w.1.pipeline.holdings.desired
  lands : atFirst ∨ quad ∈ startsIn w.1.journal → Lands (Stowed quad) quad w

theorem cares_step {atFirst : Prop} (h : Cares quad atFirst w) (hs : Step now w w') :
    Cares quad atFirst w' := by
  have hkeeps := lands_stowed_step h.agrees h.demands.cache h.traced h.desired hs
  have hdesired := Pipeline.desired_steps (.single hs)
  refine ⟨Pipeline.agrees_step h.agrees hs, Pipeline.demands_step h.agrees h.demands hs,
    traced_step h.traced hs, ?_, ?_⟩
  · rw [hdesired]
    exact h.desired
  · rintro (hbegan | hstarted)
    · exact hkeeps (h.lands (.inl hbegan))
    · rcases started_step h.agrees hs hstarted with hbefore | hnew
      · exact hkeeps (h.lands (.inr hbefore))
      · exact hnew

end Turn

namespace Pipeline

variable {τ κ : Type} {p p' : Pipeline τ κ} {c : Call κ} {t : Turn τ κ} {tasks : List Task}
  {quad : QuadId}

/-- **The quad is taken care of:** it is being loaded, or nothing is to be loaded for it. -/
def Served (p : Pipeline τ κ) (quad : QuadId) : Prop :=
  p.quads.isLoading quad = true ∨ p.holdings.Spares quad

/-! ### How calls begin -/

/-- No quad asks for a slot twice. -/
theorem nodup_submits_open (ho : p.Opens c t tasks) : (tasks.filterMap Task.submits?).Nodup := by
  have hsubmits : ∀ quads : List QuadId,
      (quads.map Task.submit).filterMap Task.submits? = quads := by
    intro quads
    rw [List.filterMap_map]
    exact List.filterMap_some
  cases ho with
  | look hl | resume _ _ hl =>
    obtain ⟨_, _, orders, _, hv, _, rfl⟩ := hl
    rw [hsubmits]
    exact Holdings.nodup_requests hv
  | answer =>
    rw [Task.filterMap_none fun _ => rfl]
    exact List.nodup_nil
  | poll | heed => exact List.nodup_nil

/-- What is desired changes only in a look. -/
theorem desired_open (ho : p.Opens c t tasks) (hc : c.reviews = false) :
    t.pipeline.holdings.desired = p.holdings.desired := by
  cases ho with
  | look | resume => cases hc
  | answer | poll | heed => rfl

theorem spares_open (ha : p.Agrees []) (hd : p.Demands []) (ho : p.Opens c t tasks)
    (hsame : ∀ q ∈ p.holdings.desired, q ∈ t.pipeline.holdings.desired)
    (hs : p.holdings.Spares quad) : t.pipeline.holdings.Spares quad := by
  obtain ⟨hentries, hcapacity, -⟩ := cache_open ho
  exact hs.of_same hd.cache (demands_open ha hd ho).cache hentries hcapacity hsame

variable [TokenArithmetic τ]

/-! ### Calls -/

theorem desired_call (hc : p.call c = .ok t) (hnone : c.reviews = false) :
    t.pipeline.holdings.desired = p.holdings.desired := by
  obtain ⟨t₀, tasks, ho, hs⟩ := steps_call hc
  exact (desired_steps hs).trans (desired_open ho hnone)

theorem nodup_accepts_call (ha : p.Agrees []) (hc : p.call c = .ok t) :
    (acceptsIn t.journal).Nodup := by
  obtain ⟨t₀, tasks, ho, -, hasked⟩ := accepts_call ha hc
  exact hasked.nodup (nodup_submits_open ho)

/-- **A quad that is taken care of is not accepted** by a call that desires the same quads as before. -/
theorem Served.not_accepted (h : p.Served quad) (ha : p.Agrees []) (hd : p.Demands [])
    (hc : p.call c = .ok t)
    (hsame : ∀ q ∈ p.holdings.desired, q ∈ t.pipeline.holdings.desired) :
    quad ∉ acceptsIn t.journal := by
  intro haccepted
  obtain ⟨t₀, tasks, ho, hs, hsubmit⟩ := asks_of_accepted ha hc haccepted
  obtain ⟨-, hfresh, -, hwanted⟩ := ho.asks hsubmit
  rw [desired_steps hs] at hsame
  rcases h with hload | hspares
  · rw [(ha.of_isLoading hload).1] at hfresh
    cases hfresh
  · rw [(spares_open ha hd ho hsame hspares).not_wanted] at hwanted
    cases hwanted

/-- **A desired quad that is started in a call is being loaded or stowed** when the call is over. So is
one that was taken care of before, when all that was desired is desired still. -/
theorem stowed_call (ha : p.Agrees []) (hd : p.Demands []) (hc : p.call c = .ok t)
    (hq : quad ∈ t.pipeline.holdings.desired)
    (h : (p.Served quad ∧ ∀ q ∈ p.holdings.desired, q ∈ t.pipeline.holdings.desired) ∨
      quad ∈ startsIn t.journal) :
    t.pipeline.quads.isLoading quad = true ∨ Turn.Stowed quad (t, []) := by
  obtain ⟨t₀, tasks, ho, hs⟩ := steps_call hc
  rw [desired_steps hs] at hq h
  have hbegin : Turn.Cares quad (p.Served quad ∧
      ∀ q ∈ p.holdings.desired, q ∈ t₀.pipeline.holdings.desired) (t₀, tasks) := by
    refine ⟨agrees_open ha ho, demands_open ha hd ho, traced_open (fun _ _ _ => trivial) ho, hq, ?_⟩
    obtain ⟨-, hstarts, -, hquads⟩ := passage_open ho
    rintro (⟨hload | hspares, hsame⟩ | hstarted)
    · left
      rw [hquads]
      exact hload
    · exact .inr (.inr (.inl (spares_open ha hd ho hsame hspares)))
    · rw [hstarts] at hstarted
      cases hstarted
  have hend := Turn.Steps.keeps (fun hw hstep => Turn.cares_step hw hstep) hs hbegin
  rcases hend.lands h with hload | ⟨record, -, htask⟩ | hstowed
  · exact .inl hload
  · simp at htask
  · exact .inr hstowed

/-! ### Runs -/

variable {s : StreamSettings} {culling : Culling κ} {coverage : Coverage} {start : Pipeline τ κ}
  {past done further : List (Call κ × Turn τ κ)} {view : QuadId → Prop}

/-- A call of a run orders the fetches of the quads that it starts. -/
theorem Run.mem_fetches (hs : ofSettings s culling coverage = .ok start) (h : start.Run past p)
    {e : Call κ × Turn τ κ} (he : e ∈ past) (f : Fetch) :
    f ∈ e.2.effects.fetches ↔ ∃ quad ∈ startsIn e.2.journal, start.Needs quad f := by
  obtain ⟨before, after, q, -, hbefore, hcall⟩ := h.of_mem he
  obtain ⟨ha, hlike, -⟩ := hbefore.agrees hs
  rw [mem_fetches_call ha hcall]
  simp only [hlike.needs_iff]

theorem Run.isQuad_of_started (hs : ofSettings s culling coverage = .ok start)
    (h : start.Run past p) {e : Call κ × Turn τ κ} (he : e ∈ past)
    (hq : quad ∈ startsIn e.2.journal) : quad.IsQuad := by
  obtain ⟨before, after, q, -, hbefore, hcall⟩ := h.of_mem he
  have ha := (hbefore.agrees hs).1
  rcases waits_or_accepted ha hcall (.inl hq) with hwaits | haccepted
  · exact ha.known quad (ha.of_waits hwaits)
  · obtain ⟨t₀, tasks, ho, -, hsubmit⟩ := asks_of_accepted ha hcall haccepted
    exact (agrees_open ha ho).submitted quad hsubmit

/-- **A quad that was started in a calm run loses nothing to the network.** A record of it that did is
of an assembly that began before the run, and the quad is being loaded again. -/
theorem Run.loading_of_lost (hs : ofSettings s culling coverage = .ok start) (h : start.Run past p)
    (h' : p.Run done p') (hc : p'.call c = .ok t)
    (hcalm : ∀ e ∈ done ++ [(c, t)], e.1.isTransient = false) {record : QuadRecord}
    (hq : record.id ∈ startsIn (journalOf (done ++ [(c, t)])))
    (hr : .finished record ∈ t.journal) (hlost : record.hasNetworkFailure = true) :
    t.pipeline.quads.isLoading record.id = true := by
  have hall := h.append h'
  rw [startsIn_journalOf] at hq
  obtain ⟨e, he, hstarted⟩ := List.mem_flatMap.mp hq
  have hin : e ∈ past ++ done ++ [(c, t)] := by
    rw [List.append_assoc]
    exact List.mem_append_right _ he
  have hquad := (hall.call hc).isQuad_of_started hs hin hstarted
  obtain ⟨f, outcome, hparent, hcovered, hlayer, hreplied, htransient⟩ :=
    (hall.reports hs hc hr).exists_transient hquad hlost
  have hf : f ∈ e.2.effects.fetches := by
    rw [(hall.call hc).mem_fetches hs hin]
    obtain ⟨-, rfl⟩ := eq_of_ofSettings hs
    exact ⟨record.id, hstarted, hparent, hcovered, hlayer⟩
  rcases List.mem_append.mp he with hearlier | hnow
  · -- the fetch was ordered in the run, so the failure came in the run
    have hordered : .ordered f ∈ events done :=
      List.mem_flatMap.mpr ⟨e, hearlier, List.mem_append_right _ (List.mem_map_of_mem hf)⟩
    have hsplit : events (past ++ done) = events past ++ events done := List.flatMap_append
    rw [hsplit, List.append_assoc] at hreplied
    have hanswered := hreplied.answered_of_ordered (List.mem_append_left _ hordered)
    have hcame : .answered f outcome ∈ events (done ++ [(c, t)]) := by
      have hlast : events (done ++ [(c, t)]) = events done ++ (c.brings ++ t.orders) := by
        simp [events]
      rw [hlast, ← List.append_assoc]
      exact List.mem_append_left _ hanswered
    obtain ⟨e', he', hbrings⟩ := brings_of_answered hcame
    have hcalm' := hcalm e' he'
    rw [Call.isTransient_of_brings hbrings, htransient] at hcalm'
    cases hcalm'
  · obtain rfl := List.mem_singleton.mp hnow
    exact loading_of_fetch (hall.agrees hs).1 (hall.owes hs) hc hf hparent

/-- **What holds under a steady view:** no quad was started twice or waits to be started again, and the
desired quads among those started are taken care of. -/
structure Steady (view : QuadId → Prop) (done : List (Call κ × Turn τ κ)) (p : Pipeline τ κ) :
    Prop where
  course : (startsIn (journalOf done) ++ (p.bucket.pending ++ p.slots.queue)).Nodup
  served : ∀ q ∈ startsIn (journalOf done), q ∈ p.holdings.desired → p.Served q
  view : done ≠ [] → ∀ q, q ∈ p.holdings.desired ↔ view q

omit [TokenArithmetic τ] in
theorem steady_rest (ha : p.Agrees []) : p.Steady view [] := by
  refine ⟨?_, fun q hq => by simp [journalOf, startsIn] at hq, fun hne => absurd rfl hne⟩
  have hnodup := ha.consistent.nodup
  rw [← List.append_assoc] at hnodup
  have hwaiting : (p.bucket.pending ++ p.slots.queue).Nodup :=
    List.perm_append_comm.nodup_iff.mp (List.nodup_append.mp hnodup).1
  exact hwaiting

/-- The view is the same after every call. -/
theorem Steady.desired (h : p.Steady view done) (hc : p.call c = .ok t)
    (hfirst : done = [] → c.reviews = true)
    (hview : c.reviews = true → ∀ q, q ∈ t.pipeline.holdings.desired ↔ view q) (q : QuadId) :
    q ∈ t.pipeline.holdings.desired ↔ view q := by
  cases hr : c.reviews with
  | true => exact hview hr q
  | false =>
    rw [desired_call hc hr]
    refine h.view (fun hnil => ?_) q
    rw [hfirst hnil] at hr
    cases hr

omit [TokenArithmetic τ] in
/-- A quad that was started is taken care of when the next call begins. -/
theorem Steady.begins (h : p.Steady view done)
    (hdesired : ∀ q, q ∈ t.pipeline.holdings.desired ↔ view q)
    (hq : quad ∈ startsIn (journalOf done)) (hv : quad ∈ t.pipeline.holdings.desired) :
    p.Served quad ∧ ∀ q ∈ p.holdings.desired, q ∈ t.pipeline.holdings.desired := by
  have hne : done ≠ [] := by
    rintro rfl
    simp [journalOf, startsIn] at hq
  have hsame : ∀ q, q ∈ p.holdings.desired ↔ q ∈ t.pipeline.holdings.desired := by
    intro q
    rw [h.view hne, hdesired]
  exact ⟨h.served quad hq ((hsame quad).mpr hv), fun q => (hsame q).mp⟩

/-- Only quads that were not started yet are accepted. -/
theorem Steady.not_accepted (h : p.Steady view done) (ha : p.Agrees []) (hd : p.Demands [])
    (hc : p.call c = .ok t) (hdesired : ∀ q, q ∈ t.pipeline.holdings.desired ↔ view q)
    (hq : quad ∈ startsIn (journalOf done)) : quad ∉ acceptsIn t.journal := by
  intro haccepted
  obtain ⟨t₀, tasks, ho, hs, hsubmit⟩ := asks_of_accepted ha hc haccepted
  have hv : quad ∈ t.pipeline.holdings.desired := by
    rw [desired_steps hs]
    exact (ho.asks hsubmit).2.2.1
  obtain ⟨hserved, hsame⟩ := h.begins hdesired hq hv
  exact hserved.not_accepted ha hd hc hsame haccepted

/-- **A call under a steady view keeps it steady.** -/
theorem Steady.call (h : p.Steady view done) (ha : p.Agrees []) (hd : p.Demands [])
    (hc : p.call c = .ok t) (hdesired : ∀ q, q ∈ t.pipeline.holdings.desired ↔ view q)
    (hlost : ∀ record, record.id ∈ startsIn (journalOf (done ++ [(c, t)])) →
      .finished record ∈ t.journal → record.hasNetworkFailure = true →
      t.pipeline.quads.isLoading record.id = true) :
    t.pipeline.Steady view (done ++ [(c, t)]) := by
  have hstarts : startsIn (journalOf (done ++ [(c, t)])) =
      startsIn (journalOf done) ++ startsIn t.journal := by
    simp [startsIn_journalOf]
  refine ⟨?_, ?_, fun _ => hdesired⟩
  · -- the line goes on with the quads that are accepted
    have hkept : (startsIn (journalOf done) ++ (p.bucket.pending ++
        p.slots.queue.filter fun q => !(p.pruned c t).contains q)).Sublist
        (startsIn (journalOf done) ++ (p.bucket.pending ++ p.slots.queue)) :=
      (List.filter_sublist.append_left _).append_left _
    rw [hstarts, List.append_assoc, course_call ha hc, ← List.append_assoc]
    refine List.nodup_append.mpr ⟨h.course.sublist hkept, nodup_accepts_call ha hc, ?_⟩
    rintro q hq _ haccepted rfl
    rcases List.mem_append.mp (hkept.subset hq) with hstarted | hwaits
    · exact h.not_accepted ha hd hc hdesired hstarted haccepted
    · have hfresh := fresh_of_accepted ha hc haccepted
      rw [ha.of_waits hwaits] at hfresh
      cases hfresh
  · intro q hq hv
    have hcase : (p.Served q ∧ ∀ q ∈ p.holdings.desired, q ∈ t.pipeline.holdings.desired) ∨
        q ∈ startsIn t.journal := by
      rw [hstarts] at hq
      rcases List.mem_append.mp hq with hbefore | hnow
      · exact .inl (h.begins hdesired hbefore hv)
      · exact .inr hnow
    rcases stowed_call ha hd hc hv hcase with hload | hspares | ⟨record, rfl, hr, hnet⟩
    · exact .inl hload
    · exact .inr hspares
    · exact .inl (hlost record hq hr hnet)

theorem Run.steady (hs : ofSettings s culling coverage = .ok start) (h : start.Run past p)
    (h' : p.Run further p') (hfirst : ∀ e ∈ further.head?, e.1.reviews = true)
    (hview : ∀ e ∈ further, e.1.reviews = true →
      ∀ q, q ∈ e.2.pipeline.holdings.desired ↔ view q)
    (hcalm : ∀ e ∈ further, e.1.isTransient = false) : p'.Steady view further := by
  induction h' with
  | rest => exact steady_rest (h.agrees hs).1
  | @call done q c t h' hc ih =>
    have hall := h.append h'
    have hlast : (c, t) ∈ done ++ [(c, t)] := List.mem_append_right _ (List.mem_singleton_self _)
    have hearlier : ∀ e ∈ done, e ∈ done ++ [(c, t)] := fun e he => List.mem_append_left _ he
    have hsteady : q.Steady view done := by
      refine ih (fun e he => hfirst e ?_) (fun e he => hview e (hearlier e he))
        fun e he => hcalm e (hearlier e he)
      rw [List.head?_append, Option.mem_def.mp he]
      rfl
    have hdesired := hsteady.desired hc (by rintro rfl; exact hfirst (c, t) rfl) (hview _ hlast)
    refine hsteady.call (hall.agrees hs).1 (hall.demands hs) hc hdesired ?_
    intro record hq hr hlost
    exact h.loading_of_lost hs h' hc hcalm hq hr hlost

/-- **Under a steady view no fetch is ordered twice.** After any run, let a look be followed by calls in
which what is desired is always the same as after that look, and which bring no failure that may pass.
Then all their orders are different. -/
theorem Run.ordered_once (hs : ofSettings s culling coverage = .ok start) (h : start.Run past p)
    {camera : κ} {now : Instant} {rest : List (Call κ × Turn τ κ)}
    (h' : p.Run ((.updateCamera camera now, t) :: rest) p')
    (hview : ∀ e ∈ rest, e.1.reviews = true →
      ∀ q, q ∈ e.2.pipeline.holdings.desired ↔ q ∈ t.pipeline.holdings.desired)
    (hcalm : ∀ e ∈ rest, e.1.isTransient = false) :
    (((.updateCamera camera now, t) :: rest).flatMap fun e => e.2.effects.fetches).Nodup := by
  have hsteady : p'.Steady (· ∈ t.pipeline.holdings.desired)
      ((.updateCamera camera now, t) :: rest) := by
    refine h.steady hs h' ?_ ?_ ?_
    · rintro e ⟨⟩
      rfl
    · intro e he
      rcases List.mem_cons.mp he with rfl | he
      · exact fun _ q => Iff.rfl
      · exact hview e he
    · intro e he
      rcases List.mem_cons.mp he with rfl | he
      · rfl
      · exact hcalm e he
  have hstarts := (List.nodup_append.mp hsteady.course).1
  rw [startsIn_journalOf, List.nodup_flatMap] at hstarts
  have horders : ∀ e ∈ (.updateCamera camera now, t) :: rest, ∀ f,
      f ∈ e.2.effects.fetches ↔ ∃ quad ∈ startsIn e.2.journal, start.Needs quad f :=
    fun e he => (h.append h').mem_fetches hs (List.mem_append_right _ he)
  refine List.nodup_flatMap.mpr ⟨fun e he => ?_, hstarts.2.imp_of_mem ?_⟩
  · obtain ⟨before, after, q, -, hbefore, hcall⟩ := h'.of_mem he
    exact nodup_fetches_call ((h.append hbefore).owes hs) hcall
  · -- a fetch belongs to one quad, and that is started in one call
    intro e e' he he' hdisjoint f hf hf'
    obtain ⟨quad, hstarted, hparent, -⟩ := (horders e he f).mp hf
    obtain ⟨quad', hstarted', hparent', -⟩ := (horders e' he' f).mp hf'
    rw [hparent, Option.some.injEq] at hparent'
    subst hparent'
    exact hdisjoint hstarted hstarted'

/-! ### A quad that is refused and desired still -/

/-- Room for one quad, one enabled layer, and one token a second. -/
def congested : StreamSettings := { cramped with maxRequestsPerSecond := 1.0 }

/-- A pipeline of these settings, over two levels of tiles. -/
def congestedSample : Pipeline Rat (List TileId) := atRest congested .ok (.ofDepth 1)

theorem ofSettings_congested : ofSettings congested .ok (.ofDepth 1) = .ok congestedSample := rfl

/-- The first quad takes the token, and the second one waits for another. -/
def lookAway : List (Call (List TileId)) :=
  [.updateCamera [⟨2, 0, 2⟩] ⟨0⟩, .updateCamera [⟨2, 0, 0⟩] ⟨1⟩]

/-- While the second quad and the root are in view, the second quad is cached, and the root is ordered,
answered and refused. Two more looks find it not cached. -/
def refusedRoot : List (Call (List TileId)) :=
  [.poll ⟨1000000001⟩, .poll ⟨2000000002⟩, .deliver ⟨1, 0, 0⟩ .height (.ok [1]) ⟨2000000003⟩,
    .deliver ⟨1, 1, 0⟩ .height (.error .notFound) ⟨2000000004⟩,
    .deliver ⟨1, 0, 1⟩ .height (.ok [2]) ⟨2000000005⟩,
    .deliver ⟨1, 1, 1⟩ .height (.ok [3]) ⟨2000000006⟩,
    .updateCamera [⟨2, 0, 0⟩, ⟨1, 0, 0⟩] ⟨3000000000⟩, .setOnline false ⟨3000000001⟩,
    .setOnline true ⟨3000000002⟩]

theorem Run.ordered_once_congested : ∃ (past : List (_ × _)) (p : Pipeline Rat (List TileId))
    (t : Turn Rat (List TileId)) (rest : List (_ × _)) (p' : Pipeline Rat (List TileId)),
    congestedSample.Run past p ∧ past.map (·.1) = lookAway ∧
    p.Run ((.updateCamera [⟨2, 0, 0⟩, ⟨1, 0, 0⟩] ⟨2⟩, t) :: rest) p' ∧
    rest.map (·.1) = refusedRoot ∧
    (((.updateCamera [⟨2, 0, 0⟩, ⟨1, 0, 0⟩] ⟨2⟩, t) :: rest).flatMap
      fun e => e.2.effects.refused) = [⟨0, 0, 0⟩] ∧
    (∀ e ∈ rest, e.1.reviews = true →
      ∀ q, q ∈ e.2.pipeline.holdings.desired ↔ q ∈ t.pipeline.holdings.desired) ∧
    (∀ e ∈ rest, e.1.isTransient = false) ∧
    (((.updateCamera [⟨2, 0, 0⟩, ⟨1, 0, 0⟩] ⟨2⟩, t) :: rest).flatMap
      fun e => e.2.effects.fetches).length = 4 ∧
    (((.updateCamera [⟨2, 0, 0⟩, ⟨1, 0, 0⟩] ⟨2⟩, t) :: rest).flatMap
      fun e => e.2.effects.fetches).Nodup := by
  have hplay : (congestedSample.replay lookAway).map (fun r =>
      (r.2.replay (.updateCamera [⟨2, 0, 0⟩, ⟨1, 0, 0⟩] ⟨2⟩ :: refusedRoot)).map fun r =>
        (r.1.all fun e => e.2.pipeline.holdings.desired == [⟨1, 0, 0⟩, ⟨0, 0, 0⟩],
          r.1.flatMap (fun e => e.2.effects.refused),
          (r.1.flatMap fun e => e.2.effects.fetches).length)) =
      .ok (.ok (true, [⟨0, 0, 0⟩], 4)) := by decide +kernel
  obtain ⟨past, p, hpast, hbefore, hrest⟩ := exists_run_of_replay hplay
  obtain ⟨further, p', hfurther, hcalls, hout⟩ := exists_run_of_replay hrest
  simp only [Prod.mk.injEq, List.all_eq_true, beq_iff_eq] at hout
  obtain ⟨hdesired, hrefused, hcount⟩ := hout
  obtain ⟨⟨c, t⟩, rest, rfl, rfl, hrestcalls⟩ := List.map_eq_cons_iff.mp hcalls
  have hview : ∀ e ∈ rest, e.1.reviews = true →
      ∀ q, q ∈ e.2.pipeline.holdings.desired ↔ q ∈ t.pipeline.holdings.desired := by
    intro e he _ q
    rw [hdesired e (List.mem_cons_of_mem _ he), hdesired _ List.mem_cons_self]
  have hcalm : ∀ e ∈ rest, e.1.isTransient = false := by
    intro e he
    have hmem : e.1 ∈ refusedRoot := hrestcalls ▸ List.mem_map_of_mem he
    have hall : ∀ c ∈ refusedRoot, c.isTransient = false := by decide
    exact hall e.1 hmem
  exact ⟨past, p, t, rest, p', hpast, hbefore, hfurther, hrestcalls, hrefused, hview, hcalm, hcount,
    Run.ordered_once ofSettings_congested hpast hfurther hview hcalm⟩

end Pipeline

end TileStream
