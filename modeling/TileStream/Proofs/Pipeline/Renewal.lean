import TileStream.Proofs.Pipeline.Passage

/-! # No quad is loaded anew without need

A fetch that was ordered before is ordered again only when its quad is started again. The quad was being
loaded after the first order, and a quad that is known is not accepted, so in between it was finished
(`Pipeline.Finishes`), and only then did it ask for a slot again. A look lets it ask only when it is due
(`Holdings.Due`): it is not cached, since its record was refused or has given way to another, or the
record that is cached lost a layer to the network and is old enough.

Between the two orders the camera may move away and back, and the quad may wait, be dropped and wait
again. So the moments are found from the ends of the run: the quad is finished when it is not being loaded
for the first time since the first order (`Run.stays_or_leaves`), and it asked when it was accepted for
the last time before the second (`Run.asked_of_started`). -/

namespace TileStream

namespace Holdings

variable {h h' : Holdings} {retry : Duration} {quad : QuadId} {now : Instant}

/-- **The quad may be loaded.** It is not cached, or what is cached of it lost a layer to the network,
and since it came at least that time has passed. -/
def Due (h : Holdings) (retry : Duration) (now : Instant) (quad : QuadId) : Prop :=
  h.cache.get? quad = none ∨ ∃ record at_, h.cache.get? quad = some record ∧
    record.hasNetworkFailure = true ∧ h.cache.receivedAt? quad = some at_ ∧
    retry.nanos ≤ (now.since at_).nanos

theorem due_of_isWanted {pinnedFull : Bool} (hw : h.isWanted pinnedFull now quad = true) :
    h.Due h.failedQuadRetry now quad := by
  unfold isWanted at hw
  cases hget : h.cache.get? quad with
  | none => exact .inl hget
  | some record =>
    rw [hget] at hw
    unfold isStale at hw
    obtain ⟨hfailed, hold⟩ := Bool.and_eq_true_iff.mp hw
    cases hat : h.cache.receivedAt? quad with
    | none => rw [hat] at hold; cases hold
    | some at_ =>
      rw [hat] at hold
      exact .inr ⟨record, at_, hget, hfailed, hat, of_decide_eq_true hold⟩

/-- Seeing quads does not make one due. -/
theorem Due.of_entries (hd : h'.Due retry now quad) (hsame : h'.cache.entries = h.cache.entries) :
    h.Due retry now quad := by
  unfold Due QuadCache.get? QuadCache.receivedAt? at *
  rwa [hsame] at hd

end Holdings

namespace Pipeline

variable {τ κ : Type} {p p' : Pipeline τ κ} {c : Call κ} {t : Turn τ κ} {tasks : List Task}
  {quad : QuadId} {calls : List (Call κ × Turn τ κ)}

/-- A quad waits for a slot or for a token. -/
def Waits (p : Pipeline τ κ) (quad : QuadId) : Prop := quad ∈ p.bucket.pending ++ p.slots.queue

/-! ### How calls begin -/

/-- A call begins with the same records in the cache. -/
theorem cache_open (ho : p.Opens c t tasks) :
    t.pipeline.holdings.cache.entries = p.holdings.cache.entries ∧
      t.pipeline.holdings.cache.capacity = p.holdings.cache.capacity ∧
      t.pipeline.holdings.failedQuadRetry = p.holdings.failedQuadRetry := by
  cases ho with
  | look hl | resume _ _ hl =>
    obtain ⟨_, _, _, _, hv, rfl, _⟩ := hl
    obtain ⟨-, ⟨residents, rfl⟩, -⟩ := Holdings.view_eq_ok hv
    exact ⟨QuadCache.entries_foldl_touch _ _ _, QuadCache.capacity_foldl_touch _ _ _, rfl⟩
  | answer | poll | heed => exact ⟨rfl, rfl, rfl⟩

variable [TokenArithmetic τ]

/-! ### What holds between the calls -/

theorem retry_call (hc : p.call c = .ok t) :
    t.pipeline.holdings.failedQuadRetry = p.holdings.failedQuadRetry := by
  obtain ⟨t₀, tasks, ho, hs⟩ := steps_call hc
  obtain ⟨cache, residents, hh⟩ := holdings_steps hs
  rw [show t.pipeline.holdings = _ from hh]
  exact (cache_open ho).2.2

/-- **A quad that is accepted is due.** -/
theorem due_of_accepted (ha : p.Agrees []) (hc : p.call c = .ok t)
    (hq : quad ∈ acceptsIn t.journal) : (p.looksAt? c).isSome = true ∧
      p.holdings.Due p.holdings.failedQuadRetry c.now quad := by
  obtain ⟨t₀, tasks, ho, -, hsubmit⟩ := asks_of_accepted ha hc hq
  obtain ⟨hlook, -, -, hwanted⟩ := ho.asks hsubmit
  obtain ⟨hentries, -, hretry⟩ := cache_open ho
  have hdue := Holdings.due_of_isWanted hwanted
  rw [hretry] at hdue
  exact ⟨hlook, hdue.of_entries hentries⟩

/-- Who waits after a call or was started in it waited before or is accepted. -/
theorem waits_or_accepted (ha : p.Agrees []) (hc : p.call c = .ok t)
    (hq : quad ∈ startsIn t.journal ∨ t.pipeline.Waits quad) :
    p.Waits quad ∨ quad ∈ acceptsIn t.journal := by
  have hmem : quad ∈ startsIn t.journal ++ (t.pipeline.bucket.pending ++ t.pipeline.slots.queue) :=
    List.mem_append.mpr hq
  rw [course_call ha hc, List.mem_append, List.mem_append] at hmem
  rcases hmem with (hpending | hqueue) | haccepted
  · exact .inl (List.mem_append_left _ hpending)
  · exact .inl (List.mem_append_right _ (List.mem_of_mem_filter hqueue))
  · exact .inr haccepted

omit [TokenArithmetic τ] in
theorem Agrees.of_waits (ha : p.Agrees []) (hw : p.Waits quad) : p.slots.contains quad = true := by
  rw [ha.consistent.known]
  rcases List.mem_append.mp hw with hpending | hqueue
  · exact .inr (.inl hpending)
  · exact .inl hqueue

omit [TokenArithmetic τ] in
/-- A quad that is being loaded is known, and it waits no more. -/
theorem Agrees.of_isLoading (ha : p.Agrees []) (hload : p.quads.isLoading quad = true) :
    p.slots.contains quad = true ∧ ¬ p.Waits quad := by
  have hstage := (ha.assembling quad).mpr (.inl hload)
  refine ⟨Slots.contains_of_stage? hstage, fun hw => ?_⟩
  rcases List.mem_append.mp hw with hpending | hqueue
  · rw [(ha.consistent.rateLimited quad).mpr hpending] at hstage
    cases hstage
  · rw [(ha.consistent.queued quad).mpr hqueue] at hstage
    cases hstage

/-! ### Moments of a run -/

theorem Run.agrees_of (h : p.Run calls p') (ha : p.Agrees []) : p'.Agrees [] :=
  h.keeps ha agrees_open agrees_step

theorem Run.retry (h : p.Run calls p') :
    p'.holdings.failedQuadRetry = p.holdings.failedQuadRetry := by
  induction h with
  | rest => rfl
  | call _ hc ih => exact (retry_call hc).trans ih

/-- **The last time that a quad was accepted** in some calls. -/
def AskedIn (p : Pipeline τ κ) (calls : List (Call κ × Turn τ κ)) (quad : QuadId) : Prop :=
  ∃ past q c t rest, calls = past ++ (c, t) :: rest ∧ p.Run past q ∧ q.call c = .ok t ∧
    quad ∈ acceptsIn t.journal ∧ ∀ e ∈ rest, quad ∉ acceptsIn e.2.journal

/-- Who waits or is started in the last call was accepted in it, or waited before it. -/
theorem Run.asked_concat (h : p.Run calls p') (ha : p.Agrees []) (hc : p'.call c = .ok t)
    (hq : quad ∈ startsIn t.journal ∨ t.pipeline.Waits quad)
    (hwaited : p'.Waits quad → p.AskedIn calls quad) : p.AskedIn (calls ++ [(c, t)]) quad := by
  by_cases haccepted : quad ∈ acceptsIn t.journal
  · exact ⟨calls, p', c, t, [], rfl, h, hc, haccepted, List.forall_mem_nil _⟩
  · have hw := (waits_or_accepted (h.agrees_of ha) hc hq).resolve_right haccepted
    obtain ⟨past, q, c', t', rest, rfl, hpast, hc', hin, hrest⟩ := hwaited hw
    have hlater : ∀ e ∈ rest ++ [(c, t)], quad ∉ acceptsIn e.2.journal :=
      List.forall_mem_append.mpr ⟨hrest, List.forall_mem_singleton.mpr haccepted⟩
    exact ⟨past, q, c', t', rest ++ [(c, t)], by simp, hpast, hc', hin, hlater⟩

/-- A quad that waits now and did not at first was accepted on the way. -/
theorem Run.asked_of_waits (h : p.Run calls p') (ha : p.Agrees []) (hnot : ¬ p.Waits quad)
    (hw : p'.Waits quad) : p.AskedIn calls quad := by
  induction h with
  | rest => exact absurd hw hnot
  | call hrun hc ih => exact hrun.asked_concat ha hc (.inr hw) ih

/-- So was a quad that is started and was being loaded at first. -/
theorem Run.asked_of_started (h : p.Run calls p') (ha : p.Agrees [])
    (hload : p.quads.isLoading quad = true) (hc : p'.call c = .ok t)
    (hstarted : quad ∈ startsIn t.journal) : p.AskedIn (calls ++ [(c, t)]) quad :=
  h.asked_concat ha hc (.inl hstarted) (h.asked_of_waits ha (ha.of_isLoading hload).2)

/-- **The first time that a quad is not being loaded after a call,** having been so at first. -/
def LeavesIn (p : Pipeline τ κ) (calls : List (Call κ × Turn τ κ)) (p' : Pipeline τ κ)
    (quad : QuadId) : Prop :=
  ∃ mid q c t wait, calls = mid ++ (c, t) :: wait ∧ p.Run mid q ∧ q.call c = .ok t ∧
    t.pipeline.Run wait p' ∧ (∀ e ∈ mid, e.2.pipeline.quads.isLoading quad = true) ∧
    q.quads.isLoading quad = true ∧ t.pipeline.quads.isLoading quad = false

theorem Run.stays_or_leaves (h : p.Run calls p') (hload : p.quads.isLoading quad = true) :
    (p'.quads.isLoading quad = true ∧ ∀ e ∈ calls, e.2.pipeline.quads.isLoading quad = true) ∨
      p.LeavesIn calls p' quad := by
  induction h with
  | rest => exact .inl ⟨hload, fun e he => by cases he⟩
  | @call calls q c t hrun hc ih =>
    rcases ih with ⟨hq, hall⟩ | ⟨mid, q', c', t', wait, rfl, hmid, hc', hwait, hrest⟩
    · cases ht : t.pipeline.quads.isLoading quad with
      | true =>
        exact .inl ⟨rfl, List.forall_mem_append.mpr ⟨hall, List.forall_mem_singleton.mpr ht⟩⟩
      | false => exact .inr ⟨calls, q, c, t, [], rfl, hrun, hc, .rest, hall, hq, ht⟩
    · exact .inr ⟨mid, q', c', t', wait ++ [(c, t)], by simp, hmid, hc', hwait.call hc, hrest⟩

/-! ### Fetches that are ordered again -/

variable {s : StreamSettings} {culling : Culling κ} {coverage : Coverage} {start : Pipeline τ κ}
  {past : List (Call κ × Turn τ κ)}

/-- **A fetch is ordered again only when its quad is due.** No call orders a fetch twice. When two calls
order the same fetch, its quad is being loaded from the first call until a call in between finishes it;
after that, and no later than in the second call, a look has it accepted anew, for the last time before
the second order, and at that look it is due. -/
theorem Run.reordered_when_due (hs : ofSettings s culling coverage = .ok start)
    (h : start.Run past p) (hc : p.call c = .ok t) :
    t.effects.fetches.Nodup ∧
    ∀ between p' c' t' f, t.pipeline.Run between p' → p'.call c' = .ok t' →
      f ∈ t.effects.fetches → f ∈ t'.effects.fetches →
      ∃ quad, f.tile.parent? = some quad ∧ ∃ mid p₁ c₁ t₁ wait p₂ c₂ t₂ rest,
        between ++ [(c', t')] = mid ++ (c₁, t₁) :: (wait ++ (c₂, t₂) :: rest) ∧
        t.pipeline.Run mid p₁ ∧ p₁.call c₁ = .ok t₁ ∧ t₁.pipeline.Run wait p₂ ∧
        p₂.call c₂ = .ok t₂ ∧
        (∀ e ∈ (c, t) :: mid, e.2.pipeline.quads.isLoading quad = true) ∧
        p₁.Finishes c₁ t₁ quad ∧
        quad ∈ acceptsIn t₂.journal ∧ (∀ e ∈ rest, quad ∉ acceptsIn e.2.journal) ∧
        (p₂.looksAt? c₂).isSome = true ∧ p₂.holdings.Due s.failedQuadRetry c₂.now quad := by
  have ha := (h.agrees hs).1
  refine ⟨nodup_fetches_call (h.owes hs) hc, fun between p' c' t' f hbetween hc' hf hf' => ?_⟩
  have ht : t.pipeline.Agrees [] := (agrees_call ha hc).1
  obtain ⟨quad, -, hparent, -⟩ := (mem_fetches_call ha hc f).mp hf
  obtain ⟨quad', hstarted, hparent', -⟩ := (mem_fetches_call (hbetween.agrees_of ht) hc' f).mp hf'
  obtain rfl : quad' = quad := Option.some.inj (hparent'.symm.trans hparent)
  have hload := loading_of_fetch ha (h.owes hs) hc hf hparent
  -- the last time that it asked before it was started again
  obtain ⟨before, p₂, c₂, t₂, rest, hcalls, hbefore, hc₂, haccepted, hrest⟩ :=
    hbetween.asked_of_started ht hload hc' hstarted
  have ha₂ := hbefore.agrees_of ht
  have hidle : p₂.quads.isLoading quad' = false := by
    by_contra hne
    have hknown := (ha₂.of_isLoading (Bool.not_eq_false _ ▸ hne)).1
    rw [fresh_of_accepted ha₂ hc₂ haccepted] at hknown
    cases hknown
  -- the first time that it was finished before that
  rcases hbefore.stays_or_leaves hload with ⟨hstill, -⟩ |
    ⟨mid, p₁, c₁, t₁, wait, rfl, hmid, hc₁, hwait, hall, hload₁, hleft⟩
  · rw [hidle] at hstill
    cases hstill
  · obtain ⟨hlook, hdue⟩ := due_of_accepted ha₂ hc₂ haccepted
    have hretry : p₂.holdings.failedQuadRetry = s.failedQuadRetry := by
      obtain ⟨-, rfl⟩ := eq_of_ofSettings hs
      exact ((h.call hc).append hbefore).retry
    exact ⟨quad', hparent, mid, p₁, c₁, t₁, wait, p₂, c₂, t₂, rest, by simpa using hcalls, hmid,
      hc₁, hwait, hc₂, List.forall_mem_cons.mpr ⟨hload, hall⟩, finishes_call (hmid.agrees_of ht) hc₁ hload₁ hleft,
      haccepted, hrest, hlook, hretry ▸ hdue⟩

/-! ### A quad that gives way to another -/

/-- One layer is enabled, and there is room for one quad. -/
def cramped : StreamSettings :=
  { StreamSettings.standard with ramQuadLimit := 1, enabledLayers := LayerSet.empty.insert .height }

/-- A pipeline of these settings, over two levels of tiles. -/
def crampedSample : Pipeline Rat (List TileId) := atRest cramped .ok (.ofDepth 1)

theorem ofSettings_cramped : ofSettings cramped .ok (.ofDepth 1) = .ok crampedSample := rfl

/-- The answers to the fetches of the root, and a look at a quad that is empty and takes its place. -/
def rootAndAway : List (Call (List TileId)) :=
  [.deliver ⟨1, 0, 0⟩ .height (.ok [1]) ⟨1⟩, .deliver ⟨1, 1, 0⟩ .height (.error .notFound) ⟨2⟩,
    .deliver ⟨1, 0, 1⟩ .height (.ok [2]) ⟨3⟩, .deliver ⟨1, 1, 1⟩ .height (.ok [3]) ⟨4⟩,
    .updateCamera [⟨2, 0, 0⟩] ⟨5⟩]

/-- Back at the root its fetches are ordered again. -/
theorem Run.reordered_when_due_cramped : ∃ (t t' : Turn Rat (List TileId)) (between : List _)
    (p' p₁ p₂ : Pipeline Rat (List TileId)) (f : Fetch) (quad : QuadId) (e₁ e₂ : _ × _),
    crampedSample.call (.updateCamera [⟨1, 0, 0⟩] ⟨0⟩) = .ok t ∧
    t.pipeline.Run between p' ∧ between.map (·.1) = rootAndAway ∧
    p'.call (.updateCamera [⟨1, 0, 0⟩] ⟨6⟩) = .ok t' ∧
    f ∈ t.effects.fetches ∧ f ∈ t'.effects.fetches ∧ f.tile.parent? = some quad ∧
    e₁ ∈ between ++ [(.updateCamera [⟨1, 0, 0⟩] ⟨6⟩, t')] ∧ p₁.Finishes e₁.1 e₁.2 quad ∧
    e₂ ∈ between ++ [(.updateCamera [⟨1, 0, 0⟩] ⟨6⟩, t')] ∧ quad ∈ acceptsIn e₂.2.journal ∧
    p₂.holdings.Due cramped.failedQuadRetry e₂.1.now quad := by
  have hplay : (crampedSample.call (.updateCamera [⟨1, 0, 0⟩] ⟨0⟩)).map (fun t =>
      (t.effects.fetches.contains ⟨⟨1, 0, 0⟩, .height⟩, (t.pipeline.replay rootAndAway).map fun r =>
        (r.2.call (.updateCamera [⟨1, 0, 0⟩] ⟨6⟩)).map
          (·.effects.fetches.contains ⟨⟨1, 0, 0⟩, .height⟩))) =
      .ok (true, .ok (.ok true)) := by decide +kernel
  cases hc : crampedSample.call (.updateCamera [⟨1, 0, 0⟩] ⟨0⟩) with
  | error e => rw [hc] at hplay; cases hplay
  | ok t =>
    rw [hc] at hplay
    obtain ⟨hf, hreplay⟩ := Prod.mk.inj (Except.ok.inj hplay)
    obtain ⟨between, p', hbetween, hcalls, hlast⟩ := exists_run_of_replay hreplay
    cases hc' : p'.call (.updateCamera [⟨1, 0, 0⟩] ⟨6⟩) with
    | error e => rw [hc'] at hlast; cases hlast
    | ok t' =>
      rw [hc'] at hlast
      have hf' := Except.ok.inj hlast
      rw [List.contains_iff_mem] at hf hf'
      obtain ⟨-, hagain⟩ := Run.reordered_when_due ofSettings_cramped .rest hc
      obtain ⟨quad, hparent, mid, p₁, c₁, t₁, wait, p₂, c₂, t₂, rest, hall, -, -, -, -, -, hfin,
        haccepted, -, -, hdue⟩ := hagain between p' _ t' _ hbetween hc' hf hf'
      refine ⟨t, t', between, p', p₁, p₂, _, quad, (c₁, t₁), (c₂, t₂), rfl, hbetween, hcalls, hc', hf,
        hf', hparent, ?_, hfin, ?_, haccepted, hdue⟩
      · rw [hall]
        simp
      · rw [hall]
        simp

end Pipeline

end TileStream
