import TileStream.Proofs.Pipeline.Demand
import TileStream.Proofs.Pipeline.Ledger
import TileStream.Proofs.Pipeline.Mirror
import TileStream.Service.Actor

/-! # No message of the service goes astray

The actor, the holder of the handle, the receiver of the deltas and the fetches move in any order, and
much is on its way between them at any time. A run of the service is any sequence of their moves, told
by what can be seen of it from outside (`Service.Event`).

Only the actor's moves touch the pipeline, each with one call, so the pipeline of a service is always
one that a run of the pipeline leads to. What the ledger of that run lists is running or among the
results, and the deltas of that run have been received or are on their way, but for the empty ones
(`Service.Tracks`). So what is said about all runs of the pipeline holds for every interleaving, which
`Service.Run.messages_exact` spells out.

* `Tracks.calls`: a call of the pipeline and what the actor does after it keep this.
* `tracks_step`: so do all moves.
* `step_of_act?`: what the actor chooses to do is among the moves. -/

namespace TileStream

/-! ### A call from outside -/

/-- The camera that a call moves to. -/
def Call.camera? {κ : Type} : Call κ → Option κ
  | updateCamera camera _ => some camera
  | _ => none

namespace TileJoins

variable {a : TileJoins} {out out' : List Fetch}

/-- It does not matter in which order the fetches are listed. -/
theorem Owes.perm (h : a.Owes out) (hp : out.Perm out') : a.Owes out' :=
  ⟨hp.nodup_iff.mp h.nodup, fun f => hp.mem_iff.symm.trans (h.mem f)⟩

end TileJoins

namespace Renderer

theorem apply_of_isEmpty {m : Renderer} {d : ResidencyDelta} (h : d.isEmpty = true) :
    m.apply d = m := by
  obtain ⟨removed, added⟩ := d
  simp only [ResidencyDelta.isEmpty, Bool.and_eq_true, List.isEmpty_iff] at h
  obtain ⟨rfl, rfl⟩ := h
  rfl

theorem applyAll_append (m : Renderer) (ds ds' : List ResidencyDelta) :
    m.applyAll (ds ++ ds') = (m.applyAll ds).applyAll ds' :=
  List.foldl_append

end Renderer

namespace Pipeline

variable {τ κ : Type} [TokenArithmetic τ] {p : Pipeline τ κ}

/-- The camera of a pipeline is the last one that it was moved to. -/
theorem camera_call {c : Call κ} {t : Turn τ κ} (hc : p.call c = .ok t) :
    t.pipeline.camera = c.camera?.or p.camera := by
  obtain ⟨t₀, tasks, ho, hs⟩ := steps_call hc
  have hsame : t.pipeline.camera = t₀.pipeline.camera :=
    Turn.Steps.keeps (I := fun w => w.1.pipeline.camera = t₀.pipeline.camera)
      (fun hi hstep => (holdings_step hstep).2.trans hi) hs rfl
  rw [hsame]
  cases ho with
  | look hl =>
    obtain ⟨_, _, _, _, _, rfl, _⟩ := hl
    rfl
  | resume _ hcam hl =>
    obtain ⟨_, _, _, _, _, rfl, _⟩ := hl
    exact hcam.symm
  | answer | poll | heed => rfl

end Pipeline

namespace Service

variable {τ κ : Type}

/-! ### What is seen from outside -/

namespace Event

/-- The camera that was shown. -/
def shown? : Event κ → Option κ
  | shown camera => some camera
  | _ => none

/-- The camera that was looked at. -/
def seen? : Event κ → Option κ
  | seen camera => some camera
  | _ => none

/-- The delta that was received. -/
def received? : Event κ → Option ResidencyDelta
  | received delta => some delta
  | _ => none

end Event

/-- The cameras that were shown to the service, in order. -/
def shownIn (events : List (Event κ)) : List κ := events.filterMap Event.shown?

/-- The cameras that the actor looked at, in order. -/
def seenIn (events : List (Event κ)) : List κ := events.filterMap Event.seen?

/-- The deltas that were received, in order. -/
def receivedIn (events : List (Event κ)) : List ResidencyDelta := events.filterMap Event.received?

theorem shownIn_concat (events : List (Event κ)) (e : Event κ) :
    shownIn (events ++ [e]) = shownIn events ++ e.shown?.toList := by
  cases e <;> simp [shownIn, Event.shown?]

theorem seenIn_concat (events : List (Event κ)) (e : Event κ) :
    seenIn (events ++ [e]) = seenIn events ++ e.seen?.toList := by
  cases e <;> simp [seenIn, Event.seen?]

theorem receivedIn_concat (events : List (Event κ)) (e : Event κ) :
    receivedIn (events ++ [e]) = receivedIn events ++ e.received?.toList := by
  cases e <;> simp [receivedIn, Event.received?]

/-! ### What is under way -/

/-- The fetches that were started and whose result the actor has not taken. -/
def underWay (s : Service τ κ) : List Fetch := s.running ++ s.results.map (·.1)

theorem resolve_eq {s : Service τ κ} {fetch : Fetch} (outcome : Outcome)
    (hruns : fetch ∈ s.running) : s.resolve fetch outcome =
      { s with running := s.running.erase fetch, results := s.results ++ [(fetch, outcome)] } :=
  if_pos (List.contains_iff_mem.mpr hruns)

/-- A fetch that ends is under way until its result is taken. -/
theorem underWay_resolve {s : Service τ κ} {fetch : Fetch} (outcome : Outcome)
    (hruns : fetch ∈ s.running) : s.underWay.Perm (s.resolve fetch outcome).underWay := by
  have hends : s.running.Perm (fetch :: s.running.erase fetch) := List.perm_cons_erase hruns
  rw [resolve_eq outcome hruns]
  unfold underWay
  rw [List.map_append, ← List.append_assoc]
  refine (hends.append_right _).trans ?_
  rw [List.cons_append]
  exact (List.perm_append_singleton _ _).symm

/-- A taken result is not under way any more. -/
theorem underWay_take {s : Service τ κ} {fetch : Fetch} {outcome : Outcome} {now : Instant}
    {results : List (Fetch × Outcome)} (hnodup : s.underWay.Nodup)
    (hfirst : s.results = (fetch, outcome) :: results) :
    (s.underWay.filter fun f =>
      !(Call.deliver (κ := κ) fetch.tile fetch.layer outcome now).answers f).Perm
      (s.running ++ results.map (·.1)) := by
  have hfront : s.underWay.Perm (fetch :: (s.running ++ results.map (·.1))) := by
    unfold underWay
    rw [hfirst]
    exact List.perm_middle
  have hout := (List.nodup_cons.mp (hfront.nodup_iff.mp hnodup)).1
  refine (hfront.filter _).trans ?_
  rw [List.filter_cons_of_neg (by simp [Call.answers]), List.filter_eq_self.mpr]
  intro f hf
  have hne : f ≠ fetch := fun he => hout (he ▸ hf)
  simp [Call.answers, hne]

variable [TokenArithmetic τ]

/-! ### What the actor does after a call -/

theorem setAlarm_eq_ok {s s' : Service τ κ} {now : Instant} (h : s.setAlarm now = .ok s') :
    ∃ alarm, s' = { s with alarm } := by
  unfold setAlarm at h
  split at h
  · cases hn : s.pipeline.nextDispatchAt now with
    | error e => rw [hn] at h; cases h
    | ok alarm =>
      rw [hn] at h
      exact ⟨alarm, (Except.ok.inj h).symm⟩
  · exact ⟨s.alarm, (Except.ok.inj h).symm⟩

/-- **What the actor does after a call.** Unless it stops, the fetches run and the delta is on its way,
if there is anything in it. -/
theorem absorb_eq_ok {s s' : Service τ κ} {t : Turn τ κ} {now : Instant}
    (h : s.absorb t now = .ok s') :
    s'.pipeline = t.pipeline ∧ s'.camera = s.camera ∧ s'.isHeard = s.isHeard ∧
      (s'.isActive = true → s.isActive = true ∧ s'.running = s.running ++ t.effects.fetches ∧
        s'.results = s.results ∧ (s.isHeard = true → s'.deltas = s.deltas ++
          if t.effects.delta.isEmpty then [] else [t.effects.delta])) := by
  obtain ⟨alarm, rfl⟩ := setAlarm_eq_ok h
  unfold send
  by_cases hempty : t.effects.delta.isEmpty = true
  · rw [if_pos hempty, if_pos hempty, List.append_nil]
    exact ⟨rfl, rfl, rfl, fun hactive => ⟨hactive, rfl, rfl, fun _ => rfl⟩⟩
  · rw [if_neg hempty, if_neg hempty]
    by_cases hheard : s.isHeard = true
    · rw [if_pos hheard]
      exact ⟨rfl, rfl, rfl, fun hactive => ⟨hactive, rfl, rfl, fun _ => rfl⟩⟩
    · rw [if_neg hheard]
      exact ⟨rfl, rfl, rfl, fun hactive => by cases hactive⟩

/-- The actor calls the pipeline and acts on the answer. -/
def Calls (s : Service τ κ) (c : Call κ) (s' : Service τ κ) : Prop :=
  ∃ t now, s.pipeline.call c = .ok t ∧ s.absorb t now = .ok s'

theorem calls_of_bind {s s' : Service τ κ} {c : Call κ} {now : Instant}
    (h : (do s.absorb (← s.pipeline.call c) now) = .ok s') : s.Calls c s' := by
  cases hc : s.pipeline.call c with
  | error e => rw [hc] at h; cases h
  | ok t =>
    rw [hc] at h
    exact ⟨t, now, hc, h⟩

/-! ### Cameras -/

/-- **The cameras keep their order.** The one that waits was shown after those that were looked at, and
the pipeline has the last of these. -/
structure Watches (events : List (Event κ)) (s : Service τ κ) : Prop where
  waits : (seenIn events ++ s.camera.toList).Sublist (shownIn events)
  last : s.pipeline.camera = (seenIn events).getLast?

variable {events : List (Event κ)} {s s' : Service τ κ} {e : Event κ}

theorem camera_of_calls {c : Call κ} (h : s.Calls c s') : s'.camera = s.camera ∧
    s'.pipeline.camera = c.camera?.or s.pipeline.camera := by
  obtain ⟨t, now, hc, hdone⟩ := h
  obtain ⟨hpipe, hcam, -⟩ := absorb_eq_ok hdone
  exact ⟨hcam, hpipe ▸ Pipeline.camera_call hc⟩

omit [TokenArithmetic τ] in
/-- A move that concerns no camera. -/
theorem Watches.mono (h : Watches events s) (hshown : e.shown? = none) (hseen : e.seen? = none)
    (hcam : s'.camera = s.camera) (hpipe : s'.pipeline.camera = s.pipeline.camera) :
    Watches (events ++ [e]) s' := by
  have hnone : seenIn (events ++ [e]) = seenIn events := by
    rw [seenIn_concat, hseen, Option.toList_none, List.append_nil]
  refine ⟨?_, by rw [hpipe, hnone, h.last]⟩
  rw [shownIn_concat, hshown, hnone, hcam, Option.toList_none, List.append_nil]
  exact h.waits

theorem watches_step (h : Watches events s) (hstep : Step s e s') : Watches (events ++ [e]) s' := by
  cases hstep with
  | point camera =>
    have hnone : seenIn (events ++ [.shown camera]) = seenIn events := by
      rw [seenIn_concat]
      exact List.append_nil _
    refine ⟨?_, by rw [hnone]; exact h.last⟩
    -- a camera that was not looked at yet is lost
    have hlost : (seenIn events).Sublist (shownIn events) :=
      (List.sublist_append_left _ _).trans h.waits
    rw [hnone, shownIn_concat]
    exact hlost.append_right [camera]
  | look _ camera now active fresh done =>
    have hcalls := calls_of_bind (c := .updateCamera camera now) done
    obtain ⟨hcam, hpipe⟩ := camera_of_calls hcalls
    have hnext : seenIn (events ++ [.seen camera]) = seenIn events ++ [camera] := seenIn_concat _ _
    have hwaits := h.waits
    refine ⟨?_, ?_⟩
    · rw [hnext, hcam, shownIn_concat]
      rw [fresh] at hwaits
      simpa [Event.shown?] using hwaits
    · rw [hnext, List.getLast?_concat]
      exact hpipe
  | tell | release | stopListening | receive | abandon => exact h.mono rfl rfl rfl rfl
  | resolve fetch outcome runs =>
    have hends := resolve_eq outcome runs
    exact h.mono rfl rfl (by rw [hends]) (by rw [hends])
  | obey _ command commands now active first done =>
    cases command with
    | stop =>
      cases done
      exact h.mono rfl rfl rfl rfl
    | setOnline online =>
      obtain ⟨hcam, hpipe⟩ :=
        camera_of_calls (calls_of_bind (c := .setOnline online now) done)
      exact h.mono rfl rfl hcam hpipe
  | take _ fetch outcome results now active first done =>
    have hcalls : Calls { s with results, meters := s.meters.countFetch fetch.layer outcome }
        (.deliver fetch.tile fetch.layer outcome now) s' := calls_of_bind done
    obtain ⟨hcam, hpipe⟩ := camera_of_calls hcalls
    exact h.mono rfl rfl hcam hpipe
  | wake _ alarm now active set due done =>
    obtain ⟨hcam, hpipe⟩ := camera_of_calls (calls_of_bind (c := .poll now) done)
    exact h.mono rfl rfl hcam hpipe

/-! ### Fetches and deltas -/

/-- **What a service has to show for a run of its pipeline.** The fetches that are out are under way, and
the deltas were received or are on their way. -/
structure Tracks (start : Pipeline τ κ) (events : List (Event κ)) (s : Service τ κ) : Prop where
  owed : s.isActive = true → s.pipeline.tiles.Owes s.underWay
  reached : ∃ past, start.Run past s.pipeline ∧ (s.isActive = true → s.isHeard = true →
    Renderer.empty.applyAll (receivedIn events ++ s.deltas) =
      Renderer.empty.applyAll (Pipeline.deltas past))

variable {start : Pipeline τ κ}

/-- A move that calls nothing. -/
theorem Tracks.mono (h : Tracks start events s) (hpipe : s'.pipeline = s.pipeline)
    (hunder : s'.isActive = true → s.isActive = true ∧ s.underWay.Perm s'.underWay)
    (hdeltas : s'.isHeard = true → s.isHeard = true ∧ e.received?.toList ++ s'.deltas = s.deltas) :
    Tracks start (events ++ [e]) s' := by
  obtain ⟨past, hrun, hmirror⟩ := h.reached
  refine ⟨fun hon => ?_, past, hpipe ▸ hrun, fun hon hhear => ?_⟩
  · obtain ⟨hactive, hperm⟩ := hunder hon
    rw [hpipe]
    exact (h.owed hactive).perm hperm
  · obtain ⟨hheard, hsame⟩ := hdeltas hhear
    rw [receivedIn_concat, List.append_assoc, hsame]
    exact hmirror (hunder hon).1 hheard

/-- **A call of the actor.** It makes the call from a state `u` in which it has picked up what it makes
the call for: a result that it takes is not under way any more. -/
theorem Tracks.calls {u : Service τ κ} {c : Call κ} (h : Tracks start events s)
    (hcalls : u.Calls c s') (hpipe : u.pipeline = s.pipeline) (hactive : u.isActive = s.isActive)
    (hheard : u.isHeard = s.isHeard) (hdeltas : u.deltas = s.deltas)
    (hunder : s.underWay.Nodup → (s.underWay.filter fun f => !c.answers f).Perm u.underWay)
    (hreceived : e.received? = none) : Tracks start (events ++ [e]) s' := by
  obtain ⟨t, now, hc, hdone⟩ := hcalls
  obtain ⟨hpipe', -, hheard', habsorb⟩ := absorb_eq_ok hdone
  obtain ⟨past, hrun, hmirror⟩ := h.reached
  rw [hpipe] at hc
  refine ⟨fun hon => ?_, past ++ [(c, t)], hpipe' ▸ hrun.call hc, fun hon hhear => ?_⟩
  · obtain ⟨hu, hrunning, hresults, -⟩ := habsorb hon
    have howes := h.owed (hactive ▸ hu)
    rw [hpipe']
    refine (Pipeline.owes_call howes hc).perm ?_
    unfold ledgerAfter underWay
    rw [hrunning, hresults]
    -- the new fetches go behind those that run, and so before the results
    refine ((hunder howes.nodup).append_right _).trans ?_
    rw [underWay, List.append_assoc, List.append_assoc]
    exact List.perm_append_comm.append_left _
  · obtain ⟨hu, -, -, hsent⟩ := habsorb hon
    have hs : s.isHeard = true := by rw [← hheard, ← hheard']; exact hhear
    have hlate : Pipeline.deltas (past ++ [(c, t)]) = Pipeline.deltas past ++ [t.effects.delta] :=
      List.map_append
    rw [receivedIn_concat, hreceived, hsent (hheard.trans hs), hdeltas, Option.toList_none,
      List.append_nil, ← List.append_assoc, Renderer.applyAll_append,
      hmirror (hactive ▸ hu) hs, hlate, Renderer.applyAll_append]
    split
    · next hempty => exact (Renderer.apply_of_isEmpty hempty).symm
    · rfl

/-- **Every move keeps the service on track.** -/
theorem tracks_step (h : Tracks start events s) (hstep : Step s e s') :
    Tracks start (events ++ [e]) s' := by
  -- a call that brings no result leaves under way what was
  have hsilent : ∀ c : Call κ, (∀ f, c.answers f = false) →
      (s.underWay.filter fun f => !c.answers f).Perm s.underWay := by
    intro c hc
    rw [List.filter_eq_self.mpr fun f _ => by rw [hc]; rfl]
  cases hstep with
  | point | tell | release =>
    exact h.mono rfl (fun hon => ⟨hon, .refl _⟩) fun hhear => ⟨hhear, rfl⟩
  | stopListening => exact h.mono rfl (fun hon => ⟨hon, .refl _⟩) fun hhear => by cases hhear
  | receive delta deltas heard first =>
    exact h.mono rfl (fun hon => ⟨hon, .refl _⟩) fun hhear => ⟨hhear, first.symm⟩
  | resolve fetch outcome runs =>
    have hends := resolve_eq outcome runs
    refine h.mono (by rw [hends]) (fun hon => ⟨?_, underWay_resolve outcome runs⟩)
      fun hhear => ⟨?_, by rw [hends]; rfl⟩
    · rwa [hends] at hon
    · rwa [hends] at hhear
  | obey _ command commands now active first done =>
    cases command with
    | stop =>
      cases done
      exact h.mono rfl (fun hon => by cases hon) fun hhear => ⟨hhear, rfl⟩
    | setOnline online =>
      have hcalls := calls_of_bind (c := .setOnline online now) done
      exact h.calls hcalls rfl rfl rfl rfl (fun _ => hsilent _ fun _ => rfl) rfl
  | abandon => exact h.mono rfl (fun hon => by cases hon) fun hhear => ⟨hhear, rfl⟩
  | look _ camera now active fresh done =>
    have hcalls := calls_of_bind (c := .updateCamera camera now) done
    exact h.calls hcalls rfl rfl rfl rfl (fun _ => hsilent _ fun _ => rfl) rfl
  | take _ fetch outcome results now active first done =>
    have hcalls : Calls { s with results, meters := s.meters.countFetch fetch.layer outcome }
        (.deliver fetch.tile fetch.layer outcome now) s' := calls_of_bind done
    exact h.calls hcalls rfl rfl rfl rfl (fun hnodup => underWay_take hnodup first) rfl
  | wake _ alarm now active set due done =>
    have hcalls := calls_of_bind (c := .poll now) done
    exact h.calls hcalls rfl rfl rfl rfl (fun _ => hsilent _ fun _ => rfl) rfl

/-! ### The actor's choice -/

/-- **What the actor chooses to do is one of the moves,** so whatever holds after all runs holds for an
actor that obeys first, looks then, and takes results last. It shows no camera and receives no delta. -/
theorem step_of_act? {now : Instant} (h : s.act? now = some (.ok s')) :
    ∃ e, Step s e s' ∧ e.shown? = none ∧ e.received? = none := by
  unfold act? at h
  split at h
  · cases h
  · next hactive =>
    have hactive : s.isActive = true := by simpa using hactive
    split at h
    · next _ _ _ command commands hfirst =>
      exact ⟨_, .obey s s' command commands now hactive hfirst (Option.some.inj h), rfl, rfl⟩
    · next hidle =>
      by_cases hheld : s.isHeld = true
      · rw [if_neg (by rw [hheld]; exact Bool.false_ne_true)] at h
        split at h
        · next _ _ camera hfresh =>
          exact ⟨_, .look s s' camera now hactive hfresh (Option.some.inj h), rfl, rfl⟩
        · next _ _ fetch outcome results hfresh hfirst =>
          exact ⟨_, .take s s' fetch outcome results now hactive hfirst (Option.some.inj h), rfl, rfl⟩
        · rw [Option.ite_none_right_eq_some, Option.any_eq_true] at h
          obtain ⟨⟨alarm, hset, hdue⟩, hdone⟩ := h
          exact ⟨_, .wake s s' alarm now hactive hset (of_decide_eq_true hdue)
            (Option.some.inj hdone), rfl, rfl⟩
      · rw [if_pos (by rw [Bool.eq_false_iff.mpr hheld]; rfl)] at h
        cases h
        exact ⟨_, .abandon s hactive hidle (Bool.eq_false_iff.mpr hheld), rfl, rfl⟩

/-! ### Runs -/

/-- **The moves made so far, as seen from outside, and the service they lead to.** -/
inductive Run (start : Service τ κ) : List (Event κ) → Service τ κ → Prop
  | rest : Run start [] start
  | step {events : List (Event κ)} {s s' : Service τ κ} {e : Event κ} (h : Run start events s)
    (hs : Step s e s') : Run start (events ++ [e]) s'

theorem Run.append {start : Service τ κ} {further : List (Event κ)} (h : Run start events s)
    (h' : Run s further s') : Run start (events ++ further) s' := by
  induction h' with
  | rest => rwa [List.append_nil]
  | step _ hs ih =>
    rw [← List.append_assoc]
    exact ih.step hs

variable {settings : StreamSettings} {culling : Culling κ} {coverage : Coverage}

theorem Run.tracks (hs : Pipeline.ofSettings settings culling coverage = .ok start)
    (h : Run (.ofPipeline start) events s) : Watches events s ∧ Tracks start events s := by
  induction h with
  | rest =>
    obtain ⟨-, rfl⟩ := Pipeline.eq_of_ofSettings hs
    exact ⟨⟨List.Sublist.refl _, rfl⟩, fun _ => Pipeline.Run.rest.owes hs,
      [], .rest, fun _ _ => rfl⟩
  | step _ hstep ih => exact ⟨watches_step ih.1 hstep, tracks_step ih.2 hstep⟩

/-- **No message goes astray.** After any moves of the parties in any order, while the actor runs, the
fetches that run and those among the results are pairwise different and are the outstanding layers of
the tiles being loaded. While someone listens besides, a renderer that takes the deltas received so far
and then those on their way holds the resident quads with their cached records. The cameras that were
looked at are some of those shown, in order, and the pipeline has the last of them. -/
theorem Run.messages_exact (hs : Pipeline.ofSettings settings culling coverage = .ok start)
    (h : Run (.ofPipeline start) events s) :
    (s.isActive = true →
      (s.running ++ s.results.map (·.1)).Nodup ∧
      ∀ f, f ∈ s.running ++ s.results.map (·.1) ↔ ∃ j,
        s.pipeline.tiles.pending.get? f.tile = some j ∧ j.outstanding.contains f.layer = true) ∧
    (s.isActive = true → s.isHeard = true →
      (∀ q, q ∈ ((Renderer.empty.applyAll (receivedIn events)).applyAll s.deltas).quads.keys ↔
        q ∈ s.pipeline.holdings.residents.ids) ∧
      ∀ q ∈ s.pipeline.holdings.residents.ids, ∃ record,
        ((Renderer.empty.applyAll (receivedIn events)).applyAll s.deltas).quads.get? q = some record ∧
          s.pipeline.holdings.cache.get? q = some record) ∧
    (seenIn events).Sublist (shownIn events) ∧ s.pipeline.camera = (seenIn events).getLast? := by
  obtain ⟨hwatches, htracks⟩ := h.tracks hs
  obtain ⟨past, hrun, hdeltas⟩ := htracks.reached
  refine ⟨fun hon => ⟨(htracks.owed hon).nodup, (htracks.owed hon).mem⟩, fun hon hhear => ?_,
    (List.sublist_append_left _ _).trans hwatches.waits, hwatches.last⟩
  obtain ⟨hheld, -, hget⟩ := hrun.mirror hs
  rw [← Renderer.applyAll_append, hdeltas hon hhear]
  exact Pipeline.mirror_of_shown hheld hget

/-! ### A service that is shown three cameras -/

/-- A pipeline without tiles below the second level, so that quads of that level are empty. -/
def shallow : Pipeline Rat (List TileId) := Pipeline.atRest .standard .ok (.ofDepth 1)

theorem ofSettings_shallow : Pipeline.ofSettings .standard .ok (.ofDepth 1) = .ok shallow := rfl

/-- Two looks, with the delta of the first one received in between. -/
theorem exists_two_looks : ∃ s s', (Service.ofPipeline shallow).look [⟨2, 0, 0⟩] ⟨0⟩ = .ok s ∧
    { s with deltas := [], camera := none }.look [⟨2, 0, 0⟩, ⟨1, 0, 0⟩] ⟨1⟩ = .ok s' ∧
    s.isHeld = true ∧ s.isHeard = true ∧ s.isActive = true ∧
    s.deltas = [⟨[], [⟨⟨1, 0, 0⟩, []⟩]⟩] ∧ s'.isHeard = true ∧ s'.isActive = true ∧
    s'.running.length = 8 ∧ ⟨⟨1, 1, 1⟩, .ortho⟩ ∈ s'.running ∧ s'.results = [] := by
  have hplay : (do
      let s ← (Service.ofPipeline shallow).look [⟨2, 0, 0⟩] ⟨0⟩
      let s' ← { s with deltas := [], camera := none }.look [⟨2, 0, 0⟩, ⟨1, 0, 0⟩] ⟨1⟩
      return (s.isHeld && s.isHeard && s.isActive && s'.isHeard && s'.isActive &&
        s'.results.isEmpty, s.deltas, s'.running)) =
      .ok (true, [⟨[], [⟨⟨1, 0, 0⟩, []⟩]⟩],
        [⟨⟨1, 0, 0⟩, .height⟩, ⟨⟨1, 0, 0⟩, .ortho⟩, ⟨⟨1, 1, 0⟩, .height⟩, ⟨⟨1, 1, 0⟩, .ortho⟩,
          ⟨⟨1, 0, 1⟩, .height⟩, ⟨⟨1, 0, 1⟩, .ortho⟩, ⟨⟨1, 1, 1⟩, .height⟩, ⟨⟨1, 1, 1⟩, .ortho⟩]) := by
    decide +kernel
  cases h : (Service.ofPipeline shallow).look [⟨2, 0, 0⟩] ⟨0⟩ with
  | error e => rw [h] at hplay; cases hplay
  | ok s =>
    rw [h] at hplay
    cases h' : { s with deltas := [], camera := none }.look [⟨2, 0, 0⟩, ⟨1, 0, 0⟩] ⟨1⟩ with
    | error e => simp only [bind, Except.bind, h'] at hplay; cases hplay
    | ok s' =>
      simp only [bind, Except.bind, h', pure, Except.pure, Except.ok.injEq, Prod.mk.injEq,
        Bool.and_eq_true, List.isEmpty_iff] at hplay
      obtain ⟨⟨⟨⟨⟨⟨hheld, hheard⟩, hactive⟩, hheard'⟩, hactive'⟩, hresults⟩, hdeltas, hrunning⟩ := hplay
      refine ⟨s, s', rfl, h', hheld, hheard, hactive, hdeltas, hheard', hactive', ?_, ?_, hresults⟩
      · rw [hrunning]
        rfl
      · rw [hrunning]
        decide

/-- Two cameras are shown between the looks, and only the later one is looked at. The last fetch of
eight times out. -/
theorem Run.messages_exact_two_looks : ∃ events s, Run (.ofPipeline shallow) events s ∧
    s.isActive = true ∧ s.isHeard = true ∧ s.running.length = 7 ∧
    s.results = [(⟨⟨1, 1, 1⟩, .ortho⟩, timedOut (.ofMillis 5))] ∧
    (s.running ++ s.results.map (·.1)).Nodup ∧
    (∀ q, q ∈ ((Renderer.empty.applyAll (receivedIn events)).applyAll s.deltas).quads.keys ↔
      q ∈ s.pipeline.holdings.residents.ids) ∧
    receivedIn events = [⟨[], [⟨⟨1, 0, 0⟩, []⟩]⟩] ∧
    (seenIn events).Sublist (shownIn events) ∧ seenIn events = [[⟨2, 0, 0⟩], [⟨2, 0, 0⟩, ⟨1, 0, 0⟩]] ∧
    shownIn events = [[⟨2, 0, 0⟩], [⟨1, 1, 1⟩], [⟨2, 0, 0⟩, ⟨1, 0, 0⟩]] := by
  obtain ⟨s, s', hlook, hlook', hheld, hheard, hactive, hdeltas, hheard', hactive', hlength, hlast,
    hresults⟩ := exists_two_looks
  have h₁ : Run (.ofPipeline shallow) _ s :=
    (Run.rest.step (.point _ [⟨2, 0, 0⟩] rfl)).step (.look _ s [⟨2, 0, 0⟩] ⟨0⟩ rfl rfl hlook)
  have h₂ : Run (.ofPipeline shallow) _ { s with deltas := [] } :=
    h₁.step (.receive s _ [] hheard hdeltas)
  have h₃ := h₂.step (.point _ [⟨1, 1, 1⟩] hheld)
  have h₄ := h₃.step (.point _ [⟨2, 0, 0⟩, ⟨1, 0, 0⟩] hheld)
  have h₅ := h₄.step (.look _ s' [⟨2, 0, 0⟩, ⟨1, 0, 0⟩] ⟨1⟩ hactive rfl hlook')
  have h₆ := h₅.step (.resolve s' ⟨⟨1, 1, 1⟩, .ortho⟩ (timedOut (.ofMillis 5)) hlast)
  rw [resolve_eq _ hlast] at h₆
  obtain ⟨hfetches, hmirror, hcameras, -⟩ := Run.messages_exact ofSettings_shallow h₆
  obtain ⟨hnodup, -⟩ := hfetches hactive'
  obtain ⟨hkeys, -⟩ := hmirror hactive' hheard'
  refine ⟨_, _, h₆, hactive', hheard', ?_, ?_, hnodup, hkeys, rfl, hcameras, rfl, rfl⟩
  · show (s'.running.erase _).length = 7
    rw [List.length_erase_of_mem hlast, hlength]
  · rw [hresults]
    rfl

end Service

end TileStream
