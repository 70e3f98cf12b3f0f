import Mathlib.Data.List.Perm.Subperm
import TileStream.Proofs.Fault
import TileStream.Proofs.Service.Messages
import TileStream.Service.Rehearsal

/-! # A rehearsal is a run of its service

A rehearsal makes no move of its own. It lets the actor act as the actor chooses, and it ends fetches, so
its service only makes steps, and ones in which no camera is shown and no delta is received
(`Service.Proceeds`). So does it while the clock is moved, which leads to the time that was asked for
(`Rehearsal.advance_proceeds`). What holds after every run of a service therefore holds at every time of a
rehearsal.

Each fetch that runs has an appointment of its own on the agenda (`Rehearsal.Booked`), whoever moves. So
whatever the pipeline waits for has a time at which it ends, or has ended and waits to be taken
(`Rehearsal.advance_awaited`). -/

namespace TileStream

namespace Service

variable {τ κ : Type} [TokenArithmetic τ] {s s' s'' : Service τ κ} {e : Event κ}

/-- **The service goes on without being prompted,** and nobody takes anything from it. -/
def Proceeds (s s' : Service τ κ) : Prop :=
  ∃ events, Run s events s' ∧ shownIn events = [] ∧ receivedIn events = []

theorem Proceeds.refl (s : Service τ κ) : s.Proceeds s := ⟨[], .rest, rfl, rfl⟩

theorem Proceeds.trans (h : s.Proceeds s') (h' : s'.Proceeds s'') : s.Proceeds s'' := by
  obtain ⟨events, hrun, hshown, hreceived⟩ := h
  obtain ⟨further, hrun', hshown', hreceived'⟩ := h'
  refine ⟨events ++ further, hrun.append hrun', ?_, ?_⟩
  · rw [shownIn, List.filterMap_append, ← shownIn, ← shownIn, hshown, hshown', List.append_nil]
  · rw [receivedIn, List.filterMap_append, ← receivedIn, ← receivedIn, hreceived, hreceived',
      List.append_nil]

theorem Proceeds.of_step (h : Step s e s') (hshown : e.shown? = none) (hreceived : e.received? = none) :
    s.Proceeds s' :=
  ⟨[] ++ [e], Run.rest.step h, by rw [shownIn_concat, hshown]; rfl,
    by rw [receivedIn_concat, hreceived]; rfl⟩

/-- A fetch that ends does not run any more. One that does not run cannot end. -/
theorem proceeds_resolve (s : Service τ κ) (fetch : Fetch) (outcome : Outcome) :
    s.Proceeds (s.resolve fetch outcome) ∧ (s.resolve fetch outcome).isActive = s.isActive ∧
      (s.resolve fetch outcome).running = s.running.erase fetch := by
  by_cases hruns : fetch ∈ s.running
  · refine ⟨.of_step (.resolve s fetch outcome hruns) rfl rfl, ?_⟩
    rw [resolve_eq outcome hruns]
    exact ⟨rfl, rfl⟩
  · have hsame : s.resolve fetch outcome = s := if_neg (by rwa [List.contains_iff_mem])
    rw [hsame, List.erase_of_not_mem hruns]
    exact ⟨.refl s, rfl, rfl⟩

/-! ### Which fetches run -/

theorem started_of_calls {c : Call κ} (h : s.Calls c s') : ∃ fetches,
    s'.started = s.started ++ fetches ∧
      (s'.isActive = true → s.isActive = true ∧ s'.running = s.running ++ fetches) := by
  obtain ⟨t, now, -, hdone⟩ := h
  obtain ⟨-, -, -, habsorb⟩ := absorb_eq_ok hdone
  obtain ⟨alarm, rfl⟩ := setAlarm_eq_ok hdone
  refine ⟨t.effects.fetches, ?_, fun hon => ⟨(habsorb hon).1, (habsorb hon).2.1⟩⟩
  unfold send
  split
  · rfl
  · split <;> rfl

/-- **What runs ran before or was started,** whoever moves. -/
theorem started_step (h : Step s e s') : ∃ fetches, s'.started = s.started ++ fetches ∧
    (s'.isActive = true → s.isActive = true ∧ s'.running.Subperm (s.running ++ fetches)) := by
  have hstill : s.started = s.started ++ [] := (List.append_nil _).symm
  have hnone : ∀ u : Service τ κ, u.running = s.running → u.running.Subperm (s.running ++ []) :=
    fun u hu => by rw [hu, List.append_nil]
  -- a call is made from a state `u` in which the actor has picked up what it makes the call for
  have hcalls : ∀ (u : Service τ κ) (c : Call κ), u.Calls c s' → u.started = s.started →
      u.running = s.running → u.isActive = s.isActive → ∃ fetches,
        s'.started = s.started ++ fetches ∧
          (s'.isActive = true → s.isActive = true ∧ s'.running.Subperm (s.running ++ fetches)) := by
    intro u c hc hstarted hrunning hactive
    obtain ⟨fetches, hnew, hruns⟩ := started_of_calls hc
    rw [hstarted] at hnew
    rw [hrunning, hactive] at hruns
    exact ⟨fetches, hnew, fun hon => ⟨(hruns hon).1, (hruns hon).2 ▸ .refl _⟩⟩
  cases h with
  | point | tell | release | stopListening | receive =>
    exact ⟨[], hstill, fun hon => ⟨hon, hnone _ rfl⟩⟩
  | resolve fetch outcome runs =>
    rw [resolve_eq outcome runs]
    refine ⟨[], hstill, fun hon => ⟨hon, ?_⟩⟩
    rw [List.append_nil]
    exact List.erase_sublist.subperm
  | abandon => exact ⟨[], hstill, fun hon => by cases hon⟩
  | obey _ command commands now active first done =>
    cases command with
    | stop =>
      cases done
      exact ⟨[], hstill, fun hon => by cases hon⟩
    | setOnline online =>
      exact hcalls _ (.setOnline online now) (calls_of_bind done) rfl rfl rfl
  | look _ camera now active fresh done =>
    exact hcalls _ (.updateCamera camera now) (calls_of_bind done) rfl rfl rfl
  | take _ fetch outcome results now active first done =>
    exact hcalls { s with results, meters := s.meters.countFetch fetch.layer outcome }
      (.deliver fetch.tile fetch.layer outcome now) (calls_of_bind done) rfl rfl rfl
  | wake _ alarm now active set due done =>
    exact hcalls _ (.poll now) (calls_of_bind done) rfl rfl rfl

end Service

namespace Rehearsal

variable {τ κ : Type}

/-- **Every fetch that runs has an appointment of its own.** -/
def Booked (r : Rehearsal τ κ) : Prop :=
  r.service.isActive = true → r.service.running.Subperm (r.agenda.map (·.fetch))

theorem booked_ofPipeline (pipeline : Pipeline τ κ) (timer : Timer) (loader : Fetch → Delivery)
    (limit : ℕ) : (ofPipeline pipeline timer loader limit).Booked :=
  fun _ => List.nil_subperm

theorem fetch_appointment (r : Rehearsal τ κ) (fetch : Fetch) : (r.appointment fetch).fetch = fetch := by
  unfold appointment
  dsimp only
  split <;> rfl

variable [TokenArithmetic τ] {r r' r'' : Rehearsal τ κ}

/-- Whoever moves, what is started gets its appointments. -/
theorem Booked.follow {s : Service τ κ} {e : Service.Event κ} (hb : r.Booked)
    (h : Service.Step r.service e s) : (r.follow s).Booked := by
  obtain ⟨fetches, hstarted, hruns⟩ := Service.started_step h
  have hfresh : s.started.drop r.service.started.length = fetches := by
    rw [hstarted, List.drop_left]
  have hnew : (fetches.map r.appointment).map (·.fetch) = fetches := by
    rw [List.map_map]
    exact (List.map_congr_left fun f _ => r.fetch_appointment f).trans (List.map_id _)
  intro hon
  obtain ⟨hactive, hrunning⟩ := hruns hon
  show s.running.Subperm (List.map _ (r.agenda ++ (s.started.drop _).map r.appointment))
  rw [hfresh, List.map_append, hnew]
  exact hrunning.trans ((List.subperm_append_right fetches).mpr (hb hactive))

/-- **The rehearsal goes on** at the present time. -/
structure Proceeds (r r' : Rehearsal τ κ) : Prop where
  service : r.service.Proceeds r'.service
  booked : r.Booked → r'.Booked
  clock : r'.clock = r.clock
  timer : r'.timer = r.timer

theorem Proceeds.refl (r : Rehearsal τ κ) : r.Proceeds r := ⟨.refl _, id, rfl, rfl⟩

theorem Proceeds.trans (h : r.Proceeds r') (h' : r'.Proceeds r'') : r.Proceeds r'' :=
  ⟨h.service.trans h'.service, h'.booked ∘ h.booked, h'.clock.trans h.clock, h'.timer.trans h.timer⟩

/-! ### At one time -/

theorem proceeds_follow {s : Service τ κ} (h : r.service.act? r.now = some (.ok s)) :
    r.Proceeds (r.follow s) := by
  obtain ⟨e, hstep, hshown, hreceived⟩ := Service.step_of_act? h
  exact ⟨.of_step hstep hshown hreceived, fun hb => hb.follow hstep, rfl, rfl⟩

theorem proceeds_act {moves : ℕ} (h : r.act moves = .ok r') : r.Proceeds r' := by
  induction moves generalizing r with
  | zero =>
    cases h
    exact .refl _
  | succ moves ih =>
    unfold act at h
    split at h
    · cases h
      exact .refl _
    · next hact =>
      obtain ⟨s, rfl, h⟩ := Checked.bind_eq_ok h
      exact (proceeds_follow hact).trans (ih h)

/-- The fetches of some appointments end, and of what runs the others are left. -/
theorem keeps_appointments (due : List Appointment) (s : Service τ κ) :
    let s' := due.foldl (fun s a => s.resolve a.fetch a.outcome) s
    s.Proceeds s' ∧ s'.isActive = s.isActive ∧
      ∀ rest, s.running.Subperm (due.map (·.fetch) ++ rest) → s'.running.Subperm rest := by
  induction due generalizing s with
  | nil => exact ⟨.refl s, rfl, fun rest h => h⟩
  | cons a due ih =>
    obtain ⟨hproceeds, hactive, hleft⟩ := ih (s.resolve a.fetch a.outcome)
    obtain ⟨hends, hsame, herased⟩ := Service.proceeds_resolve s a.fetch a.outcome
    refine ⟨hends.trans hproceeds, hactive.trans hsame, fun rest h => hleft rest ?_⟩
    have herase := h.erase a.fetch
    rwa [List.map_cons, List.cons_append, List.erase_cons_head, ← herased] at herase

theorem proceeds_keepAppointments (r : Rehearsal τ κ) : r.Proceeds r.keepAppointments := by
  unfold keepAppointments
  rw [List.partition_eq_filter_filter]
  obtain ⟨hproceeds, hactive, hleft⟩ :=
    keeps_appointments (r.agenda.filter fun a => a.due ≤ r.clock) r.service
  refine ⟨hproceeds, fun hb hon => hleft _ ?_, rfl, rfl⟩
  rw [← List.map_append]
  exact (hb (hactive.symm.trans hon)).trans
    ((List.filter_append_perm _ r.agenda).map _).symm.subperm

theorem proceeds_settleFor {rounds : ℕ} (h : r.settleFor rounds = .ok r') : r.Proceeds r' := by
  induction rounds generalizing r with
  | zero =>
    cases h
    exact .refl _
  | succ rounds ih =>
    obtain ⟨u, hu, h⟩ := Checked.bind_eq_ok h
    have hround := r.proceeds_keepAppointments.trans (proceeds_act hu)
    split at h
    · exact hround.trans (ih h)
    · cases h
      exact hround

theorem proceeds_settle (h : r.settle = .ok r') : r.Proceeds r' := by
  obtain ⟨u, hu, h⟩ := Checked.bind_eq_ok h
  exact (r.proceeds_keepAppointments.trans (proceeds_act hu)).trans (proceeds_settleFor h)

/-! ### From one time to another -/

/-- **Moving the clock** leads to the time that was asked for, unless it has passed. -/
theorem advanceTo_proceeds {stop : ℕ} (h : r.advanceTo stop = .ok r') :
    r.service.Proceeds r'.service ∧ (r.Booked → r'.Booked) ∧ r'.clock = max r.clock stop := by
  -- on the events on the way: the clock shows each one's time while the rehearsal settles
  fun_induction advanceTo r stop generalizing r' with
  | case1 r hnone =>
    cases h
    exact ⟨.refl _, id, rfl⟩
  | case2 r next hnext hlater e he => cases h
  | case3 r next hnext hlater u hu ih =>
    obtain ⟨hservice, hbooked, hclock⟩ := ih h
    have hsettle := proceeds_settle hu
    refine ⟨hsettle.service.trans hservice, fun hb => hbooked (hsettle.booked hb), ?_⟩
    rw [hclock]
    show max next stop = max r.clock stop
    omega
  | case4 r next hnext hnow =>
    cases h
    exact ⟨.refl _, id, rfl⟩

/-- **A rehearsal goes on by itself** for as long as the timer runs, and forgets no fetch. -/
theorem advance_proceeds {ms : ℕ} (h : r.advance ms = .ok r') :
    r.service.Proceeds r'.service ∧ (r.Booked → r'.Booked) ∧
      r'.clock = r.clock + r.timer.runs ms := by
  obtain ⟨u, hu, h⟩ := Checked.bind_eq_ok h
  have hsettle := proceeds_settle hu
  obtain ⟨hservice, hbooked, hclock⟩ := advanceTo_proceeds h
  refine ⟨hsettle.service.trans hservice, hbooked ∘ hsettle.booked, ?_⟩
  rw [hclock, hsettle.clock, hsettle.timer, Nat.max_eq_right (Nat.le_add_right _ _)]

/-- **No fetch is forgotten.** When a booked rehearsal of any run goes on for some time, every fetch that
the pipeline waits for by then has an appointment or a result. -/
theorem advance_awaited {settings : StreamSettings} {culling : Culling κ} {coverage : Coverage}
    {start : Pipeline τ κ} {events : List (Service.Event κ)} {ms : ℕ}
    (hs : Pipeline.ofSettings settings culling coverage = .ok start)
    (hrun : Service.Run (.ofPipeline start) events r.service) (hb : r.Booked)
    (h : r.advance ms = .ok r') (hon : r'.service.isActive = true) :
    ∀ f, r'.service.pipeline.tiles.Awaits f →
      f ∈ r'.agenda.map (·.fetch) ∨ f ∈ r'.service.results.map (·.1) := by
  obtain ⟨⟨further, hfurther, -⟩, hbooked, -⟩ := advance_proceeds h
  obtain ⟨-, htracks⟩ := (hrun.append hfurther).tracks hs
  intro f hf
  have hunder : f ∈ r'.service.underWay := ((htracks.owed hon).mem f).mpr hf
  exact (List.mem_append.mp hunder).imp_left fun hruns => (hbooked hb hon).subset hruns

end Rehearsal

end TileStream
