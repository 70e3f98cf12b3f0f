import TileStream.Proofs.Fault
import TileStream.Proofs.Holdings.Changes
import TileStream.Proofs.Pipeline.Steps

/-! # Runs of the pipeline

A run is any sequence of calls that were answered, at any times and with any outcomes, asked for or
not. It starts from a pipeline at rest. A call begins in one of five ways (`Pipeline.Opens`) and goes
on in small steps, so a property that the openings and the steps keep holds at the end of every run
(`Pipeline.Run.keeps`). -/

namespace TileStream

/-- A call of the pipeline. -/
inductive Call (κ : Type) where
  | updateCamera (camera : κ) (now : Instant)
  | deliver (tile : TileId) (layer : Layer) (outcome : Outcome) (now : Instant)
  | poll (now : Instant)
  | setOnline (online : Bool) (now : Instant)

/-- The time of a call. -/
def Call.now {κ : Type} : Call κ → Instant
  | updateCamera _ now | deliver _ _ _ now | poll now | setOnline _ now => now

/-- Settings that can be used leave room for a quad everywhere. -/
theorem StreamSettings.pos_of_validate {s : StreamSettings} (h : s.validate = .ok ()) :
    0 < s.ramQuadLimit ∧ 0 < s.gpuQuadLimit ∧ 0 < s.maxConcurrentQuads := by
  unfold validate at h
  split at h
  · cases h
  · split at h
    · cases h
    · split at h
      · cases h
      · omega

namespace Pipeline

variable {τ κ : Type} {p : Pipeline τ κ}

/-! ### How calls begin -/

/-- The turn after a camera was looked at, before any quad asked for a slot. -/
def looking (p : Pipeline τ κ) (camera : κ) (holdings : Holdings) (orders : Orders) : Turn τ κ :=
  { pipeline :=
      { p with holdings, slots := p.slots.retainQueued holdings.isDesired, camera := some camera }
    effects := { Effects.none with delta := orders.delta }
    journal := (p.slots.queue.filter fun quad => !holdings.isDesired quad).map .dropped }

/-- How a look at a camera begins. -/
def Looks (p : Pipeline τ κ) (camera : κ) (now : Instant) (t : Turn τ κ) (tasks : List Task) : Prop :=
  ∃ needed holdings orders, p.culling camera = .ok needed ∧
    p.holdings.view needed now p.slots.contains = .ok (holdings, orders) ∧
    t = p.looking camera holdings orders ∧ tasks = orders.requests.map .submit

/-- **How a call begins:** the turn at first and what is to be done in it. -/
inductive Opens (p : Pipeline τ κ) : Call κ → Turn τ κ → List Task → Prop
  | look {camera now t tasks} (h : p.Looks camera now t tasks) :
    Opens p (.updateCamera camera now) t tasks
  | answer {tile layer outcome now tiles finished}
    (h : p.tiles.deliver tile layer outcome = (tiles, finished)) :
    Opens p (.deliver tile layer outcome now) { p with tiles }.turn (finished.toList.map .pass)
  | poll {now} : Opens p (.poll now) p.turn []
  /-- The network is lost, or was there before, or there is nothing to look at. -/
  | heed {online now} (h : online = true → p.holdings.online = true ∨ p.camera = none) :
    Opens p (.setOnline online now) { p with holdings.online := online }.turn []
  /-- The network is there again. -/
  | resume {camera now t tasks} (hoff : p.holdings.online = false) (hcam : p.camera = some camera)
    (h : Looks { p with holdings.online := true } camera now t tasks) :
    Opens p (.setOnline true now) t tasks

/-! ### What a call needs to begin -/

/-- The camera that a call looks at. -/
def looksAt? (p : Pipeline τ κ) : Call κ → Option κ
  | .updateCamera camera _ => some camera
  | .setOnline true _ => if p.holdings.online then none else p.camera
  | _ => none

/-- The culling can be asked about the camera, and there are epochs left. -/
structure Sees (p : Pipeline τ κ) (camera : κ) : Prop where
  culled : ∃ needed, p.culling camera = .ok needed
  epochs : p.holdings.epoch + 1 < Checked.words64

theorem Sees.looks {camera : κ} (h : p.Sees camera) (now : Instant) :
    ∃ t tasks, p.Looks camera now t tasks := by
  obtain ⟨needed, hn⟩ := h.culled
  obtain ⟨r, hv⟩ := Holdings.exists_view_iff.mpr h.epochs
  exact ⟨_, _, needed, r.1, r.2, hn, hv, rfl, rfl⟩

/-- **Only a look can keep a call from beginning.** -/
theorem opens_of_sees {c : Call κ} (h : ∀ camera, p.looksAt? c = some camera → p.Sees camera) :
    ∃ t tasks, p.Opens c t tasks := by
  cases c with
  | updateCamera camera now =>
    obtain ⟨t, tasks, hl⟩ := (h camera rfl).looks now
    exact ⟨t, tasks, .look hl⟩
  | deliver tile layer outcome now => exact ⟨_, _, .answer rfl⟩
  | poll now => exact ⟨_, _, .poll⟩
  | setOnline online now =>
    by_cases hheed : online = true → p.holdings.online = true ∨ p.camera = none
    · exact ⟨_, _, .heed hheed⟩
    · rw [Classical.not_imp, not_or, Bool.not_eq_true] at hheed
      obtain ⟨rfl, hoff, hcam⟩ := hheed
      obtain ⟨camera, hcam⟩ := Option.ne_none_iff_exists'.mp hcam
      have hsee : p.Sees camera := h camera (by simp [looksAt?, hoff, hcam])
      have hsee' : Sees { p with holdings.online := true } camera := { hsee with }
      obtain ⟨t, tasks, hl⟩ := hsee'.looks now
      exact ⟨t, tasks, .resume hoff hcam hl⟩

/-! ### Calls as steps -/

variable [TokenArithmetic τ]

/-- The answer to a call. -/
def call (p : Pipeline τ κ) : Call κ → Checked (Turn τ κ)
  | .updateCamera camera now => p.updateCamera camera now
  | .deliver tile layer outcome now => p.deliver tile layer outcome now
  | .poll now => p.poll now
  | .setOnline online now => p.setOnline online now

theorem updateCamera_eq {camera : κ} {now : Instant} {needed : List TileId} {holdings : Holdings}
    {orders : Orders} (hn : p.culling camera = .ok needed)
    (hv : p.holdings.view needed now p.slots.contains = .ok (holdings, orders)) :
    p.updateCamera camera now =
      (orders.requests.foldl Turn.submit (p.looking camera holdings orders)).dispatch now := by
  unfold updateCamera
  rw [hn]
  simp only [bind, Except.bind, hv]
  rfl

theorem comes_updateCamera {camera : κ} {now : Instant} {t : Turn τ κ} {tasks : List Task}
    (h : p.Looks camera now t tasks) :
    Turn.Comes now (t, tasks) [] (p.updateCamera camera now) := by
  obtain ⟨needed, holdings, orders, hn, hv, rfl, rfl⟩ := h
  rw [updateCamera_eq hn hv]
  exact .of_steps (Turn.steps_submit _ _) (Turn.comes_dispatch now _)

theorem comes_deliver {tile : TileId} {layer : Layer} {outcome : Outcome} {now : Instant}
    {tiles : TileJoins} {finished : Option TileRecord}
    (h : p.tiles.deliver tile layer outcome = (tiles, finished)) :
    Turn.Comes now ({ p with tiles }.turn, finished.toList.map .pass) []
      (p.deliver tile layer outcome now) := by
  unfold deliver
  rw [h]
  cases finished with
  | none => exact Turn.comes_dispatch now _
  | some record =>
    exact .dispatch (Turn.follows_finishTile _ record [])

theorem setOnline_of_heed {online : Bool} {now : Instant}
    (h : online = true → p.holdings.online = true ∨ p.camera = none) :
    p.setOnline online now = .ok { p with holdings.online := online }.turn := by
  unfold setOnline Holdings.setOnline
  cases online with
  | false => simp
  | true =>
    rcases h rfl with hon | hcam
    · simp [hon]
    · simp [hcam]

theorem setOnline_of_offline {camera : κ} {now : Instant} (hoff : p.holdings.online = false)
    (hcam : p.camera = some camera) :
    p.setOnline true now =
      updateCamera { p with holdings.online := true } camera now := by
  simp [setOnline, Holdings.setOnline, hoff, hcam]

/-- **A call is worked off by steps.** It faults only where there is no way on. -/
theorem comes_call {c : Call κ} {t : Turn τ κ} {tasks : List Task} (h : p.Opens c t tasks) :
    Turn.Comes c.now (t, tasks) [] (p.call c) := by
  cases h with
  | look h => exact comes_updateCamera h
  | answer h => exact comes_deliver h
  | poll => exact Turn.comes_dispatch _ _
  | heed h =>
    rw [call, setOnline_of_heed h]
    exact .refl
  | resume hoff hcam h =>
    rw [call, setOnline_of_offline hoff hcam]
    exact comes_updateCamera h

theorem sees_of_updateCamera {camera : κ} {now : Instant} {t : Turn τ κ}
    (h : p.updateCamera camera now = .ok t) : p.Sees camera := by
  unfold updateCamera at h
  cases hn : p.culling camera with
  | error e => rw [hn] at h; cases h
  | ok needed =>
    rw [hn] at h
    simp only [bind, Except.bind] at h
    cases hv : p.holdings.view needed now p.slots.contains with
    | error e => rw [hv] at h; cases h
    | ok r => exact ⟨⟨needed, hn⟩, Holdings.exists_view_iff.mp ⟨r, hv⟩⟩

theorem sees_of_call {c : Call κ} {t : Turn τ κ} (h : p.call c = .ok t) {camera : κ}
    (hcam : p.looksAt? c = some camera) : p.Sees camera := by
  cases c with
  | updateCamera =>
    cases hcam
    exact sees_of_updateCamera h
  | deliver | poll => cases hcam
  | setOnline online now =>
    cases online with
    | false => cases hcam
    | true =>
      rw [looksAt?] at hcam
      split at hcam
      · cases hcam
      · next hoff =>
        rw [call, setOnline_of_offline (Bool.eq_false_iff.mpr hoff) hcam] at h
        exact { sees_of_updateCamera h with }

/-- **An answered call opens and goes on in steps.** -/
theorem steps_call {c : Call κ} {t' : Turn τ κ} (h : p.call c = .ok t') :
    ∃ t tasks, p.Opens c t tasks ∧ Turn.Steps c.now (t, tasks) (t', []) := by
  obtain ⟨t, tasks, ho⟩ := opens_of_sees fun _ => sees_of_call h
  have hc := comes_call ho
  rw [h] at hc
  exact ⟨t, tasks, ho, hc⟩

/-! ### Runs -/

/-- The calls made so far, each with its turn, and the pipeline they lead to. -/
inductive Run (start : Pipeline τ κ) : List (Call κ × Turn τ κ) → Pipeline τ κ → Prop
  | rest : Run start [] start
  | call {past p c t} (h : Run start past p) (hc : p.call c = .ok t) :
    Run start (past ++ [(c, t)]) t.pipeline

/-- **What the openings and the steps keep holds after every run.** -/
theorem Run.keeps {I : Pipeline τ κ → List Task → Prop} {start : Pipeline τ κ}
    {past : List (Call κ × Turn τ κ)} (hrest : I start [])
    (hopen : ∀ {p : Pipeline τ κ} {c t tasks}, I p [] → p.Opens c t tasks → I t.pipeline tasks)
    (hstep : ∀ {now} {w w' : Turn τ κ × List Task}, I w.1.pipeline w.2 → Turn.Step now w w' →
      I w'.1.pipeline w'.2)
    (h : Run start past p) : I p [] := by
  induction h with
  | rest => exact hrest
  | call h hc ih =>
    obtain ⟨t, tasks, ho, hs⟩ := steps_call hc
    exact Turn.Steps.keeps (I := fun w => I w.1.pipeline w.2) hstep hs (hopen ih ho)

/-! ### Runs one after the other -/

theorem Run.append {start p' : Pipeline τ κ} {past further : List (Call κ × Turn τ κ)}
    (h : start.Run past p) (h' : p.Run further p') : start.Run (past ++ further) p' := by
  induction h' with
  | rest => rwa [List.append_nil]
  | call _ hc ih =>
    rw [← List.append_assoc]
    exact ih.call hc

/-- A run that goes on after some calls was somewhere in between. -/
theorem Run.split {start p' : Pipeline τ κ} {past further : List (Call κ × Turn τ κ)}
    (h : start.Run (past ++ further) p') : ∃ p, start.Run past p ∧ p.Run further p' := by
  generalize hall : past ++ further = all at h
  induction h generalizing further with
  | rest =>
    obtain ⟨rfl, rfl⟩ := List.append_eq_nil_iff.mp hall
    exact ⟨start, .rest, .rest⟩
  | @call before p' c t h hc ih =>
    rcases List.eq_nil_or_concat further with rfl | ⟨first, e, rfl⟩
    · rw [List.append_nil] at hall
      exact ⟨t.pipeline, hall ▸ h.call hc, .rest⟩
    · rw [List.concat_eq_append, ← List.append_assoc] at hall
      obtain ⟨hbefore, he⟩ := List.append_inj' hall rfl
      obtain rfl : e = (c, t) := List.singleton_inj.mp he
      obtain ⟨p, hp, hrest⟩ := ih hbefore
      rw [List.concat_eq_append]
      exact ⟨p, hp, hrest.call hc⟩

/-- What a run that begins with a call does first. -/
theorem Run.head {start p' : Pipeline τ κ} {c : Call κ} {t : Turn τ κ}
    {further : List (Call κ × Turn τ κ)} (h : start.Run ((c, t) :: further) p') :
    start.call c = .ok t ∧ t.pipeline.Run further p' := by
  have hsplit : start.Run ([(c, t)] ++ further) p' := h
  obtain ⟨p, hp, hrest⟩ := hsplit.split
  generalize hone : [(c, t)] = one at hp
  cases hp with
  | rest => cases hone
  | @call before p _ _ hp hc =>
    have hlast : [] ++ [(c, t)] = before ++ [(_, _)] := hone
    obtain ⟨hnone, he⟩ := List.append_inj' hlast rfl
    cases he
    subst hnone
    generalize hnil : ([] : List (Call κ × Turn τ κ)) = none at hp
    cases hp with
    | rest => exact ⟨hc, hrest⟩
    | call => simp at hnil

/-- A call of a run was made somewhere on the way. -/
theorem Run.of_mem {start : Pipeline τ κ} {calls : List (Call κ × Turn τ κ)}
    {e : Call κ × Turn τ κ} (h : start.Run calls p) (he : e ∈ calls) :
    ∃ before after p', calls = before ++ e :: after ∧ start.Run before p' ∧
      p'.call e.1 = .ok e.2 := by
  obtain ⟨before, after, rfl⟩ := List.append_of_mem he
  obtain ⟨p', hbefore, hrest⟩ := h.split
  exact ⟨before, after, p', rfl, hbefore, hrest.head.1⟩

/-- The answers to some calls, and the pipeline that they lead to. -/
def replay (p : Pipeline τ κ) : List (Call κ) → Checked (List (Call κ × Turn τ κ) × Pipeline τ κ)
  | [] => .ok ([], p)
  | c :: cs => do
    let t ← p.call c
    let (further, p') ← t.pipeline.replay cs
    return ((c, t) :: further, p')

theorem run_of_replay {cs : List (Call κ)} {past : List (Call κ × Turn τ κ)} {p' : Pipeline τ κ}
    (h : p.replay cs = .ok (past, p')) : p.Run past p' ∧ past.map (·.1) = cs := by
  induction cs generalizing p past with
  | nil => cases h; exact ⟨.rest, rfl⟩
  | cons c cs ih =>
    unfold replay at h
    cases hc : p.call c with
    | error e => rw [hc] at h; cases h
    | ok t =>
      cases hr : t.pipeline.replay cs with
      | error e => simp only [hc, hr, bind, Except.bind] at h; cases h
      | ok r =>
        simp only [hc, hr, bind, Except.bind] at h
        cases h
        obtain ⟨hrun, hcalls⟩ := ih hr
        exact ⟨(Run.rest.call hc).append hrun, congrArg (c :: ·) hcalls⟩

/-- A run of some calls of which something is known. -/
theorem exists_run_of_replay {α : Type} {cs : List (Call κ)} {a : α}
    {f : List (Call κ × Turn τ κ) × Pipeline τ κ → α} (h : (p.replay cs).map f = .ok a) :
    ∃ past p', p.Run past p' ∧ past.map (·.1) = cs ∧ f (past, p') = a := by
  cases hr : p.replay cs with
  | error e => rw [hr] at h; cases h
  | ok r =>
    rw [hr] at h
    obtain ⟨hrun, hcalls⟩ := run_of_replay hr
    exact ⟨r.1, r.2, hrun, hcalls, Except.ok.inj h⟩

/-- A run of some calls, and a call after it, of which something is known. -/
theorem exists_call_of_replay {α : Type} {cs : List (Call κ)} {c : Call κ} {a : α}
    {f : List (Call κ × Turn τ κ) × Pipeline τ κ → Turn τ κ → α}
    (h : (p.replay cs).bind (fun r => (r.2.call c).map (f r)) = .ok a) : ∃ past p' t,
    p.Run past p' ∧ past.map (·.1) = cs ∧ p'.call c = .ok t ∧ f (past, p') t = a := by
  obtain ⟨r, hr, h⟩ := Checked.bind_eq_ok h
  obtain ⟨hrun, hcalls⟩ := run_of_replay hr
  cases hc : r.2.call c with
  | error e => rw [hc] at h; cases h
  | ok t =>
    rw [hc] at h
    exact ⟨r.1, r.2, t, hrun, hcalls, hc, Except.ok.inj h⟩

/-- A pipeline that was not called yet. -/
def atRest (s : StreamSettings) (culling : Culling κ) (coverage : Coverage) : Pipeline τ κ :=
  { culling
    holdings := .ofSettings s
    slots := .ofLimit s.maxConcurrentQuads
    bucket := .ofRate (TokenArithmetic.ofFloat s.maxRequestsPerSecond)
    quads := .ofCoverage { coverage with maxZoom := min coverage.maxZoom s.maxZoom }
    tiles := .ofLayers s.enabledLayers
    camera := none }

/-- Settings that can be used give a pipeline at rest. -/
theorem eq_of_ofSettings {s : StreamSettings} {culling : Culling κ} {coverage : Coverage}
    (h : ofSettings s culling coverage = .ok p) :
    s.validate = .ok () ∧ p = atRest s culling coverage := by
  unfold ofSettings at h
  cases hs : s.validate with
  | error e => rw [hs] at h; cases h
  | ok u =>
    rw [hs] at h
    exact ⟨rfl, (Except.ok.inj h).symm⟩

end Pipeline

end TileStream
