import TileStream.Proofs.Admission.Levels
import TileStream.Proofs.Numeric.Exact
import TileStream.Proofs.Pipeline.Runs

/-! # When a pipeline wants to be polled

A quad that waits for a token is announced for the time at which what is missing of the token will have
come, and that time may be too late for an instant. At most one token and the slack are missing in a
pipeline in use (`Pipeline.Run.filled`), so the wait is told by the rate: at a rate of `2 ^ -62` and a
little more no wait is too long, and below it that depends on the time and the level of the bucket
(`Pipeline.Run.nextDispatchAt_exact`).

Any positive finite rate is accepted. At a rate of `2 ^ -64` the second quad waits until the end of
time, and to ask when it can go is a fault (`Pipeline.nextDispatchAt_timeRange`). -/

namespace TileStream

namespace StreamSettings

/-- The rate of settings that can be used is finite and not zero or less. -/
theorem rate_of_validate {s : StreamSettings} (h : s.validate = .ok ()) :
    s.maxRequestsPerSecond.isFinite = true ∧ ¬ s.maxRequestsPerSecond ≤ 0.0 := by
  unfold validate at h
  split at h
  · cases h
  split at h
  · cases h
  split at h
  · cases h
  split at h
  · cases h
  · next hrate =>
    simpa using hrate

end StreamSettings

namespace Pipeline

variable {κ : Type} {p start : Pipeline Rat κ} {s : StreamSettings} {culling : Culling κ}
  {coverage : Coverage} {past : List (Call κ × Turn Rat κ)}

theorem filled_open {rate : Rat} {c : Call κ} {t : Turn Rat κ} {tasks : List Task}
    (h : p.bucket.Filled rate) (ho : p.Opens c t tasks) : t.pipeline.bucket.Filled rate := by
  cases ho with
  | answer | poll | heed => exact h
  | look hl | resume _ _ hl =>
    obtain ⟨needed, holdings, orders, -, -, rfl, -⟩ := hl
    exact h

theorem filled_step {rate : Rat} (hrate : 0 < rate) {now : Instant}
    {w w' : Turn Rat κ × List Task} (h : w.1.pipeline.bucket.Filled rate) (hs : Turn.Step now w w') :
    w'.1.pipeline.bucket.Filled rate := by
  cases hs with
  | @poll t _ _ hpoll =>
    have hfilled : (t.pipeline.bucket.poll now).1.Filled rate := h.act hrate (.poll now)
    rwa [hpoll] at hfilled
  | submit =>
    rw [Turn.pipeline_submit]
    exact h.wait _
  | finish =>
    rw [Turn.pipeline_released]
    exact h.wait _
  | _ => exact h

/-- **The bucket of a pipeline in use** fills at the rate that was set, which is positive. -/
theorem Run.filled (hs : ofSettings s culling coverage = .ok start) (h : start.Run past p) :
    0 < Binary.ratOfFloat s.maxRequestsPerSecond ∧
      p.bucket.Filled (Binary.ratOfFloat s.maxRequestsPerSecond) := by
  obtain ⟨hvalid, rfl⟩ := eq_of_ofSettings hs
  obtain ⟨hfinite, hpos⟩ := StreamSettings.rate_of_validate hvalid
  have hrate := Binary.ratOfFloat_pos hfinite hpos
  refine ⟨hrate, h.keeps (I := fun p _ => p.bucket.Filled _) ?_ ?_ ?_⟩
  · exact TokenBucket.filled_ofRate hrate
  · exact fun hi ho => filled_open hi ho
  · exact fun hi hstep => filled_step hrate hi hstep

/-- What comes in `2 ^ 62` seconds is waited for no longer than that. -/
theorem nearest_wait_le {rate missing : Rat} (hrate : 0 < rate) (hmissing : 0 ≤ missing)
    (hmost : missing ≤ rate * 2 ^ 62) :
    Duration.nearest (missing / rate) ≤ 2 ^ 62 * nanosPerSecond := by
  refine Duration.nearest_le (div_nonneg hmissing hrate.le) ?_
  rw [Nat.cast_mul]
  refine mul_le_mul_of_nonneg_right ?_ (Nat.cast_nonneg _)
  rw [div_le_iff₀ hrate, mul_comm]
  exact_mod_cast hmost

/-- **When a pipeline wants to be polled.** In every state of a pipeline in use and at any time from the
start on, the rate is positive, no more than a token and the slack is missing, and the answer is none while
no quad waits, the time itself when there is a token, and otherwise the time when what is missing will have
come, to the nearest nanosecond. It is a fault just when that is too late for an instant. In the first
`2 ^ 62` seconds it never is at a rate at which a token and the slack come in as many seconds. -/
theorem Run.nextDispatchAt_exact (hs : ofSettings s culling coverage = .ok start)
    (h : start.Run past p) {now : Instant} (hnow : 0 ≤ now.nanos) :
    let rate := Binary.ratOfFloat s.maxRequestsPerSecond
    let missing := 1 - p.bucket.tokensAt now
    let due := now.nanos + Duration.nearest (missing / rate)
    0 < rate ∧ missing ≤ 1 + 1 / 1000000000 ∧
    p.nextDispatchAt now =
      (if p.bucket.pending = [] then .ok none
      else if missing ≤ 1 / 1000000000 then .ok (some now)
      else if due < Instant.limit then .ok (some ⟨due⟩)
      else .error .timeRange) ∧
    (now.nanos < 2 ^ 62 * 1000000000 → 1 + 1 / 1000000000 ≤ rate * 2 ^ 62 →
      ∃ r, p.nextDispatchAt now = .ok r) := by
  intro rate missing due
  obtain ⟨hrate, hb⟩ := h.filled hs
  have hmost : missing ≤ 1 + 1 / 1000000000 := hb.missing_le hrate now
  have heq : p.nextDispatchAt now =
      if p.bucket.pending = [] then .ok none
      else if missing ≤ 1 / 1000000000 then .ok (some now)
      else if due < Instant.limit then .ok (some ⟨due⟩)
      else .error .timeRange := TokenBucket.nextReleaseAt_eq hb hrate hnow
  refine ⟨hrate, hmost, heq, fun hearly hfast => ?_⟩
  rw [heq]
  split
  · exact ⟨_, rfl⟩
  · split
    · exact ⟨_, rfl⟩
    · next htoken =>
      have hpos : 0 ≤ missing :=
        (show (0 : Rat) ≤ 1 / 1000000000 by norm_num).trans (not_le.mp htoken).le
      have hwait : Duration.nearest (missing / rate) ≤ 2 ^ 62 * nanosPerSecond :=
        nearest_wait_le hrate hpos (hmost.trans hfast)
      have hdue : due < Instant.limit := by
        unfold nanosPerSecond at hwait
        unfold due Instant.limit
        omega
      rw [if_pos hdue]
      exact ⟨_, rfl⟩

/-! ### Two quads and one token -/

/-- The standard settings with another rate. -/
def rated (rate : Float) : StreamSettings :=
  { StreamSettings.standard with maxRequestsPerSecond := rate }

/-- Two quads are called for one after the other. At a rate of one or less there is a token for the
first. -/
def twoLooks : List (Call (List TileId)) :=
  [.updateCamera [⟨2, 0, 0⟩] ⟨0⟩, .updateCamera [⟨2, 0, 0⟩, ⟨2, 0, 2⟩] ⟨0⟩]

/-- At a rate of one the second quad is announced for a second later, and half of it is left after
half a second. -/
theorem Run.nextDispatchAt_exact_twoLooks :
    ∃ start : Pipeline Rat (List TileId), ofSettings (rated 1.0) .ok (.ofDepth 4) = .ok start ∧
    1 + 1 / 1000000000 ≤ Binary.ratOfFloat (rated 1.0).maxRequestsPerSecond * 2 ^ 62 ∧
    ∃ past p, start.Run past p ∧ past.map (·.1) = twoLooks ∧ p.bucket.pending = [⟨1, 0, 1⟩] ∧
      (∃ r, p.nextDispatchAt ⟨500000000⟩ = .ok r) ∧
      p.nextDispatchAt ⟨500000000⟩ = .ok (some ⟨1000000000⟩) := by
  have hs : ofSettings (rated 1.0) .ok (.ofDepth 4) =
      .ok (atRest (τ := Rat) (rated 1.0) .ok (.ofDepth 4)) := rfl
  have hfast : 1 + 1 / 1000000000 ≤
      Binary.ratOfFloat (rated 1.0).maxRequestsPerSecond * 2 ^ 62 := by decide +kernel
  have hreplay : ((atRest (τ := Rat) (rated 1.0) .ok (.ofDepth 4)).replay twoLooks).map (fun r =>
      (r.2.bucket.pending, 1 - r.2.bucket.tokensAt ⟨500000000⟩)) =
      .ok ([⟨1, 0, 1⟩], 1 / 2) := by decide +kernel
  have hdue : Duration.nearest (1 / 2 / Binary.ratOfFloat (rated 1.0).maxRequestsPerSecond) =
      500000000 := by decide +kernel
  obtain ⟨past, p, hrun, hcalls, hout⟩ := exists_run_of_replay hreplay
  obtain ⟨hpending, hmissing⟩ := Prod.mk.inj hout
  have hnow : 0 ≤ (⟨500000000⟩ : Instant).nanos := by decide
  obtain ⟨-, -, heq, hanswer⟩ := Run.nextDispatchAt_exact hs hrun hnow
  refine ⟨_, hs, hfast, past, p, hrun, hcalls, hpending, hanswer (by decide) hfast, ?_⟩
  rw [heq, hpending, hmissing, hdue]
  decide +kernel

/-- **A wait until the end of time.** The rate is accepted, and so small that a token takes `2 ^ 64`
seconds to come, with exact levels and with floats alike. -/
theorem nextDispatchAt_timeRange :
    (rated 5.421010862427522e-20).validate = .ok () ∧
    Binary.ratOfFloat (rated 5.421010862427522e-20).maxRequestsPerSecond = 1 / 2 ^ 64 ∧
    (∃ past, ∃ p : Pipeline Rat (List TileId),
      (atRest (rated 5.421010862427522e-20) .ok (.ofDepth 4)).Run past p ∧
      past.map (·.1) = twoLooks ∧ p.nextDispatchAt ⟨0⟩ = .error .timeRange) ∧
    ∃ past, ∃ p : Pipeline Float (List TileId),
      (atRest (rated 5.421010862427522e-20) .ok (.ofDepth 4)).Run past p ∧
      past.map (·.1) = twoLooks ∧ p.nextDispatchAt ⟨0⟩ = .error .timeRange := by
  have hexact : ((atRest (τ := Rat) (rated 5.421010862427522e-20) .ok (.ofDepth 4)).replay
      twoLooks).map (·.2.nextDispatchAt ⟨0⟩) = .ok (.error .timeRange) := by decide +kernel
  have hfloat : ((atRest (τ := Float) (rated 5.421010862427522e-20) .ok (.ofDepth 4)).replay
      twoLooks).map (·.2.nextDispatchAt ⟨0⟩) = .ok (.error .timeRange) := by decide +kernel
  obtain ⟨past, p, hrun, hcalls, hlate⟩ := exists_run_of_replay hexact
  obtain ⟨past', p', hrun', hcalls', hlate'⟩ := exists_run_of_replay hfloat
  exact ⟨rfl, by decide +kernel, ⟨past, p, hrun, hcalls, hlate⟩, past', p', hrun', hcalls', hlate'⟩

end Pipeline

end TileStream
