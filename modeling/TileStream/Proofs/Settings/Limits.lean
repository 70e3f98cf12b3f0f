import TileStream.Program
import TileStream.Proofs.Fault

/-! # The times that settings give

The deadline of a fetch and the age limit of stored data are computed from words that may be set to
anything. Nothing between reading them and computing with them bounds them, so both fault for some
settings. The steps of the deadline fit 64 bits just when the whole does, so the deadline is exact or
faults (`LoaderSettings.fetchDeadline_eq`), and so is the age limit (`LoaderSettings.diskCacheMaxAge_eq`).
Both are computed before the program sets out. So it sets out with exact times or not at all, and when
nothing else keeps it, it faults just when one of the times does not fit (`Program.launch_exact`).

An age limit of 585 billion years is too long, and so are two attempts of 292 million years each
(`Program.launch_overflow`). -/

namespace TileStream

open Checked

theorem Checked.word64_bind {α : Type} (n : ℕ) (f : ℕ → Checked α) :
    word64 n >>= f = if n < words64 then f n else .error .overflow := by
  unfold word64 below
  split <;> rfl

/-! ### Words -/

namespace Variables

variable {v : Variables} {bound default : ℕ} {name : String}

/-- A number that is read lies below its bound, as the default does. -/
theorem whole_lt (h : default < bound) : v.whole bound name default < bound := by
  unfold whole
  cases hread : (v.get? name).bind fun s => Text.readWhole bound (Text.trim s.toList) with
  | none => exact h
  | some n =>
    obtain ⟨text, -, hn⟩ := Option.bind_eq_some_iff.mp hread
    unfold Text.readWhole at hn
    exact of_decide_eq_true (Option.filter_eq_some_iff.mp hn).2

end Variables

namespace LoaderSettings

/-- The milliseconds of all attempts of a fetch and of the longest pauses between them. -/
def deadlineMillis (s : LoaderSettings) : ℕ :=
  max s.fetchTimeoutMillis 1 * max s.fetchMaxAttempts 1 +
    s.fetchRetryMaxMillis * (max s.fetchMaxAttempts 1 - 1)

/-- The age limit that the days mean, none when there are none. -/
def maxAge? (s : LoaderSettings) : Option Duration :=
  if s.diskCacheMaxAgeDays = 0 then none else some (.ofSeconds (s.diskCacheMaxAgeDays * 86400))

/-- The most days whose seconds fit 64 bits. -/
abbrev mostDays : ℕ := 213503982334601

/-- Whether both times fit 64 bits. -/
def TimesFit (s : LoaderSettings) : Prop :=
  s.deadlineMillis < words64 ∧ s.diskCacheMaxAgeDays ≤ mostDays

instance (s : LoaderSettings) : Decidable s.TimesFit := inferInstanceAs (Decidable (_ ∧ _))

variable {s : LoaderSettings}

/-- **The deadline is exact or faults.** It does not fault on the way to something that would fit. -/
theorem fetchDeadline_eq (s : LoaderSettings) : s.fetchDeadline =
    if s.deadlineMillis < words64 then .ok (.ofMillis s.deadlineMillis) else .error .overflow := by
  unfold fetchDeadline deadlineMillis
  dsimp only
  generalize s.fetchRetryMaxMillis * (max s.fetchMaxAttempts 1 - 1) = pauses
  generalize max s.fetchTimeoutMillis 1 * max s.fetchMaxAttempts 1 = tries
  rw [word64_bind, word64_bind, word64_bind]
  by_cases hall : tries + pauses < words64
  · rw [if_pos hall, if_pos hall, if_pos (by omega), if_pos (by omega)]
    rfl
  · rw [if_neg hall, if_neg hall]
    split
    · split <;> rfl
    · rfl

/-- **The age limit is exact or faults.** -/
theorem diskCacheMaxAge_eq (s : LoaderSettings) : s.diskCacheMaxAge =
    if s.diskCacheMaxAgeDays ≤ mostDays then .ok s.maxAge? else .error .overflow := by
  unfold diskCacheMaxAge maxAge? mostDays
  by_cases hnone : s.diskCacheMaxAgeDays = 0
  · rw [if_pos hnone, if_pos hnone, if_pos (by omega)]
    rfl
  · have hfit : s.diskCacheMaxAgeDays * 86400 < words64 ↔ s.diskCacheMaxAgeDays ≤ 213503982334601 := by
      unfold words64
      omega
    rw [if_neg hnone, if_neg hnone, word64_bind]
    simp only [hfit]
    rfl

/-- An attempt and a pause that take no more than `2 ^ 32` milliseconds together, some 49 days, may be
repeated as often as a word of 32 bits can tell. -/
theorem deadlineMillis_lt (hattempts : s.fetchMaxAttempts < words32)
    (h : max s.fetchTimeoutMillis 1 + s.fetchRetryMaxMillis ≤ words32) :
    s.deadlineMillis < words64 := by
  have hmost : max s.fetchMaxAttempts 1 ≤ words32 - 1 :=
    Nat.max_le.mpr ⟨Nat.le_sub_one_of_lt hattempts, by decide⟩
  calc s.deadlineMillis
    _ ≤ max s.fetchTimeoutMillis 1 * max s.fetchMaxAttempts 1 +
          s.fetchRetryMaxMillis * max s.fetchMaxAttempts 1 :=
      Nat.add_le_add_left (Nat.mul_le_mul_left _ (Nat.sub_le _ _)) _
    _ = (max s.fetchTimeoutMillis 1 + s.fetchRetryMaxMillis) * max s.fetchMaxAttempts 1 :=
      (Nat.add_mul _ _ _).symm
    _ ≤ words32 * (words32 - 1) := Nat.mul_le_mul h hmost
    _ < words64 := by decide

theorem fetchMaxAttempts_lt (v : Variables) : (ofVariables v).fetchMaxAttempts < words32 :=
  Variables.whole_lt (by decide)

end LoaderSettings

/-! ### Setting out -/

namespace Program

/-- What can keep the program from setting out before any time is computed. -/
def opened (client : ClientMaker) (v : Variables) (service : ServiceSettings) (files : FileTree)
    (now : CalendarTime) : Except LaunchFailure (StreamSettings × DiskStore) := do
  let stream ← (StreamSettings.ofVariables v).mapError .settings
  ((LoaderSettings.ofVariables v).validate stream.enabledLayers).mapError .settings
  let store ← (DiskStore.openAt files (.ofText service.tileCacheDirectory) now).2.mapError .store
  (client (LoaderSettings.ofVariables v).fetchTimeout).mapError .client
  return (stream, store)

theorem launch_eq (client : ClientMaker) (v : Variables) (service : ServiceSettings) (files : FileTree)
    (now : CalendarTime) : launch client v service files now =
      match opened client v service files now with
      | .error e => .ok (.error e)
      | .ok (stream, store) => do
        let maxAge ← (LoaderSettings.ofVariables v).diskCacheMaxAge
        let fetchLimit ← (LoaderSettings.ofVariables v).fetchDeadline
        let warmed := (CachedSource.ofStore store maxAge).warmUp (warmLimit stream) now
        let coverage := Coverage.ofDepth stream.maxZoom
        match Pipeline.ofSettings stream (ScreenSpaceError.ofCoverage coverage).culling coverage with
        | .error e => return .error (.settings e)
        | .ok pipeline =>
          return .ok
            { source := warmed.source
              servers := .ofSettings (LoaderSettings.ofVariables v) stream.enabledLayers
              plan := .ofSettings (LoaderSettings.ofVariables v)
              pipeline
              fetchLimit
              log := [warmLine service warmed.answer, startedLine stream] } := rfl

theorem maxAge_warmUp {σ : Type} [TileStore σ] (c : CachedSource σ) (limit : ℕ) (now : CalendarTime) :
    (c.warmUp limit now).source.maxAge = c.maxAge := by
  unfold CachedSource.warmUp
  split <;> rfl

/-- When the times fit, the program sets out with them or is kept by something else. -/
theorem launch_of_timesFit {v : Variables} (hfit : (LoaderSettings.ofVariables v).TimesFit)
    (client : ClientMaker) (service : ServiceSettings) (files : FileTree) (now : CalendarTime) :
    ∃ r, launch client v service files now = .ok r ∧ ∀ l, r = .ok l →
      l.fetchLimit = .ofMillis (LoaderSettings.ofVariables v).deadlineMillis ∧
      l.source.maxAge = (LoaderSettings.ofVariables v).maxAge? := by
  rw [launch_eq, LoaderSettings.diskCacheMaxAge_eq, if_pos hfit.2, LoaderSettings.fetchDeadline_eq,
    if_pos hfit.1]
  cases opened client v service files now with
  | error e => exact ⟨_, rfl, fun l hl => by cases hl⟩
  | ok r =>
    obtain ⟨stream, store⟩ := r
    dsimp only [bind, Except.bind]
    split
    · exact ⟨_, rfl, fun l hl => by cases hl⟩
    · refine ⟨_, rfl, fun l hl => ?_⟩
      cases hl
      exact ⟨rfl, maxAge_warmUp _ _ _⟩

/-- When one of the times does not fit, the program faults where it would set out. -/
theorem launch_of_not_timesFit {v : Variables} (hfit : ¬ (LoaderSettings.ofVariables v).TimesFit)
    {client : ClientMaker} {service : ServiceSettings} {files : FileTree} {now : CalendarTime}
    {r : StreamSettings × DiskStore} (h : opened client v service files now = .ok r) :
    launch client v service files now = .error .overflow := by
  rw [launch_eq, h, LoaderSettings.diskCacheMaxAge_eq, LoaderSettings.fetchDeadline_eq]
  obtain ⟨stream, store⟩ := r
  by_cases hdays : (LoaderSettings.ofVariables v).diskCacheMaxAgeDays ≤ LoaderSettings.mostDays
  · rw [if_pos hdays, if_neg fun hmillis => hfit ⟨hmillis, hdays⟩]
    rfl
  · rw [if_neg hdays]
    rfl

/-- **Setting out is answered** just when something else keeps the program from it, or both times fit. -/
theorem launch_answered_iff (client : ClientMaker) (v : Variables) (service : ServiceSettings)
    (files : FileTree) (now : CalendarTime) : (∃ r, launch client v service files now = .ok r) ↔
      (∃ e, opened client v service files now = .error e) ∨
        (LoaderSettings.ofVariables v).TimesFit := by
  constructor
  · rintro ⟨r, hr⟩
    cases hopened : opened client v service files now with
    | error e => exact .inl ⟨e, rfl⟩
    | ok opened =>
      refine .inr (Decidable.byContradiction fun hfit => ?_)
      rw [launch_of_not_timesFit hfit hopened] at hr
      cases hr
  · rintro (⟨e, he⟩ | hfit)
    · exact ⟨.error e, by rw [launch_eq, he]⟩
    · obtain ⟨r, hr, -⟩ := launch_of_timesFit hfit client service files now
      exact ⟨r, hr⟩

/-- **What times the program sets out with.** For all variables, the deadline of a fetch and the age limit
are computed exactly when they fit 64 bits, and fault otherwise. No number of attempts is too large for an
attempt and a pause of `2 ^ 32` milliseconds together. The program gets an answer on setting out just
when it is kept by its other settings, its cache or its client, or when both times fit; and when it sets
out, it does so with the exact times. -/
theorem launch_exact (client : ClientMaker) (v : Variables) (service : ServiceSettings)
    (files : FileTree) (now : CalendarTime) :
    let s := LoaderSettings.ofVariables v
    (s.fetchDeadline =
      if s.deadlineMillis < words64 then .ok (.ofMillis s.deadlineMillis) else .error .overflow) ∧
    (s.diskCacheMaxAge =
      if s.diskCacheMaxAgeDays ≤ 213503982334601 then .ok s.maxAge? else .error .overflow) ∧
    (max s.fetchTimeoutMillis 1 + s.fetchRetryMaxMillis ≤ words32 → s.deadlineMillis < words64) ∧
    ((∃ r, launch client v service files now = .ok r) ↔
      (∃ e, opened client v service files now = .error e) ∨ s.TimesFit) ∧
    ∀ l, launch client v service files now = .ok (.ok l) →
      l.fetchLimit = .ofMillis s.deadlineMillis ∧ l.source.maxAge = s.maxAge? := by
  intro s
  refine ⟨s.fetchDeadline_eq, s.diskCacheMaxAge_eq,
    LoaderSettings.deadlineMillis_lt (LoaderSettings.fetchMaxAttempts_lt v),
    launch_answered_iff client v service files now, fun l hl => ?_⟩
  have hfit : s.TimesFit := by
    refine ((launch_answered_iff client v service files now).mp ⟨_, hl⟩).resolve_left ?_
    rintro ⟨e, he⟩
    rw [launch_eq, he] at hl
    cases hl
  obtain ⟨r, hr, htimes⟩ := launch_of_timesFit hfit client service files now
  exact htimes l (Except.ok.inj (hr.symm.trans hl))

/-- An attempt of 292 million years, twice. -/
def longAttempts : Variables :=
  ⟨[("TERRA_FETCH_TIMEOUT_MS", "9223372036854775808"), ("TERRA_FETCH_MAX_ATTEMPTS", "2")]⟩

/-- An age limit of 585 billion years. -/
def longAge : Variables := ⟨[("TERRA_DISK_CACHE_MAX_AGE_DAYS", "213503982334602")]⟩

/-- **Setting out with times that do not fit.** The settings are accepted, and the program faults. -/
theorem launch_overflow :
    (LoaderSettings.ofVariables longAttempts).validate StreamSettings.standard.enabledLayers = .ok () ∧
    (LoaderSettings.ofVariables longAttempts).fetchDeadline = .error .overflow ∧
    (LoaderSettings.ofVariables longAge).validate StreamSettings.standard.enabledLayers = .ok () ∧
    (LoaderSettings.ofVariables longAge).diskCacheMaxAge = .error .overflow ∧
    launch (fun _ => .ok ()) longAttempts (.ofVariables longAttempts "terra-streamer") .standard ⟨0⟩ =
      .error .overflow ∧
    launch (fun _ => .ok ()) longAge (.ofVariables longAge "terra-streamer") .standard ⟨0⟩ =
      .error .overflow := by
  have hfit : ¬ (LoaderSettings.ofVariables longAttempts).TimesFit := by decide +kernel
  have hfit' : ¬ (LoaderSettings.ofVariables longAge).TimesFit := by decide +kernel
  exact ⟨rfl, by decide +kernel, rfl, by decide +kernel, launch_of_not_timesFit hfit rfl,
    launch_of_not_timesFit hfit' rfl⟩

end Program

end TileStream
