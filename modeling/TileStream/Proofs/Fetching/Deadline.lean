import Mathlib.Algebra.Order.BigOperators.Group.List
import Mathlib.Algebra.Order.Group.Nat
import TileStream.Proofs.Fault
import TileStream.Proofs.Fetching.Pauses

/-! # The deadline of a fetch

The deadline counts every try at its longest and every pause at the longest one of the settings. The
retry plan pauses by a rule of its own: no pause is shorter than a millisecond, and the longest pause
is never shorter than the first. So a fetch takes at most as long as all its tries and the plan's own
longest pauses (`Retried.Doubling.took_le`), and a fetch that keeps failing takes that long when the
first pause is the longest (`Retried.Doubling.took_always`). The deadline holds for every course of a
fetch just when there is no second try, or when the first pause of the plan is no longer than the longest
one of the settings (`RetryPlan.within_deadline_iff`).

All of this is on a timer that runs for as long as it is set to. -/

namespace TileStream

namespace Numeric

/-- At most `n` numbers, none of which exceeds `b`. -/
theorem total_map_le {α : Type} {f : α → Nat} {as : List α} {n b : Nat} (hn : as.length ≤ n)
    (h : ∀ a ∈ as, f a ≤ b) : total (as.map f) ≤ n * b := by
  have hsum : total (as.map f) ≤ (as.map f).length * b := by
    refine List.sum_le_card_nsmul _ b fun m hm => ?_
    obtain ⟨a, ha, rfl⟩ := List.mem_map.mp hm
    exact h a ha
  rw [List.length_map] at hsum
  exact le_trans hsum (Nat.mul_le_mul_right _ hn)

theorem total_replicate (n b : Nat) : total (List.replicate n b) = n * b := by
  induction n with
  | zero => rw [Nat.zero_mul]; rfl
  | succ n ih => rw [List.replicate_succ, total_cons, ih, Nat.succ_mul, Nat.add_comm]

end Numeric

/-! ### How long a course takes -/

namespace Retried

open Numeric

variable {timer : Timer} {answer : Nat → Attempt} {tries first longest timeout : Nat} {r : Retried}

/-- **A fetch takes no longer than all its tries with the longest pause after each but the last.** -/
theorem Doubling.took_le (h : r.Doubling timer answer tries first longest) (htimer : timer.Exact)
    (hanswer : ∀ i, (answer i).took.nanos ≤ timeout) :
    (r.took timer).nanos ≤ tries * timeout + (tries - 1) * (longest * nanosPerMilli) := by
  have hattempts : total (r.attempts.map fun a => a.took.nanos) ≤ tries * timeout := by
    refine total_map_le h.le_tries fun a ha => ?_
    rw [h.tried] at ha
    obtain ⟨i, -, rfl⟩ := List.mem_map.mp ha
    exact hanswer i
  have hpauses : total r.pauses ≤ (tries - 1) * longest := by
    rw [h.pauses]
    refine total_map_le ?_ fun i _ => min_le_right _ _
    rw [List.length_range]
    exact Nat.sub_le_sub_right h.le_tries 1
  unfold took
  rw [waits_of_exact htimer, ← Nat.mul_assoc]
  exact Nat.add_le_add hattempts (Nat.mul_le_mul_right _ hpauses)

/-- **A fetch that keeps failing** uses every try, and takes just as long when all pauses are alike. -/
theorem Doubling.took_always {a : Attempt} (h : r.Doubling timer (fun _ => a) tries first first)
    (htimer : timer.Exact) (ha : a.outcome.isTransient = true) :
    (r.took timer).nanos = tries * a.took.nanos + (tries - 1) * (first * nanosPerMilli) := by
  have hall : r.attempts.length = tries :=
    h.last.resolve_left (by rw [ha]; exact Bool.noConfusion)
  have hattempts : r.attempts = List.replicate tries a := by
    rw [h.tried, hall, List.map_const', List.length_range]
  have hpauses : r.pauses = List.replicate (tries - 1) first := by
    have halike : ∀ i, min (first * 2 ^ i) first = first := fun i =>
      min_eq_right (Nat.le_mul_of_pos_right _ (Nat.two_pow_pos i))
    simp only [h.pauses, halike, hall, List.map_const', List.length_range]
  unfold took
  rw [waits_of_exact htimer, hattempts, hpauses, List.map_replicate, total_replicate, total_replicate]
  exact congrArg (tries * a.took.nanos + ·) (Nat.mul_assoc _ _ _)

end Retried

namespace RetryPlan

/-! ### The plan of the settings -/

theorem millis64_ofMillis_le (ms : Nat) : (Duration.ofMillis ms).millis64 ≤ ms := by
  unfold Duration.millis64 Duration.millis Duration.ofMillis
  rw [Nat.mul_div_cancel ms (by decide)]
  exact Nat.mod_le _ _

theorem millis64_ofMillis {ms : Nat} (h : ms < Checked.words64) : (Duration.ofMillis ms).millis64 = ms := by
  unfold Duration.millis64 Duration.millis Duration.ofMillis
  rw [Nat.mul_div_cancel ms (by decide)]
  exact Nat.mod_eq_of_lt h

variable {timer : Timer} {s : LoaderSettings} {deadline : Duration}

theorem firstPause_ofSettings (h : s.fetchRetryInitialMillis < Checked.words64) :
    (ofSettings s).firstPause = max s.fetchRetryInitialMillis 1 :=
  congrArg (max · 1) (millis64_ofMillis h)

/-- The longest pause is that of the settings, unless the first one is longer. -/
theorem longestPause_ofSettings (s : LoaderSettings) :
    (ofSettings s).longestPause ≤ max s.fetchRetryMaxMillis (ofSettings s).firstPause :=
  max_le_max_right _ (millis64_ofMillis_le _)

theorem firstPause_le_longestPause (s : LoaderSettings) :
    (ofSettings s).firstPause ≤ (ofSettings s).longestPause :=
  le_max_right _ _

/-- A first pause that is longer than the longest one of the settings is the longest there is. -/
theorem longestPause_of_lt (hover : s.fetchRetryMaxMillis < (ofSettings s).firstPause) :
    (ofSettings s).longestPause = (ofSettings s).firstPause :=
  le_antisymm (le_trans (longestPause_ofSettings s) (max_le hover.le le_rfl))
    (firstPause_le_longestPause s)

/-- The course of a fetch by the settings. -/
theorem doubling_ofSettings (htimer : timer.Exact) (s : LoaderSettings) (answer : Nat → Attempt) :
    ((ofSettings s).run answer).Doubling timer answer (ofSettings s).tries (ofSettings s).firstPause
      (ofSettings s).longestPause := by
  have hword : ∀ d : Duration, d.millis64 < Checked.words64 := fun d => Nat.mod_lt _ (by decide)
  exact doubling_run htimer (le_max_right _ _) (firstPause_le_longestPause s)
    (max_lt (hword _) (max_lt (hword _) (by decide))) answer

/-- The deadline in nanoseconds. -/
theorem nanos_fetchDeadline (h : s.fetchDeadline = .ok deadline) :
    deadline.nanos = (ofSettings s).tries * s.fetchTimeout.nanos +
      ((ofSettings s).tries - 1) * (s.fetchRetryMaxMillis * nanosPerMilli) := by
  obtain ⟨pauses, hpauses, h⟩ := Checked.bind_eq_ok h
  obtain ⟨tries, htries, h⟩ := Checked.bind_eq_ok h
  obtain ⟨all, hall, h⟩ := Checked.bind_eq_ok h
  rw [Checked.word64_eq_ok hpauses, Checked.word64_eq_ok htries] at hall
  rw [Checked.word64_eq_ok hall] at h
  cases h
  have hspread : ∀ a m n k : Nat, (a * n + m * (n - 1)) * k = n * (a * k) + (n - 1) * (m * k) := by
    intro a m n k
    rw [Nat.add_mul, Nat.mul_right_comm a, Nat.mul_right_comm m, Nat.mul_comm n,
      Nat.mul_comm (n - 1)]
  exact hspread _ _ _ _

/-- **When the deadline holds.** Every course of a fetch whose tries take no longer than they may keeps
the deadline just when there is no second try, or when the first pause is no longer than the longest
pause of the settings. -/
theorem within_deadline_iff (htimer : timer.Exact)
    (hinitial : s.fetchRetryInitialMillis < Checked.words64) (hd : s.fetchDeadline = .ok deadline) :
    (∀ answer : Nat → Attempt, (∀ i, (answer i).took.nanos ≤ s.fetchTimeout.nanos) →
      (((ofSettings s).run answer).took timer).nanos ≤ deadline.nanos) ↔
    s.fetchMaxAttempts ≤ 1 ∨ max s.fetchRetryInitialMillis 1 ≤ s.fetchRetryMaxMillis := by
  have htries : (ofSettings s).tries = max s.fetchMaxAttempts 1 := rfl
  have hlongest := longestPause_ofSettings s
  rw [nanos_fetchDeadline hd, ← firstPause_ofSettings hinitial]
  constructor
  · intro hall
    by_contra hnot
    rw [not_or, not_le, not_le] at hnot
    obtain ⟨hmany, hlong⟩ := hnot
    have hcourse := doubling_ofSettings htimer s fun _ => ⟨.error (.transient ""), s.fetchTimeout⟩
    rw [longestPause_of_lt hlong] at hcourse
    have hkept := hall (fun _ => ⟨.error (.transient ""), s.fetchTimeout⟩) fun _ => le_rfl
    rw [hcourse.took_always htimer rfl] at hkept
    have hpauses := Nat.le_of_add_le_add_left hkept
    have hpause := Nat.le_of_mul_le_mul_left hpauses (by omega)
    exact absurd (Nat.le_of_mul_le_mul_right hpause (by decide)) (not_le.mpr hlong)
  · intro hshort answer hanswer
    refine le_trans ((doubling_ofSettings htimer s answer).took_le htimer hanswer)
      (Nat.add_le_add_left ?_ _)
    rcases hshort with hone | hle
    · have hnone : (ofSettings s).tries - 1 = 0 := by omega
      rw [hnone, Nat.zero_mul, Nat.zero_mul]
    · rw [max_eq_left hle] at hlongest
      exact Nat.mul_le_mul_left _ (Nat.mul_le_mul_right _ hlongest)

theorem within_deadline_standard : LoaderSettings.standard.fetchDeadline = .ok (.ofMillis 32000) ∧
    ∀ answer : Nat → Attempt, (∀ i, (answer i).took.nanos ≤ 8000000000) →
      (((ofSettings .standard).run answer).took ⟨id⟩).nanos ≤ 32000000000 :=
  ⟨by decide, (@within_deadline_iff ⟨id⟩ .standard (.ofMillis 32000) (fun _ => rfl) (by decide)
    (by decide)).mpr (.inr (by decide))⟩

/-- Settings with a first pause that is longer than the longest one. -/
def longFirstPause : LoaderSettings :=
  { LoaderSettings.standard with
    fetchTimeoutMillis := 1
    fetchMaxAttempts := 2
    fetchRetryInitialMillis := 1000
    fetchRetryMaxMillis := 100 }

/-- Two tries that fail at once take a second, and the deadline is a tenth of it. -/
theorem deadline_missed : ∃ answer : Nat → Attempt,
    (∀ i, (answer i).took.nanos ≤ longFirstPause.fetchTimeout.nanos) ∧
      longFirstPause.fetchDeadline = .ok (.ofMillis 102) ∧
      ((ofSettings longFirstPause).run answer).took ⟨id⟩ = .ofMillis 1000 :=
  ⟨fun _ => ⟨.error (.transient "reset"), ⟨0⟩⟩, fun _ => Nat.zero_le _, by decide, by decide⟩

end RetryPlan

end TileStream
