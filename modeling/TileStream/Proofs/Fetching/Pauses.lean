import Mathlib.Algebra.Group.Nat.Defs
import Mathlib.Order.Lattice
import TileStream.Fetching.Retry

/-! # The tries and the pauses of a fetch

A plan pauses by doubling, cut to 64 bits and to the longest pause after every step. As long as the longest
pause fits 64 bits, the cut to them never shows (`RetryPlan.nextPause_min`), and the `i`-th pause is `2 ^ i`
times the first one in whole numbers of any size, and no longer than the longest. So the course of a fetch
is told without the loop (`Retried.Doubling`, `RetryPlan.run_doubling`): it is tried until an outcome is
final or no more tries are allowed, and on a timer that runs for as long as it is set to, each try starts
just as long after the end of the one before it as the pause should last. -/

namespace TileStream

namespace Retried

/-! ### When the tries start -/

/-- On an exact timer the pauses last as long as they should. -/
theorem waits_of_exact {timer : Timer} (h : timer.Exact) (r : Retried) : r.waits timer = r.pauses :=
  (List.map_congr_left fun ms _ => h ms).trans (List.map_id _)

/-- **The next try starts after the wait** that follows the one before it. -/
theorem startsFrom_succ {as : List Attempt} {waits : List Nat} {a : Attempt} {i : Nat}
    (ha : as[i]? = some a) (hnext : i + 1 < as.length) (t : Nat) : ∃ s,
    (startsFrom t as waits)[i]? = some ⟨s⟩ ∧ (startsFrom t as waits)[i + 1]? =
      some ⟨s + a.took.nanos + waits.getD i 0 * nanosPerMilli⟩ := by
  induction as generalizing t waits i with
  | nil => cases ha
  | cons first rest ih =>
    cases i with
    | zero =>
      rw [List.getElem?_cons_zero] at ha
      cases ha
      obtain ⟨b, more, rfl⟩ := List.exists_cons_of_length_pos (Nat.lt_of_succ_lt_succ hnext)
      refine ⟨t, rfl, ?_⟩
      cases waits <;> rfl
    | succ i =>
      rw [List.getElem?_cons_succ] at ha
      obtain ⟨s, hs, hs'⟩ := @ih waits.tail i ha (Nat.lt_of_succ_lt_succ hnext)
        (t + first.took.nanos + waits.headD 0 * nanosPerMilli)
      refine ⟨s, hs, hs'.trans ?_⟩
      cases waits <;> rfl

/-- **The course of a fetch** that is tried at most `tries` times, with pauses that double from `first` on
up to `longest`. -/
structure Doubling (timer : Timer) (answer : Nat → Attempt) (tries first longest : Nat) (r : Retried) :
    Prop where
  /-- The tries are the first ones that are answered. -/
  tried : r.attempts = (List.range r.attempts.length).map answer
  one_le : 1 ≤ r.attempts.length
  le_tries : r.attempts.length ≤ tries
  /-- What may pass is tried again. -/
  again : ∀ i, i + 1 < r.attempts.length → (answer i).outcome.isTransient = true
  /-- The last try gives what is final, or is the last that is allowed. -/
  last : (answer (r.attempts.length - 1)).outcome.isTransient = false ∨ r.attempts.length = tries
  outcome : r.outcome = (answer (r.attempts.length - 1)).outcome
  pauses : r.pauses = (List.range (r.attempts.length - 1)).map fun i => min (first * 2 ^ i) longest
  starts_zero : (r.starts timer)[0]? = some ⟨0⟩
  /-- Between the end of a try and the start of the next one there is the pause and no more. -/
  starts_succ : ∀ i, i + 1 < r.attempts.length → ∃ s, (r.starts timer)[i]? = some ⟨s⟩ ∧
    (r.starts timer)[i + 1]? =
      some ⟨s + (answer i).took.nanos + min (first * 2 ^ i) longest * nanosPerMilli⟩

end Retried

namespace RetryPlan

variable {p : RetryPlan} {timer : Timer} {answer : Nat → Attempt}

/-! ### Doubling -/

/-- **Doubling is exact up to the longest pause,** when that fits 64 bits. -/
theorem nextPause_min (h : p.longestPause < Checked.words64) (pause : Nat) :
    p.nextPause (min pause p.longestPause) = min (2 * pause) p.longestPause := by
  unfold nextPause
  omega

/-- How a fetch goes on from its `i`-th try, in numbers: `n` more tries are made. -/
structure GoesOn (p : RetryPlan) (answer : Nat → Attempt) (left i pause n : Nat) (r : Retried) :
    Prop where
  le_left : n ≤ left
  attempts : r.attempts = (List.range (n + 1)).map fun j => answer (i + j)
  again : ∀ j < n, (answer (i + j)).outcome.isTransient = true
  last : (answer (i + n)).outcome.isTransient = false ∨ n = left
  outcome : r.outcome = (answer (i + n)).outcome
  pauses : r.pauses = (List.range n).map fun j => min (pause * 2 ^ j) p.longestPause

theorem exists_goesOn (h : p.longestPause < Checked.words64) (left i pause : Nat) : ∃ n,
    p.GoesOn answer left i pause n (p.runFrom answer left i (min pause p.longestPause)) := by
  induction left generalizing i pause with
  | zero => exact ⟨0, Nat.le_refl 0, rfl, fun j hj => absurd hj (Nat.not_lt_zero j), .inr rfl, rfl, rfl⟩
  | succ left ih =>
    unfold runFrom
    dsimp only
    split
    · next hagain =>
      obtain ⟨n, hn⟩ := ih (i + 1) (2 * pause)
      have hshift : ∀ j, i + 1 + j = i + (j + 1) := fun j => by omega
      rw [nextPause_min h]
      refine ⟨n + 1, Nat.succ_le_succ hn.le_left, ?_, fun j hj => ?_, ?_, ?_, ?_⟩
      · rw [List.range_succ_eq_map, List.map_cons, List.map_map, hn.attempts]
        simp only [Function.comp_def, hshift]
        rfl
      · cases j with
        | zero => exact hagain
        | succ j =>
          rw [← hshift]
          exact hn.again j (Nat.lt_of_succ_lt_succ hj)
      · rw [← hshift]
        exact hn.last.imp_right (congrArg (· + 1))
      · exact hn.outcome.trans (by rw [hshift])
      · rw [List.range_succ_eq_map, List.map_cons, List.map_map, hn.pauses]
        have hdouble : ∀ j, pause * 2 ^ (j + 1) = 2 * pause * 2 ^ j := fun j => by
          rw [Nat.pow_succ, Nat.mul_comm (2 ^ j), ← Nat.mul_assoc, Nat.mul_comm pause]
        simp only [Function.comp_def, Nat.succ_eq_add_one, hdouble, Nat.pow_zero, Nat.mul_one]
    · next hfinal =>
      exact ⟨0, Nat.zero_le _, rfl, fun j hj => absurd hj (Nat.not_lt_zero j),
        .inl (Bool.eq_false_iff.mpr hfinal), rfl, rfl⟩

/-! ### The whole course -/

/-- From the first try on, a fetch that may be tried once takes the whole course. -/
theorem GoesOn.doubling {n : Nat} {r : Retried}
    (h : p.GoesOn answer (p.tries - 1) 0 p.firstPause n r) (htimer : timer.Exact)
    (hpos : 1 ≤ p.tries) : r.Doubling timer answer p.tries p.firstPause p.longestPause := by
  have hlength : r.attempts.length = n + 1 := by rw [h.attempts, List.length_map, List.length_range]
  have hlast : r.attempts.length - 1 = n := by omega
  have hattempts := h.attempts
  have hle := h.le_left
  simp only [Nat.zero_add] at hattempts
  have hwaits : ∀ i < n, (r.waits timer).getD i 0 = min (p.firstPause * 2 ^ i) p.longestPause :=
    fun i hi => by
      rw [Retried.waits_of_exact htimer, h.pauses]
      simp [hi]
  have htry : ∀ i, i + 1 < r.attempts.length → r.attempts[i]? = some (answer i) := fun i hi => by
    rw [hattempts, List.getElem?_map, List.getElem?_range (by omega)]
    rfl
  exact {
    tried := by rw [hlength]; exact hattempts
    one_le := by omega
    le_tries := by omega
    again := fun i hi => by
      rw [← Nat.zero_add i]
      exact h.again i (by omega)
    last := by
      rw [hlast, ← Nat.zero_add n]
      exact h.last.imp_right fun hused => by omega
    outcome := by rw [hlast, h.outcome, Nat.zero_add]
    pauses := by rw [hlast]; exact h.pauses
    starts_zero := by
      unfold Retried.starts
      rw [hattempts, List.range_succ_eq_map]
      rfl
    starts_succ := fun i hi => by
      rw [← hwaits i (by omega)]
      exact Retried.startsFrom_succ (htry i hi) hi 0 }

/-- **The course of a fetch by a plan** whose longest pause fits 64 bits. -/
theorem doubling_run (htimer : timer.Exact) (hpos : 1 ≤ p.tries)
    (hfirst : p.firstPause ≤ p.longestPause) (hword : p.longestPause < Checked.words64)
    (answer : Nat → Attempt) :
    (p.run answer).Doubling timer answer p.tries p.firstPause p.longestPause := by
  obtain ⟨n, hn⟩ := @exists_goesOn p answer hword (p.tries - 1) 0 p.firstPause
  rw [min_eq_left hfirst] at hn
  exact hn.doubling htimer hpos

/-- **A fetch is tried until its outcome is final or its tries are used up,** and its pauses double in whole
numbers of any size: this holds for all answers and for all numbers that a plan is made of, as long as the
milliseconds of the two pauses fit 64 bits. On an exact timer the pauses last just as long. -/
theorem run_doubling (htimer : timer.Exact) {first longest : Duration}
    (hfirst : first.millis < Checked.words64) (hlongest : longest.millis < Checked.words64)
    (tries : Nat) (answer : Nat → Attempt) :
    ((ofPauses tries first longest).run answer).Doubling timer answer (max tries 1)
      (max first.millis 1) (max longest.millis (max first.millis 1)) := by
  have hplan : ofPauses tries first longest = ⟨max tries 1, max first.millis 1,
      max longest.millis (max first.millis 1)⟩ := by
    unfold ofPauses Duration.millis64
    rw [Nat.mod_eq_of_lt hfirst, Nat.mod_eq_of_lt hlongest]
  have hword : max longest.millis (max first.millis 1) < Checked.words64 :=
    max_lt hlongest (max_lt hfirst (by decide))
  rw [hplan]
  exact doubling_run (p := ⟨_, _, _⟩) htimer (le_max_right _ _) (le_max_right _ _) hword answer

/-- Pauses of `2 ^ 63` milliseconds and then of as many as fit 64 bits. -/
example : ((ofPauses 3 (.ofMillis 9223372036854775808) (.ofMillis 18446744073709551615)).run
    fun _ => ⟨.error (.transient "reset"), ⟨0⟩⟩).pauses =
      [9223372036854775808, 18446744073709551615] := by decide

/-- Four tries of ten milliseconds, with pauses that double until the longest one is reached. -/
theorem run_doubling_four_tries : Timer.Exact ⟨id⟩ ∧
    (Duration.ofMillis 250).millis < Checked.words64 ∧
    (Duration.ofMillis 600).millis < Checked.words64 ∧
    let answer : Nat → Attempt := fun i =>
      ⟨if i < 3 then .error (.transient "reset") else .error .notFound, .ofMillis 10⟩
    let r := (ofPauses 9 (.ofMillis 250) (.ofMillis 600)).run answer
    r.Doubling ⟨id⟩ answer 9 250 600 ∧ r.outcome = .error .notFound ∧ r.pauses = [250, 500, 600] ∧
      r.starts ⟨id⟩ = [⟨0⟩, .ofMillis 260, .ofMillis 770, .ofMillis 1380] := by
  have hfirst : (Duration.ofMillis 250).millis < Checked.words64 := by decide
  have hlongest : (Duration.ofMillis 600).millis < Checked.words64 := by decide
  exact ⟨fun _ => rfl, hfirst, hlongest, run_doubling (fun _ => rfl) hfirst hlongest 9 _, by decide,
    by decide, by decide⟩

end RetryPlan

end TileStream
