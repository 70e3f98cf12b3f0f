import Mathlib.Tactic.Ring
import TileStream.Admission.TokenBucket
import TileStream.Proofs.Time

/-! # The level of a token bucket

With exact numbers for its levels, a bucket in use is never more than the slack below empty and never
fuller than its capacity (`TokenBucket.Filled`). What it lets go in a run of calls is paid for: each quad
takes a token, and tokens come at the rate while the latest time seen grows
(`TokenBucket.left_add_level_le`). So no stretch of a run lets more quads go than a full bucket, what
comes in meanwhile, and the slack (`TokenBucket.left_le`), whatever the times of the calls are.

Between two refills the level is a line cut off at the capacity (`TokenBucket.tokensAt_later`). When no
quad can go, the next one is announced for when the missing part of a token will have come, unless that is
too late for an instant (`TokenBucket.nextReleaseAt_eq`). -/

namespace TileStream

/-- A call of a token bucket. -/
inductive BucketCall where
  | request (quad : QuadId)
  | poll (now : Instant)

/-- The time of a poll. -/
def BucketCall.polledAt? : BucketCall → Option Instant
  | request _ => none
  | poll now => some now

/-- The times of the polls among some calls. -/
def polls (calls : List BucketCall) : List Instant := calls.filterMap BucketCall.polledAt?

/-- The latest of some times. -/
def Instant.IsLatest (t : Instant) (times : List Instant) : Prop :=
  t ∈ times ∧ ∀ u ∈ times, u.nanos ≤ t.nanos

/-- The later of the latest time and one more is the latest of all. -/
theorem Instant.IsLatest.later {t : Instant} {times : List Instant} (h : t.IsLatest times)
    (now : Instant) : (t.later now).IsLatest (times ++ [now]) := by
  obtain ⟨ht, hall⟩ := h
  rcases le_total t.nanos now.nanos with hle | hle
  · have hnow : t.later now = now := congrArg Instant.mk (max_eq_right hle)
    rw [hnow]
    refine ⟨by simp, fun u hu => ?_⟩
    rcases List.mem_append.mp hu with hu | hu
    · exact (hall u hu).trans hle
    · rw [List.mem_singleton.mp hu]
  · have hsame : t.later now = t := congrArg Instant.mk (max_eq_left hle)
    rw [hsame]
    refine ⟨by simp [ht], fun u hu => ?_⟩
    rcases List.mem_append.mp hu with hu | hu
    · exact hall u hu
    · rwa [List.mem_singleton.mp hu]

theorem Instant.IsLatest.eq {t u : Instant} {times : List Instant} (ht : t.IsLatest times)
    (hu : u.IsLatest times) : t = u :=
  congrArg Instant.mk (le_antisymm (hu.2 t ht.1) (ht.2 u hu.1))

namespace TokenBucket

open TokenArithmetic

section

variable {τ : Type} {b : TokenBucket τ} {last : Instant}

/-- The latest time seen by `now`. -/
def clock (b : TokenBucket τ) (now : Instant) : Instant :=
  match b.refilledAt with
  | none => now
  | some last => last.later now

theorem clock_of_none (h : b.refilledAt = none) (now : Instant) : b.clock now = now := by
  rw [clock, h]

theorem clock_of_some (h : b.refilledAt = some last) (now : Instant) :
    b.clock now = last.later now := by
  rw [clock, h]

/-- A time that is not before the latest refill is the latest one seen. -/
theorem clock_eq {now : Instant} (h : ∀ last, b.refilledAt = some last → last.nanos ≤ now.nanos) :
    b.clock now = now := by
  cases hb : b.refilledAt with
  | none => exact clock_of_none hb now
  | some last => exact (clock_of_some hb now).trans (congrArg Instant.mk (max_eq_right (h last hb)))

theorem le_clock (b : TokenBucket τ) (now : Instant) : now.nanos ≤ (b.clock now).nanos := by
  unfold clock
  split
  · exact le_rfl
  · next last _ => exact le_max_right last.nanos now.nanos

/-- The latest time seen does not go back. -/
theorem clock_le (b : TokenBucket τ) {now later : Instant} (h : now.nanos ≤ later.nanos) :
    (b.clock now).seconds ≤ (b.clock later).seconds := by
  rw [Instant.seconds_le_iff]
  cases hb : b.refilledAt with
  | none => rwa [clock_of_none hb, clock_of_none hb]
  | some last =>
    rw [clock_of_some hb, clock_of_some hb]
    exact max_le_max_left last.nanos h

end

section

variable {τ : Type} [TokenArithmetic τ]

/-- The bucket after a call, and the quads that leave in it. -/
def act (b : TokenBucket τ) : BucketCall → TokenBucket τ × List QuadId
  | .request quad => (b.request quad, [])
  | .poll now => b.poll now

/-- The bucket after some calls, and the quads that left in them. -/
def run (b : TokenBucket τ) : List BucketCall → TokenBucket τ × List QuadId
  | [] => (b, [])
  | c :: calls => (((b.act c).1.run calls).1, (b.act c).2 ++ ((b.act c).1.run calls).2)

/-- Somebody leaves just when somebody waits and there is a token. -/
theorem serve_ne_nil_iff (tokens : τ) (line : List QuadId) :
    (serve tokens line).1 ≠ [] ↔ line ≠ [] ∧ hasToken tokens = true := by
  cases line with
  | nil => simp [serve]
  | cons quad rest =>
    unfold serve
    split
    · next h => simp [h]
    · next h => simp [h]

theorem leaves_iff (b : TokenBucket τ) (now : Instant) :
    (b.poll now).2 ≠ [] ↔ b.pending ≠ [] ∧ hasToken (b.tokensAt now) = true :=
  serve_ne_nil_iff _ _

theorem refilledAt_poll (b : TokenBucket τ) (now : Instant) :
    (b.poll now).1.refilledAt = some (b.clock now) := rfl

/-- The latest time polled is the one at which the bucket was refilled, if there is any. -/
def Seen (b : TokenBucket τ) (times : List Instant) : Prop :=
  match b.refilledAt with
  | none => times = []
  | some last => last.IsLatest times

theorem seen_ofRate (rate : τ) : (ofRate rate).Seen [] := by
  rw [Seen, ofRate]

theorem seen_act {b : TokenBucket τ} {times : List Instant} (h : b.Seen times) (c : BucketCall) :
    (b.act c).1.Seen (times ++ polls [c]) := by
  cases c with
  | request quad =>
    rw [show polls [.request quad] = [] from rfl, List.append_nil]
    exact h
  | poll now =>
    rw [show polls [.poll now] = [now] from rfl]
    unfold Seen at h ⊢
    rw [show (b.act (.poll now)).1.refilledAt = _ from refilledAt_poll b now]
    cases hb : b.refilledAt with
    | none =>
      rw [hb] at h
      subst h
      rw [clock_of_none hb]
      exact ⟨List.mem_singleton_self _, fun u hu => by rw [List.mem_singleton.mp hu]⟩
    | some last =>
      rw [hb] at h
      rw [clock_of_some hb]
      exact h.later now

theorem seen_run {b : TokenBucket τ} {times : List Instant} (h : b.Seen times)
    (calls : List BucketCall) : (b.run calls).1.Seen (times ++ polls calls) := by
  induction calls generalizing b times with
  | nil =>
    rw [show polls [] = [] from rfl, List.append_nil]
    exact h
  | cons c calls ih =>
    have hcons : polls (c :: calls) = polls [c] ++ polls calls := List.filterMap_append (l := [c])
    rw [hcons, ← List.append_assoc]
    exact ih (seen_act h c)

end

/-! ### Exact levels -/

variable {b : TokenBucket Rat} {rate : Rat} {now : Instant}

/-- **A bucket in use,** filled at a rate. -/
structure Filled (b : TokenBucket Rat) (rate : Rat) : Prop where
  rate_eq : b.rate = rate
  capacity_eq : b.capacity = max rate 1
  least : -slack ≤ b.tokens
  most : b.tokens ≤ b.capacity
  /-- It starts full. -/
  fresh : b.refilledAt = none → b.tokens = b.capacity

theorem hasToken_iff {tokens : Rat} : hasToken tokens = true ↔ 1 ≤ tokens + slack :=
  decide_eq_true_iff

theorem slack_pos : (0 : Rat) < slack := by
  show (0 : Rat) < 1 / 1000000000
  norm_num

theorem Filled.one_le (hb : b.Filled rate) : 1 ≤ b.capacity := hb.capacity_eq ▸ le_max_right rate 1

theorem filled_ofRate (hrate : 0 < rate) : (ofRate rate).Filled rate := by
  have hrate' : isRate rate = true := decide_eq_true hrate
  have heq : ofRate rate = ⟨rate, larger rate one, larger rate one, none, []⟩ := by
    unfold ofRate
    rw [if_pos hrate']
  have hlarger : larger rate one = max rate 1 := (max_def rate 1).symm
  rw [heq, hlarger]
  refine ⟨rfl, rfl, ?_, le_rfl, fun _ => rfl⟩
  have hpos := slack_pos
  have hone := le_max_right rate 1
  show -slack ≤ max rate 1
  linarith

/-- The seconds from one instant to another. -/
theorem seconds_since (now last : Instant) :
    (seconds (now.since last) : Rat) = (last.later now).seconds - last.seconds := by
  have hcast : (((now.nanos - last.nanos).toNat : Nat) : Rat) =
      ((max last.nanos now.nanos - last.nanos : Int) : Rat) := by
    rw [← Int.cast_natCast]
    congr 1
    omega
  show (((now.nanos - last.nanos).toNat : Nat) : Rat) / nanosPerSecond =
    ((max last.nanos now.nanos : Int) : Rat) / nanosPerSecond - (last.nanos : Rat) / nanosPerSecond
  rw [hcast, Int.cast_sub, sub_div]

theorem tokensAt_eq {last : Instant} (h : b.refilledAt = some last) (now : Instant) :
    b.tokensAt now =
      min (b.tokens + ((last.later now).seconds - last.seconds) * b.rate) b.capacity := by
  unfold tokensAt
  rw [h]
  dsimp only
  rw [seconds_since, min_def]
  rfl

theorem tokensAt_of_none (h : b.refilledAt = none) (now : Instant) : b.tokensAt now = b.tokens := by
  unfold tokensAt
  rw [h]

theorem later_seconds (last now : Instant) : last.seconds ≤ (last.later now).seconds :=
  Instant.seconds_le_iff.mpr (le_max_left last.nanos now.nanos)

/-- Time takes no token away, and the bucket does not flow over. -/
theorem Filled.tokensAt (hb : b.Filled rate) (hrate : 0 < rate) (now : Instant) :
    b.tokens ≤ b.tokensAt now ∧ b.tokensAt now ≤ b.capacity := by
  cases h : b.refilledAt with
  | none =>
    rw [tokensAt_of_none h]
    exact ⟨le_rfl, hb.most⟩
  | some last =>
    rw [tokensAt_eq h, hb.rate_eq]
    have hgain : 0 ≤ ((last.later now).seconds - last.seconds) * rate :=
      mul_nonneg (sub_nonneg.mpr (later_seconds last now)) hrate.le
    exact ⟨le_min (by linarith) hb.most, min_le_right _ _⟩

/-- Each quad takes a token, and there was one for it but for the slack. -/
theorem level_serve (tokens : Rat) (line : List QuadId) :
    (serve tokens line).2.2 = tokens - (serve tokens line).1.length ∧
      (-slack ≤ tokens → -slack ≤ (serve tokens line).2.2) := by
  induction line generalizing tokens with
  | nil => simp [serve]
  | cons quad rest ih =>
    unfold serve
    split
    · next h =>
      obtain ⟨hlevel, hleast⟩ := ih (sub tokens one)
      have hsub : (sub tokens one : Rat) = tokens - 1 := rfl
      dsimp only
      refine ⟨?_, fun _ => hleast ?_⟩
      · rw [hlevel, hsub, List.length_cons]
        push_cast
        ring
      · rw [hasToken_iff] at h
        rw [hsub]
        linarith
    · simp

theorem level_poll (b : TokenBucket Rat) (now : Instant) :
    (b.poll now).1.tokens = b.tokensAt now - (b.poll now).2.length :=
  (level_serve _ _).1

theorem Filled.act (hb : b.Filled rate) (hrate : 0 < rate) (c : BucketCall) :
    (b.act c).1.Filled rate := by
  cases c with
  | request quad => exact ⟨hb.rate_eq, hb.capacity_eq, hb.least, hb.most, hb.fresh⟩
  | poll now =>
    obtain ⟨hmore, hmost⟩ := hb.tokensAt hrate now
    refine ⟨hb.rate_eq, hb.capacity_eq, (level_serve _ _).2 (hb.least.trans hmore), ?_, fun h => ?_⟩
    · have hleft : (0 : Rat) ≤ (b.poll now).2.length := Nat.cast_nonneg _
      show (b.poll now).1.tokens ≤ b.capacity
      rw [level_poll]
      linarith
    · cases (refilledAt_poll b now).symm.trans h

theorem Filled.run (hb : b.Filled rate) (hrate : 0 < rate) (calls : List BucketCall) :
    (b.run calls).1.Filled rate := by
  induction calls generalizing b with
  | nil => exact hb
  | cons c calls ih => exact ih (hb.act hrate c)

/-! ### What leaves is paid for -/

/-- What leaves in a poll was in the bucket or came since the latest refill; the first poll finds the
bucket full. -/
theorem left_poll_le (hb : b.Filled rate) {t₀ : Instant}
    (h₀ : b.refilledAt.or (some now) = some t₀) : ∃ t₁, (b.poll now).1.refilledAt = some t₁ ∧
      ((b.poll now).2.length : Rat) + (b.poll now).1.tokens ≤
        b.tokens + rate * (t₁.seconds - t₀.seconds) := by
  refine ⟨_, refilledAt_poll b now, ?_⟩
  rw [level_poll, add_sub_cancel]
  cases hlast : b.refilledAt with
  | none =>
    rw [hlast, Option.none_or] at h₀
    cases h₀
    rw [tokensAt_of_none hlast, clock_of_none hlast]
    simp
  | some last =>
    rw [hlast, Option.some_or] at h₀
    cases h₀
    rw [tokensAt_eq hlast, clock_of_some hlast, hb.rate_eq, mul_comm rate]
    exact min_le_left _ _

/-- **Each quad takes a token, and tokens come at the rate.** The time runs from the latest refill, or
from the first poll when there was none before. -/
theorem left_add_level_le (hb : b.Filled rate) (hrate : 0 < rate) {calls : List BucketCall}
    {t₀ : Instant} (h₀ : b.refilledAt.or (polls calls).head? = some t₀) :
    ∃ t₁, (b.run calls).1.refilledAt = some t₁ ∧
      ((b.run calls).2.length : Rat) + (b.run calls).1.tokens ≤
        b.tokens + rate * (t₁.seconds - t₀.seconds) := by
  induction calls generalizing b t₀ with
  | nil =>
    have hlast : b.refilledAt = some t₀ := by simpa [polls] using h₀
    exact ⟨t₀, hlast, by simp [TokenBucket.run]⟩
  | cons c calls ih =>
    cases c with
    | request quad => exact ih (hb.act hrate (.request quad)) h₀
    | poll now =>
      obtain ⟨t', ht', hpoll⟩ := left_poll_le hb h₀
      have hlater : (b.poll now).1.refilledAt.or (polls calls).head? = some t' := by rw [ht']; rfl
      obtain ⟨t₁, ht₁, hrest⟩ := ih (hb.act hrate (.poll now)) hlater
      refine ⟨t₁, ht₁, ?_⟩
      change (((b.poll now).1.run calls).2.length : Rat) + ((b.poll now).1.run calls).1.tokens ≤
        (b.poll now).1.tokens + rate * (t₁.seconds - t'.seconds) at hrest
      show (((b.poll now).2 ++ ((b.poll now).1.run calls).2).length : Rat) +
        ((b.poll now).1.run calls).1.tokens ≤ _
      rw [List.length_append, Nat.cast_add]
      linarith

/-- **No stretch of a run lets more quads go than a full bucket,** what comes in at the rate while the
latest time seen grows, and the slack. The time runs from the latest poll before the stretch, or from
the first poll in it when there was none before. -/
theorem left_le (hrate : 0 < rate) (before stretch : List BucketCall) {t₀ : Instant}
    (h₀ : t₀.IsLatest (polls before) ∨ polls before = [] ∧ (polls stretch).head? = some t₀) :
    ∃ t₁ : Instant, t₁.IsLatest (polls (before ++ stretch)) ∧
      ((((ofRate rate).run before).1.run stretch).2.length : Rat) ≤
        max 1 rate + rate * (t₁.seconds - t₀.seconds) + 1 / 1000000000 := by
  have hb := (filled_ofRate hrate).run hrate before
  have hseen : ((ofRate rate).run before).1.Seen (polls before) :=
    seen_run (seen_ofRate rate) before
  have hend := seen_run hseen stretch
  have hstart : ((ofRate rate).run before).1.refilledAt.or (polls stretch).head? = some t₀ := by
    unfold Seen at hseen
    split at hseen
    · next hnone =>
      rcases h₀ with ⟨hmem, -⟩ | ⟨-, hfirst⟩
      · rw [hseen] at hmem
        cases hmem
      · rw [hnone, Option.none_or, hfirst]
    · next last hlast =>
      rcases h₀ with h₀ | ⟨hnone, -⟩
      · rw [hlast, Option.some_or, hseen.eq h₀]
      · rw [hnone] at hseen
        cases hseen.1
  obtain ⟨t₁, ht₁, hleft⟩ := left_add_level_le hb hrate hstart
  have hleast := (hb.run hrate stretch).least
  have hmost := hb.most
  rw [hb.capacity_eq, max_comm] at hmost
  have hslack : (slack : Rat) = 1 / 1000000000 := rfl
  unfold Seen at hend
  rw [ht₁] at hend
  refine ⟨t₁, ?_, by linarith⟩
  rw [polls, List.filterMap_append]
  exact hend

/-- Three quads ask and the bucket is polled; two of them leave. -/
def firstPolls : List BucketCall :=
  [.request ⟨4, 0, 0⟩, .request ⟨4, 1, 0⟩, .request ⟨4, 2, 0⟩, .poll ⟨0⟩]

/-- Three more polls, of which the second one goes back in time. -/
def morePolls : List BucketCall :=
  [.poll ⟨500000000⟩, .poll ⟨250000000⟩, .request ⟨4, 3, 0⟩, .poll ⟨1000000000⟩]

theorem left_le_morePolls :
    (((ofRate (2 : Rat)).run firstPolls).1.run morePolls).2 = [⟨4, 2, 0⟩, ⟨4, 3, 0⟩] ∧
    ∃ t₁ : Instant, t₁.IsLatest (polls (firstPolls ++ morePolls)) ∧
      (2 : Rat) ≤ max 1 2 + 2 * (t₁.seconds - (⟨0⟩ : Instant).seconds) + 1 / 1000000000 := by
  have hleft : (((ofRate (2 : Rat)).run firstPolls).1.run morePolls).2 =
      [⟨4, 2, 0⟩, ⟨4, 3, 0⟩] := by decide +kernel
  have hfirst : Instant.IsLatest ⟨0⟩ (polls firstPolls) := ⟨by decide, by decide⟩
  obtain ⟨t₁, hlatest, hle⟩ := left_le (by norm_num : (0 : Rat) < 2) firstPolls morePolls (.inl hfirst)
  rw [hleft] at hle
  exact ⟨hleft, t₁, hlatest, hle⟩

/-! ### The level between two refills -/

/-- **Between two refills the level is a line,** cut off at the capacity. -/
theorem Filled.tokensAt_later (hb : b.Filled rate) (hrate : 0 < rate) {now later : Instant}
    (hlater : now.nanos ≤ later.nanos) : b.tokensAt later =
      min (b.tokensAt now + rate * ((b.clock later).seconds - (b.clock now).seconds))
        b.capacity := by
  have hgain : 0 ≤ rate * ((b.clock later).seconds - (b.clock now).seconds) :=
    mul_nonneg hrate.le (sub_nonneg.mpr (clock_le b hlater))
  cases h : b.refilledAt with
  | none =>
    rw [tokensAt_of_none h, tokensAt_of_none h, hb.fresh h]
    exact (min_eq_right (le_add_of_nonneg_right hgain)).symm
  | some last =>
    rw [clock_of_some h, clock_of_some h] at hgain ⊢
    have hline : b.tokens + ((last.later later).seconds - last.seconds) * rate =
        b.tokens + ((last.later now).seconds - last.seconds) * rate +
          rate * ((last.later later).seconds - (last.later now).seconds) := by
      ring
    rw [tokensAt_eq h, tokensAt_eq h, hb.rate_eq, hline]
    generalize b.tokens + ((last.later now).seconds - last.seconds) * rate = level
    -- what flows over at `now` would flow over later as well
    rcases le_total level b.capacity with hcap | hcap
    · rw [min_eq_left hcap]
    · rw [min_eq_right hcap, min_eq_right (le_add_of_nonneg_right hgain), min_eq_right (by linarith)]

/-! ### When the next quad can go -/

/-- Who waits makes no difference to the level. -/
theorem Filled.wait (hb : b.Filled rate) (line : List QuadId) :
    Filled { b with pending := line } rate :=
  ⟨hb.rate_eq, hb.capacity_eq, hb.least, hb.most, hb.fresh⟩

/-- **No more than a token and the slack is missing.** -/
theorem Filled.missing_le (hb : b.Filled rate) (hrate : 0 < rate) (now : Instant) :
    1 - b.tokensAt now ≤ 1 + slack := by
  have hleast := hb.least
  have hmore := (hb.tokensAt hrate now).1
  linarith

/-- **When the next quad can go,** or that it is too late to tell. From the start on, a time that is early
enough is no further away than a duration is long. -/
theorem nextReleaseAt_eq (hb : b.Filled rate) (hrate : 0 < rate) (hnow : 0 ≤ now.nanos) :
    b.nextReleaseAt now =
      if b.pending = [] then .ok none
      else if 1 - b.tokensAt now ≤ slack then .ok (some now)
      else if now.nanos + Duration.nearest ((1 - b.tokensAt now) / rate) < Instant.limit then
        .ok (some ⟨now.nanos + Duration.nearest ((1 - b.tokensAt now) / rate)⟩)
      else .error .timeRange := by
  have htoken : hasToken (b.tokensAt now) = true ↔ 1 - b.tokensAt now ≤ slack := by
    rw [hasToken_iff, sub_le_iff_le_add, add_comm]
  unfold nextReleaseAt
  by_cases hpending : b.pending = []
  · rw [if_pos hpending, if_pos (List.isEmpty_iff.mpr hpending)]
  rw [if_neg hpending, if_neg (mt List.isEmpty_iff.mp hpending)]
  by_cases hmissing : 1 - b.tokensAt now ≤ slack
  · rw [if_pos hmissing]
    exact if_pos (htoken.mpr hmissing)
  rw [if_neg hmissing]
  have hpos : 0 ≤ (1 - b.tokensAt now) / rate :=
    div_nonneg (slack_pos.trans (not_le.mp hmissing)).le hrate.le
  have hwait : wait (sub one (b.tokensAt now)) b.rate =
      Duration.ofSecondsRat ((1 - b.tokensAt now) / rate) := by
    rw [hb.rate_eq]
    rfl
  dsimp only
  rw [if_neg (mt htoken.mp hmissing), hwait, Duration.ofSecondsRat_eq hpos]
  generalize Duration.nearest ((1 - b.tokensAt now) / rate) = nanos
  by_cases hlong : nanos < Duration.limit
  · rw [if_pos hlong]
    show (now.after ⟨nanos⟩ >>= fun at_ => pure (some at_)) = _
    unfold Instant.after
    split <;> rfl
  · rw [if_neg hlong, if_neg]
    · rfl
    · unfold Duration.limit Checked.words64 nanosPerSecond at hlong
      unfold Instant.limit
      omega

end TokenBucket

end TileStream
