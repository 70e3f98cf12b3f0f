import TileStream.Proofs.Admission.Levels
import TileStream.Proofs.Fault

/-! # When the next quad can go

A token bucket announces when its next quad can go, to the nearest nanosecond. Rounding down leaves up
to half a nanosecond of filling undone, which is more than the slack when the rate is above two tokens
a second. So the quad leaves at the announced time just when the slack covers what rounding left undone
(`TokenBucket.announced_release_iff`). While the clock does not step back, that is always so at a rate of
at most two; at any rate the quad leaves one nanosecond later, and when it does not leave at the announced
time, the bucket announces the same time again.

At a rate of twelve this comes about in the first second (`TokenBucket.announced_in_vain`). -/

namespace TileStream

namespace TokenBucket

open TokenArithmetic

variable {b : TokenBucket Rat} {rate : Rat} {now at_ : Instant}

/-- **What an announcement says:** the time itself when there is a token, and otherwise the time at which
the missing part of one will have come, to within half a nanosecond. -/
inductive Announces (b : TokenBucket Rat) (now : Instant) : Instant → Prop
  | now (h : hasToken (b.tokensAt now) = true) : Announces b now now
  | wait {d : Duration} (h : hasToken (b.tokensAt now) = false)
    (hd : Duration.ofSecondsRat ((1 - b.tokensAt now) / b.rate) = .ok d)
    (hlimit : now.nanos + d.nanos < Instant.limit) : Announces b now ⟨now.nanos + d.nanos⟩

theorem announces_of_eq_ok (h : b.nextReleaseAt now = .ok (some at_)) :
    b.pending ≠ [] ∧ b.Announces now at_ := by
  unfold nextReleaseAt at h
  split at h
  · cases h
  · next hpending =>
    refine ⟨fun hnil => hpending (by rw [hnil]; rfl), ?_⟩
    dsimp only at h
    split at h
    · next htoken =>
      cases h
      exact .now htoken
    · next htoken =>
      obtain ⟨d, hd, h⟩ := Checked.bind_eq_ok h
      obtain ⟨u, hu, h⟩ := Checked.bind_eq_ok h
      cases h
      obtain ⟨rfl, hlimit⟩ := Instant.after_eq_ok hu
      exact .wait (Bool.eq_false_iff.mpr htoken) hd hlimit

/-- An announcement is no more than the slack, or half a nanosecond of filling, too early. -/
theorem Announces.near (ha : b.Announces now at_) (hb : b.Filled rate) (hrate : 0 < rate) :
    now.nanos ≤ at_.nanos ∧ 1 - b.tokensAt now ≤
      rate * (at_.seconds - now.seconds) + max slack (rate / 2000000000) := by
  cases ha with
  | now h =>
    rw [hasToken_iff] at h
    have hmax := le_max_left (slack : Rat) (rate / 2000000000)
    exact ⟨le_rfl, by rw [sub_self, mul_zero]; linarith⟩
  | @wait d h hd hlimit =>
    obtain ⟨hnear, -⟩ := Duration.near_of_ofSecondsRat hd
    rw [hb.rate_eq, div_mul_eq_mul_div, div_le_iff₀ hrate] at hnear
    have hmax := le_max_right (slack : Rat) (rate / 2000000000)
    refine ⟨?_, ?_⟩
    · show now.nanos ≤ now.nanos + d.nanos
      omega
    · rw [Instant.seconds_add]
      have hnanos : ((nanosPerSecond : Nat) : Rat) = 1000000000 := by norm_num
      rw [hnanos] at hnear ⊢
      linarith

/-- What leaves later is told by what is missing now. -/
theorem leaves_later_iff (hb : b.Filled rate) (hrate : 0 < rate) (hpending : b.pending ≠ [])
    {later : Instant} (hlater : now.nanos ≤ later.nanos) : (b.poll later).2 ≠ [] ↔
      1 - b.tokensAt now ≤ rate * ((b.clock later).seconds - (b.clock now).seconds) + slack := by
  have hone := hb.one_le
  have hslack := slack_pos
  rw [leaves_iff, hasToken_iff, hb.tokensAt_later hrate hlater, and_iff_right hpending,
    ← sub_le_iff_le_add, le_min_iff, and_iff_left (by linarith)]
  constructor <;> intro h <;> linarith

/-- A poll that lets nobody go leaves the level as it finds it. -/
theorem tokensAt_poll (hb : b.Filled rate) (hrate : 0 < rate) (now : Instant) :
    (b.poll now).1.tokensAt now = (b.poll now).1.tokens := by
  have hmost := (hb.act hrate (.poll now)).most
  have hsame : (b.clock now).later now = b.clock now :=
    congrArg Instant.mk (max_eq_left (le_clock b now))
  rw [tokensAt_eq (refilledAt_poll b now), hsame, sub_self, zero_mul, add_zero]
  exact min_eq_left hmost

/-- A token that is missing by next to nothing is announced for the time itself. -/
theorem nextReleaseAt_of_instant (hpending : b.pending ≠ [])
    (hnone : hasToken (b.tokensAt now) = false)
    (hwait : Duration.ofSecondsRat ((1 - b.tokensAt now) / b.rate) = .ok ⟨0⟩)
    (hlimit : now.nanos < Instant.limit) : b.nextReleaseAt now = .ok (some now) := by
  have hafter : now.after ⟨0⟩ = .ok now := by
    unfold Instant.after
    simp [hlimit]
  have hwait' : wait (sub one (b.tokensAt now)) b.rate = .ok ⟨0⟩ := hwait
  have hsome : b.pending.isEmpty = false := by simpa using hpending
  unfold nextReleaseAt
  rw [hsome]
  simp only [Bool.false_eq_true, if_false, hnone, hwait', bind, Except.bind, hafter]
  rfl

/-- **An announcement in vain is made again:** what is missing then comes in half a nanosecond or less,
which is rounded to nothing. -/
theorem Announces.again (ha : b.Announces now at_) (hb : b.Filled rate) (hrate : 0 < rate)
    (hnow : ∀ last, b.refilledAt = some last → last.nanos ≤ now.nanos) (hpending : b.pending ≠ [])
    (hvain : (b.poll at_).2 = []) : (b.poll at_).1.nextReleaseAt at_ = .ok (some at_) := by
  have hlater := (ha.near hb hrate).1
  have hclock := clock_eq hnow
  have hclock' : b.clock at_ = at_ := clock_eq fun last h => (hnow last h).trans hlater
  have hmissing : ¬ 1 - b.tokensAt now ≤ rate * (at_.seconds - now.seconds) + slack := by
    have hiff := leaves_later_iff hb hrate hpending hlater
    rw [hclock, hclock'] at hiff
    exact fun h => hiff.mpr h hvain
  have hslack := slack_pos
  have hone := hb.one_le
  -- the poll took nothing, and the bucket is not full
  have hlevel : (b.poll at_).1.tokensAt at_ =
      b.tokensAt now + rate * (at_.seconds - now.seconds) := by
    rw [tokensAt_poll hb hrate, level_poll, hvain, hb.tokensAt_later hrate hlater, hclock, hclock',
      List.length_nil, Nat.cast_zero, sub_zero]
    exact min_eq_left (by linarith)
  have hstays : (b.poll at_).1.pending = b.pending := by
    have hline := pending_poll b at_
    rwa [hvain] at hline
  have hnone : hasToken ((b.poll at_).1.tokensAt at_) = false := by
    rw [← Bool.not_eq_true, hasToken_iff, hlevel]
    intro htoken
    exact hmissing (by linarith)
  cases ha with
  | now h =>
    rw [hasToken_iff] at h
    rw [sub_self, mul_zero] at hmissing
    exact absurd (by linarith) hmissing
  | @wait d h hd hlimit =>
    refine nextReleaseAt_of_instant (hstays ▸ hpending) hnone ?_ hlimit
    obtain ⟨hnear, -⟩ := Duration.near_of_ofSecondsRat hd
    have hnanos : ((nanosPerSecond : Nat) : Rat) = 1000000000 := by norm_num
    have hleft : (1 - (b.poll ⟨now.nanos + d.nanos⟩).1.tokensAt ⟨now.nanos + d.nanos⟩) /
        (b.poll ⟨now.nanos + d.nanos⟩).1.rate = (1 - b.tokensAt now) / rate - d.nanos / 1000000000 := by
      rw [hlevel, Instant.seconds_add, hnanos, show (b.poll _).1.rate = rate from hb.rate_eq]
      field_simp
      ring
    rw [hleft]
    rw [Instant.seconds_add, hnanos] at hmissing
    rw [hb.rate_eq, hnanos] at hnear
    refine Duration.ofSecondsRat_of_le ?_ ?_
    · rw [sub_nonneg, le_div_iff₀ hrate]
      linarith
    · rw [hnanos, sub_mul, div_mul_cancel₀ _ (by norm_num)]
      linarith

/-! ### In use -/

variable {calls : List BucketCall}

/-- **When an announced release is kept.** After any calls a quad leaves at the time announced just when
what is missing of a token at `now` comes, but for the slack, while the latest time seen grows until then.
When none of the calls polled later than `now`, it always leaves then at a rate of at most two tokens a
second, and at any rate it leaves one nanosecond later; and when it does not leave at the time announced,
the same time is announced again. -/
theorem announced_release_iff (hrate : 0 < rate) (hb : b = ((ofRate rate).run calls).1)
    (h : b.nextReleaseAt now = .ok (some at_)) :
    ((b.poll at_).2 ≠ [] ↔ 1 - b.tokensAt now ≤
      rate * ((b.clock at_).seconds - (b.clock now).seconds) + 1 / 1000000000) ∧
    ((∀ t ∈ polls calls, t.nanos ≤ now.nanos) →
      (rate ≤ 2 → (b.poll at_).2 ≠ []) ∧ (b.poll ⟨at_.nanos + 1⟩).2 ≠ [] ∧
      ((b.poll at_).2 = [] → (b.poll at_).1.nextReleaseAt at_ = .ok (some at_))) := by
  have hfilled : b.Filled rate := hb ▸ (filled_ofRate hrate).run hrate calls
  have hseen : b.Seen (polls calls) := hb ▸ seen_run (seen_ofRate rate) calls
  obtain ⟨hpending, ha⟩ := announces_of_eq_ok h
  obtain ⟨hlater, hnear⟩ := ha.near hfilled hrate
  have hslack : (slack : Rat) = 1 / 1000000000 := rfl
  refine ⟨leaves_later_iff hfilled hrate hpending hlater, fun hnow => ?_⟩
  have hlatest : ∀ last, b.refilledAt = some last → last.nanos ≤ now.nanos := by
    intro last hlast
    rw [Seen, hlast] at hseen
    exact hnow last hseen.1
  have hleaves : ∀ later : Instant, now.nanos ≤ later.nanos →
      1 - b.tokensAt now ≤ rate * (later.seconds - now.seconds) + slack → (b.poll later).2 ≠ [] := by
    intro later hle hmissing
    refine (leaves_later_iff hfilled hrate hpending hle).mpr ?_
    rwa [clock_eq hlatest, clock_eq fun last hlast => (hlatest last hlast).trans hle]
  refine ⟨fun htwo => hleaves at_ hlater ?_, hleaves _ ?_ ?_,
    ha.again hfilled hrate hlatest hpending⟩
  · have hmax : max (slack : Rat) (rate / 2000000000) = slack :=
      max_eq_left (by rw [hslack]; linarith)
    rwa [hmax] at hnear
  · show now.nanos ≤ at_.nanos + 1
    omega
  · -- a nanosecond brings more than half a nanosecond does
    have hmax : max (slack : Rat) (rate / 2000000000) ≤ slack + rate / 1000000000 :=
      max_le (by linarith [div_pos hrate (by norm_num : (0 : Rat) < 1000000000)])
        (by rw [hslack]; linarith)
    have hsecond := Instant.seconds_add at_ 1
    rw [Nat.cast_one] at hsecond
    have hstep : (⟨at_.nanos + 1⟩ : Instant).seconds - now.seconds =
        (at_.seconds - now.seconds) + 1 / 1000000000 := by
      rw [← sub_add_sub_cancel _ at_.seconds, add_comm]
      exact congrArg _ (hsecond.trans (by norm_num))
    rw [hstep, mul_add]
    linarith

/-- At a rate of two the third quad leaves half a second after the first two. -/
theorem announced_release_iff_firstPolls :
    ((ofRate (2 : Rat)).run firstPolls).1.nextReleaseAt ⟨0⟩ = .ok (some ⟨500000000⟩) ∧
    (((ofRate (2 : Rat)).run firstPolls).1.poll ⟨500000000⟩).2 ≠ [] := by
  have h : ((ofRate (2 : Rat)).run firstPolls).1.nextReleaseAt ⟨0⟩ = .ok (some ⟨500000000⟩) := by
    decide +kernel
  exact ⟨h, ((announced_release_iff (by norm_num : (0 : Rat) < 2) rfl h).2 (by decide)).1 le_rfl⟩

/-- Thirteen quads ask at once. -/
def thirteen : List BucketCall :=
  (List.range 13).map (fun i => .request ⟨10, i.toUInt32, 0⟩) ++ [.poll ⟨0⟩]

/-- **An announcement in vain.** At a rate of twelve, twelve of thirteen quads leave at once. The last
one is announced for a third of a nanosecond too early, does not leave then, and is announced for that
time again. -/
theorem announced_in_vain :
    ((ofRate (12 : Rat)).run thirteen).1.nextReleaseAt ⟨0⟩ = .ok (some ⟨83333333⟩) ∧
    (((ofRate (12 : Rat)).run thirteen).1.poll ⟨83333333⟩).2 = [] ∧
    (((ofRate (12 : Rat)).run thirteen).1.poll ⟨83333333⟩).1.nextReleaseAt ⟨83333333⟩ =
      .ok (some ⟨83333333⟩) := by
  decide +kernel

end TokenBucket

end TileStream
