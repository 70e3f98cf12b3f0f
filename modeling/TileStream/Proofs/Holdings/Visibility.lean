import TileStream.Proofs.Fault
import TileStream.Proofs.Holdings.Enumeration
import TileStream.Proofs.Holdings.Saturation

/-! # Who is evicted

To make room the cache gives up the quad with the oldest stamp among those that are not desired. The
stamp is meant to be the latest epoch that desired the quad, and two hands write it: a view stamps the
quads that it desires, and a finished quad is stamped with the epoch in which it comes, desired or not.
So the stamp of a cached quad is the later of the two epochs (`Holdings.dated_after`).

Calls are listed with the latest first, as one looks back from the holdings they lead to. Among the
quads that may go, the evicted one was desired or came longest ago, and it was also desired longest ago
when it is compared with a quad that did not come after it was last desired
(`Holdings.evicted_longest_untouched`). A quad that came out of view is taken for a younger one than it
is, and a quad desired after it can be evicted in its place (`Holdings.evicted_before_older`). -/

namespace TileStream

namespace Holdings

/-- A call of the holdings. -/
inductive Call where
  | view (needed : List TileId) (now : Instant) (inFlight : QuadId → Bool)
  | receive (record : QuadRecord) (now : Instant)
  | setOnline (online : Bool)

/-- The holdings after a call. A refused quad changes nothing. -/
def act (h : Holdings) : Call → Checked Holdings
  | .view needed now inFlight => (h.view needed now inFlight).map (·.1)
  | .receive record now =>
    match h.receive record now with
    | .ok r => .ok r.1
    | .error _ => .ok h
  | .setOnline online => .ok (h.setOnline online).1

/-- The holdings after some calls. -/
def after (h : Holdings) : List Call → Checked Holdings
  | [] => .ok h
  | c :: past => do (← h.after past).act c

/-! ### Looking back -/

/-- The number of views, which is the epoch. -/
def epochOf : List Call → Nat
  | [] => 0
  | .view .. :: past => epochOf past + 1
  | _ :: past => epochOf past

/-- The latest epoch that desired a quad, zero when none did. -/
def lastDesired (quad : QuadId) : List Call → Nat
  | [] => 0
  | .view needed _ _ :: past =>
    if quad ∈ parents needed then epochOf past + 1 else lastDesired quad past
  | _ :: past => lastDesired quad past

/-- The epoch in which a quad last came, zero when it never did. -/
def lastCame (quad : QuadId) : List Call → Nat
  | [] => 0
  | .receive record _ :: past => if quad = record.id then epochOf past else lastCame quad past
  | _ :: past => lastCame quad past

/-- Every quad that came had been desired before. -/
def AllCalledFor : List Call → Prop
  | [] => True
  | .receive record _ :: past => 0 < lastDesired record.id past ∧ AllCalledFor past
  | _ :: past => AllCalledFor past

/-- The latest epoch that desired a quad or in which it came. -/
def lastTouched (quad : QuadId) (past : List Call) : Nat :=
  max (lastDesired quad past) (lastCame quad past)

variable {h h' : Holdings} {past : List Call} {quad victim : QuadId} {record : QuadRecord}
  {now : Instant} {delta : ResidencyDelta}

theorem lastTouched_le (quad : QuadId) (past : List Call) : lastTouched quad past ≤ epochOf past := by
  unfold lastTouched
  induction past with
  | nil => exact Nat.le_refl 0
  | cons c past ih =>
    cases c <;> simp only [lastDesired, lastCame, epochOf]
    · split <;> omega
    · split <;> omega
    · exact ih

/-! ### Stamps -/

/-- The latest epoch that stamps a quad, after a view. -/
theorem lastTouched_view (quad : QuadId) (needed : List TileId) (now : Instant)
    (inFlight : QuadId → Bool) (past : List Call) :
    lastTouched quad (.view needed now inFlight :: past) =
      if quad ∈ parents needed then epochOf past + 1 else lastTouched quad past := by
  have hle := lastTouched_le quad past
  unfold lastTouched at hle ⊢
  simp only [lastDesired, lastCame]
  split
  · omega
  · rfl

theorem lastTouched_receive (quad : QuadId) (record : QuadRecord) (now : Instant)
    (past : List Call) : lastTouched quad (.receive record now :: past) =
      if quad = record.id then epochOf past else lastTouched quad past := by
  have hle := lastTouched_le quad past
  unfold lastTouched at hle ⊢
  simp only [lastDesired, lastCame]
  split
  · omega
  · rfl

/-- **The stamps tell when quads were desired or came:** the stamp of a cached quad is the latest epoch
that desired it or in which it came, and the epoch is the number of views. -/
structure Dated (past : List Call) (h : Holdings) : Prop where
  epoch : h.epoch = epochOf past
  stamped : ∀ q, h.cache.contains q = true → h.cache.lastSeen? q = some (lastTouched q past)

theorem dated_view (hf : h.Fit) (hd : Dated past h) {needed : List TileId}
    {inFlight : QuadId → Bool} {orders : Orders}
    (hv : h.view needed now inFlight = .ok (h', orders)) :
    Dated (.view needed now inFlight :: past) h' := by
  have hcached := view_cached hv
  obtain ⟨-, ⟨residents, rfl⟩, -⟩ := view_eq_ok hv
  refine ⟨congrArg (· + 1) hd.epoch, fun q hq => ?_⟩
  have hstamp := hd.stamped q ((hcached q).symm.trans hq)
  have hlater := lastTouched_le q past
  show QuadCache.lastSeen? (List.foldl _ h.cache (parents needed)) q = _
  rw [QuadCache.foldl_touch_eq hf.held.cache, lastTouched_view, hd.epoch]
  show Recency.stamp? (List.foldl _ _ _) q = _
  rw [Recency.stamp?_foldl_refresh, show h.cache.recency.stamp? q = _ from hstamp]
  split
  · rw [Option.map_some, Nat.max_eq_right (by omega)]
  · rfl

/-- A record is stamped with the epoch in which it is stored. -/
theorem lastSeen_store (hd : Dated past h) {cache : QuadCache}
    (hcache : ∀ q, cache.contains q = true →
      h.cache.contains q = true ∧ cache.lastSeen? q = h.cache.lastSeen? q)
    (hs : cache.Sound) (q : QuadId) (hq : (cache.store record h.epoch now).contains q = true) :
    (cache.store record h.epoch now).lastSeen? q =
      some (lastTouched q (.receive record now :: past)) := by
  show (cache.recency.touch record.id h.epoch).stamp? q = _
  rw [Recency.stamp?_touch, lastTouched_receive, hd.epoch]
  rw [QuadCache.contains_store, Bool.or_eq_true, decide_eq_true_eq] at hq
  split
  · -- the stamp that it replaces, if there is one, is no later
    cases hold : cache.recency.stamp? record.id with
    | none => rw [Option.getD_none, Nat.zero_max]
    | some n =>
      have hin : cache.contains record.id = true := by
        rw [← hs.seen]
        exact cache.recency.stamps.contains_iff.mpr ⟨n, hold⟩
      obtain ⟨hin', hsame⟩ := hcache _ hin
      have hn : some n = some (lastTouched record.id past) :=
        hold.symm.trans (hsame.trans (hd.stamped _ hin'))
      have hle := lastTouched_le record.id past
      rw [Option.getD_some, Option.some.inj hn, Nat.max_eq_right hle]
  · next hne =>
    obtain ⟨hin, hsame⟩ := hcache q (hq.resolve_left hne)
    exact hsame.trans (hd.stamped q hin)

theorem dated_receive (hf : h.Fit) (hd : Dated past h)
    (hr : h.receive record now = .ok (h', delta)) : Dated (.receive record now :: past) h' := by
  have hc := hf.held.cache
  obtain ⟨cache, evicted, hi, -, residents, rfl⟩ := receive_eq_ok hr
  refine ⟨hd.epoch, ?_⟩
  rcases QuadCache.insert_eq_ok hc hi with ⟨-, rfl, -⟩ | ⟨victim, -, rfl, -⟩
  · exact lastSeen_store hd (fun q hq => ⟨hq, rfl⟩) hc
  · refine lastSeen_store hd (fun q hq => ?_) (QuadCache.sound_erase hc victim)
    rw [QuadCache.contains_erase, Bool.and_eq_true, decide_eq_true_eq] at hq
    refine ⟨hq.2, ?_⟩
    show (h.cache.recency.erase victim).stamp? q = h.cache.recency.stamp? q
    rw [Recency.stamp?_erase, if_neg hq.1]

/-- A refused quad is not cached, so its coming is told by no stamp. -/
theorem dated_refuse (hf : h.Fit) (hd : Dated past h) {e : CacheFull}
    (hr : h.receive record now = .error e) : Dated (.receive record now :: past) h := by
  obtain ⟨hout, -⟩ := QuadCache.insert_eq_error hf.held.cache (receive_eq_error hr)
  refine ⟨hd.epoch, fun q hq => ?_⟩
  have hne : q ≠ record.id := by
    rintro rfl
    rw [hout] at hq
    cases hq
  rw [lastTouched_receive, if_neg hne]
  exact hd.stamped q hq

/-! ### Calls in any order -/

variable {s : StreamSettings}

/-- **After any calls the stamps tell when quads were desired or came.** -/
theorem dated_after (hpast : (ofSettings s).after past = .ok h) : Reached s h ∧ Dated past h := by
  induction past generalizing h with
  | nil =>
    cases hpast
    exact ⟨.rest, rfl, fun q hq => by cases hq⟩
  | cons c past ih =>
    obtain ⟨g, hg, hc⟩ := Checked.bind_eq_ok hpast
    obtain ⟨hreached, hd⟩ := ih hg
    have hf := hreached.fit.1
    cases c with
    | view needed now inFlight =>
      cases hv : g.view needed now inFlight with
      | error e =>
        rw [act, hv] at hc
        cases hc
      | ok r =>
        rw [act, hv] at hc
        cases hc
        exact ⟨hreached.view hv, dated_view hf hd hv⟩
    | receive record now =>
      cases hr : g.receive record now with
      | error e =>
        rw [act, hr] at hc
        cases hc
        exact ⟨hreached, dated_refuse hf hd hr⟩
      | ok r =>
        rw [act, hr] at hc
        cases hc
        exact ⟨hreached.receive hr, dated_receive hf hd hr⟩
    | setOnline online =>
      cases hc
      exact ⟨hreached.setOnline online, hd.epoch, hd.stamped⟩

/-- **Who is evicted.** When a finished quad makes another one leave the cache, there was no room for it,
and the evicted quad is the one that was desired or came longest ago among the cached quads that are not
desired, ties by id. It was also desired longer ago than every other one that did not come after it was
last desired; so when none came out of view, the evicted quad is the one last desired longest ago. -/
theorem evicted_longest_untouched (hpast : (ofSettings s).after past = .ok h)
    (hr : h.receive record now = .ok (h', delta)) (hin : h.cache.contains victim = true)
    (hout : h'.cache.contains victim = false) :
    h.cache.contains record.id = false ∧ h.cache.isFull = true ∧ h.isDesired victim = false ∧
    ∀ q, h.cache.contains q = true → h.isDesired q = false → q ≠ victim →
      Recency.older (lastTouched victim past, victim) (lastTouched q past, q) = true ∧
      (lastCame q past ≤ lastDesired q past →
        Recency.older (lastDesired victim past, victim) (lastDesired q past, q) = true) := by
  obtain ⟨hreached, hd⟩ := dated_after hpast
  have hc := hreached.fit.1.held.cache
  obtain ⟨cache, evicted, hi, -, residents, rfl⟩ := receive_eq_ok hr
  rcases QuadCache.insert_eq_ok hc hi with ⟨-, rfl, -⟩ | ⟨victim', rfl, rfl, hnew, hfull, -, hundesired⟩
  · -- a record stored in free room takes nobody's place
    have hkept : (h.cache.store record h.epoch now).contains victim = true := by
      rw [QuadCache.contains_store, hin, Bool.or_true]
    rw [hkept] at hout
    cases hout
  · have hvictim : victim = victim' := by
      have hgone : ((h.cache.erase victim').store record h.epoch now).contains victim = false := hout
      rw [QuadCache.contains_store, QuadCache.contains_erase, hin] at hgone
      simpa using (Bool.or_eq_false_iff.mp hgone).2
    subst hvictim
    refine ⟨hnew, hfull, hundesired, fun q hq hfree hne => ?_⟩
    have hnot : (decide (q = record.id) || h.isDesired q) = false := by
      rw [hfree, Bool.or_false, decide_eq_false_iff_not]
      rintro rfl
      rw [hnew] at hq
      cases hq
    have holder := Recency.older_of_oldestUnpinned hc.recency (QuadCache.oldest_of_insert hi)
      (hd.stamped victim hin) (hd.stamped q hq) hnot hne
    refine ⟨holder, fun hview => ?_⟩
    rw [Recency.older_iff] at holder ⊢
    unfold lastTouched at holder
    dsimp only at holder ⊢
    rcases holder with hlt | ⟨heq, hbefore⟩
    · exact .inl (by omega)
    · by_cases hsame : lastDesired victim past = lastDesired q past
      · exact .inr ⟨hsame, hbefore⟩
      · exact .inl (by omega)

/-! ### A quad that comes out of view -/

/-- Three quads are desired one after the other. The second comes in time and the first one late, while
the third is desired. -/
def lateComer : List Call :=
  [.receive ⟨⟨1, 0, 0⟩, []⟩ ⟨4⟩, .view [⟨2, 0, 2⟩] ⟨3⟩ fun _ => false,
    .receive ⟨⟨1, 1, 0⟩, []⟩ ⟨2⟩, .view [⟨2, 2, 0⟩] ⟨1⟩ fun _ => false,
    .view [⟨2, 0, 0⟩] ⟨0⟩ fun _ => false]

/-- With room for two quads, the third one makes the second one leave. -/
theorem exists_lateComer : ∃ h h' delta, (ofSettings tight).after lateComer = .ok h ∧
    h.receive ⟨⟨1, 0, 1⟩, []⟩ ⟨5⟩ = .ok (h', delta) ∧ h.desired = [⟨1, 0, 1⟩] ∧
    h.cache.contains ⟨1, 0, 0⟩ = true ∧ h.cache.contains ⟨1, 1, 0⟩ = true ∧
    h'.cache.contains ⟨1, 1, 0⟩ = false := by
  have hout : ((ofSettings tight).after lateComer).map (fun h => (h.desired,
      h.cache.contains ⟨1, 0, 0⟩, h.cache.contains ⟨1, 1, 0⟩,
      (h.receive ⟨⟨1, 0, 1⟩, []⟩ ⟨5⟩).toOption.map fun r => r.1.cache.contains ⟨1, 1, 0⟩)) =
      .ok ([⟨1, 0, 1⟩], true, true, some false) := by decide +kernel
  cases hpast : (ofSettings tight).after lateComer with
  | error e =>
    rw [hpast] at hout
    cases hout
  | ok h =>
    rw [hpast] at hout
    cases hr : h.receive ⟨⟨1, 0, 1⟩, []⟩ ⟨5⟩ with
    | error e =>
      simp [Except.map, hr, Except.toOption] at hout
    | ok r =>
      simp only [Except.map, hr, Except.toOption, Option.map_some, Except.ok.injEq,
        Prod.mk.injEq, Option.some.injEq] at hout
      exact ⟨h, r.1, r.2, rfl, hr, hout⟩

/-- The stamp of the first quad, which came in the third epoch, is later than that of the second, which
was desired in the second epoch. -/
theorem evicted_longest_untouched_lateComer : ∃ h h' delta,
    (ofSettings tight).after lateComer = .ok h ∧
    h.receive ⟨⟨1, 0, 1⟩, []⟩ ⟨5⟩ = .ok (h', delta) ∧ h'.cache.contains ⟨1, 1, 0⟩ = false ∧
    lastTouched ⟨1, 1, 0⟩ lateComer = 2 ∧ lastTouched ⟨1, 0, 0⟩ lateComer = 3 ∧
    Recency.older (lastTouched ⟨1, 1, 0⟩ lateComer, ⟨1, 1, 0⟩)
      (lastTouched ⟨1, 0, 0⟩ lateComer, ⟨1, 0, 0⟩) = true := by
  obtain ⟨h, h', delta, hpast, hr, hdesired, hfirst, hsecond, hgone⟩ := exists_lateComer
  have hundesired : h.isDesired ⟨1, 0, 0⟩ = false := by
    rw [isDesired, hdesired]
    decide
  obtain ⟨-, -, -, holder⟩ := evicted_longest_untouched hpast hr hsecond hgone
  exact ⟨h, h', delta, hpast, hr, hgone, by decide, by decide,
    (holder ⟨1, 0, 0⟩ hfirst hundesired (by decide)).1⟩

/-- **A quad can be evicted before one that was desired longer ago,** although every quad that came had
been desired before: the first quad was desired in the first epoch and stays, the second was desired in
the second epoch and goes. -/
theorem evicted_before_older : ∃ h h' delta, (ofSettings tight).after lateComer = .ok h ∧
    AllCalledFor (.receive ⟨⟨1, 0, 1⟩, []⟩ ⟨5⟩ :: lateComer) ∧
    h.receive ⟨⟨1, 0, 1⟩, []⟩ ⟨5⟩ = .ok (h', delta) ∧
    h.cache.contains ⟨1, 1, 0⟩ = true ∧ h'.cache.contains ⟨1, 1, 0⟩ = false ∧
    h.cache.contains ⟨1, 0, 0⟩ = true ∧ h.isDesired ⟨1, 0, 0⟩ = false ∧
    lastDesired ⟨1, 0, 0⟩ lateComer = 1 ∧ lastDesired ⟨1, 1, 0⟩ lateComer = 2 := by
  obtain ⟨h, h', delta, hpast, hr, hdesired, hfirst, hsecond, hgone⟩ := exists_lateComer
  have hundesired : h.isDesired ⟨1, 0, 0⟩ = false := by
    rw [isDesired, hdesired]
    decide
  have hcalled : AllCalledFor (.receive ⟨⟨1, 0, 1⟩, []⟩ ⟨5⟩ :: lateComer) :=
    ⟨by decide, by decide, by decide, trivial⟩
  exact ⟨h, h', delta, hpast, hcalled, hr, hsecond, hgone, hfirst, hundesired, by decide, by decide⟩

end Holdings

end TileStream
