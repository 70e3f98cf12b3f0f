import TileStream.Proofs.Cache.Quads

/-! # What an insertion does

A cache that was only changed by insertions, by seeing quads and by forgetting them, with any stamps and
any quads pinned, keeps its two containers in step and never holds more than it has room for
(`QuadCache.fits_after`). So in such a cache the search for a quad to give up finds one unless all are
pinned, and what an insertion does is told in full (`QuadCache.insert_exact`): it is refused for want of
a quad to give up, and then nothing changed, or it stores its record and takes at most one other quad
away. What it does to the remaining quads is nothing at all (`QuadCache.frame_insert`). -/

namespace TileStream

namespace QuadCache

/-- A call that changes the cache. -/
inductive Call where
  | insert (record : QuadRecord) (stamp : Nat) (now : Instant) (pinned : QuadId → Bool)
  | touch (quad : QuadId) (stamp : Nat)
  | erase (quad : QuadId)

/-- The cache after a call. A refused record changes nothing. -/
def act (c : QuadCache) : Call → QuadCache
  | .insert record stamp now pinned =>
    match c.insert record stamp now pinned with
    | .ok (c', _) => c'
    | .error _ => c
  | .touch quad stamp => c.touch quad stamp
  | .erase quad => c.erase quad

/-- The cache after some calls. -/
def after (c : QuadCache) (calls : List Call) : QuadCache := calls.foldl act c

variable {c c' : QuadCache} {record : QuadRecord} {quad : QuadId} {stamp : Nat} {now : Instant}
  {pinned : QuadId → Bool} {evicted : Option QuadId}

/-! ### After any calls -/

theorem after_concat (c : QuadCache) (calls : List Call) (call : Call) :
    c.after (calls ++ [call]) = (c.after calls).act call :=
  List.foldl_append

/-- The containers agree, and there is no more than fits. -/
structure Fits (c : QuadCache) (capacity : Nat) : Prop where
  sound : c.Sound
  capacity_eq : c.capacity = capacity
  size_le : c.size ≤ capacity

theorem Fits.act {capacity : Nat} (hc : c.Fits capacity) (call : Call) :
    (c.act call).Fits capacity := by
  cases call with
  | insert record stamp now pinned =>
    cases h : c.insert record stamp now pinned with
    | error e =>
      rw [show c.act _ = c by rw [QuadCache.act, h]]
      exact hc
    | ok r =>
      obtain ⟨c', evicted⟩ := r
      rw [show c.act _ = c' by rw [QuadCache.act, h]]
      obtain ⟨hcapacity, hsize⟩ := size_insert_le hc.sound h (hc.capacity_eq ▸ hc.size_le)
      exact ⟨sound_insert hc.sound h, hcapacity.trans hc.capacity_eq, hc.capacity_eq ▸ hsize⟩
  | touch quad stamp =>
    refine ⟨sound_touch hc.sound quad stamp, (capacity_touch ..).trans hc.capacity_eq, ?_⟩
    show (c.touch quad stamp).entries.size ≤ capacity
    rw [entries_touch]
    exact hc.size_le
  | erase quad =>
    exact ⟨sound_erase hc.sound quad, hc.capacity_eq,
      Nat.le_trans (Table.size_erase_le ..) hc.size_le⟩

/-- **Any calls keep the containers in step,** and the cache within its room. -/
theorem fits_after (capacity : Nat) (calls : List Call) :
    ((ofCapacity capacity).after calls).Fits (max 1 capacity) := by
  have hstart : (ofCapacity capacity).Fits (max 1 capacity) :=
    ⟨sound_ofCapacity capacity, Nat.max_comm .., Nat.zero_le _⟩
  unfold after
  generalize ofCapacity capacity = c at hstart ⊢
  induction calls generalizing c with
  | nil => exact hstart
  | cons call calls ih => exact ih _ (hstart.act call)

/-! ### Refusals -/

/-- **A record is refused just when its quad is new and all quads of a full cache are pinned.** -/
theorem exists_insert_error_iff (hc : c.Sound) :
    (∃ e, c.insert record stamp now pinned = .error e) ↔
      c.contains record.id = false ∧ c.isPinnedFull pinned = true := by
  constructor
  · rintro ⟨e, h⟩
    exact insert_eq_error hc h
  · rintro ⟨hnew, hp⟩
    obtain ⟨hfull, hall⟩ := (isPinnedFull_iff hc).mp hp
    have hnone : c.recency.oldestUnpinned (fun quad => quad = record.id || pinned quad) = none := by
      rw [Recency.oldestUnpinned_eq_none hc.recency]
      intro q hq
      rw [Bool.or_eq_true]
      exact .inr (hall q (by rwa [← hc.seen]))
    refine ⟨⟨c.capacity⟩, ?_⟩
    unfold insert
    rw [hnew, hfull, hnone]
    rfl

theorem capacity_of_insert_error {e : CacheFull} (h : c.insert record stamp now pinned = .error e) :
    e.capacity = c.capacity := by
  unfold insert at h
  split at h
  · split at h <;> cases h
    rfl
  · cases h

/-! ### What is stored -/

/-- The stored record came now, and its stamp is the later one. -/
theorem stored_insert (hc : c.Sound) (h : c.insert record stamp now pinned = .ok (c', evicted)) :
    c'.entries.get? record.id = some ⟨record, now⟩ ∧
      c'.lastSeen? record.id = some (max ((c.lastSeen? record.id).getD 0) stamp) := by
  have hstore : ∀ d : QuadCache, (d.store record stamp now).entries.get? record.id =
      some ⟨record, now⟩ ∧ (d.store record stamp now).lastSeen? record.id =
        some (max ((d.lastSeen? record.id).getD 0) stamp) := by
    intro d
    refine ⟨(Table.get?_set ..).trans (if_pos rfl), ?_⟩
    exact (Recency.stamp?_touch ..).trans (if_pos rfl)
  rcases insert_eq_ok hc h with ⟨-, rfl, -⟩ | ⟨victim, -, rfl, hnew, -, hin, -⟩
  · exact hstore c
  · -- the victim is another quad than the new one
    have hne : record.id ≠ victim := by
      rintro he
      rw [he, hin] at hnew
      cases hnew
    have hsame : (c.erase victim).lastSeen? record.id = c.lastSeen? record.id :=
      (Recency.stamp?_erase ..).trans (if_neg hne)
    rw [← hsame]
    exact hstore (c.erase victim)

/-- **An insertion leaves the other quads as they are,** record, time of coming and stamp. -/
theorem frame_insert (hc : c.Sound) (h : c.insert record stamp now pinned = .ok (c', evicted))
    (hne : quad ≠ record.id) (hstays : evicted ≠ some quad) :
    c'.entries.get? quad = c.entries.get? quad ∧ c'.lastSeen? quad = c.lastSeen? quad := by
  have hstore : ∀ d : QuadCache,
      (d.store record stamp now).entries.get? quad = d.entries.get? quad ∧
        (d.store record stamp now).lastSeen? quad = d.lastSeen? quad := by
    intro d
    exact ⟨(Table.get?_set ..).trans (if_neg hne), (Recency.stamp?_touch ..).trans (if_neg hne)⟩
  rcases insert_eq_ok hc h with ⟨-, rfl, -⟩ | ⟨victim, rfl, rfl, -⟩
  · exact hstore c
  · have hv : quad ≠ victim := fun he => hstays (congrArg some he.symm)
    obtain ⟨hentry, hstamp⟩ := hstore (c.erase victim)
    exact ⟨hentry.trans ((Table.get?_erase ..).trans (if_neg hv)),
      hstamp.trans ((Recency.stamp?_erase ..).trans (if_neg hv))⟩

/-! ### Who is given up -/

/-- Somebody is given up just when a new quad finds no room. -/
theorem isSome_evicted_iff (hc : c.Sound) (h : c.insert record stamp now pinned = .ok (c', evicted)) :
    evicted.isSome = true ↔ c.contains record.id = false ∧ c.isFull = true := by
  rcases insert_eq_ok hc h with ⟨rfl, -, hroom⟩ | ⟨victim, rfl, -, hnew, hfull, -⟩
  · rcases hroom with hroom | hroom <;> simp [hroom]
  · simp [hnew, hfull]

/-- A cached quad has a stamp. -/
theorem exists_lastSeen (hc : c.Sound) (hin : c.contains quad = true) :
    ∃ n, c.lastSeen? quad = some n := by
  rw [← hc.seen] at hin
  exact c.recency.stamps.contains_iff.mp hin

/-- **The quad given up was seen longest ago** among those not pinned, ties by id. -/
theorem older_of_evicted (hc : c.Sound) {victim : QuadId}
    (h : c.insert record stamp now pinned = .ok (c', some victim)) :
    c.contains victim = true ∧ pinned victim = false ∧ c'.contains victim = false ∧
      ∀ q, c.contains q = true → pinned q = false → q ≠ victim → ∃ n m,
        c.lastSeen? victim = some n ∧ c.lastSeen? q = some m ∧
          Recency.older (n, victim) (m, q) = true := by
  rcases insert_eq_ok hc h with ⟨hnone, -⟩ | ⟨v, hv, rfl, hnew, -, hin, hp⟩
  · cases hnone
  cases hv
  have hother : ∀ q, c.contains q = true → q ≠ record.id := by
    rintro q hq rfl
    rw [hnew] at hq
    cases hq
  refine ⟨hin, hp, ?_, fun q hq hfree hne => ?_⟩
  · rw [contains_store, contains_erase]
    simp [hother victim hin]
  · obtain ⟨n, hn⟩ := exists_lastSeen hc hin
    obtain ⟨m, hm⟩ := exists_lastSeen hc hq
    refine ⟨n, m, hn, hm, Recency.older_of_oldestUnpinned hc.recency (oldest_of_insert h) hn hm ?_ hne⟩
    simp [hfree, hother q hq]

/-! ### All that an insertion does -/

/-- **What an insertion does** to a cache after any calls. It is refused just when the quad is new and
the cache is full of pinned quads, and a refusal changes nothing. Otherwise the record is stored, within
the room there is. A quad is given up just when the new one finds no room, only one, and it is the one
that is not pinned with the oldest stamp, ties by id. All other quads keep their record, the time at
which it came and their stamp. -/
theorem insert_exact (capacity : Nat) (calls : List Call) (record : QuadRecord) (stamp : Nat)
    (now : Instant) (pinned : QuadId → Bool) :
    let c := (ofCapacity capacity).after calls
    ((∃ e, c.insert record stamp now pinned = .error e) ↔
      c.contains record.id = false ∧ c.isPinnedFull pinned = true) ∧
    (∀ e, c.insert record stamp now pinned = .error e → e.capacity = max 1 capacity ∧
      (ofCapacity capacity).after (calls ++ [.insert record stamp now pinned]) = c) ∧
    ∀ c' evicted, c.insert record stamp now pinned = .ok (c', evicted) →
      c'.size ≤ max 1 capacity ∧
      c'.entries.get? record.id = some ⟨record, now⟩ ∧
      c'.lastSeen? record.id = some (max ((c.lastSeen? record.id).getD 0) stamp) ∧
      (evicted.isSome = true ↔ c.contains record.id = false ∧ c.isFull = true) ∧
      (∀ victim, evicted = some victim → c.contains victim = true ∧ pinned victim = false ∧
        c'.contains victim = false ∧
        ∀ q, c.contains q = true → pinned q = false → q ≠ victim → ∃ n m,
          c.lastSeen? victim = some n ∧ c.lastSeen? q = some m ∧
            Recency.older (n, victim) (m, q) = true) ∧
      ∀ q, q ≠ record.id → evicted ≠ some q →
        c'.entries.get? q = c.entries.get? q ∧ c'.lastSeen? q = c.lastSeen? q := by
  intro c
  have hfits : c.Fits (max 1 capacity) := fits_after capacity calls
  have hc := hfits.sound
  refine ⟨exists_insert_error_iff hc, fun e h => ⟨?_, ?_⟩, fun c' evicted h => ?_⟩
  · exact (capacity_of_insert_error h).trans hfits.capacity_eq
  · rw [after_concat]
    show c.act _ = c
    rw [act, h]
  · have hsize := (size_insert_le hc h (hfits.capacity_eq ▸ hfits.size_le)).2
    obtain ⟨hentry, hstamp⟩ := stored_insert hc h
    refine ⟨hfits.capacity_eq ▸ hsize, hentry, hstamp, isSome_evicted_iff hc h, ?_,
      fun q hne hstays => frame_insert hc h hne hstays⟩
    rintro victim rfl
    exact older_of_evicted hc h

/-- Room for two: a quad seen late goes before one seen early, when that one is pinned. -/
example : let c := (ofCapacity 2).after [.insert ⟨⟨6, 0, 0⟩, []⟩ 1 ⟨0⟩ fun _ => false,
      .insert ⟨⟨6, 1, 0⟩, []⟩ 2 ⟨0⟩ fun _ => false, .touch ⟨6, 1, 0⟩ 7]
    (c.insert ⟨⟨6, 2, 0⟩, []⟩ 3 ⟨1⟩ (· = ⟨6, 0, 0⟩)).map (·.2) = .ok (some ⟨6, 1, 0⟩) := by decide

end QuadCache

end TileStream
