import TileStream.Cache.Quads
import TileStream.Proofs.Cache.Recency

/-! # What the cache holds

The cache keeps records and an index of when their quads were seen. `QuadCache.Sound` says that both
know the same quads and that every record is kept under its own quad. What an insertion does is then
told by lookups.

* `insert_eq_error`: a newcomer is refused only when the cache is full of pinned quads.
* `insert_eq_ok`: otherwise the record is stored, after the loss of one quad that is not pinned when
  there was no room. -/

namespace TileStream

namespace QuadCache

variable {c c' : QuadCache} {record : QuadRecord} {quad : QuadId} {stamp : Nat} {now : Instant}
  {pinned : QuadId → Bool}

/-- The records and the index know the same quads, and a record is kept under its own quad. -/
structure Sound (c : QuadCache) : Prop where
  recency : c.recency.Sound
  seen : ∀ q, c.recency.contains q = c.contains q
  keyed : ∀ q r, c.get? q = some r → r.id = q

theorem contains_iff : c.contains quad = true ↔ ∃ r, c.get? quad = some r := by
  unfold contains get?
  rw [Table.contains_iff]
  simp

theorem sound_ofCapacity (capacity : Nat) : (ofCapacity capacity).Sound :=
  ⟨Recency.sound_empty, fun _ => rfl, fun _ _ h => by cases h⟩

/-! ### Lookups -/

theorem get?_store (c : QuadCache) (record : QuadRecord) (stamp : Nat) (now : Instant) (q : QuadId) :
    (c.store record stamp now).get? q = if q = record.id then some record else c.get? q := by
  unfold get? store
  rw [Table.get?_set]
  split <;> rfl

theorem get?_erase (c : QuadCache) (quad q : QuadId) :
    (c.erase quad).get? q = if q = quad then none else c.get? q := by
  unfold get? erase
  rw [Table.get?_erase]
  split <;> rfl

theorem contains_store (q : QuadId) :
    (c.store record stamp now).contains q = (decide (q = record.id) || c.contains q) :=
  Table.contains_set _ _ _ _

theorem contains_erase (q : QuadId) :
    (c.erase quad).contains q = (decide (q ≠ quad) && c.contains q) :=
  Table.contains_erase _ _ _

theorem entries_touch (c : QuadCache) (quad : QuadId) (stamp : Nat) :
    (c.touch quad stamp).entries = c.entries := by
  unfold touch; split <;> rfl

theorem capacity_touch (c : QuadCache) (quad : QuadId) (stamp : Nat) :
    (c.touch quad stamp).capacity = c.capacity := by
  unfold touch; split <;> rfl

theorem size_store (c : QuadCache) (record : QuadRecord) (stamp : Nat) (now : Instant) :
    (c.store record stamp now).size = (c.erase record.id).size + 1 :=
  Table.size_set _ _

theorem size_store_eq (c : QuadCache) (record : QuadRecord) (stamp : Nat) (now : Instant) :
    (c.store record stamp now).size = if c.contains record.id then c.size else c.size + 1 :=
  Table.size_set_eq _ _ _

theorem size_erase (h : c.contains quad = true) : c.size = (c.erase quad).size + 1 :=
  Table.size_erase _ h

/-! ### The two views stay the same -/

theorem sound_store (hc : c.Sound) (record : QuadRecord) (stamp : Nat) (now : Instant) :
    (c.store record stamp now).Sound := by
  refine ⟨Recency.sound_touch hc.recency _ _, fun q => ?_, fun q r hr => ?_⟩
  · rw [contains_store, ← hc.seen]
    exact Recency.contains_touch _ _ _ _
  · rw [get?_store] at hr
    split at hr
    · next he => cases hr; exact he.symm
    · exact hc.keyed q r hr

theorem sound_erase (hc : c.Sound) (quad : QuadId) : (c.erase quad).Sound := by
  refine ⟨Recency.sound_erase hc.recency _, fun q => ?_, fun q r hr => ?_⟩
  · rw [contains_erase, ← hc.seen]
    exact Recency.contains_erase _ _ _
  · rw [get?_erase] at hr
    split at hr
    · cases hr
    · exact hc.keyed q r hr

theorem sound_touch (hc : c.Sound) (quad : QuadId) (stamp : Nat) : (c.touch quad stamp).Sound := by
  unfold touch
  split
  · next hin =>
    refine ⟨Recency.sound_touch hc.recency _ _, fun q => ?_, hc.keyed⟩
    show (c.recency.touch quad stamp).contains q = c.contains q
    rw [Recency.contains_touch, hc.seen]
    by_cases he : q = quad
    · subst he; simpa using hin.symm
    · simp [he]
  · exact hc

theorem entries_foldl_touch (c : QuadCache) (quads : List QuadId) (stamp : Nat) :
    (quads.foldl (fun c quad => c.touch quad stamp) c).entries = c.entries := by
  induction quads generalizing c with
  | nil => rfl
  | cons quad rest ih => exact (ih _).trans (entries_touch c quad stamp)

theorem get?_foldl_touch (c : QuadCache) (quads : List QuadId) (stamp : Nat) (q : QuadId) :
    (quads.foldl (fun c quad => c.touch quad stamp) c).get? q = c.get? q := by
  unfold get?
  rw [entries_foldl_touch]

theorem capacity_foldl_touch (c : QuadCache) (quads : List QuadId) (stamp : Nat) :
    (quads.foldl (fun c quad => c.touch quad stamp) c).capacity = c.capacity := by
  induction quads generalizing c with
  | nil => rfl
  | cons quad rest ih => exact (ih _).trans (capacity_touch c quad stamp)

theorem sound_foldl_touch (hc : c.Sound) (quads : List QuadId) (stamp : Nat) :
    (quads.foldl (fun c quad => c.touch quad stamp) c).Sound := by
  induction quads generalizing c with
  | nil => exact hc
  | cons quad rest ih => exact ih (sound_touch hc quad stamp)

/-! ### Insertion -/

theorem isPinnedFull_iff (hc : c.Sound) :
    c.isPinnedFull pinned = true ↔ c.isFull = true ∧ ∀ q, c.contains q = true → pinned q = true := by
  unfold isPinnedFull
  rw [Bool.and_eq_true, Option.isNone_iff_eq_none, Recency.oldestUnpinned_eq_none hc.recency]
  simp only [hc.seen]

/-- When the quads were seen does not matter for whether the cache is full of pinned quads. -/
theorem isPinnedFull_of_same {pinned' : QuadId → Bool} (hc : c.Sound) (hc' : c'.Sound)
    (hp : c.isPinnedFull pinned = true) (hentries : c'.entries = c.entries)
    (hcapacity : c'.capacity = c.capacity) (hsame : ∀ q, pinned q = true → pinned' q = true) :
    c'.isPinnedFull pinned' = true := by
  obtain ⟨hfull, hall⟩ := (isPinnedFull_iff hc).mp hp
  refine (isPinnedFull_iff hc').mpr ⟨?_, fun q hq => hsame q (hall q ?_)⟩
  · unfold isFull size at *
    rwa [hentries, hcapacity]
  · unfold contains at *
    rwa [← hentries]

/-- **A newcomer is refused only by a cache that is full of pinned quads.** -/
theorem insert_eq_error (hc : c.Sound) {e : CacheFull}
    (h : c.insert record stamp now pinned = .error e) :
    c.contains record.id = false ∧ c.isPinnedFull pinned = true := by
  unfold insert at h
  split at h
  · next hnew =>
    rw [Bool.and_eq_true, Bool.not_eq_true'] at hnew
    split at h
    · next hnone =>
      rw [Recency.oldestUnpinned_eq_none hc.recency] at hnone
      refine ⟨hnew.1, (isPinnedFull_iff hc).mpr ⟨hnew.2, fun q hq => ?_⟩⟩
      have hp := hnone q (by rwa [hc.seen])
      rw [Bool.or_eq_true, decide_eq_true_eq] at hp
      -- the newcomer is not among the quads cached
      rcases hp with rfl | hp
      · rw [hnew.1] at hq; cases hq
      · exact hp
    · cases h
  · cases h

/-- **A record that is not refused is stored,** for one quad that is not pinned when there was no
room. -/
theorem insert_eq_ok (hc : c.Sound) {evicted : Option QuadId}
    (h : c.insert record stamp now pinned = .ok (c', evicted)) :
    (evicted = none ∧ c' = c.store record stamp now ∧
      (c.contains record.id = true ∨ c.isFull = false)) ∨
    ∃ victim, evicted = some victim ∧ c' = (c.erase victim).store record stamp now ∧
      c.contains record.id = false ∧ c.isFull = true ∧ c.contains victim = true ∧
      pinned victim = false := by
  unfold insert at h
  split at h
  · next hnew =>
    rw [Bool.and_eq_true, Bool.not_eq_true'] at hnew
    split at h
    · cases h
    · next victim hv =>
      cases h
      obtain ⟨hin, hp⟩ := Recency.oldestUnpinned_eq_some hc.recency hv
      rw [Bool.or_eq_false_iff] at hp
      exact .inr ⟨victim, rfl, rfl, hnew.1, hnew.2, by rwa [← hc.seen], hp.2⟩
  · next hold =>
    cases h
    refine .inl ⟨rfl, rfl, ?_⟩
    cases hin : c.contains record.id with
    | true => exact .inl rfl
    | false => simpa [hin] using hold

/-- The evicted quad is the oldest one that is not pinned. -/
theorem oldest_of_insert {victim : QuadId}
    (h : c.insert record stamp now pinned = .ok (c', some victim)) :
    c.recency.oldestUnpinned (fun quad => quad = record.id || pinned quad) = some victim := by
  unfold insert at h
  split at h
  · split at h
    · cases h
    · next hv =>
      cases h
      exact hv
  · cases h

theorem sound_insert (hc : c.Sound) {evicted : Option QuadId}
    (h : c.insert record stamp now pinned = .ok (c', evicted)) : c'.Sound := by
  rcases insert_eq_ok hc h with ⟨-, rfl, -⟩ | ⟨victim, -, rfl, -⟩
  · exact sound_store hc _ _ _
  · exact sound_store (sound_erase hc _) _ _ _

/-- Pinned quads stay, and the new one is there. -/
theorem contains_insert (hc : c.Sound) {evicted : Option QuadId}
    (h : c.insert record stamp now pinned = .ok (c', evicted)) {q : QuadId}
    (hq : q = record.id ∨ c.contains q = true ∧ pinned q = true) : c'.contains q = true := by
  rcases insert_eq_ok hc h with ⟨-, rfl, -⟩ | ⟨victim, -, rfl, -, -, -, hv⟩
  · rw [contains_store]
    rcases hq with rfl | hq
    · simp
    · simp [hq.1]
  · rw [contains_store, contains_erase]
    rcases hq with rfl | hq
    · simp
    · have hne : q ≠ victim := by
        rintro rfl
        rw [hq.2] at hv
        cases hv
      simp [hq.1, hne]

/-- A record that is there after an insertion is the new one or was there before. -/
theorem get?_of_insert {evicted : Option QuadId}
    (h : c.insert record stamp now pinned = .ok (c', evicted)) {q : QuadId} {r : QuadRecord}
    (hr : c'.get? q = some r) : r = record ∨ c.get? q = some r := by
  have hstore : ∀ d : QuadCache, (d.store record stamp now).get? q = some r →
      r = record ∨ d.get? q = some r := by
    intro d hd
    rw [get?_store] at hd
    split at hd
    · exact .inl (Option.some.inj hd).symm
    · exact .inr hd
  unfold insert at h
  split at h
  · split at h
    · cases h
    · cases h
      refine (hstore _ hr).imp_right fun hd => ?_
      rw [get?_erase] at hd
      split at hd
      · cases hd
      · exact hd
  · cases h
    exact hstore _ hr

theorem get?_insert_self {evicted : Option QuadId}
    (h : c.insert record stamp now pinned = .ok (c', evicted)) :
    c'.get? record.id = some record := by
  have hstore : ∀ d : QuadCache, (d.store record stamp now).get? record.id = some record := by
    intro d
    rw [get?_store, if_pos rfl]
  unfold insert at h
  split at h
  · split at h
    · cases h
    · cases h
      exact hstore _
  · cases h
    exact hstore _

/-- An insertion leaves the other pinned quads alone. -/
theorem get?_insert_of_pinned (hc : c.Sound) {evicted : Option QuadId}
    (h : c.insert record stamp now pinned = .ok (c', evicted)) {q : QuadId} (hne : q ≠ record.id)
    (hp : pinned q = true) : c'.get? q = c.get? q := by
  rcases insert_eq_ok hc h with ⟨-, rfl, -⟩ | ⟨victim, -, rfl, -, -, -, hv⟩
  · rw [get?_store, if_neg hne]
  · have hstays : q ≠ victim := by
      rintro rfl
      rw [hp] at hv
      cases hv
    rw [get?_store, if_neg hne, get?_erase, if_neg hstays]

/-- What is cached after an insertion is the new one or was cached before. -/
theorem contains_of_insert (hc : c.Sound) {evicted : Option QuadId}
    (h : c.insert record stamp now pinned = .ok (c', evicted)) {q : QuadId}
    (hq : c'.contains q = true) : q = record.id ∨ c.contains q = true := by
  rcases insert_eq_ok hc h with ⟨-, rfl, -⟩ | ⟨victim, -, rfl, -⟩
  · rw [contains_store, Bool.or_eq_true, decide_eq_true_eq] at hq
    exact hq
  · rw [contains_store, contains_erase, Bool.or_eq_true, decide_eq_true_eq, Bool.and_eq_true] at hq
    exact hq.imp_right And.right

/-- **A cache never holds more than it has room for.** -/
theorem size_insert_le (hc : c.Sound) {evicted : Option QuadId}
    (h : c.insert record stamp now pinned = .ok (c', evicted)) (hle : c.size ≤ c.capacity) :
    c'.capacity = c.capacity ∧ c'.size ≤ c.capacity := by
  rcases insert_eq_ok hc h with ⟨-, rfl, hroom⟩ | ⟨victim, -, rfl, hnew, -, hin, -⟩
  · refine ⟨rfl, ?_⟩
    rw [size_store_eq]
    split
    · exact hle
    · next hout =>
      have hfree : c.isFull = false := hroom.resolve_left hout
      have hlt : ¬ c.capacity ≤ c.size := of_decide_eq_false hfree
      omega
  · -- the victim was cached and the newcomer was not, so one goes for one
    have hout : (c.erase victim).contains record.id = false := by
      rw [contains_erase, hnew, Bool.and_false]
    have hsize := size_erase hin
    refine ⟨rfl, ?_⟩
    rw [size_store_eq, hout]
    show (c.erase victim).size + 1 ≤ c.capacity
    omega

/-- **A cache that is full of pinned quads stays so.** -/
theorem isPinnedFull_insert (hc : c.Sound) {evicted : Option QuadId}
    (h : c.insert record stamp now pinned = .ok (c', evicted)) (hp : c.isPinnedFull pinned = true) :
    c'.isPinnedFull pinned = true := by
  obtain ⟨hfull, hall⟩ := (isPinnedFull_iff hc).mp hp
  rcases insert_eq_ok hc h with ⟨-, rfl, hroom⟩ | ⟨victim, -, -, -, -, hin, hv⟩
  · have hold : c.contains record.id = true := by
      rcases hroom with hold | hroom
      · exact hold
      · rw [hfull] at hroom; cases hroom
    refine (isPinnedFull_iff (sound_store hc _ _ _)).mpr ⟨?_, fun q hq => ?_⟩
    · have hsize : (c.store record stamp now).size = c.size := by
        rw [size_store, ← size_erase hold]
      unfold isFull at hfull ⊢
      rw [hsize]
      exact hfull
    · rw [contains_store, Bool.or_eq_true, decide_eq_true_eq] at hq
      rcases hq with rfl | hq
      · exact hall _ hold
      · exact hall q hq
  · rw [hall victim hin] at hv
    cases hv

end QuadCache

end TileStream
