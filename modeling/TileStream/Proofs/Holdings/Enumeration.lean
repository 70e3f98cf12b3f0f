import TileStream.Proofs.Holdings.Residency

/-! # Holdings that differ in how sets are listed

Sets come as lists: the needed tiles of a view, the desired quads, the entries of a table. Holdings
match when they differ at most in the order in which such a set is listed (`Holdings.Matches`). A view
of the same tiles, however they are listed, and a finished quad take matching holdings to matching
holdings, with the same orders and the same delta (`Holdings.Matches.view`,
`Holdings.Matches.receive`).

* Quads seen in one epoch get one stamp, so it does not matter which of them is seen first
  (`Recency.Matches.foldl_refresh`).
* The stamps determine the order of the quads, ties included, so the oldest quad that may go is a
  definite one (`Recency.matches_of_stamps`).
* What is to be uploaded or requested is sorted, and sorting forgets how it was listed. -/

namespace TileStream

/-- Both are answers that `R` relates, or both are the same failure. -/
inductive Corresponds {ε α β : Type} (R : α → β → Prop) : Except ε α → Except ε β → Prop
  | ok {a b} (h : R a b) : Corresponds R (.ok a) (.ok b)
  | error (e : ε) : Corresponds R (.error e) (.error e)

theorem Corresponds.bind {ε α β γ δ : Type} {R : α → β → Prop} {S : γ → δ → Prop}
    {x : Except ε α} {y : Except ε β} {f : α → Except ε γ} {g : β → Except ε δ}
    (h : Corresponds R x y) (hf : ∀ {a b}, R a b → Corresponds S (f a) (g b)) :
    Corresponds S (x >>= f) (y >>= g) := by
  cases h with
  | ok h => exact hf h
  | error e => exact .error e

namespace Recency

variable {r r' : Recency} {quad : QuadId} {stamp : Nat}

/-! ### Seeing many quads in one epoch -/

/-- The index after a quad that it knows was seen again; other quads are left out. -/
def refresh (stamp : Nat) (r : Recency) (quad : QuadId) : Recency :=
  if r.contains quad then r.touch quad stamp else r

theorem stamp?_refresh (stamp : Nat) (r : Recency) (quad q : QuadId) :
    (r.refresh stamp quad).stamp? q =
      if q = quad then (r.stamp? q).map (max · stamp) else r.stamp? q := by
  unfold refresh
  split
  · next hin =>
    obtain ⟨n, hn⟩ := r.stamps.contains_iff.mp hin
    rw [stamp?_touch, show r.stamp? quad = some n from hn]
    by_cases he : q = quad
    · rw [if_pos he, if_pos he, he, show r.stamp? quad = some n from hn]
      rfl
    · rw [if_neg he, if_neg he]
  · next hout =>
    by_cases he : q = quad
    · have hnone : r.stamp? q = none := by
        rw [he]
        exact r.stamps.contains_eq_false_iff.mp (Bool.eq_false_iff.mpr hout)
      rw [if_pos he, hnone]
      rfl
    · rw [if_neg he]

theorem stamp?_foldl_refresh (stamp : Nat) (quads : List QuadId) (r : Recency) (q : QuadId) :
    (quads.foldl (refresh stamp) r).stamp? q =
      if q ∈ quads then (r.stamp? q).map (max · stamp) else r.stamp? q := by
  induction quads generalizing r with
  | nil => simp
  | cons quad rest ih =>
    rw [List.foldl_cons, ih, stamp?_refresh]
    by_cases he : q = quad
    · subst he
      cases r.stamp? q <;> simp
    · simp [he]

theorem sound_foldl_refresh (h : r.Sound) (stamp : Nat) (quads : List QuadId) :
    (quads.foldl (refresh stamp) r).Sound := by
  induction quads generalizing r with
  | nil => exact h
  | cons quad rest ih =>
    refine ih ?_
    unfold refresh
    split
    · exact sound_touch h quad stamp
    · exact h

/-- **In one epoch it does not matter which quad is seen first,** or how often. -/
theorem Matches.foldl_refresh (hm : r.Matches r') (h : r.Sound) (stamp : Nat)
    {quads quads' : List QuadId} (hq : ∀ q, q ∈ quads ↔ q ∈ quads') :
    (quads.foldl (refresh stamp) r).Matches (quads'.foldl (refresh stamp) r') := by
  refine matches_of_stamps (sound_foldl_refresh h stamp quads)
    (sound_foldl_refresh (hm.sound h) stamp quads') fun q => ?_
  rw [stamp?_foldl_refresh, stamp?_foldl_refresh, hm.stamps]
  simp only [hq]

end Recency

namespace QuadCache

variable {c c' : QuadCache} {record : QuadRecord} {stamp : Nat} {now : Instant}

/-- The same records in the same order of age. -/
def Matches (c c' : QuadCache) : Prop :=
  ∃ recency, c' = { c with recency } ∧ c.recency.Matches recency

theorem Matches.sound (hm : c.Matches c') (hc : c.Sound) : c'.Sound := by
  obtain ⟨recency, rfl, hr⟩ := hm
  exact ⟨hr.sound hc.recency, fun q => (hr.contains q).trans (hc.seen q), hc.keyed⟩

/-- Seeing quads changes the index only. -/
theorem foldl_touch_eq (hc : c.Sound) (quads : List QuadId) (stamp : Nat) :
    quads.foldl (fun c quad => c.touch quad stamp) c =
      { c with recency := quads.foldl (Recency.refresh stamp) c.recency } := by
  induction quads generalizing c with
  | nil => rfl
  | cons quad rest ih =>
    have htouch : c.touch quad stamp = { c with recency := c.recency.refresh stamp quad } := by
      unfold touch Recency.refresh
      rw [hc.seen]
      split <;> rfl
    rw [List.foldl_cons, ih (sound_touch hc quad stamp), htouch]
    rfl

theorem Matches.foldl_touch (hm : c.Matches c') (hc : c.Sound) (stamp : Nat)
    {quads quads' : List QuadId} (hq : ∀ q, q ∈ quads ↔ q ∈ quads') :
    (quads.foldl (fun c quad => c.touch quad stamp) c).Matches
      (quads'.foldl (fun c quad => c.touch quad stamp) c') := by
  rw [foldl_touch_eq hc, foldl_touch_eq (hm.sound hc)]
  obtain ⟨recency, rfl, hr⟩ := hm
  exact ⟨_, rfl, hr.foldl_refresh hc.recency stamp hq⟩

theorem Matches.isPinnedFull (hm : c.Matches c') (pinned : QuadId → Bool) :
    c'.isPinnedFull pinned = c.isPinnedFull pinned := by
  obtain ⟨recency, rfl, hr⟩ := hm
  unfold QuadCache.isPinnedFull
  rw [hr.oldestUnpinned]
  rfl

theorem Matches.store (hm : c.Matches c') (record : QuadRecord) (stamp : Nat) (now : Instant) :
    (c.store record stamp now).Matches (c'.store record stamp now) := by
  obtain ⟨recency, rfl, hr⟩ := hm
  exact ⟨_, rfl, hr.touch record.id stamp⟩

theorem Matches.erase (hm : c.Matches c') (quad : QuadId) :
    (c.erase quad).Matches (c'.erase quad) := by
  obtain ⟨recency, rfl, hr⟩ := hm
  exact ⟨_, rfl, hr.erase quad⟩

/-- **An insertion evicts the same quad,** or is refused alike. -/
theorem Matches.insert (hm : c.Matches c') (record : QuadRecord) (stamp : Nat) (now : Instant)
    (pinned : QuadId → Bool) :
    Corresponds (fun a b => a.1.Matches b.1 ∧ b.2 = a.2) (c.insert record stamp now pinned)
      (c'.insert record stamp now pinned) := by
  have hstore := hm.store record stamp now
  have hevict := fun quad => (hm.erase quad).store record stamp now
  obtain ⟨recency, rfl, hr⟩ := hm
  unfold QuadCache.insert
  rw [hr.oldestUnpinned]
  show Corresponds _ _ (if (!c.contains record.id && c.isFull) = true then _ else _)
  split
  · split
    · exact .error _
    · exact .ok ⟨hevict _, rfl⟩
  · exact .ok ⟨hstore, rfl⟩

end QuadCache

namespace Residents

variable {g g' : Residents}

/-- The same quads in the same order of age. -/
def Matches (g g' : Residents) : Prop :=
  ∃ recency, g' = { g with recency } ∧ g.recency.Matches recency

/-- Seeing quads changes the index only. -/
theorem foldl_touch_eq (g : Residents) (quads : List QuadId) (stamp : Nat) :
    quads.foldl (fun g quad => g.touch quad stamp) g =
      { g with recency := quads.foldl (Recency.refresh stamp) g.recency } := by
  induction quads generalizing g with
  | nil => rfl
  | cons quad rest ih =>
    have htouch : g.touch quad stamp = { g with recency := g.recency.refresh stamp quad } := by
      unfold touch contains Recency.refresh
      split <;> rfl
    rw [List.foldl_cons, ih, htouch]
    rfl

theorem Matches.foldl_touch (hm : g.Matches g') (hg : g.recency.Sound) (stamp : Nat)
    {quads quads' : List QuadId} (hq : ∀ q, q ∈ quads ↔ q ∈ quads') :
    (quads.foldl (fun g quad => g.touch quad stamp) g).Matches
      (quads'.foldl (fun g quad => g.touch quad stamp) g') := by
  rw [foldl_touch_eq, foldl_touch_eq]
  obtain ⟨recency, rfl, hr⟩ := hm
  exact ⟨_, rfl, hr.foldl_refresh hg stamp hq⟩

theorem Matches.contains (hm : g.Matches g') (q : QuadId) : g'.contains q = g.contains q := by
  obtain ⟨recency, rfl, hr⟩ := hm
  exact hr.contains q

theorem Matches.isFull (hm : g.Matches g') : g'.isFull = g.isFull := by
  obtain ⟨recency, rfl, hr⟩ := hm
  unfold Residents.isFull Residents.size
  rw [hr.size]

theorem Matches.oldestUnpinned (hm : g.Matches g') (pinned : QuadId → Bool) :
    g'.oldestUnpinned pinned = g.oldestUnpinned pinned := by
  obtain ⟨recency, rfl, hr⟩ := hm
  exact hr.oldestUnpinned pinned

theorem Matches.insert (hm : g.Matches g') (quad : QuadId) (stamp : Nat) :
    (g.insert quad stamp).Matches (g'.insert quad stamp) := by
  obtain ⟨recency, rfl, hr⟩ := hm
  exact ⟨_, rfl, hr.touch quad stamp⟩

theorem Matches.erase (hm : g.Matches g') (quad : QuadId) :
    (g.erase quad).Matches (g'.erase quad) := by
  obtain ⟨recency, rfl, hr⟩ := hm
  exact ⟨_, rfl, hr.erase quad⟩

end Residents

namespace Holdings

variable {h h' : Holdings} {delta : ResidencyDelta} {quad : QuadId} {now : Instant}

/-- **Equal but for the order in which sets are listed.** -/
structure Matches (h h' : Holdings) : Prop where
  others : ∃ cache residents desired, h' = { h with cache, residents, desired }
  cache : h.cache.Matches h'.cache
  residents : h.residents.Matches h'.residents
  desired : h.desired.Perm h'.desired

theorem Matches.refl (h : Holdings) : h.Matches h :=
  ⟨⟨_, _, _, rfl⟩, ⟨_, rfl, .refl _⟩, ⟨_, rfl, .refl _⟩, .refl _⟩

theorem Matches.isDesired (hm : h.Matches h') : h'.isDesired = h.isDesired := by
  funext q
  unfold Holdings.isDesired
  rw [Bool.eq_iff_iff, List.contains_iff_mem, List.contains_iff_mem, hm.desired.mem_iff]

theorem Matches.get? (hm : h.Matches h') (q : QuadId) : h'.cache.get? q = h.cache.get? q := by
  obtain ⟨recency, hc, -⟩ := hm.cache
  rw [hc]
  rfl

theorem Matches.cached (hm : h.Matches h') (q : QuadId) :
    h'.cache.contains q = h.cache.contains q := by
  obtain ⟨recency, hc, -⟩ := hm.cache
  rw [hc]
  rfl

theorem Matches.with_residents (hm : h.Matches h') {g g' : Residents} (hg : g.Matches g') :
    Matches { h with residents := g } { h' with residents := g' } := by
  obtain ⟨cache, residents, desired, rfl⟩ := hm.others
  exact ⟨⟨_, _, _, rfl⟩, hm.cache, hg, hm.desired⟩

theorem Matches.epoch (hm : h.Matches h') : h'.epoch = h.epoch := by
  obtain ⟨_, _, _, rfl⟩ := hm.others
  rfl

/-! ### Uploads -/

/-- An upload displaces the same quad, or is put off alike. -/
theorem Matches.upload (hm : h.Matches h') (delta : ResidencyDelta) (quad : QuadId) :
    (h.upload delta quad).1.Matches (h'.upload delta quad).1 ∧
      (h'.upload delta quad).2 = (h.upload delta quad).2 := by
  have hevict := fun victim => (hm.residents.erase victim).insert quad h.epoch
  have hplace := hm.residents.insert quad h.epoch
  unfold Holdings.upload
  rw [hm.get?, hm.residents.contains, hm.residents.isFull, hm.isDesired,
    hm.residents.oldestUnpinned]
  obtain ⟨_, _, _, rfl⟩ := hm.others
  split
  · exact ⟨hm, rfl⟩
  · split
    · exact ⟨hm, rfl⟩
    · split
      · split
        · exact ⟨hm, rfl⟩
        · exact ⟨hm.with_residents (hevict _), rfl⟩
      · exact ⟨hm.with_residents hplace, rfl⟩

theorem Matches.uploadAll (hm : h.Matches h') (delta : ResidencyDelta) (quads : List QuadId) :
    (h.uploadAll delta quads).1.Matches (h'.uploadAll delta quads).1 ∧
      (h'.uploadAll delta quads).2 = (h.uploadAll delta quads).2 := by
  induction quads generalizing h h' delta with
  | nil => exact ⟨hm, rfl⟩
  | cons quad rest ih =>
    have hup := hm.upload delta quad
    unfold Holdings.uploadAll
    generalize h.upload delta quad = r, h'.upload delta quad = r' at hup
    obtain ⟨u, d, placed⟩ := r
    obtain ⟨u', d', placed'⟩ := r'
    obtain ⟨hu, heq⟩ := hup
    cases heq
    cases placed with
    | true => exact ih hu d
    | false => exact ⟨hu, rfl⟩

theorem Matches.sync (hm : h.Matches h') :
    h.sync.1.Matches h'.sync.1 ∧ h'.sync.2 = h.sync.2 := by
  have hlist : TileId.sort (h'.desired.filter fun quad =>
        h'.cache.contains quad && !h'.residents.contains quad) =
      TileId.sort (h.desired.filter fun quad =>
        h.cache.contains quad && !h.residents.contains quad) := by
    simp only [hm.cached, hm.residents.contains]
    exact TileId.sort_eq_of_perm (hm.desired.symm.filter _)
  unfold Holdings.sync
  rw [hlist]
  exact hm.uploadAll .empty _

/-! ### A new view -/

theorem perm_parents {needed needed' : List TileId} (hn : ∀ t, t ∈ needed ↔ t ∈ needed') :
    (parents needed).Perm (parents needed') := by
  refine (List.perm_ext_iff_of_nodup (nodup_eraseDups _) (nodup_eraseDups _)).mpr fun q => ?_
  show q ∈ parents needed ↔ q ∈ parents needed'
  simp only [mem_parents, hn]

theorem Matches.desire (hm : h.Matches h') (hh : h.Held) {desired desired' : List QuadId}
    (hd : desired.Perm desired') (epoch : Nat) :
    (h.desire desired epoch).Matches (h'.desire desired' epoch) := by
  have hmem := fun q => hd.mem_iff (a := q)
  have hcache := hm.cache.foldl_touch hh.cache epoch hmem
  have hresidents := hm.residents.foldl_touch hh.recency epoch hmem
  obtain ⟨cache, residents, former, rfl⟩ := hm.others
  exact ⟨⟨_, _, _, rfl⟩, hcache, hresidents, hd⟩

/-- **The quads to load are the same,** and asked for in the same order. -/
theorem Matches.requests (hm : h.Matches h') (now : Instant) (inFlight : QuadId → Bool) :
    h'.requests now inFlight = h.requests now inFlight := by
  have hpinned := hm.cache.isPinnedFull h.isDesired
  have hdesired := hm.isDesired
  have hperm := hm.desired.symm
  obtain ⟨cache, residents, desired, rfl⟩ := hm.others
  obtain ⟨recency, hc, -⟩ := hm.cache
  dsimp only at hc
  subst hc
  have hsort := TileId.sort_eq_of_perm (hperm.filter fun quad =>
    !inFlight quad && h.isWanted (h.cache.isPinnedFull h.isDesired) now quad)
  unfold Holdings.requests
  rw [hdesired, hpinned]
  split
  · rfl
  · exact hsort

/-- **Views of the same tiles,** however they are listed, give the same orders. -/
theorem Matches.view (hm : h.Matches h') (hh : h.Held) {needed needed' : List TileId}
    (hn : ∀ t, t ∈ needed ↔ t ∈ needed') (now : Instant) (inFlight : QuadId → Bool) :
    Corresponds (fun a b => a.1.Matches b.1 ∧ b.2 = a.2) (h.view needed now inFlight)
      (h'.view needed' now inFlight) := by
  unfold Holdings.view
  rw [hm.epoch]
  cases Checked.word64 (h.epoch + 1) with
  | error e => exact .error e
  | ok epoch =>
    obtain ⟨hs, hd⟩ := (hm.desire hh (perm_parents hn) epoch).sync
    exact .ok ⟨hs, congrArg₂ Orders.mk (hs.requests now inFlight) hd⟩

/-! ### A finished quad -/

theorem Matches.dislodge (hm : h.Matches h') (evicted : Option QuadId) :
    (h.dislodge evicted).1.Matches (h'.dislodge evicted).1 ∧
      (h'.dislodge evicted).2 = (h.dislodge evicted).2 := by
  cases evicted with
  | none => exact ⟨hm, rfl⟩
  | some quad =>
    unfold Holdings.dislodge withdraw
    dsimp only
    rw [hm.residents.contains]
    split
    · exact ⟨hm.with_residents (hm.residents.erase quad), rfl⟩
    · exact ⟨hm, rfl⟩

theorem Matches.settle (hm : h.Matches h') (record : QuadRecord) (replaced : Bool)
    (evicted : Option QuadId) :
    (h.settle record replaced evicted).1.Matches (h'.settle record replaced evicted).1 ∧
      (h'.settle record replaced evicted).2 = (h.settle record replaced evicted).2 := by
  have hd := hm.dislodge evicted
  unfold Holdings.settle
  generalize h.dislodge evicted = r, h'.dislodge evicted = r' at hd
  obtain ⟨u, d⟩ := r
  obtain ⟨u', d'⟩ := r'
  obtain ⟨hu, rfl⟩ := hd
  dsimp only at hu ⊢
  rw [hu.residents.contains, hu.isDesired]
  split
  · exact ⟨hu, rfl⟩
  · split
    · obtain ⟨hup, heq⟩ := hu.upload d' record.id
      exact ⟨hup, congrArg (·.1) heq⟩
    · exact ⟨hu, rfl⟩

/-- **A finished quad** is cached or refused alike, evicts the same quad and displaces the same one. -/
theorem Matches.receive (hm : h.Matches h') (record : QuadRecord) (now : Instant) :
    Corresponds (fun a b => a.1.Matches b.1 ∧ b.2 = a.2) (h.receive record now)
      (h'.receive record now) := by
  have hi := hm.cache.insert record h.epoch now h.isDesired
  have hdesired := hm.isDesired
  have hcached := hm.cached record.id
  rw [receive_eq, receive_eq]
  obtain ⟨before, residents, desired, rfl⟩ := hm.others
  rw [hdesired, hcached]
  dsimp only at hi ⊢
  generalize h.cache.insert record h.epoch now h.isDesired = r,
    before.insert record h.epoch now h.isDesired = r' at hi
  cases hi with
  | error e => exact .error e
  | @ok a b hab =>
    obtain ⟨cache, _⟩ := a
    obtain ⟨cache', evicted⟩ := b
    obtain ⟨hcache, rfl⟩ := hab
    have hstored : Matches { h with cache } { h with cache := cache', residents, desired } :=
      ⟨⟨_, _, _, rfl⟩, hcache, hm.residents, hm.desired⟩
    exact .ok (hstored.settle record (h.cache.contains record.id) evicted)

end Holdings

end TileStream
