import TileStream.Proofs.Holdings.Uploads

/-! # As much of the view is resident as can be

Holdings start empty and change with every view and every finished quad (`Holdings.Reached`). Each of
these calls leaves the cache and the set of resident quads within their room, takes nothing away that
is in view (`Holdings.Keeps`), and leaves as much of the view resident as can be
(`Reached.residency_maximal`).

A finished quad uploads itself only, so a desired quad that was put off before has to stay put off for
want of room. It does: it was put off because the set was full of desired quads, and none of these
leaves before the next view. A slot on the GPU comes free only when a resident quad is evicted from
the cache, and that quad was not desired. -/

namespace TileStream

namespace Holdings

variable {h h' : Holdings} {delta : ResidencyDelta} {record : QuadRecord} {now : Instant}

/-- Both accounts are sound, what is resident is cached, and both keep to their room. -/
structure Fit (h : Holdings) : Prop where
  held : h.Held
  cached : h.cache.size ≤ h.cache.capacity
  resident : h.residents.size ≤ h.residents.limit

theorem Fit.within (hf : h.Fit) : h.Within := ⟨hf.held.recency, hf.resident⟩

/-- **Nothing in view is taken away.** -/
structure Keeps (h h' : Holdings) : Prop where
  capacity : h'.cache.capacity = h.cache.capacity
  limit : h'.residents.limit = h.residents.limit
  cached : ∀ q, h'.isDesired q = true → h.cache.contains q = true → h'.cache.contains q = true
  resident : ∀ q, h'.isDesired q = true → h.residents.contains q = true →
    h'.residents.contains q = true

theorem Keeps.refl (h : Holdings) : h.Keeps h := ⟨rfl, rfl, fun _ _ hq => hq, fun _ _ hq => hq⟩

/-- The quads that are in view in the end have to be in view all along. -/
theorem Keeps.trans {h'' : Holdings} (hk : h.Keeps h') (hk' : h'.Keeps h'')
    (hsame : ∀ q, h''.isDesired q = h'.isDesired q) : h.Keeps h'' := by
  refine ⟨hk'.capacity.trans hk.capacity, hk'.limit.trans hk.limit, ?_, ?_⟩
  · intro q hdesired hq
    have hbefore : h'.isDesired q = true := (hsame q).symm.trans hdesired
    exact hk'.cached q hdesired (hk.cached q hbefore hq)
  · intro q hdesired hq
    have hbefore : h'.isDesired q = true := (hsame q).symm.trans hdesired
    exact hk'.resident q hdesired (hk.resident q hbefore hq)

/-- A quad leaves the GPU only together with its record, or because the set is full. -/
def Displaces (h h' : Holdings) : Prop :=
  ∀ q, h.residents.contains q = true → h'.residents.contains q = false →
    h'.cache.contains q = false ∨ h'.residents.size = h'.residents.limit

/-! ### A new view -/

theorem fit_desire (hf : h.Fit) (desired : List QuadId) (epoch : Nat) :
    (h.desire desired epoch).Fit := by
  obtain ⟨hheld, -⟩ := held_desire hf.held desired epoch
  obtain ⟨hsize, hlimit⟩ := Residents.size_foldl_touch epoch h.residents desired
  have hentries := QuadCache.entries_foldl_touch h.cache desired epoch
  have hcapacity := QuadCache.capacity_foldl_touch h.cache desired epoch
  refine ⟨hheld, ?_, ?_⟩
  · have hcached := hf.cached
    unfold QuadCache.size at hcached ⊢
    show (List.foldl _ h.cache desired).entries.size ≤ (List.foldl _ h.cache desired).capacity
    rw [hentries, hcapacity]
    exact hcached
  · show (List.foldl _ h.residents desired).size ≤ (List.foldl _ h.residents desired).limit
    rw [hsize, hlimit]
    exact hf.resident

/-- A view evicts nothing from the cache. -/
theorem view_cached {needed : List TileId} {inFlight : QuadId → Bool} {orders : Orders}
    (hv : h.view needed now inFlight = .ok (h', orders)) (q : QuadId) :
    h'.cache.contains q = h.cache.contains q := by
  obtain ⟨-, ⟨residents, rfl⟩, -⟩ := view_eq_ok hv
  have hentries := QuadCache.entries_foldl_touch h.cache (parents needed) (h.epoch + 1)
  unfold QuadCache.contains
  show (List.foldl _ h.cache (parents needed)).entries.contains q = _
  rw [hentries]

/-- **A view keeps what is in it,** and as much of it is resident after the view as can be. -/
theorem view_keeps (hf : h.Fit) {needed : List TileId} {inFlight : QuadId → Bool} {orders : Orders}
    (hv : h.view needed now inFlight = .ok (h', orders)) :
    h'.Fit ∧ h.Keeps h' ∧ h.Displaces h' ∧ h'.Saturated := by
  obtain ⟨hsync, -, -⟩ := view_eq_ok hv
  have hheld : h'.Held := (tells_view hf.held hv).held
  have hfit := fit_desire hf (parents needed) (h.epoch + 1)
  have hsame := (Residents.foldl_touch (h.epoch + 1) hf.held.recency (parents needed)).2
  have hcapacity := QuadCache.capacity_foldl_touch h.cache (parents needed) (h.epoch + 1)
  have hlimit := (Residents.size_foldl_touch (h.epoch + 1) h.residents (parents needed)).2
  have hfills := fills_sync hfit.within
  have hsaturated := saturated_sync hfit.within
  have heq : h' = (h.desire (parents needed) (h.epoch + 1)).sync.1 := congrArg (·.1) hsync
  rw [← heq] at hfills hsaturated
  have hcache := hfills.cache
  refine ⟨⟨hheld, ?_, hfills.within.bounded⟩, ⟨?_, hfills.limit.trans hlimit, ?_, ?_⟩, ?_,
    hsaturated⟩
  · rw [hcache]
    exact hfit.cached
  · rw [hcache]
    exact hcapacity
  · intro q _ hq
    exact (view_cached hv q).trans hq
  · intro q hdesired hq
    refine hfills.kept q ?_ ((hsame q).trans hq)
    rw [← hfills.isDesired]
    exact hdesired
  · intro q hq hgone
    exact .inr (hfills.displaced q ((hsame q).trans hq) hgone)

/-! ### A finished quad -/

/-- The evicted quad leaves the GPU, and no other. -/
theorem contains_dislodge (h : Holdings) (evicted : Option QuadId) (q : QuadId) :
    (h.dislodge evicted).1.residents.contains q =
      (decide (evicted ≠ some q) && h.residents.contains q) := by
  cases evicted with
  | none => simp [dislodge]
  | some victim =>
    unfold dislodge withdraw
    dsimp only
    split
    · rw [Residents.contains_erase]
      by_cases he : q = victim
      · simp [he]
      · simp [he, Ne.symm he]
    · next hout =>
      by_cases he : q = victim
      · subst he; simpa using hout
      · simp [Ne.symm he]

theorem within_dislodge (hw : h.Within) (evicted : Option QuadId) :
    (h.dislodge evicted).1.Within := by
  cases evicted with
  | none => exact hw
  | some victim =>
    unfold dislodge withdraw
    dsimp only
    split
    · next hin =>
      have hsize := Residents.size_erase hin
      have hbounded := hw.bounded
      refine ⟨Recency.sound_erase hw.sound _, ?_⟩
      show (h.residents.erase victim).size ≤ h.residents.limit
      omega
    · exact hw

theorem limit_dislodge (h : Holdings) (evicted : Option QuadId) :
    (h.dislodge evicted).1.residents.limit = h.residents.limit := by
  cases evicted with
  | none => rfl
  | some victim =>
    unfold dislodge withdraw
    dsimp only
    split <;> rfl

/-- No resident quad is evicted while all of them are desired. -/
theorem PinnedFull.dislodge (hp : h.PinnedFull) {evicted : Option QuadId}
    (hundesired : ∀ victim, evicted = some victim → h.isDesired victim = false) :
    (h.dislodge evicted).1 = h := by
  cases evicted with
  | none => rfl
  | some victim =>
    have hout : h.residents.contains victim = false := by
      rw [← Bool.not_eq_true]
      intro hin
      have hpinned := hp.desired victim hin
      rw [hundesired victim rfl] at hpinned
      cases hpinned
    unfold Holdings.dislodge withdraw
    dsimp only
    rw [hout, if_neg Bool.false_ne_true]

/-- **A finished quad that is cached uploads itself** when it is desired and not resident yet. -/
theorem settle_cases (h : Holdings) (record : QuadRecord) (replaced : Bool)
    (evicted : Option QuadId) :
    ((h.settle record replaced evicted).1 = (h.dislodge evicted).1 ∧
      (h.isDesired record.id = true →
        (h.dislodge evicted).1.residents.contains record.id = true)) ∨
    (h.isDesired record.id = true ∧ (h.settle record replaced evicted).1 =
      ((h.dislodge evicted).1.upload (h.dislodge evicted).2 record.id).1) := by
  have hsame : (h.dislodge evicted).1.isDesired record.id = h.isDesired record.id := by
    obtain ⟨residents, hd⟩ := exists_dislodge h evicted
    rw [hd]
    rfl
  unfold settle
  dsimp only
  rw [hsame]
  split
  · next hin => exact .inl ⟨rfl, fun _ => (Bool.and_eq_true_iff.mp hin).2⟩
  · split
    · next hdesired => exact .inr ⟨hdesired, rfl⟩
    · next hundesired => exact .inl ⟨rfl, fun hdesired => absurd hdesired hundesired⟩

/-- After the evicted quad left, more may become resident. -/
theorem fills_settle (hw : h.Within) (record : QuadRecord) (replaced : Bool)
    (evicted : Option QuadId) :
    (h.dislodge evicted).1.Fills (h.settle record replaced evicted).1 := by
  have hdislodged := within_dislodge hw evicted
  rcases settle_cases h record replaced evicted with ⟨heq, -⟩ | ⟨-, heq⟩
  · rw [heq]
    exact .refl hdislodged
  · rw [heq]
    exact fills_upload hdislodged _ _

/-- A quad that is evicted is not in view, and it is not cached any more. -/
theorem undesired_of_evicted (hc : h.cache.Sound) {cache : QuadCache} {victim : QuadId}
    (hi : h.cache.insert record h.epoch now h.isDesired = .ok (cache, some victim)) :
    h.isDesired victim = false ∧ cache.contains victim = false := by
  rcases QuadCache.insert_eq_ok hc hi with ⟨hnone, -⟩ | ⟨v, hv, rfl, hnew, -, hin, hp⟩
  · cases hnone
  · cases hv
    refine ⟨hp, ?_⟩
    have hne : victim ≠ record.id := by
      rintro rfl
      rw [hnew] at hin
      cases hin
    rw [QuadCache.contains_store, QuadCache.contains_erase]
    simp [hne]

/-- **A finished quad takes nothing away that is in view.** -/
theorem receive_keeps (hf : h.Fit) (hr : h.receive record now = .ok (h', delta)) :
    h'.Fit ∧ h.Keeps h' ∧ h.Displaces h' := by
  have hheld : h'.Held := (tells_receive hf.held hr).held
  obtain ⟨cache, evicted, hi, hs, residents, hh'⟩ := receive_eq_ok hr
  have hsettle : h' = _ := congrArg (·.1) hs
  obtain ⟨hcapacity, hsize⟩ := QuadCache.size_insert_le hf.held.cache hi hf.cached
  have hcache : h'.cache = cache := by rw [hh']
  have hdesired : ∀ q, h'.isDesired q = h.isDesired q := fun q => by rw [hh']; rfl
  have hw : Within { h with cache } := ⟨hf.held.recency, hf.resident⟩
  -- the resident quads change in two steps: the evicted quad leaves, and the newcomer may come
  have hcontains := contains_dislodge { h with cache } evicted
  have hlimit := limit_dislodge { h with cache } evicted
  have hfills := fills_settle hw record (h.cache.contains record.id) evicted
  rw [← hsettle] at hfills
  have hstays : ∀ q, h.residents.contains q = true → evicted ≠ some q →
      (dislodge { h with cache } evicted).1.residents.contains q = true := by
    intro q hq hne
    rw [hcontains, decide_eq_true hne, Bool.true_and]
    exact hq
  refine ⟨⟨hheld, ?_, hfills.within.bounded⟩, ⟨?_, hfills.limit.trans hlimit, ?_, ?_⟩, ?_⟩
  · rw [hcache, hcapacity]
    exact hsize
  · rw [hcache]
    exact hcapacity
  · intro q hq hin
    rw [hcache]
    exact QuadCache.contains_insert hf.held.cache hi (.inr ⟨hin, (hdesired q).symm.trans hq⟩)
  · intro q hq hin
    have hne : evicted ≠ some q := by
      rintro rfl
      have hundesired := (undesired_of_evicted hf.held.cache hi).1
      rw [hdesired, hundesired] at hq
      cases hq
    refine hfills.kept q ?_ (hstays q hin hne)
    rw [← hfills.isDesired]
    exact hq
  · intro q hin hgone
    by_cases hne : evicted = some q
    · subst hne
      rw [hcache]
      exact .inl (undesired_of_evicted hf.held.cache hi).2
    · exact .inr (hfills.displaced q (hstays q hin hne) hgone)

/-- **A finished quad leaves as much of the view resident as can be,** if that much was before. -/
theorem receive_saturated (hf : h.Fit) (hsat : h.Saturated)
    (hr : h.receive record now = .ok (h', delta)) : h'.Saturated := by
  have hkeeps := (receive_keeps hf hr).2.1
  obtain ⟨cache, evicted, hi, hs, residents, hh'⟩ := receive_eq_ok hr
  have hsettle : h' = _ := congrArg (·.1) hs
  have hcache : h'.cache = cache := by rw [hh']
  have hdesired : ∀ q, h'.isDesired q = h.isDesired q := fun q => by rw [hh']; rfl
  have hw : Within { h with cache } := ⟨hf.held.recency, hf.resident⟩
  have hcases := settle_cases { h with cache } record (h.cache.contains record.id) evicted
  rw [← hsettle] at hcases
  rcases hsat with hall | hpinned
  · -- only the newcomer may be missing, and it uploads itself
    have hrest : ∀ q, q ≠ record.id → h'.isDesired q = true → h'.cache.contains q = true →
        h'.residents.contains q = true := by
      intro q hne hq hin
      rw [hcache] at hin
      have hold := (QuadCache.contains_of_insert hf.held.cache hi hin).resolve_left hne
      exact hkeeps.resident q hq (hall q ((hdesired q).symm.trans hq) hold)
    rcases hcases with ⟨heq, hthere⟩ | ⟨-, heq⟩
    · refine .inl fun q hq hin => ?_
      by_cases hne : q = record.id
      · subst hne
        rw [heq]
        exact hthere ((hdesired _).symm.trans hq)
      · exact hrest q hne hq hin
    · have hnew : (dislodge { h with cache } evicted).1.cache.contains record.id = true := by
        obtain ⟨r, hd⟩ := exists_dislodge { h with cache } evicted
        rw [hd]
        exact QuadCache.contains_insert hf.held.cache hi (.inl rfl)
      have hup := upload_cases (within_dislodge hw evicted)
        (dislodge { h with cache } evicted).2 hnew
      rw [← heq] at hup
      rcases hup with ⟨-, hthere⟩ | ⟨-, hfull⟩
      · refine .inl fun q hq hin => ?_
        by_cases hne : q = record.id
        · subst hne
          exact hthere
        · exact hrest q hne hq hin
      · exact .inr hfull
  · -- no resident quad was evicted, and there is no room for the newcomer
    have hpinned' : PinnedFull { h with cache } := ⟨hpinned.full, hpinned.desired⟩
    have hnone : (dislodge { h with cache } evicted).1 = { h with cache } := by
      refine hpinned'.dislodge fun victim hv => ?_
      rw [hv] at hi
      exact (undesired_of_evicted hf.held.cache hi).1
    have hsame : h' = { h with cache } := by
      rcases hcases with ⟨heq, -⟩ | ⟨-, heq⟩
      · rw [heq, hnone]
      · rw [heq, hnone]
        exact hpinned'.upload hw _ _
    rw [hsame]
    exact .inr hpinned'

/-! ### Calls in any order -/

/-- **What calls lead to** that start with empty holdings. A refused quad changes nothing. -/
inductive Reached (s : StreamSettings) : Holdings → Prop
  | rest : Reached s (ofSettings s)
  | view {h h' : Holdings} {needed : List TileId} {now : Instant} {inFlight : QuadId → Bool}
    {orders : Orders} (r : Reached s h) (hv : h.view needed now inFlight = .ok (h', orders)) :
    Reached s h'
  | receive {h h' : Holdings} {record : QuadRecord} {now : Instant} {delta : ResidencyDelta}
    (r : Reached s h) (hr : h.receive record now = .ok (h', delta)) : Reached s h'
  | setOnline {h : Holdings} (r : Reached s h) (online : Bool) : Reached s (h.setOnline online).1

variable {s : StreamSettings}

theorem Reached.fit (r : Reached s h) : h.Fit ∧ h.Saturated ∧
    h.cache.capacity = max s.ramQuadLimit 1 ∧ h.residents.limit = max s.gpuQuadLimit 1 := by
  induction r with
  | rest =>
    have hheld : (ofSettings s).Held :=
      ⟨QuadCache.sound_ofCapacity _, Recency.sound_empty, fun q hq => by cases hq⟩
    exact ⟨⟨hheld, Nat.zero_le _, Nat.zero_le _⟩, .inl fun q hq => (by cases hq), rfl, rfl⟩
  | view _ hv ih =>
    obtain ⟨hf, -, hcapacity, hlimit⟩ := ih
    obtain ⟨hf', hkeeps, -, hsat⟩ := view_keeps hf hv
    exact ⟨hf', hsat, hkeeps.capacity.trans hcapacity, hkeeps.limit.trans hlimit⟩
  | receive _ hr ih =>
    obtain ⟨hf, hsat, hcapacity, hlimit⟩ := ih
    obtain ⟨hf', hkeeps, -⟩ := receive_keeps hf hr
    exact ⟨hf', receive_saturated hf hsat hr, hkeeps.capacity.trans hcapacity,
      hkeeps.limit.trans hlimit⟩
  | setOnline _ online ih =>
    obtain ⟨⟨hheld, hcached, hresident⟩, hsat, hroom⟩ := ih
    refine ⟨⟨{ hheld with }, hcached, hresident⟩, ?_, hroom⟩
    exact hsat.imp_right fun hp => ⟨hp.full, hp.desired⟩

/-- **As much of the view is resident as can be** after every view and every finished quad, whether
the cache takes it or refuses it: all desired quads that are cached, or as many quads as there is room
for, all of them desired. A quad that is not desired gives way on the GPU only when there is no more
room, or leaves together with its record. -/
theorem Reached.residency_maximal (r : Reached s h) :
    (∀ needed now inFlight h' orders, h.view needed now inFlight = .ok (h', orders) →
      h'.Saturated ∧ ∀ q, h.residents.contains q = true → h'.residents.contains q = false →
        h'.isDesired q = false ∧ h'.residents.size = h'.residents.limit) ∧
    (∀ record now h' delta, h.receive record now = .ok (h', delta) →
      h'.Saturated ∧ ∀ q, h.residents.contains q = true → h'.residents.contains q = false →
        h'.isDesired q = false ∧
          (h'.cache.contains q = false ∨ h'.residents.size = h'.residents.limit)) ∧
    ∀ record now e, h.receive record now = .error e → h.Saturated := by
  obtain ⟨hf, hsat, -⟩ := r.fit
  have hundesired : ∀ {h' : Holdings}, h.Keeps h' → ∀ q, h.residents.contains q = true →
      h'.residents.contains q = false → h'.isDesired q = false := by
    intro h' hkeeps q hin hgone
    rw [← Bool.not_eq_true]
    intro hdesired
    rw [hkeeps.resident q hdesired hin] at hgone
    cases hgone
  refine ⟨?_, ?_, fun _ _ _ _ => hsat⟩
  · intro needed now inFlight h' orders hv
    obtain ⟨-, hkeeps, hdisplaces, hsat'⟩ := view_keeps hf hv
    refine ⟨hsat', fun q hin hgone => ⟨hundesired hkeeps q hin hgone, ?_⟩⟩
    rcases hdisplaces q hin hgone with hout | hfull
    · -- a view evicts nothing
      have hcached := view_cached hv q
      rw [hout, hf.held.cached q hin] at hcached
      cases hcached
    · exact hfull
  · intro record now h' delta hr
    obtain ⟨-, hkeeps, hdisplaces⟩ := receive_keeps hf hr
    exact ⟨receive_saturated hf hsat hr, fun q hin hgone =>
      ⟨hundesired hkeeps q hin hgone, hdisplaces q hin hgone⟩⟩

/-! ### More in view than there is room for -/

/-- Room for two quads in the cache and for one on the GPU. -/
def tight : StreamSettings := { StreamSettings.standard with ramQuadLimit := 2, gpuQuadLimit := 1 }

/-- Two finished quads, before any view. -/
def stocked : Holdings :=
  { ofSettings tight with
    cache := ((QuadCache.ofCapacity 2).store ⟨⟨1, 0, 0⟩, []⟩ 0 ⟨0⟩).store ⟨⟨1, 1, 0⟩, []⟩ 0 ⟨3⟩ }

theorem reached_stocked : Reached tight stocked := by
  let one : Holdings :=
    { ofSettings tight with cache := (QuadCache.ofCapacity 2).store ⟨⟨1, 0, 0⟩, []⟩ 0 ⟨0⟩ }
  have hfirst : (ofSettings tight).receive ⟨⟨1, 0, 0⟩, []⟩ ⟨0⟩ = .ok (one, .empty) := rfl
  have hsecond : one.receive ⟨⟨1, 1, 0⟩, []⟩ ⟨3⟩ = .ok (stocked, .empty) := rfl
  exact .receive (.receive .rest hfirst) hsecond

theorem Reached.residency_maximal_stocked : ∃ h' orders,
    stocked.view [⟨2, 0, 0⟩, ⟨2, 2, 1⟩] ⟨5⟩ (fun _ => false) = .ok (h', orders) ∧
      h'.desired = [⟨1, 0, 0⟩, ⟨1, 1, 0⟩] ∧ h'.residents.limit = 1 ∧ h'.Saturated := by
  have hsome : ∃ r, stocked.view [⟨2, 0, 0⟩, ⟨2, 2, 1⟩] ⟨5⟩ (fun _ => false) = .ok r :=
    exists_view_iff.mpr (by decide)
  obtain ⟨⟨h', orders⟩, hv⟩ := hsome
  have hdesired : h'.desired = parents [⟨2, 0, 0⟩, ⟨2, 2, 1⟩] := by
    obtain ⟨-, ⟨residents, rfl⟩, -⟩ := view_eq_ok hv
    rfl
  have hlimit := (view_keeps reached_stocked.fit.1 hv).2.1.limit
  refine ⟨h', orders, hv, hdesired.trans (by decide), hlimit, ?_⟩
  exact (reached_stocked.residency_maximal.1 _ _ _ _ _ hv).1

end Holdings

end TileStream
