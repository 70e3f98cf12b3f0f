import TileStream.Proofs.Cache.Quads
import TileStream.Proofs.Pipeline.Consistency

/-! # No demanded quad is forgotten

While the network is there, a desired quad is cached, or the slots know it, or a task of the call
will bring it there, or else the cache is full of desired quads and nothing new is loaded
(`Pipeline.Followed`). A view establishes this anew for the quads that it desires, whatever was
dropped or skipped before. From then on a quad leaves the slots only to be offered to the cache, the
cache refuses it only when it is full of desired quads, gives up none of these, and stays full of them
until the next view. -/

namespace TileStream

/-- The quad that a task brings to the slots or to the cache. -/
def Task.brings? : Task → Option QuadId
  | submit quad => some quad
  | offer record => some record.id
  | _ => none

namespace Holdings

variable {h : Holdings}

theorem isDesired_iff {quad : QuadId} : h.isDesired quad = true ↔ quad ∈ h.desired :=
  List.contains_iff_mem

end Holdings

namespace Pipeline

variable {τ κ : Type} {p : Pipeline τ κ} {tasks : List Task} {quad : QuadId}

/-- **The quad is not forgotten.** -/
def Followed (p : Pipeline τ κ) (tasks : List Task) (quad : QuadId) : Prop :=
  p.holdings.cache.contains quad = true ∨ p.slots.contains quad = true ∨
    quad ∈ tasks.filterMap Task.brings? ∨
      p.holdings.cache.isPinnedFull p.holdings.isDesired = true

/-- **Every desired quad is followed** while the network is there. Nothing is desired before the
first look. -/
structure Demands (p : Pipeline τ κ) (tasks : List Task) : Prop where
  cache : p.holdings.cache.Sound
  blind : p.camera = none → p.holdings.desired = []
  followed : p.holdings.online = true → ∀ q ∈ p.holdings.desired, p.Followed tasks q

/-! ### A new view -/

/-- What a view does not ask for is cached or known, or the cache is full of desired quads. -/
theorem Looks.demands {camera : κ} {now : Instant} {t : Turn τ κ} (ha : p.Agrees [])
    (hc : p.holdings.cache.Sound) (hl : p.Looks camera now t tasks) :
    t.pipeline.Demands tasks := by
  obtain ⟨needed, holdings, orders, -, hv, rfl, rfl⟩ := hl
  obtain ⟨-, ⟨residents, hh⟩, hreq⟩ := Holdings.view_eq_ok hv
  have hsound : holdings.cache.Sound := by
    rw [hh]
    exact QuadCache.sound_foldl_touch hc _ _
  refine ⟨hsound, fun h => (by cases h), fun hon q hq => ?_⟩
  have hdesired : holdings.isDesired q = true := Holdings.isDesired_iff.mpr hq
  -- a desired quad is not pruned, so one that was known is known still
  by_cases hk : p.slots.contains q = true
  · exact .inr (.inl (by rw [← hk]; exact Slots.contains_retainQueued ha.slots hdesired))
  · by_cases hw : holdings.isWanted (holdings.cache.isPinnedFull holdings.isDesired) now q = true
    · have hmem : q ∈ orders.requests := by
        rw [hreq, Holdings.mem_requests]
        exact ⟨hon, hq, Bool.eq_false_iff.mpr hk, hw⟩
      exact .inr (.inr (.inl (List.mem_filterMap.mpr
        ⟨.submit q, List.mem_map.mpr ⟨q, hmem, rfl⟩, rfl⟩)))
    · unfold Holdings.isWanted at hw
      cases hget : holdings.cache.get? q with
      | none =>
        rw [hget] at hw
        exact .inr (.inr (.inr (Bool.not_not_eq.mp hw)))
      | some record => exact .inl (QuadCache.contains_iff.mpr ⟨record, hget⟩)

/-- A quad is still followed when no quad leaves the slots and no task that brings one is lost. -/
theorem Followed.mono {p' : Pipeline τ κ} {tasks' : List Task} (h : p.Followed tasks quad)
    (hh : p'.holdings = p.holdings)
    (hs : p.slots.contains quad = true → p'.slots.contains quad = true)
    (ht : tasks.filterMap Task.brings? ⊆ tasks'.filterMap Task.brings?) :
    p'.Followed tasks' quad := by
  unfold Followed at *
  rw [hh]
  exact h.imp_right (Or.imp hs (Or.imp_left fun hq => ht hq))

theorem Demands.mono {p' : Pipeline τ κ} {tasks' : List Task} (h : p.Demands tasks)
    (hh : p'.holdings = p.holdings) (hcam : p'.camera = p.camera)
    (hs : ∀ q, p.slots.contains q = true → p'.slots.contains q = true)
    (ht : tasks.filterMap Task.brings? ⊆ tasks'.filterMap Task.brings?) : p'.Demands tasks' := by
  refine ⟨by rw [hh]; exact h.cache, by rw [hh, hcam]; exact h.blind, ?_⟩
  rw [hh]
  exact fun hon q hq => (h.followed hon q hq).mono hh (hs q) ht

/-! ### How calls begin -/

theorem demands_open {c : Call κ} {t : Turn τ κ} (ha : p.Agrees []) (h : p.Demands [])
    (ho : p.Opens c t tasks) : t.pipeline.Demands tasks := by
  cases ho with
  | look hl => exact hl.demands ha h.cache
  | answer hd => exact h.mono rfl rfl (fun _ hq => hq) (List.nil_subset _)
  | poll => exact h
  | heed hheed =>
    refine ⟨h.cache, h.blind, fun hon q hq => ?_⟩
    rcases hheed hon with hwas | hcam
    · exact h.followed hwas q hq
    · have hnone := h.blind hcam
      have hq' : q ∈ p.holdings.desired := hq
      rw [hnone] at hq'
      cases hq'
  | resume _ _ hl =>
    have ha' : Agrees { p with holdings.online := true } [] := { ha with }
    exact hl.demands ha' h.cache

/-! ### Steps -/

/-- A quad that asks for a slot is known from then on. -/
theorem Demands.submit {t : Turn τ κ} (h : t.pipeline.Demands (.submit quad :: tasks)) :
    (t.submit quad).pipeline.Demands tasks := by
  rw [Turn.pipeline_submit]
  refine ⟨h.cache, h.blind, fun hon q hq => ?_⟩
  have hmono : ∀ q, t.pipeline.slots.contains q = true →
      (t.pipeline.slots.request quad).1.contains q = true := fun q hq => by
    rw [Slots.contains_request, hq, Bool.or_true]
  rcases h.followed hon q hq with hc | hk | hb | hp
  · exact .inl hc
  · exact .inr (.inl (hmono q hk))
  · rcases List.mem_cons.mp (show q ∈ quad :: tasks.filterMap Task.brings? from hb) with rfl | hb
    · exact .inr (.inl (by
        show (t.pipeline.slots.request q).1.contains q = true
        rw [Slots.contains_request]
        simp))
    · exact .inr (.inr (.inl hb))
  · exact .inr (.inr (.inr hp))

/-- A quad that leaves the slots is offered to the cache. -/
theorem Demands.finish {t : Turn τ κ} {record : QuadRecord} {slots : Slots} {next : Option QuadId}
    (h : t.pipeline.Demands (.finish record :: tasks)) (hs : t.pipeline.slots.Sound)
    (hr : t.pipeline.slots.release record.id = .ok (slots, next)) :
    (t.released record slots next).pipeline.Demands (.offer record :: tasks) := by
  rw [Turn.pipeline_released]
  refine ⟨h.cache, h.blind, fun hon q hq => ?_⟩
  by_cases he : q = record.id
  · subst he
    exact .inr (.inr (.inl List.mem_cons_self))
  · refine (h.followed hon q hq).mono rfl (fun hk => ?_) (List.subset_cons_self _ _)
    exact (Slots.contains_release hs hr he).trans hk

/-- An accepted quad is cached, and no desired quad gives way for it. -/
theorem Demands.offer {record : QuadRecord} {now : Instant} {holdings : Holdings}
    {delta : ResidencyDelta} (h : p.Demands (.offer record :: tasks))
    (hr : p.holdings.receive record now = .ok (holdings, delta)) :
    Demands { p with holdings } tasks := by
  obtain ⟨cache, evicted, hi, -, residents, rfl⟩ := Holdings.receive_eq_ok hr
  refine ⟨QuadCache.sound_insert h.cache hi, h.blind, fun hon q hq => ?_⟩
  have hdesired : p.holdings.isDesired q = true := Holdings.isDesired_iff.mpr hq
  rcases h.followed hon q hq with hc | hk | hb | hp
  · exact .inl (QuadCache.contains_insert h.cache hi (.inr ⟨hc, hdesired⟩))
  · exact .inr (.inl hk)
  · rcases List.mem_cons.mp (show q ∈ record.id :: tasks.filterMap Task.brings? from hb) with he | hb
    · exact .inl (QuadCache.contains_insert h.cache hi (.inl he))
    · exact .inr (.inr (.inl hb))
  · exact .inr (.inr (.inr (QuadCache.isPinnedFull_insert h.cache hi hp)))

/-- A quad is refused only by a cache that is full of desired quads. -/
theorem Demands.refuse {record : QuadRecord} {now : Instant} {e : CacheFull}
    (h : p.Demands (.offer record :: tasks)) (hr : p.holdings.receive record now = .error e) :
    p.Demands tasks :=
  ⟨h.cache, h.blind, fun _ _ _ => .inr (.inr (.inr
    (QuadCache.insert_eq_error h.cache (Holdings.receive_eq_error hr)).2))⟩

variable [TokenArithmetic τ]

/-- A step changes what is cached and resident, and nothing else of the holdings. -/
theorem holdings_step {now : Instant} {w w' : Turn τ κ × List Task} (hs : Turn.Step now w w') :
    (∃ cache residents,
      w'.1.pipeline.holdings = { w.1.pipeline.holdings with cache, residents }) ∧
    w'.1.pipeline.camera = w.1.pipeline.camera := by
  cases hs with
  | poll | start | startEmpty | startAgain | call | callEmpty | callAgain | pass | passLast
  | refuse => exact ⟨⟨_, _, rfl⟩, rfl⟩
  | submit => rw [Turn.pipeline_submit]; exact ⟨⟨_, _, rfl⟩, rfl⟩
  | finish => rw [Turn.pipeline_released]; exact ⟨⟨_, _, rfl⟩, rfl⟩
  | offer hr =>
    obtain ⟨cache, _, _, _, residents, hh⟩ := Holdings.receive_eq_ok hr
    exact ⟨⟨cache, residents, hh⟩, rfl⟩

theorem holdings_steps {now : Instant} {w w' : Turn τ κ × List Task} (hs : Turn.Steps now w w') :
    ∃ cache residents,
      w'.1.pipeline.holdings = { w.1.pipeline.holdings with cache, residents } := by
  induction hs with
  | refl => exact ⟨_, _, rfl⟩
  | tail _ hstep ih =>
    obtain ⟨_, _, hh⟩ := ih
    obtain ⟨⟨cache, residents, hh'⟩, -⟩ := holdings_step hstep
    exact ⟨cache, residents, by rw [hh', hh]⟩

theorem desired_steps {now : Instant} {w w' : Turn τ κ × List Task} (hs : Turn.Steps now w w') :
    w'.1.pipeline.holdings.desired = w.1.pipeline.holdings.desired := by
  obtain ⟨cache, residents, hh⟩ := holdings_steps hs
  rw [hh]

/-- **A look demands the parents of the tiles that the camera needs.** -/
theorem desired_of_look {camera : κ} {now : Instant} {needed : List TileId} {t : Turn τ κ}
    (hc : p.call (.updateCamera camera now) = .ok t) (hn : p.culling camera = .ok needed) :
    t.pipeline.holdings.desired = Holdings.parents needed ∧
      t.pipeline.holdings.online = p.holdings.online := by
  obtain ⟨t₀, tasks, ho, hs⟩ := steps_call hc
  obtain ⟨cache, residents, hlast⟩ := holdings_steps hs
  rw [hlast]
  cases ho with
  | look hl =>
    obtain ⟨needed', holdings, orders, hn', hv, rfl, -⟩ := hl
    rw [hn, Except.ok.injEq] at hn'
    obtain ⟨-, ⟨residents, hh⟩, -⟩ := Holdings.view_eq_ok hv
    subst hn' hh
    exact ⟨rfl, rfl⟩

/-- **Every step follows the desired quads.** -/
theorem demands_step {now : Instant} {w w' : Turn τ κ × List Task} (ha : w.1.pipeline.Agrees w.2)
    (h : w.1.pipeline.Demands w.2) (hs : Turn.Step now w w') : w'.1.pipeline.Demands w'.2 := by
  cases hs with
  | poll => exact h.mono rfl rfl (fun _ hq => hq) (List.nil_subset _)
  | call | callAgain | callEmpty | pass | passLast =>
    exact h.mono rfl rfl (fun _ hq => hq) (List.Subset.refl _)
  | startEmpty | startAgain =>
    exact h.mono rfl rfl (fun q hq => (Slots.contains_mark _ _ _ _).trans hq) (List.Subset.refl _)
  | start =>
    refine h.mono rfl rfl (fun q hq => (Slots.contains_mark _ _ _ _).trans hq) ?_
    rw [List.filterMap_append]
    exact List.subset_append_right _ _
  | submit => exact h.submit
  | finish hr => exact h.finish ha.slots hr
  | offer hr => exact h.offer hr
  | refuse hr => exact h.refuse hr

/-! ### Runs -/

variable {s : StreamSettings} {culling : Culling κ} {coverage : Coverage} {start : Pipeline τ κ}
  {past : List (Call κ × Turn τ κ)}

theorem Run.demands (hs : ofSettings s culling coverage = .ok start) (h : start.Run past p) :
    p.Demands [] := by
  refine (h.keeps (I := fun p tasks => p.Agrees tasks ∧ p.Demands tasks) ?_ ?_ ?_).2
  · refine ⟨agrees_ofSettings hs, ?_⟩
    obtain ⟨-, rfl⟩ := eq_of_ofSettings hs
    exact ⟨QuadCache.sound_ofCapacity _, fun _ => rfl, fun _ q hq => by cases hq⟩
  · exact fun hi ho => ⟨agrees_open hi.1 ho, demands_open hi.1 hi.2 ho⟩
  · exact fun hi hstep => ⟨agrees_step hi.1 hstep, demands_step hi.1 hi.2 hstep⟩

/-- **No demanded quad is forgotten.** After every run that leaves the network there, a desired quad is
cached or known to the slots, or else the cache is full and every quad in it is desired. -/
theorem Run.demand_kept (hs : ofSettings s culling coverage = .ok start) (h : start.Run past p)
    (hon : p.holdings.online = true) (quad : QuadId) (hq : quad ∈ p.holdings.desired) :
    p.holdings.cache.contains quad = true ∨ p.slots.contains quad = true ∨
      (p.holdings.cache.isFull = true ∧
        ∀ q, p.holdings.cache.contains q = true → q ∈ p.holdings.desired) := by
  have hd := h.demands hs
  rcases hd.followed hon quad hq with hc | hk | hb | hp
  · exact .inl hc
  · exact .inr (.inl hk)
  · cases hb
  · obtain ⟨hfull, hall⟩ := (QuadCache.isPinnedFull_iff hd.cache).mp hp
    exact .inr (.inr ⟨hfull, fun q hc => Holdings.isDesired_iff.mp (hall q hc)⟩)

theorem Run.demand_kept_look : ∃ t, sample.call (.updateCamera [⟨1, 0, 0⟩] ⟨0⟩) = .ok t ∧
    t.pipeline.holdings.desired = [⟨0, 0, 0⟩] ∧ t.pipeline.holdings.online = true ∧
    (t.pipeline.holdings.cache.contains ⟨0, 0, 0⟩ = true ∨
      t.pipeline.slots.contains ⟨0, 0, 0⟩ = true ∨
      (t.pipeline.holdings.cache.isFull = true ∧
        ∀ q, t.pipeline.holdings.cache.contains q = true → q = ⟨0, 0, 0⟩)) := by
  obtain ⟨t, ht⟩ := call_ok (c := .updateCamera [⟨1, 0, 0⟩] ⟨0⟩) (agrees_ofSettings ofSettings_sample)
    (.look ⟨_, _, _, rfl, rfl, rfl, rfl⟩)
  obtain ⟨hd, hon⟩ := desired_of_look ht rfl
  have hroot : Holdings.parents [⟨1, 0, 0⟩] = [⟨0, 0, 0⟩] := by decide
  rw [hroot] at hd
  have hkept := Run.demand_kept ofSettings_sample (.call .rest ht) hon ⟨0, 0, 0⟩ (by rw [hd]; simp)
  simp only [hd, List.mem_singleton] at hkept
  exact ⟨t, ht, hd, hon, hkept⟩

end Pipeline

end TileStream
