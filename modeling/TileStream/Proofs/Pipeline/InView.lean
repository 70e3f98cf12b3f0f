import TileStream.Proofs.Holdings.Saturation
import TileStream.Proofs.Pipeline.Demand
import TileStream.Proofs.Pipeline.Mirror

/-! # No call takes away what is in view

The desired quads change at most once in a call, at its beginning, when a camera is looked at. From
then on every finished quad of the call keeps what these desire (`keeps_step`). So a quad that is in
view after a call and was cached or resident before it is so still, and a quad that the delta of the
call removes without adding it again is not in view (`Run.view_kept`). -/

namespace TileStream

namespace Pipeline

variable {τ κ : Type} {p : Pipeline τ κ} {t : Turn τ κ} {tasks : List Task}

open Holdings

theorem Looks.keeps {camera : κ} {now : Instant} (hf : p.holdings.Fit)
    (hl : p.Looks camera now t tasks) :
    t.pipeline.holdings.Fit ∧ p.holdings.Keeps t.pipeline.holdings := by
  obtain ⟨_, _, _, -, hv, rfl, -⟩ := hl
  obtain ⟨hf', hkeeps, -⟩ := view_keeps hf hv
  exact ⟨hf', hkeeps⟩

/-- Being online or not has no part in what is held. -/
theorem fit_online (hf : p.holdings.Fit) (online : Bool) :
    Fit { p.holdings with online } := by
  obtain ⟨hheld, hcached, hresident⟩ := hf
  exact ⟨{ hheld with }, hcached, hresident⟩

theorem keeps_open {c : Call κ} (hf : p.holdings.Fit) (ho : p.Opens c t tasks) :
    t.pipeline.holdings.Fit ∧ p.holdings.Keeps t.pipeline.holdings := by
  cases ho with
  | look hl => exact hl.keeps hf
  | answer | poll => exact ⟨hf, .refl _⟩
  | @heed online =>
    refine ⟨fit_online hf online, ?_⟩
    exact { Keeps.refl p.holdings with }
  | resume _ _ hl =>
    obtain ⟨hf', hkeeps⟩ := Looks.keeps (fit_online hf true) hl
    exact ⟨hf', { hkeeps with }⟩

variable [TokenArithmetic τ]

/-- **Every finished quad of a call keeps what is in view.** -/
theorem keeps_step {h : Holdings} {now : Instant} {w w' : Turn τ κ × List Task}
    (hi : w.1.pipeline.holdings.Fit ∧ h.Keeps w.1.pipeline.holdings) (hs : Turn.Step now w w') :
    w'.1.pipeline.holdings.Fit ∧ h.Keeps w'.1.pipeline.holdings := by
  cases hs with
  | poll | start | startEmpty | startAgain | call | callEmpty | callAgain | pass | passLast
  | refuse => exact hi
  | submit => rwa [Turn.pipeline_submit]
  | finish => rwa [Turn.pipeline_released]
  | @offer t _ _ _ _ hr =>
    obtain ⟨hf, hkeeps⟩ := hi
    obtain ⟨hf', hkeeps', -⟩ := receive_keeps hf hr
    obtain ⟨cache, _, _, _, residents, hh⟩ := receive_eq_ok hr
    refine ⟨hf', hkeeps.trans hkeeps' fun q => ?_⟩
    rw [hh]
    rfl

theorem keeps_call {c : Call κ} (hf : p.holdings.Fit) (hc : p.call c = .ok t) :
    t.pipeline.holdings.Fit ∧ p.holdings.Keeps t.pipeline.holdings := by
  obtain ⟨t₀, tasks, ho, hs⟩ := steps_call hc
  refine Turn.Steps.keeps
    (I := fun w => w.1.pipeline.holdings.Fit ∧ p.holdings.Keeps w.1.pipeline.holdings) ?_ hs
    (keeps_open hf ho)
  intro w w' hi hstep
  exact keeps_step hi hstep

/-- A quad that a call removes and does not add again was resident before it and is not after it. -/
theorem resident_of_removed {c : Call κ} (hf : p.holdings.Fit) (hc : p.call c = .ok t)
    {quad : QuadId} (hin : quad ∈ t.effects.delta.removed)
    (hout : quad ∉ t.effects.delta.addedIds) :
    p.holdings.residents.contains quad = true ∧
      t.pipeline.holdings.residents.contains quad = false := by
  have htells := tells_call hf.held hc
  have hshown := htells.fits.removed_shown quad hin
  rw [Ne, shown_eq_none hf.held, Bool.not_eq_false] at hshown
  have hgone : t.pipeline.holdings.shown quad = none := by
    rw [← htells.onto, ResidencyDelta.onto, ResidencyDelta.record?_eq_none.mpr hout, if_pos hin]
    rfl
  exact ⟨hshown, (shown_eq_none htells.held).mp hgone⟩

variable {s : StreamSettings} {culling : Culling κ} {coverage : Coverage} {start : Pipeline τ κ}
  {past : List (Call κ × Turn τ κ)}

theorem Run.fit (hs : ofSettings s culling coverage = .ok start) (h : start.Run past p) :
    p.holdings.Fit ∧ p.holdings.cache.capacity = max s.ramQuadLimit 1 ∧
      p.holdings.residents.limit = max s.gpuQuadLimit 1 := by
  induction h with
  | rest =>
    obtain ⟨-, rfl⟩ := eq_of_ofSettings hs
    obtain ⟨hf, -, hroom⟩ := (Reached.rest (s := s)).fit
    exact ⟨hf, hroom⟩
  | call _ hc ih =>
    obtain ⟨hf, hcapacity, hlimit⟩ := ih
    obtain ⟨hf', hkeeps⟩ := keeps_call hf hc
    exact ⟨hf', hkeeps.capacity.trans hcapacity, hkeeps.limit.trans hlimit⟩

/-- **No call takes away what is in view.** After every run both stores keep to their limits and what
is resident is cached. Whatever call comes next, a quad that is desired after it is cached if it was,
is resident if it was, and is added again if it is removed. -/
theorem Run.view_kept (hs : ofSettings s culling coverage = .ok start) (h : start.Run past p) :
    p.holdings.cache.size ≤ s.ramQuadLimit ∧ p.holdings.residents.size ≤ s.gpuQuadLimit ∧
    (∀ q, p.holdings.residents.contains q = true → p.holdings.cache.contains q = true) ∧
    ∀ c t, p.call c = .ok t → ∀ q ∈ t.pipeline.holdings.desired,
      (p.holdings.cache.contains q = true → t.pipeline.holdings.cache.contains q = true) ∧
      (p.holdings.residents.contains q = true →
        t.pipeline.holdings.residents.contains q = true) ∧
      (q ∈ t.effects.delta.removed → q ∈ t.effects.delta.addedIds) := by
  obtain ⟨hf, hcapacity, hlimit⟩ := h.fit hs
  obtain ⟨hram, hgpu, -⟩ := StreamSettings.pos_of_validate (eq_of_ofSettings hs).1
  have hcached := hf.cached
  have hresident := hf.resident
  refine ⟨by omega, by omega, hf.held.cached, fun c t hc q hq => ?_⟩
  have hkeeps := (keeps_call hf hc).2
  have hdesired : t.pipeline.holdings.isDesired q = true := isDesired_iff.mpr hq
  refine ⟨hkeeps.cached q hdesired, hkeeps.resident q hdesired, fun hin => ?_⟩
  by_contra hout
  obtain ⟨hbefore, hafter⟩ := resident_of_removed hf hc hin hout
  rw [hkeeps.resident q hdesired hbefore] at hafter
  cases hafter

/-- Of two quads that are held one stays in view and the other does not. The one in view is kept, and the
other makes room. -/
theorem Run.view_kept_eviction : ∃ past p t, roomy.Run past p ∧ past.map (·.1) = rootAndQuarter ∧
    p.call rootAway = .ok t ∧ p.holdings.residents.ids = [⟨1, 0, 0⟩, ⟨0, 0, 0⟩] ∧
    p.holdings.cache.size ≤ 2 ∧ p.holdings.residents.size ≤ 2 ∧
    (∀ q ∈ p.holdings.residents.ids, p.holdings.cache.contains q = true) ∧
    t.effects.delta.removed = [⟨0, 0, 0⟩] ∧ ⟨0, 0, 0⟩ ∉ t.pipeline.holdings.desired ∧
    ⟨1, 0, 0⟩ ∈ t.pipeline.holdings.desired ∧
    t.pipeline.holdings.cache.contains ⟨1, 0, 0⟩ = true ∧
    t.pipeline.holdings.residents.contains ⟨1, 0, 0⟩ = true := by
  obtain ⟨past, p, t, hrun, hcalls, hc, -, hids, hremoved, hadds, hdesired, -⟩ := exists_rootAway
  obtain ⟨hram, hgpu, hcached, hkept⟩ := Run.view_kept ofSettings_roomy hrun
  have hresident : ∀ q ∈ p.holdings.residents.ids, p.holdings.residents.contains q = true :=
    fun q hq => (Table.mem_keys _).mp hq
  have hheld : p.holdings.residents.contains ⟨1, 0, 0⟩ = true :=
    hresident _ (by rw [hids]; exact List.mem_cons_self)
  have hseen : ⟨1, 0, 0⟩ ∈ t.pipeline.holdings.desired := by
    rw [hdesired]
    exact List.mem_cons_self
  obtain ⟨hcache, hstays, -⟩ := hkept _ t hc _ hseen
  refine ⟨past, p, t, hrun, hcalls, hc, hids, hram, hgpu, fun q hq => hcached q (hresident q hq),
    hremoved, fun hin => ?_, hseen, hcache (hcached _ hheld), hstays hheld⟩
  have hagain := (hkept _ t hc _ hin).2.2 (by rw [hremoved]; exact List.mem_singleton_self _)
  rw [hadds] at hagain
  exact absurd hagain (by decide)

end Pipeline

end TileStream
