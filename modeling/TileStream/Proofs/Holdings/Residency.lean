import TileStream.Proofs.Cache.Quads
import TileStream.Proofs.Gpu.Delta
import TileStream.Proofs.Holdings.Changes

/-! # The deltas tell what is resident

What a renderer should show are the cached records of the resident quads (`Holdings.shown`). A delta
tells of holdings when it fits what is shown and comes to what they show (`Holdings.Tells`). A view
and a finished quad make several changes, each of which goes into the delta at once, so their deltas
tell of the holdings that they leave (`tells_view`, `tells_receive`). -/

namespace TileStream

namespace Residents

variable (g : Residents) (quad q : QuadId) (stamp : Nat)

theorem contains_insert : (g.insert quad stamp).contains q = (decide (q = quad) || g.contains q) :=
  Recency.contains_touch _ _ _ _

theorem contains_erase : (g.erase quad).contains q = (decide (q ≠ quad) && g.contains q) :=
  Recency.contains_erase _ _ _

theorem contains_touch : (g.touch quad stamp).contains q = g.contains q := by
  unfold touch
  split
  · next hin =>
    rw [contains_insert]
    by_cases he : q = quad
    · subst he; simpa using hin.symm
    · simp [he]
  · rfl

variable {g}

theorem sound_touch (hg : g.recency.Sound) : (g.touch quad stamp).recency.Sound := by
  unfold touch
  split
  · exact Recency.sound_touch hg _ _
  · exact hg

theorem foldl_touch (hg : g.recency.Sound) (quads : List QuadId) :
    (quads.foldl (fun g quad => g.touch quad stamp) g).recency.Sound ∧
      ∀ q, (quads.foldl (fun g quad => g.touch quad stamp) g).contains q = g.contains q := by
  induction quads generalizing g with
  | nil => exact ⟨hg, fun _ => rfl⟩
  | cons quad rest ih =>
    obtain ⟨hs, hc⟩ := ih (sound_touch quad stamp hg)
    exact ⟨hs, fun q => (hc q).trans (contains_touch g quad q stamp)⟩

theorem size_foldl_touch (g : Residents) (quads : List QuadId) :
    (quads.foldl (fun g quad => g.touch quad stamp) g).size = g.size ∧
      (quads.foldl (fun g quad => g.touch quad stamp) g).limit = g.limit := by
  induction quads generalizing g with
  | nil => exact ⟨rfl, rfl⟩
  | cons quad rest ih =>
    have htouch : (g.touch quad stamp).size = g.size ∧ (g.touch quad stamp).limit = g.limit := by
      unfold touch
      split
      · next hin =>
        refine ⟨?_, rfl⟩
        have hsize := Recency.size_touch g.recency quad stamp
        rw [show g.recency.contains quad = true from hin, if_pos rfl] at hsize
        exact hsize
      · exact ⟨rfl, rfl⟩
    obtain ⟨hsize, hlimit⟩ := ih (g.touch quad stamp)
    exact ⟨hsize.trans htouch.1, hlimit.trans htouch.2⟩

end Residents

namespace Holdings

variable {h h' : Holdings} {u : Shown} {delta : ResidencyDelta} {record : QuadRecord}
  {quad : QuadId} {now : Instant}

/-- The cached records of the resident quads. -/
def shown (h : Holdings) : Shown := fun q =>
  if h.residents.contains q then h.cache.get? q else none

/-- Both accounts are sound, and what is resident is cached. -/
structure Held (h : Holdings) : Prop where
  cache : h.cache.Sound
  recency : h.residents.recency.Sound
  cached : ∀ q, h.residents.contains q = true → h.cache.contains q = true

/-- **The delta leads from what is shown to what the holdings show.** -/
structure Tells (u : Shown) (delta : ResidencyDelta) (h : Holdings) : Prop where
  held : h.Held
  fits : delta.Fits u
  onto : delta.onto u = h.shown

theorem shown_eq_none (hh : h.Held) : h.shown quad = none ↔ h.residents.contains quad = false := by
  unfold shown
  by_cases hr : h.residents.contains quad = true
  · obtain ⟨r, hget⟩ := QuadCache.contains_iff.mp (hh.cached quad hr)
    simp [hr, hget]
  · simp [hr]

/-- What a delta adds is cached. -/
theorem Tells.cached_of_added (ht : Tells u delta h) (hr : record ∈ delta.added) :
    h.cache.get? record.id = some record := by
  have honto : h.shown record.id = some record := by
    rw [← ht.onto, ResidencyDelta.onto, ResidencyDelta.record?_of_mem ht.fits.added_nodup hr]
    rfl
  unfold shown at honto
  split at honto
  · exact honto
  · cases honto

theorem tells_empty (hh : h.Held) : Tells h.shown .empty h :=
  ⟨hh, ResidencyDelta.fits_empty _, ResidencyDelta.onto_empty _⟩

/-- What is cached may change where nothing is resident. -/
theorem tells_cache (ht : Tells u delta h) {cache : QuadCache} (hc : cache.Sound)
    (hsame : ∀ q, h.residents.contains q = true → cache.get? q = h.cache.get? q) :
    Tells u delta { h with cache } := by
  refine ⟨⟨hc, ht.held.recency, fun q hq => ?_⟩, ht.fits, ht.onto.trans ?_⟩
  · rw [QuadCache.contains_iff, hsame q hq, ← QuadCache.contains_iff]
    exact ht.held.cached q hq
  · funext q
    unfold shown
    split
    · next hq => exact (hsame q hq).symm
    · rfl

/-! ### One quad -/

/-- A resident quad leaves. -/
theorem tells_remove (ht : Tells u delta h) (hq : h.residents.contains quad = true) :
    Tells u (delta.remove quad) { h with residents := h.residents.erase quad } := by
  have hshown : delta.onto u quad ≠ none := by
    rw [ht.onto, Ne, shown_eq_none ht.held, hq]
    simp
  obtain ⟨hfits, honto⟩ := ResidencyDelta.fits_remove ht.fits hshown
  refine ⟨⟨ht.held.cache, Recency.sound_erase ht.held.recency _, fun q hin => ?_⟩, hfits, ?_⟩
  · rw [Residents.contains_erase, Bool.and_eq_true] at hin
    exact ht.held.cached q hin.2
  · funext q
    rw [honto, ht.onto, Function.update_apply]
    unfold shown
    rw [Residents.contains_erase]
    by_cases he : q = quad <;> simp [he]

/-- A cached quad becomes resident. -/
theorem tells_add (ht : Tells u delta h) (hget : h.cache.get? quad = some record)
    (hq : h.residents.contains quad = false) (stamp : Nat) :
    Tells u (delta.add record) { h with residents := h.residents.insert quad stamp } := by
  obtain rfl := ht.held.cache.keyed quad record hget
  have hshown : delta.onto u record.id = none := by rwa [ht.onto, shown_eq_none ht.held]
  obtain ⟨hfits, honto⟩ := ResidencyDelta.fits_add ht.fits hshown
  refine ⟨⟨ht.held.cache, Recency.sound_touch ht.held.recency _ _, fun q hin => ?_⟩, hfits, ?_⟩
  · rw [Residents.contains_insert, Bool.or_eq_true, decide_eq_true_eq] at hin
    rcases hin with rfl | hin
    · exact QuadCache.contains_iff.mpr ⟨record, hget⟩
    · exact ht.held.cached q hin
  · funext q
    rw [honto, ht.onto, Function.update_apply]
    unfold shown
    rw [Residents.contains_insert]
    by_cases he : q = record.id
    · subst he; simp [hget]
    · simp [he]

/-- **An upload goes into the delta,** with the quad that made room for it. -/
theorem tells_upload (ht : Tells u delta h) (quad : QuadId) :
    Tells u (h.upload delta quad).2.1 (h.upload delta quad).1 := by
  unfold upload
  split
  · exact ht
  · next record hget =>
    split
    · exact ht
    · next hout =>
      rw [Bool.not_eq_true] at hout
      split
      · split
        · exact ht
        · next victim hv =>
          have hin := (Recency.oldestUnpinned_eq_some ht.held.recency hv).1
          refine tells_add (tells_remove ht hin) hget ?_ _
          rw [Residents.contains_erase, hout, Bool.and_false]
      · exact tells_add ht hget hout _

theorem tells_uploadAll (ht : Tells u delta h) (quads : List QuadId) :
    Tells u (h.uploadAll delta quads).2 (h.uploadAll delta quads).1 := by
  induction quads generalizing h delta with
  | nil => exact ht
  | cons quad rest ih =>
    have hup := tells_upload ht quad
    unfold uploadAll
    split
    · next heq =>
      rw [heq] at hup
      exact ih hup
    · next heq =>
      rw [heq] at hup
      exact hup

/-! ### A new view -/

/-- A new view changes when quads were seen, and nothing that is shown. -/
theorem held_desire (hh : h.Held) (desired : List QuadId) (epoch : Nat) :
    (h.desire desired epoch).Held ∧ (h.desire desired epoch).shown = h.shown := by
  obtain ⟨hs, hc⟩ := Residents.foldl_touch epoch hh.recency desired
  have hget : ∀ q, (h.desire desired epoch).cache.get? q = h.cache.get? q :=
    QuadCache.get?_foldl_touch h.cache desired epoch
  refine ⟨⟨QuadCache.sound_foldl_touch hh.cache _ _, hs, fun q hq => ?_⟩, ?_⟩
  · rw [QuadCache.contains_iff, hget, ← QuadCache.contains_iff]
    exact hh.cached q ((hc q).symm.trans hq)
  · funext q
    unfold shown
    rw [hget, show (h.desire desired epoch).residents.contains q = _ from hc q]

/-- **The delta of a view tells what is resident after it.** -/
theorem tells_view (hh : h.Held) {needed : List TileId} {inFlight : QuadId → Bool} {orders : Orders}
    (hv : h.view needed now inFlight = .ok (h', orders)) : Tells h.shown orders.delta h' := by
  obtain ⟨hsync, -, -⟩ := view_eq_ok hv
  obtain ⟨hheld, hshown⟩ := held_desire hh (parents needed) (h.epoch + 1)
  have ht := tells_uploadAll (tells_empty hheld) (TileId.sort <|
    (h.desire (parents needed) (h.epoch + 1)).desired.filter fun quad =>
      (h.desire (parents needed) (h.epoch + 1)).cache.contains quad &&
        !(h.desire (parents needed) (h.epoch + 1)).residents.contains quad)
  rw [hshown] at ht
  have hd : orders.delta = (h.desire (parents needed) (h.epoch + 1)).sync.2 := congrArg (·.2) hsync
  have hh' : h' = (h.desire (parents needed) (h.epoch + 1)).sync.1 := congrArg (·.1) hsync
  rw [hd, hh']
  exact ht

/-! ### A finished quad -/

/-- A record stored without the loss of another: the resident quad that it replaces is sent again. -/
theorem tells_settle_stored (hh : h.Held) (record : QuadRecord) (now : Instant) :
    Tells h.shown
      (settle { h with cache := h.cache.store record h.epoch now } record
        (h.cache.contains record.id) none).2
      (settle { h with cache := h.cache.store record h.epoch now } record
        (h.cache.contains record.id) none).1 := by
  have hheld : Held { h with cache := h.cache.store record h.epoch now } := by
    refine ⟨QuadCache.sound_store hh.cache _ _ _, hh.recency, fun q hq => ?_⟩
    rw [QuadCache.contains_store, hh.cached q hq, Bool.or_true]
  unfold settle dislodge
  dsimp only
  split
  · next hin =>
    rw [Bool.and_eq_true] at hin
    have hshown : ResidencyDelta.onto .empty h.shown record.id ≠ none := by
      rw [ResidencyDelta.onto_empty, Ne, shown_eq_none hh, hin.2]
      simp
    obtain ⟨hfits, honto⟩ := ResidencyDelta.fits_remove (ResidencyDelta.fits_empty _) hshown
    obtain ⟨hfits', honto'⟩ := ResidencyDelta.fits_add hfits (by rw [honto, Function.update_self])
    refine ⟨hheld, hfits', ?_⟩
    funext q
    rw [honto', honto, ResidencyDelta.onto_empty, Function.update_idem, Function.update_apply]
    unfold shown
    dsimp only
    rw [QuadCache.get?_store]
    by_cases he : q = record.id
    · subst he; simp [hin.2]
    · simp [he]
  · next hnot =>
    -- a resident quad is cached, so the one just stored is not resident yet
    have hout : h.residents.contains record.id = false := by
      rw [← Bool.not_eq_true]
      exact fun hin => hnot (by rw [hh.cached _ hin, hin]; rfl)
    have ht : Tells h.shown .empty { h with cache := h.cache.store record h.epoch now } := by
      refine tells_cache (tells_empty hh) hheld.cache fun q hq => ?_
      have hne : q ≠ record.id := by
        rintro rfl
        rw [hout] at hq
        cases hq
      rw [QuadCache.get?_store, if_neg hne]
    split
    · exact tells_upload ht record.id
    · exact ht

/-- A record stored for another one: the quad that was evicted leaves the GPU too. -/
theorem tells_settle_evicted (hh : h.Held) {victim : QuadId} (now : Instant)
    (hnew : h.cache.contains record.id = false) :
    Tells h.shown
      (settle { h with cache := (h.cache.erase victim).store record h.epoch now } record false
        (some victim)).2
      (settle { h with cache := (h.cache.erase victim).store record h.epoch now } record false
        (some victim)).1 := by
  have hcache : ((h.cache.erase victim).store record h.epoch now).Sound :=
    QuadCache.sound_store (QuadCache.sound_erase hh.cache _) _ _ _
  -- neither the newcomer nor the victim is resident in the end
  have hsame : ∀ q, q ≠ victim → h.residents.contains q = true →
      ((h.cache.erase victim).store record h.epoch now).get? q = h.cache.get? q := by
    intro q hv hq
    have hne : q ≠ record.id := by
      rintro rfl
      rw [hh.cached _ hq] at hnew
      cases hnew
    rw [QuadCache.get?_store, if_neg hne, QuadCache.get?_erase, if_neg hv]
  have ht : Tells h.shown
      (dislodge { h with cache := (h.cache.erase victim).store record h.epoch now } (some victim)).2
      (dislodge { h with cache := (h.cache.erase victim).store record h.epoch now }
        (some victim)).1 := by
    unfold dislodge withdraw
    dsimp only
    split
    · next hin =>
      refine tells_cache (tells_remove (tells_empty hh) hin) hcache fun q hq => ?_
      rw [Residents.contains_erase, Bool.and_eq_true, decide_eq_true_eq] at hq
      exact hsame q hq.1 hq.2
    · next hin =>
      refine tells_cache (tells_empty hh) hcache fun q hq => hsame q ?_ hq
      rintro rfl
      exact hin hq
  unfold settle
  generalize dislodge { h with cache := (h.cache.erase victim).store record h.epoch now }
    (some victim) = start at ht
  obtain ⟨u, delta⟩ := start
  simp only [Bool.false_and, Bool.false_eq_true, if_false] at ht ⊢
  split
  · exact tells_upload ht record.id
  · exact ht

/-- **The delta of a finished quad tells what is resident after it.** -/
theorem tells_receive (hh : h.Held) (hr : h.receive record now = .ok (h', delta)) :
    Tells h.shown delta h' := by
  obtain ⟨cache, evicted, hi, hs, -⟩ := receive_eq_ok hr
  have hd : delta = _ := congrArg (·.2) hs
  have hh' : h' = _ := congrArg (·.1) hs
  rw [hd, hh']
  rcases QuadCache.insert_eq_ok hh.cache hi with ⟨rfl, rfl, -⟩ | ⟨victim, rfl, rfl, hnew, -⟩
  · exact tells_settle_stored hh record now
  · rw [hnew]
    exact tells_settle_evicted hh now hnew

end Holdings

end TileStream
