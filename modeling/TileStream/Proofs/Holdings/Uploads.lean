import TileStream.Proofs.Holdings.Residency

/-! # Room on the GPU

An upload ends in one of five ways (`Holdings.Uploaded`). Whatever way it is, the resident quads stay
within their limit, no desired one gives way, and one that gives way does so to a quad that takes
its place, so that the set is as full as before (`Holdings.Fills`). These facts pass from one upload to
many. A row of uploads stops early only at a set that is full of desired quads, so after it every
desired quad that is cached is resident, or there is no more room (`saturated_sync`). -/

namespace TileStream

namespace Residents

theorem size_insert (g : Residents) (quad : QuadId) (stamp : Nat) :
    (g.insert quad stamp).size = if g.contains quad then g.size else g.size + 1 :=
  Recency.size_touch _ _ _

theorem size_erase {g : Residents} {quad : QuadId} (h : g.contains quad = true) :
    g.size = (g.erase quad).size + 1 :=
  Recency.size_erase h

end Residents

namespace Holdings

variable {h h' : Holdings} {delta : ResidencyDelta} {quad : QuadId}

/-! ### One upload -/

/-- **How an upload ends.** -/
inductive Uploaded (h : Holdings) (delta : ResidencyDelta) (quad : QuadId) :
    Holdings × ResidencyDelta × Bool → Prop
  | missing (hout : h.cache.contains quad = false) : Uploaded h delta quad (h, delta, false)
  | there (hin : h.residents.contains quad = true) : Uploaded h delta quad (h, delta, true)
  /-- There is no room, and every resident quad is desired. -/
  | putOff (hfull : h.residents.isFull = true)
    (hall : ∀ q, h.residents.contains q = true → h.isDesired q = true) :
    Uploaded h delta quad (h, delta, false)
  /-- There is no room, and a resident quad that is not desired gives way. -/
  | displacing {record victim} (hout : h.residents.contains quad = false)
    (hfull : h.residents.isFull = true) (hin : h.residents.contains victim = true)
    (hundesired : h.isDesired victim = false) :
    Uploaded h delta quad
      ({ h with residents := (h.residents.erase victim).insert quad h.epoch },
        (delta.remove victim).add record, true)
  | placed {record} (hout : h.residents.contains quad = false)
    (hroom : h.residents.isFull = false) :
    Uploaded h delta quad
      ({ h with residents := h.residents.insert quad h.epoch }, delta.add record, true)

theorem uploaded (hs : h.residents.recency.Sound) (delta : ResidencyDelta) (quad : QuadId) :
    h.Uploaded delta quad (h.upload delta quad) := by
  unfold upload
  split
  · next hnone =>
    refine .missing (Bool.eq_false_iff.mpr fun hin => ?_)
    obtain ⟨record, hget⟩ := QuadCache.contains_iff.mp hin
    rw [hnone] at hget
    cases hget
  · split
    · next hin => exact .there hin
    · next hout =>
      rw [Bool.not_eq_true] at hout
      split
      · next hfull =>
        split
        · next hnone => exact .putOff hfull ((Recency.oldestUnpinned_eq_none hs).mp hnone)
        · next victim hv =>
          obtain ⟨hin, hundesired⟩ := Recency.oldestUnpinned_eq_some hs hv
          exact .displacing hout hfull hin hundesired
      · next hroom => exact .placed hout (Bool.eq_false_iff.mpr hroom)

/-! ### What uploads keep -/

/-- The set of resident quads has a sound account and keeps to its limit. -/
structure Within (h : Holdings) : Prop where
  sound : h.residents.recency.Sound
  bounded : h.residents.size ≤ h.residents.limit

/-- **More became resident.** Only quads that are not desired gave way, and only in a set that is
full. -/
structure Fills (h h' : Holdings) : Prop where
  others : ∃ residents, h' = { h with residents }
  limit : h'.residents.limit = h.residents.limit
  within : h'.Within
  grows : h.residents.size ≤ h'.residents.size
  kept : ∀ q, h.isDesired q = true → h.residents.contains q = true →
    h'.residents.contains q = true
  displaced : ∀ q, h.residents.contains q = true → h'.residents.contains q = false →
    h'.residents.size = h'.residents.limit

theorem Fills.refl (hw : h.Within) : h.Fills h := by
  refine ⟨⟨h.residents, rfl⟩, rfl, hw, Nat.le_refl _, fun _ _ hin => hin, fun q hin hout => ?_⟩
  rw [hin] at hout
  cases hout

theorem Fills.isDesired (hf : h.Fills h') (q : QuadId) : h'.isDesired q = h.isDesired q := by
  obtain ⟨residents, rfl⟩ := hf.others
  rfl

theorem Fills.cache (hf : h.Fills h') : h'.cache = h.cache := by
  obtain ⟨residents, rfl⟩ := hf.others
  rfl

theorem Fills.trans {h'' : Holdings} (hf : h.Fills h') (hf' : h'.Fills h'') : h.Fills h'' := by
  obtain ⟨residents, rfl⟩ := hf.others
  obtain ⟨residents', rfl⟩ := hf'.others
  have hlimit : residents'.limit = h.residents.limit := hf'.limit.trans hf.limit
  refine ⟨⟨residents', rfl⟩, hlimit, hf'.within, Nat.le_trans hf.grows hf'.grows, ?_, ?_⟩
  · intro q hdesired hin
    exact hf'.kept q hdesired (hf.kept q hdesired hin)
  · intro q hin hout
    by_cases hmid : residents.contains q = true
    · exact hf'.displaced q hmid hout
    · -- it gave way in the first part, and the set stayed full from then on
      have hfull := hf.displaced q hin (Bool.eq_false_iff.mpr hmid)
      have hgrows := hf'.grows
      have hbounded := hf'.within.bounded
      have hlimit' := hf'.limit
      dsimp only at hfull hgrows hbounded hlimit' ⊢
      omega

theorem isFull_iff : h.residents.isFull = true ↔ h.residents.limit ≤ h.residents.size :=
  decide_eq_true_iff

theorem fills_upload (hw : h.Within) (delta : ResidencyDelta) (quad : QuadId) :
    h.Fills (h.upload delta quad).1 := by
  have hup := uploaded hw.sound delta quad
  generalize h.upload delta quad = r at hup
  cases hup with
  | missing | there | putOff => exact .refl hw
  | @displacing _ victim hout hfull hin hundesired =>
    have herase := Residents.size_erase hin
    have hgone : (h.residents.erase victim).contains quad = false := by
      rw [Residents.contains_erase, hout, Bool.and_false]
    have hsize : ((h.residents.erase victim).insert quad h.epoch).size = h.residents.size := by
      rw [Residents.size_insert, hgone, herase]
      rfl
    have hcontains : ∀ q, ((h.residents.erase victim).insert quad h.epoch).contains q =
        (decide (q = quad) || (decide (q ≠ victim) && h.residents.contains q)) := by
      intro q
      rw [Residents.contains_insert, Residents.contains_erase]
    have hsound : ((h.residents.erase victim).insert quad h.epoch).recency.Sound :=
      Recency.sound_touch (Recency.sound_erase hw.sound _) _ _
    have hbounded := hw.bounded
    rw [isFull_iff] at hfull
    refine ⟨⟨_, rfl⟩, rfl, ⟨hsound, hsize ▸ hbounded⟩, Nat.le_of_eq hsize.symm, ?_, ?_⟩
    · intro q hdesired hq
      have hne : q ≠ victim := by
        rintro rfl
        rw [hdesired] at hundesired
        cases hundesired
      show ((h.residents.erase victim).insert quad h.epoch).contains q = true
      rw [hcontains, hq, decide_eq_true hne, Bool.and_true, Bool.or_true]
    · intro q _ _
      show ((h.residents.erase victim).insert quad h.epoch).size = h.residents.limit
      omega
  | placed hout hroom =>
    have hsize : (h.residents.insert quad h.epoch).size = h.residents.size + 1 := by
      rw [Residents.size_insert, hout]
      rfl
    have hfree : h.residents.size < h.residents.limit := by
      rw [← Bool.not_eq_true, isFull_iff] at hroom
      omega
    have hkept : ∀ q, h.residents.contains q = true →
        (h.residents.insert quad h.epoch).contains q = true := by
      intro q hq
      rw [Residents.contains_insert, hq, Bool.or_true]
    refine ⟨⟨_, rfl⟩, rfl, ⟨Recency.sound_touch hw.sound _ _, ?_⟩, ?_, fun q _ => hkept q, ?_⟩
    · show (h.residents.insert quad h.epoch).size ≤ h.residents.limit
      omega
    · show h.residents.size ≤ (h.residents.insert quad h.epoch).size
      omega
    · intro q hq hgone
      have hin := hkept q hq
      dsimp only at hgone
      rw [hgone] at hin
      cases hin

theorem fills_uploadAll (hw : h.Within) (delta : ResidencyDelta) (quads : List QuadId) :
    h.Fills (h.uploadAll delta quads).1 := by
  induction quads generalizing h delta with
  | nil => exact .refl hw
  | cons quad rest ih =>
    have hup := fills_upload hw delta quad
    unfold uploadAll
    split
    · next heq =>
      rw [heq] at hup
      exact hup.trans (ih hup.within _)
    · next heq =>
      rw [heq] at hup
      exact hup

/-! ### When uploads stop -/

/-- There is no room, and every resident quad is desired. -/
structure PinnedFull (h : Holdings) : Prop where
  full : h.residents.size = h.residents.limit
  desired : ∀ q, h.residents.contains q = true → h.isDesired q = true

/-- **As much of the view is resident as can be:** all of it that is cached, or all that there is
room for. -/
def Saturated (h : Holdings) : Prop :=
  (∀ q, h.isDesired q = true → h.cache.contains q = true → h.residents.contains q = true) ∨
    h.PinnedFull

theorem PinnedFull.of_isFull (hw : h.Within) (hfull : h.residents.isFull = true)
    (hall : ∀ q, h.residents.contains q = true → h.isDesired q = true) : h.PinnedFull :=
  ⟨Nat.le_antisymm hw.bounded (isFull_iff.mp hfull), hall⟩

/-- An upload into a set that is full of desired quads changes nothing. -/
theorem PinnedFull.upload (hp : h.PinnedFull) (hw : h.Within) (delta : ResidencyDelta)
    (quad : QuadId) : (h.upload delta quad).1 = h := by
  have hup := uploaded hw.sound delta quad
  generalize h.upload delta quad = r at hup
  cases hup with
  | missing | there | putOff => rfl
  | displacing _ _ hin hundesired =>
    rw [hp.desired _ hin] at hundesired
    cases hundesired
  | placed _ hroom =>
    have hfull := isFull_iff.mpr (Nat.le_of_eq hp.full.symm)
    rw [hroom] at hfull
    cases hfull

/-- The quad is resident after an upload that is not put off. -/
theorem upload_cases (hw : h.Within) (delta : ResidencyDelta) (hin : h.cache.contains quad = true) :
    ((h.upload delta quad).2.2 = true ∧ (h.upload delta quad).1.residents.contains quad = true) ∨
      ((h.upload delta quad).2.2 = false ∧ (h.upload delta quad).1.PinnedFull) := by
  have hup := uploaded hw.sound delta quad
  generalize h.upload delta quad = r at hup
  cases hup with
  | missing hout =>
    rw [hin] at hout
    cases hout
  | there hthere => exact .inl ⟨rfl, hthere⟩
  | putOff hfull hall => exact .inr ⟨rfl, .of_isFull hw hfull hall⟩
  | displacing | placed =>
    refine .inl ⟨rfl, ?_⟩
    dsimp only
    rw [Residents.contains_insert, decide_eq_true rfl, Bool.true_or]

/-- **Uploads of desired quads that are cached** make all of them resident or stop where there is no
more room. -/
theorem uploadAll_cases (hw : h.Within) (delta : ResidencyDelta) (quads : List QuadId)
    (hq : ∀ q ∈ quads, h.isDesired q = true ∧ h.cache.contains q = true) :
    (∀ q ∈ quads, (h.uploadAll delta quads).1.residents.contains q = true) ∨
      (h.uploadAll delta quads).1.PinnedFull := by
  induction quads generalizing h delta with
  | nil => exact .inl fun q hin => by cases hin
  | cons quad rest ih =>
    obtain ⟨hdesired, hcached⟩ := hq quad List.mem_cons_self
    have hfills := fills_upload hw delta quad
    have hcases := upload_cases hw delta hcached
    unfold uploadAll
    split
    · next u d heq =>
      rw [heq] at hfills hcases
      have hthere : u.residents.contains quad = true := by
        rcases hcases with ⟨-, hthere⟩ | ⟨hput, -⟩
        · exact hthere
        · cases hput
      have hrest : ∀ q ∈ rest, u.isDesired q = true ∧ u.cache.contains q = true := by
        intro q hin
        rw [hfills.isDesired, hfills.cache]
        exact hq q (List.mem_cons_of_mem _ hin)
      refine (ih hfills.within d hrest).imp_left fun hall q hin => ?_
      rcases List.mem_cons.mp hin with rfl | hin
      · -- it is desired, so the uploads after its own leave it there
        have hkept := (fills_uploadAll hfills.within d rest).kept
        exact hkept q ((hfills.isDesired q).trans hdesired) hthere
      · exact hall q hin
    · next u d heq =>
      rw [heq] at hcases
      rcases hcases with ⟨hdone, -⟩ | ⟨-, hpinned⟩
      · cases hdone
      · exact .inr hpinned

theorem fills_sync (hw : h.Within) : h.Fills h.sync.1 := fills_uploadAll hw _ _

/-- **After the uploads for a new view** as much of it is resident as can be. -/
theorem saturated_sync (hw : h.Within) : h.sync.1.Saturated := by
  have hfills := fills_sync hw
  have hcases := uploadAll_cases hw .empty
    (TileId.sort (h.desired.filter fun quad => h.cache.contains quad && !h.residents.contains quad))
    (fun q hq => by
      rw [TileId.sort, List.mem_mergeSort, List.mem_filter, Bool.and_eq_true] at hq
      exact ⟨List.contains_iff_mem.mpr hq.1, hq.2.1⟩)
  refine hcases.imp_left fun hall q hdesired hcached => ?_
  have hdesired' : h.isDesired q = true := (hfills.isDesired q).symm.trans hdesired
  have hcached' : h.cache.contains q = true := by rwa [hfills.cache] at hcached
  by_cases hin : h.residents.contains q = true
  · exact hfills.kept q hdesired' hin
  · refine hall q ?_
    rw [TileId.sort, List.mem_mergeSort, List.mem_filter, hcached', Bool.eq_false_iff.mpr hin]
    exact ⟨List.contains_iff_mem.mp hdesired', rfl⟩

end Holdings

end TileStream
