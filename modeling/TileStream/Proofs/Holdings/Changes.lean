import TileStream.Holdings

/-! # What the operations on the holdings leave alone

Uploading and withdrawing change the resident quads only. So what is cached, what is desired and
whether the network is there can be read off a call without looking at the GPU: `view_eq_ok` and
`receive_eq_ok` say what an answered call did to them, and `mem_requests` which quads a view asks
for. -/

namespace TileStream

namespace Holdings

variable {h h' : Holdings} {quad : QuadId} {now : Instant}

/-! ### The resident quads -/

theorem exists_upload (h : Holdings) (delta : ResidencyDelta) (quad : QuadId) :
    ∃ residents, (h.upload delta quad).1 = { h with residents } := by
  unfold upload
  split
  · exact ⟨h.residents, rfl⟩
  · split
    · exact ⟨h.residents, rfl⟩
    · split
      · split
        · exact ⟨h.residents, rfl⟩
        · exact ⟨_, rfl⟩
      · exact ⟨_, rfl⟩

theorem exists_uploadAll (h : Holdings) (delta : ResidencyDelta) (quads : List QuadId) :
    ∃ residents, (h.uploadAll delta quads).1 = { h with residents } := by
  induction quads generalizing h delta with
  | nil => exact ⟨h.residents, rfl⟩
  | cons quad rest ih =>
    obtain ⟨residents, hu⟩ := exists_upload h delta quad
    unfold uploadAll
    split
    · next u d heq =>
      rw [heq] at hu
      obtain ⟨residents', hr⟩ := ih u d
      refine ⟨residents', hr.trans ?_⟩
      rw [show u = _ from hu]
    · next u d heq =>
      rw [heq] at hu
      exact ⟨residents, hu⟩

theorem exists_sync (h : Holdings) : ∃ residents, h.sync.1 = { h with residents } :=
  exists_uploadAll _ _ _

theorem exists_withdraw (h : Holdings) (delta : ResidencyDelta) (quad : QuadId) :
    ∃ residents, (h.withdraw delta quad).1 = { h with residents } := by
  unfold withdraw
  split
  · exact ⟨_, rfl⟩
  · exact ⟨h.residents, rfl⟩

/-! ### A new view -/

/-- **What an answered view did:** it desires the parents of the needed tiles from now on, and it
asks for quads as the holdings then stand. -/
theorem view_eq_ok {needed : List TileId} {inFlight : QuadId → Bool} {orders : Orders}
    (hv : h.view needed now inFlight = .ok (h', orders)) :
    (h', orders.delta) = (h.desire (parents needed) (h.epoch + 1)).sync ∧
      (∃ residents, h' = { h.desire (parents needed) (h.epoch + 1) with residents }) ∧
      orders.requests = h'.requests now inFlight := by
  unfold view Checked.word64 Checked.below at hv
  split at hv
  · simp only [bind, Except.bind, pure, Except.pure, Except.ok.injEq] at hv
    obtain ⟨residents, hs⟩ := exists_sync (h.desire (parents needed) (h.epoch + 1))
    cases hv
    exact ⟨rfl, ⟨residents, hs⟩, rfl⟩
  · cases hv

/-- A view is answered as long as there are epochs left. -/
theorem exists_view_iff {needed : List TileId} {inFlight : QuadId → Bool} :
    (∃ r, h.view needed now inFlight = .ok r) ↔ h.epoch + 1 < Checked.words64 := by
  unfold view Checked.word64 Checked.below
  split
  · next hlt => exact ⟨fun _ => hlt, fun _ => ⟨_, rfl⟩⟩
  · next hge => exact ⟨fun ⟨_, hv⟩ => (by cases hv), fun hlt => absurd hlt hge⟩

theorem mem_parents {needed : List TileId} :
    quad ∈ parents needed ↔ ∃ t ∈ needed, t.parent? = some quad := by
  simp [parents, List.mem_eraseDups]

theorem nodup_eraseDups {α : Type} [DecidableEq α] (l : List α) : l.eraseDups.Nodup := by
  induction h : l.length using Nat.strongRecOn generalizing l with
  | ind n ih =>
    cases l with
    | nil => exact List.nodup_nil
    | cons a l =>
      have hlen := List.length_filter_le (fun b => !b == a) l
      rw [List.length_cons] at h
      rw [List.eraseDups_cons, List.nodup_cons]
      refine ⟨?_, ih _ (by omega) _ rfl⟩
      simp [List.mem_eraseDups]

/-- A view asks for no quad twice. -/
theorem nodup_requests {needed : List TileId} {inFlight : QuadId → Bool} {orders : Orders}
    (hv : h.view needed now inFlight = .ok (h', orders)) : orders.requests.Nodup := by
  obtain ⟨-, ⟨residents, rfl⟩, hreq⟩ := view_eq_ok hv
  rw [hreq]
  unfold requests
  split
  · exact List.nodup_nil
  · exact (List.mergeSort_perm _ _).nodup_iff.mpr ((nodup_eraseDups _).filter _)

/-- **Which quads a view asks for.** -/
theorem mem_requests {inFlight : QuadId → Bool} : quad ∈ h.requests now inFlight ↔
    h.online = true ∧ quad ∈ h.desired ∧ inFlight quad = false ∧
      h.isWanted (h.cache.isPinnedFull h.isDesired) now quad = true := by
  unfold requests
  cases h.online with
  | false => simp
  | true => simp [TileId.sort, List.mem_mergeSort]

/-! ### A finished quad -/

/-- The holdings without the evicted quad on the GPU. -/
def dislodge (h : Holdings) : Option QuadId → Holdings × ResidencyDelta
  | none => (h, .empty)
  | some quad => h.withdraw .empty quad

/-- What a finished quad does to the resident quads, once the cache has taken it in. -/
def settle (h : Holdings) (record : QuadRecord) (replaced : Bool) (evicted : Option QuadId) :
    Holdings × ResidencyDelta :=
  let (h, delta) := h.dislodge evicted
  if replaced && h.residents.contains record.id then (h, (delta.remove record.id).add record)
  else if h.isDesired record.id then
    let (h, delta, _) := h.upload delta record.id
    (h, delta)
  else (h, delta)

theorem exists_dislodge (h : Holdings) (evicted : Option QuadId) :
    ∃ residents, (h.dislodge evicted).1 = { h with residents } := by
  cases evicted with
  | none => exact ⟨h.residents, rfl⟩
  | some quad => exact exists_withdraw h .empty quad

theorem exists_settle (h : Holdings) (record : QuadRecord) (replaced : Bool)
    (evicted : Option QuadId) :
    ∃ residents, (h.settle record replaced evicted).1 = { h with residents } := by
  obtain ⟨first, hfirst⟩ := exists_dislodge h evicted
  unfold settle
  generalize h.dislodge evicted = start at hfirst
  obtain ⟨u, delta⟩ := start
  dsimp only at hfirst ⊢
  split
  · exact ⟨first, hfirst⟩
  · split
    · obtain ⟨residents, hu⟩ := exists_upload u delta record.id
      exact ⟨residents, by rw [hu, hfirst]⟩
    · exact ⟨first, hfirst⟩

/-- **A finished quad in two parts:** the cache takes it in or refuses it, with the desired quads
pinned, and the resident quads follow. -/
theorem receive_eq (h : Holdings) (record : QuadRecord) (now : Instant) :
    h.receive record now =
      (h.cache.insert record h.epoch now h.isDesired).map fun r =>
        settle { h with cache := r.1 } record (h.cache.contains record.id) r.2 := by
  unfold receive settle dislodge
  cases h.cache.insert record h.epoch now h.isDesired with
  | error e => rfl
  | ok r =>
    obtain ⟨cache, evicted⟩ := r
    cases evicted <;> simp only [bind, Except.bind, pure, Except.pure, Except.map] <;> split
    · rfl
    · split <;> rfl
    · rfl
    · split <;> rfl

theorem receive_eq_ok {record : QuadRecord} {delta : ResidencyDelta}
    (hr : h.receive record now = .ok (h', delta)) :
    ∃ cache evicted, h.cache.insert record h.epoch now h.isDesired = .ok (cache, evicted) ∧
      (h', delta) = settle { h with cache } record (h.cache.contains record.id) evicted ∧
      ∃ residents, h' = { h with cache, residents } := by
  rw [receive_eq] at hr
  cases hi : h.cache.insert record h.epoch now h.isDesired with
  | error e => rw [hi] at hr; cases hr
  | ok r =>
    rw [hi] at hr
    have heq : (h', delta) =
        settle { h with cache := r.1 } record (h.cache.contains record.id) r.2 :=
      (Except.ok.inj hr).symm
    obtain ⟨residents, hs⟩ := exists_settle { h with cache := r.1 } record
      (h.cache.contains record.id) r.2
    rw [← heq] at hs
    exact ⟨r.1, r.2, rfl, heq, residents, hs⟩

theorem receive_eq_error {record : QuadRecord} {e : CacheFull}
    (hr : h.receive record now = .error e) :
    h.cache.insert record h.epoch now h.isDesired = .error e := by
  rw [receive_eq] at hr
  cases hi : h.cache.insert record h.epoch now h.isDesired with
  | error e' => rw [hi] at hr; exact congrArg _ (Except.error.inj hr)
  | ok r => rw [hi] at hr; cases hr

end Holdings

end TileStream
