import TileStream.Admission.Slots
import TileStream.Proofs.Table

/-!
# The slots and their views of one admission

The stages, the queue and the count of slots held are three views of one thing, and `Slots.Sound`
says that they agree: the count is the number of quads whose stage holds a slot, the queue lists the
queued quads once each, and quads only wait while every slot is held.

* `sound_ofLimit`, `sound_request`, `sound_release`, `sound_retainQueued`, `sound_mark`: every
  operation keeps this.
* `release_eq`: giving back a slot that is held never faults.
* `admits_request`, `admits_admitNext`: what an operation does to the stages is told by the quad it
  returns, the one that was let in.
-/

namespace TileStream

namespace Slots

variable {s s' : Slots} {quad : QuadId} {stage : Stage}

/-- The count, the queue and the stages agree, and while quads wait at most `free` slots are not
held. -/
structure SoundBut (s : Slots) (free : Nat) : Prop where
  counted : s.inFlight = s.stages.values.countP Stage.holdsSlot
  bounded : s.inFlight ≤ s.limit
  queue_nodup : s.queue.Nodup
  mem_queue : ∀ q, q ∈ s.queue ↔ s.stage? q = some .queued
  full : s.queue ≠ [] → s.limit ≤ s.inFlight + free

/-- **The count, the queue and the stages agree,** and quads wait only while every slot is held. -/
abbrev Sound (s : Slots) : Prop := s.SoundBut 0

/-- The stages after `next` was let in, which held no slot before. -/
structure Admits (s s' : Slots) (next : Option QuadId) : Prop where
  rateLimited : ∀ q, s'.stage? q = some .rateLimited ↔ s.stage? q = some .rateLimited ∨ next = some q
  fresh : ∀ q, next = some q → s.stage? q ≠ some .rateLimited
  assembling : ∀ q, s'.stage? q = some .assembling ↔ s.stage? q = some .assembling

/-- The line lists the quads that hold a slot and wait for a token, once each. -/
structure Lines (s : Slots) (line : List QuadId) : Prop where
  nodup : line.Nodup
  mem : ∀ q, q ∈ line ↔ s.stage? q = some .rateLimited

/-! ### Stages -/

theorem stage?_of_set (h : s'.stages = s.stages.set quad stage) (q : QuadId) :
    s'.stage? q = if q = quad then some stage else s.stage? q := by
  unfold stage?; rw [h]; exact s.stages.get?_set quad q stage

theorem stage?_of_erase (h : s'.stages = s.stages.erase quad) (q : QuadId) :
    s'.stage? q = if q = quad then none else s.stage? q := by
  unfold stage?; rw [h]; exact s.stages.get?_erase quad q

theorem contains_iff : s.contains quad = true ↔ ∃ stage, s.stage? quad = some stage :=
  s.stages.contains_iff

theorem contains_of_stage? (h : s.stage? quad = some stage) : s.contains quad = true :=
  contains_iff.mpr ⟨stage, h⟩

theorem stage?_of_not_contains (h : ¬ s.contains quad = true) : s.stage? quad = none :=
  s.stages.contains_eq_false_iff.mp (Bool.eq_false_iff.mpr h)

theorem holds_iff :
    s.holds quad = true ↔ s.stage? quad = some .rateLimited ∨ s.stage? quad = some .assembling := by
  unfold holds
  cases hst : s.stage? quad with
  | none => simp
  | some stage => cases stage <;> simp [Stage.holdsSlot]

theorem Admits.refl (s : Slots) : s.Admits s none := ⟨by simp, by simp, by simp⟩

/-- Letting in a quad that holds no slot. -/
theorem Admits.of_set (hq : ¬ s.holds quad = true) (h : s'.stages = s.stages.set quad .rateLimited) :
    s.Admits s' (some quad) := by
  rw [holds_iff, not_or] at hq
  refine ⟨fun q => ?_, ?_, fun q => ?_⟩
  · rw [stage?_of_set h]
    by_cases he : q = quad
    · simp [he]
    · simp [he, Ne.symm he]
  · rintro q ⟨⟩
    exact hq.1
  · rw [stage?_of_set h]
    by_cases he : q = quad
    · subst he; simp [hq.2]
    · simp [he]

/-- A quad that is let in joins the line at the end. -/
theorem Lines.join {line : List QuadId} {next : Option QuadId} (h : s.Lines line)
    (ha : s.Admits s' next) : s'.Lines (line ++ next.toList) := by
  refine ⟨List.nodup_append.mpr ⟨h.nodup, by cases next <;> simp, ?_⟩, fun q => ?_⟩
  · rintro q hq q' hq' rfl
    exact ha.fresh q (Option.mem_toList.mp hq') ((h.mem q).mp hq)
  · rw [List.mem_append, h.mem, ha.rateLimited, Option.mem_toList]

/-! ### The start -/

theorem sound_ofLimit (limit : Nat) : (ofLimit limit).Sound :=
  ⟨rfl, Nat.zero_le _, List.nodup_nil, fun _ => by simp [ofLimit, stage?], fun h => absurd rfl h⟩

/-! ### Asking for a slot -/

theorem sound_request (hs : s.Sound) (quad : QuadId) : (s.request quad).1.Sound := by
  unfold request
  split
  · exact hs
  · next hknown =>
    have hnone := stage?_of_not_contains hknown
    have hout : quad ∉ s.queue := fun hm => by
      rw [hs.mem_queue, hnone] at hm
      cases hm
    have hcount := fun stage => Table.countP_values_set s.stages stage hnone Stage.holdsSlot
    split
    · next hfree =>
      refine ⟨?_, hfree, hs.queue_nodup, fun q => ?_, fun hne => ?_⟩
      · rw [hcount, ← hs.counted]; rfl
      · rw [stage?_of_set (s := s) rfl, hs.mem_queue]
        by_cases he : q = quad
        · subst he; simp [hnone]
        · simp [he]
      · -- a slot was free, so no quad waited
        have := hs.full hne
        omega
    · next hfree =>
      refine ⟨?_, hs.bounded, ?_, fun q => ?_, fun _ => Nat.le_of_not_lt hfree⟩
      · rw [hcount, ← hs.counted]; rfl
      · refine List.nodup_append.mpr ⟨hs.queue_nodup, List.nodup_singleton _, ?_⟩
        rintro a ha b hb rfl
        exact hout (List.mem_singleton.mp hb ▸ ha)
      · rw [stage?_of_set (s := s) rfl, List.mem_append, hs.mem_queue, List.mem_singleton]
        by_cases he : q = quad <;> simp [he]

theorem admits_request (s : Slots) (quad : QuadId) :
    s.Admits (s.request quad).1 (s.request quad).2 := by
  unfold request
  split
  · exact .refl s
  · next hknown =>
    have hnone := stage?_of_not_contains hknown
    split
    · exact .of_set (by simp [holds, hnone]) rfl
    · refine ⟨fun q => ?_, by simp, fun q => ?_⟩ <;> rw [stage?_of_set (s := s) rfl] <;>
        by_cases he : q = quad <;> simp [he, hnone]

theorem contains_request (s : Slots) (quad q : QuadId) :
    (s.request quad).1.contains q = (decide (q = quad) || s.contains q) := by
  unfold request
  split
  · next hknown =>
    by_cases he : q = quad
    · subst he; simp [hknown]
    · simp [he]
  · split <;> exact Table.contains_set _ _ _ _

theorem limit_request (s : Slots) (quad : QuadId) : (s.request quad).1.limit = s.limit := by
  unfold request
  split
  · rfl
  · split <;> rfl

/-! ### Giving a slot back -/

theorem sound_admitNext (hs : s.SoundBut 1) : s.admitNext.1.Sound := by
  unfold admitNext
  split
  · next hfull => exact ⟨hs.counted, hs.bounded, hs.queue_nodup, hs.mem_queue, fun _ => hfull⟩
  · next hfree =>
    split
    · next hq => exact ⟨hs.counted, hs.bounded, hs.queue_nodup, hs.mem_queue, fun h => absurd hq h⟩
    · next quad rest hq =>
      have hnodup := hs.queue_nodup
      rw [hq, List.nodup_cons] at hnodup
      have hmem : ∀ q, q ∈ quad :: rest ↔ s.stage? q = some .queued := hq ▸ hs.mem_queue
      have hstage : s.stage? quad = some .queued := (hmem quad).mp List.mem_cons_self
      refine ⟨?_, Nat.lt_of_not_le hfree, hnodup.2, fun q => ?_,
        fun _ => hs.full (by rw [hq]; simp)⟩
      · have hcount := s.stages.countP_values_erase hstage Stage.holdsSlot
        rw [← hs.counted] at hcount
        rw [Table.values_set, List.countP_cons, hcount]
        rfl
      · have hq' := hmem q
        rw [stage?_of_set (s := s) rfl]
        by_cases he : q = quad
        · subst he; simp [hnodup.1]
        · simpa [he] using hq'

theorem admits_admitNext (hs : s.SoundBut 1) : s.Admits s.admitNext.1 s.admitNext.2 := by
  unfold admitNext
  split
  · exact .refl s
  · split
    · exact .refl s
    · next quad rest hq =>
      have hstage : s.stage? quad = some .queued := (hs.mem_queue quad).mp (by rw [hq]; simp)
      exact .of_set (by simp [holds, hstage, Stage.holdsSlot]) rfl

theorem contains_admitNext (hs : s.SoundBut 1) (q : QuadId) :
    s.admitNext.1.contains q = s.contains q := by
  unfold admitNext
  split
  · rfl
  · split
    · rfl
    · next quad rest hq =>
      have hstage : s.stage? quad = some .queued := (hs.mem_queue quad).mp (by rw [hq]; simp)
      show (s.stages.set quad .rateLimited).contains q = _
      rw [Table.contains_set]
      by_cases he : q = quad
      · subst he; simp [contains_of_stage? hstage]
      · simp [he]; rfl

theorem limit_admitNext (s : Slots) : s.admitNext.1.limit = s.limit := by
  unfold admitNext
  split
  · rfl
  · split <;> rfl

/-- The slots without a quad that held one, before the next quad is let in. -/
def vacate (s : Slots) (quad : QuadId) : Slots :=
  { s with stages := s.stages.erase quad, inFlight := s.inFlight - 1 }

theorem stage?_vacate (s : Slots) (quad q : QuadId) :
    (s.vacate quad).stage? q = if q = quad then none else s.stage? q :=
  stage?_of_erase rfl q

/-- **Giving back a slot that is held never faults.** The slots are counted right when it is. -/
theorem release_eq (hs : s.Sound) (h : s.holds quad = true) :
    s.release quad = .ok (s.vacate quad).admitNext ∧ (s.vacate quad).SoundBut 1 := by
  have hstage := holds_iff.mp h
  obtain ⟨stage, hst, hslot⟩ : ∃ stage, s.stages.get? quad = some stage ∧ stage.holdsSlot = true := by
    rcases hstage with hst | hst <;> exact ⟨_, hst, rfl⟩
  have hcount := s.stages.countP_values_erase hst Stage.holdsSlot
  rw [← hs.counted, hslot, if_pos rfl] at hcount
  refine ⟨?_, ?_, ?_, hs.queue_nodup, fun q => ?_, fun hne => ?_⟩
  · rw [release, h, Bool.not_true, if_neg Bool.false_ne_true, if_neg (by omega)]
    rfl
  · show s.inFlight - 1 = (s.stages.erase quad).values.countP Stage.holdsSlot
    omega
  · have := hs.bounded
    show s.inFlight - 1 ≤ s.limit
    omega
  · rw [stage?_vacate, show (s.vacate quad).queue = s.queue from rfl, hs.mem_queue]
    by_cases he : q = quad
    · subst he
      rcases hstage with hst | hst <;> simp [hst]
    · simp [he]
  · have := hs.full hne
    show s.limit ≤ s.inFlight - 1 + 1
    omega

theorem stage?_vacate_iff {q : QuadId} :
    (s.vacate quad).stage? q = some stage ↔ q ≠ quad ∧ s.stage? q = some stage := by
  rw [stage?_vacate]
  by_cases he : q = quad <;> simp [he]

/-- A quad that waits for no token leaves no gap in the line. -/
theorem Lines.vacate {line : List QuadId} (h : s.Lines line)
    (hq : s.stage? quad ≠ some .rateLimited) : (s.vacate quad).Lines line := by
  refine ⟨h.nodup, fun q => ?_⟩
  rw [h.mem, stage?_vacate_iff]
  constructor
  · intro hst
    refine ⟨?_, hst⟩
    rintro rfl
    exact hq hst
  · exact fun hst => hst.2

theorem release_of_not_holds (h : ¬ s.holds quad = true) : s.release quad = .ok (s, none) := by
  rw [release, Bool.eq_false_iff.mpr h]
  rfl

theorem sound_release {next : Option QuadId} (hs : s.Sound)
    (h : s.release quad = .ok (s', next)) : s'.Sound := by
  by_cases hq : s.holds quad = true
  · obtain ⟨hr, hv⟩ := release_eq hs hq
    rw [hr, Except.ok.injEq] at h
    rw [show s' = (s.vacate quad).admitNext.1 by rw [h]]
    exact sound_admitNext hv
  · rw [release_of_not_holds hq] at h
    cases h
    exact hs

theorem contains_release {next : Option QuadId} (hs : s.Sound)
    (h : s.release quad = .ok (s', next)) {q : QuadId} (hq : q ≠ quad) :
    s'.contains q = s.contains q := by
  by_cases hh : s.holds quad = true
  · obtain ⟨hr, hv⟩ := release_eq hs hh
    rw [hr, Except.ok.injEq] at h
    have hc := contains_admitNext hv q
    rw [h] at hc
    rw [hc]
    show ((s.vacate quad).stage? q).isSome = (s.stage? q).isSome
    rw [stage?_vacate, if_neg hq]
  · rw [release_of_not_holds hh] at h
    cases h
    rfl

theorem limit_release {next : Option QuadId} (h : s.release quad = .ok (s', next)) :
    s'.limit = s.limit := by
  unfold release at h
  split at h
  · cases h; rfl
  · split at h
    · cases h
    · have hlimit := limit_admitNext
        { s with stages := s.stages.erase quad, inFlight := s.inFlight - 1 }
      rw [Except.ok.inj h] at hlimit
      exact hlimit

/-! ### The order of the queue -/

/-- **A quad that is let in at once overtakes nobody:** it is, only while the queue is empty. -/
theorem queue_request (hs : s.Sound) (quad : QuadId) :
    (s.request quad).2.toList ++ (s.request quad).1.queue =
      s.queue ++ if s.contains quad then [] else [quad] := by
  unfold request
  split
  · next hknown => simp
  · split
    · next hfree =>
      have hnobody : s.queue = [] := by
        by_contra hne
        have hfull := hs.full hne
        omega
      simp [hnobody]
    · simp

theorem queue_admitNext (s : Slots) : s.admitNext.2.toList ++ s.admitNext.1.queue = s.queue := by
  unfold admitNext
  split
  · rfl
  · split
    · rfl
    · next hq => simp [hq]

theorem queue_release {next : Option QuadId} (h : s.release quad = .ok (s', next)) :
    next.toList ++ s'.queue = s.queue := by
  unfold release at h
  split at h
  · cases h; rfl
  · split at h
    · cases h
    · have hnext := queue_admitNext
        { s with stages := s.stages.erase quad, inFlight := s.inFlight - 1 }
      rw [Except.ok.inj h] at hnext
      exact hnext

theorem queue_mark (s : Slots) (quad : QuadId) (stage : Stage) :
    (s.mark quad stage).queue = s.queue := by
  unfold mark; split <;> rfl

/-! ### Leaving the queue -/

theorem stage?_retainQueued (hs : s.Sound) (keep : QuadId → Bool) (q : QuadId) :
    (s.retainQueued keep).stage? q =
      if s.stage? q = some .queued ∧ keep q = false then none else s.stage? q := by
  show ((s.queue.filter fun q => !keep q).foldl Table.erase s.stages).get? q = _
  simp only [Table.get?_foldl_erase, List.mem_filter, hs.mem_queue, Bool.not_eq_true']
  rfl

theorem sound_retainQueued (hs : s.Sound) (keep : QuadId → Bool) : (s.retainQueued keep).Sound := by
  have hstage := stage?_retainQueued hs keep
  refine ⟨?_, hs.bounded, hs.queue_nodup.filter _, fun q => ?_, fun hne => hs.full ?_⟩
  · show s.inFlight = _
    rw [hs.counted]
    refine Table.countP_values_congr _ fun q stage hslot => ?_
    show s.stage? q = some stage ↔ (s.retainQueued keep).stage? q = some stage
    rw [hstage]
    split
    · next hgone =>
      rw [hgone.1]
      cases stage <;> simp_all [Stage.holdsSlot]
    · exact Iff.rfl
  · show q ∈ s.queue.filter keep ↔ _
    rw [List.mem_filter, hs.mem_queue, hstage]
    cases hk : keep q <;> simp
  · intro hnil
    exact hne (by show s.queue.filter keep = []; rw [hnil]; rfl)

/-- Quads that hold a slot are not pruned. -/
theorem admits_retainQueued (hs : s.Sound) (keep : QuadId → Bool) :
    s.Admits (s.retainQueued keep) none := by
  refine ⟨fun q => ?_, by simp, fun q => ?_⟩ <;> rw [stage?_retainQueued hs] <;> split <;> simp_all

theorem contains_retainQueued (hs : s.Sound) {keep : QuadId → Bool} {q : QuadId}
    (hq : keep q = true) : (s.retainQueued keep).contains q = s.contains q := by
  have hstage := stage?_retainQueued hs keep q
  rw [hq, if_neg (by simp)] at hstage
  show ((s.retainQueued keep).stage? q).isSome = (s.stage? q).isSome
  rw [hstage]

theorem contains_of_retainQueued (hs : s.Sound) {keep : QuadId → Bool} {q : QuadId}
    (h : (s.retainQueued keep).contains q = true) : s.contains q = true := by
  obtain ⟨stage, hst⟩ := contains_iff.mp h
  rw [stage?_retainQueued hs] at hst
  split at hst
  · cases hst
  · exact contains_of_stage? hst

/-! ### Moving on to another stage -/

theorem stage?_mark (hslot : stage.holdsSlot = true) (h : s.holds quad = true) (q : QuadId) :
    (s.mark quad stage).stage? q = if q = quad then some stage else s.stage? q := by
  rw [mark, if_pos (by rw [hslot, h]; rfl)]
  exact stage?_of_set rfl q

theorem sound_mark (hs : s.Sound) (quad : QuadId) (stage : Stage) : (s.mark quad stage).Sound := by
  unfold mark
  split
  · next h =>
    rw [Bool.and_eq_true] at h
    have hstage := holds_iff.mp h.2
    obtain ⟨old, hst, hold⟩ : ∃ old, s.stages.get? quad = some old ∧ old.holdsSlot = true := by
      rcases hstage with hst | hst <;> exact ⟨_, hst, rfl⟩
    refine ⟨?_, hs.bounded, hs.queue_nodup, fun q => ?_, hs.full⟩
    · have hcount := s.stages.countP_values_erase hst Stage.holdsSlot
      rw [← hs.counted, hold] at hcount
      rw [Table.values_set, List.countP_cons, h.1, hcount]
    · rw [stage?_of_set (s := s) rfl, hs.mem_queue]
      by_cases he : q = quad
      · subst he
        rcases hstage with hst | hst <;> cases stage <;> simp_all [Stage.holdsSlot]
      · simp [he]
  · exact hs

theorem contains_mark (s : Slots) (quad q : QuadId) (stage : Stage) :
    (s.mark quad stage).contains q = s.contains q := by
  unfold mark
  split
  · next h =>
    rw [Bool.and_eq_true] at h
    have hknown : s.contains quad = true := by
      rcases holds_iff.mp h.2 with hst | hst <;> exact contains_of_stage? hst
    show (s.stages.set quad stage).contains q = _
    rw [Table.contains_set]
    by_cases he : q = quad
    · subst he; simpa using hknown.symm
    · simp [he]; rfl
  · rfl

/-- The first of the line moves on to be assembled. -/
theorem Lines.mark {line : List QuadId} (h : s.Lines (quad :: line)) :
    (s.mark quad .assembling).Lines line ∧ ∀ q,
      (s.mark quad .assembling).stage? q = some .assembling ↔
        q = quad ∨ s.stage? q = some .assembling := by
  obtain ⟨hout, hdup⟩ := List.nodup_cons.mp h.nodup
  have hholds : s.holds quad = true :=
    holds_iff.mpr (.inl ((h.mem quad).mp List.mem_cons_self))
  have hstage : ∀ q, (s.mark quad .assembling).stage? q =
      if q = quad then some .assembling else s.stage? q := stage?_mark rfl hholds
  refine ⟨⟨hdup, fun q => ?_⟩, fun q => ?_⟩
  · have hmem := h.mem q
    rw [hstage]
    by_cases he : q = quad
    · subst he; simpa using hout
    · simpa [he] using hmem
  · rw [hstage]
    by_cases he : q = quad <;> simp [he]

theorem limit_mark (s : Slots) (quad : QuadId) (stage : Stage) :
    (s.mark quad stage).limit = s.limit := by
  unfold mark; split <;> rfl

end Slots

end TileStream
