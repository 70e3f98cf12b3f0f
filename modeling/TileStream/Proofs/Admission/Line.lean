import TileStream.Proofs.Admission.Slots
import TileStream.Proofs.Fault

/-! # The line at the slots

The slots on their own, under any calls: quads ask, give back, are delivered, pruned and marked, known or
not, admitted or waiting. No such call faults, the count, the queue and the stages agree after each of
them (`Slots.Sound`), and nobody is overtaken.

The log of a run tells for each call which quad it accepted, which it pruned and which it let in. The
quads that stand in line are the accepted ones in the order of acceptance; a pruned quad loses its latest
entry, which is the one that waits (`withoutLast_append`). So one call at a time, the quads let in and the
queue behind them are those that stand in line (`Slots.line_act`), and they are after a whole run
(`Slots.run_exact`). -/

namespace TileStream

/-! ### Leaving a line -/

/-- A line without the latest entry of a quad. -/
def withoutLast (line : List QuadId) (quad : QuadId) : List QuadId := (line.reverse.erase quad).reverse

section

variable {line queue : List QuadId} {quad : QuadId}

/-- The latest entry of a quad that waits in the queue is the one in the queue. -/
theorem withoutLast_append (hquad : quad ∈ queue) (hnodup : queue.Nodup) :
    withoutLast (line ++ queue) quad = line ++ queue.filter (· != quad) := by
  unfold withoutLast
  rw [List.reverse_append, List.erase_append_left _ (List.mem_reverse.mpr hquad),
    (List.nodup_reverse.mpr hnodup).erase_eq_filter, List.reverse_append, List.reverse_reverse,
    ← List.filter_reverse, List.reverse_reverse]

/-- Quads that leave the queue leave the rest of the line alone. -/
theorem foldl_withoutLast (gone : List QuadId) (hgone : gone ⊆ queue) (hdup : gone.Nodup)
    (hnodup : queue.Nodup) : gone.foldl withoutLast (line ++ queue) =
      line ++ queue.filter fun q => !gone.contains q := by
  induction gone generalizing queue with
  | nil => simp
  | cons quad gone ih =>
    obtain ⟨hout, hdup⟩ := List.nodup_cons.mp hdup
    have hquad : quad ∈ queue := hgone List.mem_cons_self
    have hrest : gone ⊆ queue.filter (· != quad) := by
      intro q hq
      refine List.mem_filter.mpr ⟨hgone (List.mem_cons_of_mem _ hq), ?_⟩
      rw [bne_iff_ne]
      rintro rfl
      exact hout hq
    rw [List.foldl_cons, withoutLast_append hquad hnodup, ih hrest hdup (hnodup.filter _),
      List.filter_filter]
    congr 1
    refine List.filter_congr fun q _ => ?_
    rw [List.contains_cons, Bool.not_or, Bool.and_comm]
    rfl

end

namespace Slots

/-! ### Calls and their log -/

/-- A call of the slots. -/
inductive Call where
  | request (quad : QuadId)
  | release (quad : QuadId)
  | deliver (record : QuadRecord)
  | retainQueued (keep : QuadId → Bool)
  | mark (quad : QuadId) (stage : Stage)

/-- What a call did to the line. -/
structure Passage where
  accepted : List QuadId
  pruned : List QuadId
  admitted : List QuadId

/-- The slots after a call, with the quad that it let in. -/
def act (s : Slots) : Call → Checked (Slots × Option QuadId)
  | .request quad => .ok (s.request quad)
  | .release quad => s.release quad
  | .deliver record => do
    let (s, _, next) ← s.deliver record
    return (s, next)
  | .retainQueued keep => .ok (s.retainQueued keep, none)
  | .mark quad stage => .ok (s.mark quad stage, none)

/-- The quad that a call newly accepts: one that asks and is not known. -/
def accepts (s : Slots) : Call → List QuadId
  | .request quad => if s.contains quad then [] else [quad]
  | _ => []

/-- The quads that a call prunes: the queued ones that it does not keep. -/
def prunes (s : Slots) : Call → List QuadId
  | .retainQueued keep => s.queue.filter fun quad => !keep quad
  | _ => []

/-- The slots after some calls, with what each of them did to the line. -/
def run (s : Slots) : List Call → Checked (Slots × List Passage)
  | [] => .ok (s, [])
  | c :: calls => do
    let (s', next) ← s.act c
    let (s'', log) ← s'.run calls
    return (s'', ⟨s.accepts c, s.prunes c, next.toList⟩ :: log)

/-- The quads that were let in, in order. -/
def admittedIn (log : List Passage) : List QuadId := log.flatMap Passage.admitted

/-- A line after the pruned quads left it and the accepted ones joined it. -/
def standing (line : List QuadId) (p : Passage) : List QuadId :=
  p.pruned.foldl withoutLast line ++ p.accepted

/-- The accepted quads in the order of acceptance, with exactly the pruned entries taken out. -/
def standsIn (log : List Passage) : List QuadId := log.foldl standing []

variable {s s' : Slots} {c : Call} {next : Option QuadId} {log : List Passage}

/-! ### One call -/

theorem act_deliver (s : Slots) (record : QuadRecord) :
    s.act (.deliver record) = s.act (.release record.id) := by
  show (do let (s, _, next) ← s.deliver record; return (s, next)) = s.release record.id
  unfold deliver
  cases s.release record.id <;> rfl

/-- **Giving back never faults,** whoever is named. -/
theorem exists_release (hs : s.Sound) (quad : QuadId) : ∃ r, s.release quad = .ok r := by
  by_cases h : s.holds quad = true
  · exact ⟨_, (release_eq hs h).1⟩
  · exact ⟨_, release_of_not_holds h⟩

theorem exists_act (hs : s.Sound) (c : Call) : ∃ r, s.act c = .ok r := by
  cases c with
  | request | retainQueued | mark => exact ⟨_, rfl⟩
  | release quad => exact exists_release hs quad
  | deliver record =>
    rw [act_deliver]
    exact exists_release hs record.id

theorem sound_act (hs : s.Sound) (h : s.act c = .ok (s', next)) : s'.Sound := by
  cases c with
  | request quad =>
    rw [show s' = (s.request quad).1 from (congrArg Prod.fst (Except.ok.inj h)).symm]
    exact sound_request hs quad
  | release => exact sound_release hs h
  | deliver =>
    rw [act_deliver] at h
    exact sound_release hs h
  | retainQueued keep =>
    cases h
    exact sound_retainQueued hs keep
  | mark quad stage =>
    cases h
    exact sound_mark hs quad stage

theorem limit_act (h : s.act c = .ok (s', next)) : s'.limit = s.limit := by
  cases c with
  | request quad =>
    rw [show s' = (s.request quad).1 from (congrArg Prod.fst (Except.ok.inj h)).symm]
    exact limit_request s quad
  | release => exact limit_release h
  | deliver =>
    rw [act_deliver] at h
    exact limit_release h
  | retainQueued =>
    cases h
    rfl
  | mark quad stage =>
    cases h
    exact limit_mark s quad stage

/-- **A call keeps the line in order:** who is let in comes from its front, pruned quads leave it from
behind, and an accepted quad joins it at its end. -/
theorem line_act (hs : s.Sound) (h : s.act c = .ok (s', next)) (line : List QuadId) :
    line ++ next.toList ++ s'.queue =
      standing (line ++ s.queue) ⟨s.accepts c, s.prunes c, next.toList⟩ := by
  have hrelease : ∀ quad, s.act (.release quad) = .ok (s', next) →
      line ++ next.toList ++ s'.queue = line ++ s.queue := fun quad h => by
    rw [List.append_assoc, queue_release h]
  cases c with
  | request quad =>
    have hqueue := queue_request hs quad
    rw [show s.request quad = (s', next) from Except.ok.inj h] at hqueue
    rw [List.append_assoc, hqueue, ← List.append_assoc]
    rfl
  | release quad => rw [hrelease quad h, standing]; exact (List.append_nil _).symm
  | deliver record =>
    rw [act_deliver] at h
    rw [hrelease _ h, standing]
    exact (List.append_nil _).symm
  | retainQueued keep =>
    cases h
    show line ++ [] ++ s.queue.filter keep =
      (s.queue.filter fun q => !keep q).foldl withoutLast (line ++ s.queue) ++ []
    rw [foldl_withoutLast _ (List.filter_subset_self _) (hs.queue_nodup.filter _) hs.queue_nodup,
      List.append_nil, List.append_nil]
    congr 1
    refine List.filter_congr fun q hq => ?_
    cases hk : keep q <;> simp [hk, hq]
  | mark quad stage =>
    cases h
    rw [queue_mark]
    show line ++ [] ++ s.queue = line ++ s.queue ++ []
    rw [List.append_nil, List.append_nil]

/-- The quads that hold a slot, once each, are as many as are counted. -/
theorem Sound.exists_holders (hs : s.Sound) : ∃ holders : List QuadId, holders.Nodup ∧
    (∀ q, q ∈ holders ↔ s.holds q = true) ∧ s.inFlight = holders.length := by
  refine ⟨s.stages.keysWhere Stage.holdsSlot, s.stages.nodup_keysWhere _, fun q => ?_, ?_⟩
  · rw [Table.mem_keysWhere, holds]
    show (∃ stage, s.stage? q = some stage ∧ _) ↔ _
    cases s.stage? q <;> simp
  · rw [Table.length_keysWhere, hs.counted]

/-! ### Runs -/

/-- **A run from sound slots** is answered, keeps them sound and keeps the line in order. -/
theorem exists_run (hs : s.Sound) (calls : List Call) (line : List QuadId) : ∃ s' log,
    s.run calls = .ok (s', log) ∧ s'.Sound ∧ s'.limit = s.limit ∧
      line ++ admittedIn log ++ s'.queue = log.foldl standing (line ++ s.queue) := by
  induction calls generalizing s line with
  | nil => exact ⟨s, [], rfl, hs, rfl, by simp [admittedIn]⟩
  | cons c calls ih =>
    obtain ⟨⟨s₁, next⟩, h₁⟩ := exists_act hs c
    obtain ⟨s₂, log, h₂, hs₂, hlimit, hline⟩ := ih (sound_act hs h₁) (line ++ next.toList)
    refine ⟨s₂, ⟨s.accepts c, s.prunes c, next.toList⟩ :: log, ?_, hs₂,
      hlimit.trans (limit_act h₁), ?_⟩
    · rw [run, h₁]
      simp only [bind, Except.bind, h₂]
      rfl
    · rw [List.foldl_cons, ← line_act hs h₁ line, ← hline, admittedIn, List.flatMap_cons]
      simp only [List.append_assoc]
      rfl

/-- **Slots under any calls.** Whatever limit is asked for and whatever is called, nothing faults: a slot
that is given back was counted. The number of slots held is that of the quads whose stage holds one, and
at most the limit, which is at least one. The queue lists the queued quads once each, and somebody waits
only while every slot is held. The quads let in so far and then the queue are the newly accepted quads in
the order of acceptance, without the pruned entries. -/
theorem run_exact (limit : Nat) (calls : List Call) : ∃ s log,
    (ofLimit limit).run calls = .ok (s, log) ∧ s.limit = max 1 limit ∧
    (∃ holders : List QuadId, holders.Nodup ∧ (∀ q, q ∈ holders ↔ s.holds q = true) ∧
      s.inFlight = holders.length) ∧
    (∀ q, s.holds q = true → 0 < s.inFlight) ∧ s.inFlight ≤ max 1 limit ∧
    s.queue.Nodup ∧ (∀ q, q ∈ s.queue ↔ s.stage? q = some .queued) ∧
    (s.queue ≠ [] → s.inFlight = max 1 limit) ∧
    admittedIn log ++ s.queue = standsIn log := by
  obtain ⟨s, log, hrun, hs, hlimit, hline⟩ := exists_run (sound_ofLimit limit) calls []
  have hmax : s.limit = max 1 limit := hlimit.trans (Nat.max_comm ..)
  obtain ⟨holders, hnodup, hmem, hcount⟩ := hs.exists_holders
  refine ⟨s, log, hrun, hmax, ⟨holders, hnodup, hmem, hcount⟩, fun q hq => ?_, hmax ▸ hs.bounded,
    hs.queue_nodup, hs.mem_queue, fun hne => ?_, hline⟩
  · rw [hcount]
    exact List.length_pos_of_mem ((hmem q).mpr hq)
  · have hfull := hs.full hne
    have hbounded := hs.bounded
    omega

/-- With one slot: the second and the third quad wait, the second is marked and given back in vain and
then pruned, and asks again behind the third. -/
example : ((ofLimit 0).run [.request ⟨8, 0, 0⟩, .request ⟨8, 1, 0⟩, .request ⟨8, 2, 0⟩,
      .mark ⟨8, 1, 0⟩ .assembling, .release ⟨8, 1, 0⟩, .retainQueued (· ≠ ⟨8, 1, 0⟩),
      .request ⟨8, 1, 0⟩, .deliver ⟨⟨8, 0, 0⟩, []⟩]).map
      (fun r => (admittedIn r.2, r.1.queue, standsIn r.2)) =
    .ok ([⟨8, 0, 0⟩, ⟨8, 2, 0⟩], [⟨8, 1, 0⟩], [⟨8, 0, 0⟩, ⟨8, 2, 0⟩, ⟨8, 1, 0⟩]) := by decide

end Slots

end TileStream
