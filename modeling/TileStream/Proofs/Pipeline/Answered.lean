import TileStream.Proofs.Pipeline.Demand
import TileStream.Proofs.Pipeline.Passage

/-! # No call faults

A pipeline can fault in four ways: an epoch, a zoom or a coordinate leaves its word, or a slot is given
back that nobody holds. Only the first of them can happen, and only after as many looks at a camera as
there are epochs (`exists_replay_iff`), whatever tiles the culling lists and whatever is delivered.
The quads that are started are parents of tiles (`isQuad_of_started`), so their children fit into
their words and have them for parents, and a slot is given back by a quad that holds it or by nobody
(`exists_release`). -/

namespace TileStream

namespace Turn

variable {τ κ : Type} [TokenArithmetic τ] {now : Instant} {w w' : Turn τ κ × List Task}

/-- **Only parents of tiles are started.** -/
theorem isQuad_step (ha : w.1.pipeline.Agrees w.2) (h : ∀ q ∈ startsIn w.1.journal, q.IsQuad)
    (hs : Step now w w') : ∀ q ∈ startsIn w'.1.journal, q.IsQuad := by
  cases hs with
  | poll | call | callEmpty | pass | passLast | offer | refuse => exact h
  | submit =>
    rw [startsIn_submit]
    exact h
  | start | startEmpty =>
    intro q hq
    rcases List.mem_append.mp (startsIn_started _ _ ▸ hq) with hq | hq
    · exact h q hq
    · rw [List.mem_singleton.mp hq]
      exact ha.load.1
  | startAgain hl => exact absurd hl ha.not_startAgain
  | callAgain hl => exact absurd hl ha.not_callAgain
  | finish =>
    rw [startsIn_released]
    exact h

end Turn

namespace Pipeline

variable {τ κ : Type} {p : Pipeline τ κ}

/-! ### Slots -/

/-- A quad gives its slot back, and where it holds none nothing happens. -/
theorem Agrees.exists_release {tasks : List Task} (h : p.Agrees tasks) (quad : QuadId) :
    ∃ r, p.slots.release quad = .ok r := by
  by_cases hold : p.slots.holds quad = true
  · exact ⟨_, (Slots.release_eq h.slots hold).1⟩
  · exact ⟨_, Slots.release_of_not_holds hold⟩

/-! ### Epochs -/

/-- How many epochs a call takes. -/
def epochsOf (p : Pipeline τ κ) (c : Call κ) : Nat := if (p.looksAt? c).isSome then 1 else 0

theorem Looks.epoch {camera : κ} {now : Instant} {t : Turn τ κ} {tasks : List Task}
    (h : p.Looks camera now t tasks) : t.pipeline.holdings.epoch = p.holdings.epoch + 1 := by
  obtain ⟨needed, holdings, orders, -, hv, rfl, -⟩ := h
  obtain ⟨-, ⟨residents, rfl⟩, -⟩ := Holdings.view_eq_ok hv
  rfl

theorem epoch_open {c : Call κ} {t : Turn τ κ} {tasks : List Task} (ho : p.Opens c t tasks) :
    t.pipeline.holdings.epoch = p.holdings.epoch + p.epochsOf c := by
  cases ho with
  | look hl => exact hl.epoch
  | answer | poll => rfl
  | @heed online now hheed =>
    have hnone : p.looksAt? (.setOnline online now) = none := by
      cases online with
      | false => rfl
      | true => rcases hheed rfl with hon | hcam <;> simp [looksAt?, *]
    rw [epochsOf, hnone]
    rfl
  | @resume camera now _ _ hoff hcam hl =>
    have hsome : p.looksAt? (.setOnline true now) = some camera := by
      simp [looksAt?, hoff, hcam]
    rw [hl.epoch, epochsOf, hsome]
    rfl

variable [TokenArithmetic τ]

theorem epoch_call {c : Call κ} {t : Turn τ κ} (hc : p.call c = .ok t) :
    t.pipeline.holdings.epoch = p.holdings.epoch + p.epochsOf c := by
  obtain ⟨t₀, tasks, ho, hs⟩ := steps_call hc
  obtain ⟨cache, residents, hh⟩ := holdings_steps hs
  rw [hh]
  exact epoch_open ho

/-- How often a camera is looked at in the course of some calls, up to the first fault. -/
def looks (p : Pipeline τ κ) : List (Call κ) → Nat
  | [] => 0
  | c :: cs =>
    p.epochsOf c +
      match p.call c with
      | .error _ => 0
      | .ok t => t.pipeline.looks cs

theorem looks_le_length (p : Pipeline τ κ) (cs : List (Call κ)) : p.looks cs ≤ cs.length := by
  induction cs generalizing p with
  | nil => exact Nat.le_refl 0
  | cons c cs ih =>
    have hone : p.epochsOf c ≤ 1 := by
      unfold epochsOf
      split <;> omega
    unfold looks
    rw [List.length_cons]
    cases p.call c with
    | error e => dsimp only; omega
    | ok t =>
      have hrest := ih t.pipeline
      dsimp only
      omega

/-- A call that faults is a look for which no epoch is left. -/
theorem epoch_of_fault {c : Call κ} {e : Fault} (ha : p.Agrees [])
    (hculled : ∀ camera, ∃ needed, p.culling camera = .ok needed) (hc : p.call c = .error e) :
    Checked.words64 ≤ p.holdings.epoch + p.epochsOf c := by
  by_contra hleft
  rw [Nat.not_le] at hleft
  have hsees : ∀ camera, p.looksAt? c = some camera → p.Sees camera := by
    intro camera hcam
    have hone : p.epochsOf c = 1 := by
      rw [epochsOf, hcam]
      rfl
    exact ⟨hculled camera, hone ▸ hleft⟩
  obtain ⟨t, ht⟩ := (call_ok_iff ha).mpr hsees
  rw [hc] at ht
  cases ht

/-- **Calls fault only for want of epochs.** -/
theorem exists_replay_iff (ha : p.Agrees [])
    (hculled : ∀ camera, ∃ needed, p.culling camera = .ok needed)
    (hepoch : p.holdings.epoch < Checked.words64) (cs : List (Call κ)) :
    (∃ r, p.replay cs = .ok r) ↔ p.holdings.epoch + p.looks cs < Checked.words64 := by
  induction cs generalizing p with
  | nil => exact ⟨fun _ => hepoch, fun _ => ⟨_, rfl⟩⟩
  | cons c cs ih =>
    unfold replay looks
    cases hc : p.call c with
    | error e =>
      have hfault := epoch_of_fault ha hculled hc
      constructor
      · rintro ⟨r, hr⟩
        cases hr
      · intro hleft
        dsimp only at hleft
        omega
    | ok t =>
      obtain ⟨ha', halike, -⟩ := agrees_call ha hc
      have hculled' : ∀ camera, ∃ needed, t.pipeline.culling camera = .ok needed := by
        rw [halike.culling]
        exact hculled
      have hstep := epoch_call hc
      have hepoch' : t.pipeline.holdings.epoch < Checked.words64 := by
        rw [hstep, epochsOf]
        split
        · next hlook =>
          obtain ⟨camera, hcam⟩ := Option.isSome_iff_exists.mp hlook
          exact (sees_of_call hc hcam).epochs
        · exact hepoch
      have hrest := ih ha' hculled' hepoch'
      rw [hstep, Nat.add_assoc] at hrest
      refine Iff.trans ?_ hrest
      simp only [bind, Except.bind]
      cases t.pipeline.replay cs with
      | error e => simp
      | ok r => exact ⟨fun _ => ⟨r, rfl⟩, fun _ => ⟨_, rfl⟩⟩

/-! ### Quads -/

/-- What a call starts are parents of tiles. -/
theorem isQuad_of_started {c : Call κ} {t : Turn τ κ} (ha : p.Agrees []) (hc : p.call c = .ok t)
    {quad : QuadId} (hq : quad ∈ startsIn t.journal) : quad.IsQuad := by
  obtain ⟨t₀, tasks, ho, hs⟩ := steps_call hc
  obtain ⟨-, hnone, -⟩ := passage_open ho
  have hstart : ∀ q ∈ startsIn t₀.journal, q.IsQuad := by
    rw [hnone]
    exact fun q hq => by cases hq
  refine (Turn.Steps.keeps
    (I := fun w => w.1.pipeline.Agrees w.2 ∧ ∀ q ∈ startsIn w.1.journal, q.IsQuad) ?_ hs
    ⟨agrees_open ha ho, hstart⟩).2 quad hq
  rintro w w' ⟨ha, hi⟩ hstep
  exact ⟨agrees_step ha hstep, Turn.isQuad_step ha hi hstep⟩

/-- The tree that the pipeline goes down is no deeper than the levels supported. -/
theorem maxZoom_atRest {s : StreamSettings} (hs : s.validate = .ok ()) (culling : Culling κ)
    (coverage : Coverage) :
    (atRest (τ := τ) s culling coverage).quads.coverage.maxZoom ≤ maxSupportedZoom := by
  unfold StreamSettings.validate at hs
  split_ifs at hs with h1 h2 h3 h4 h5
  have hzoom : s.maxZoom ≤ maxSupportedZoom := UInt8.not_lt.mp h5
  show (if coverage.maxZoom ≤ s.maxZoom then coverage.maxZoom else s.maxZoom) ≤ maxSupportedZoom
  split
  · next hle => exact UInt8.le_trans hle hzoom
  · exact hzoom

/-! ### Runs -/

variable {s : StreamSettings} {needed : κ → List TileId} {coverage : Coverage}
  {start : Pipeline τ κ}

/-- **No call faults while there are epochs,** whatever tiles the culling lists. -/
theorem replay_answered (hs : ofSettings s (fun camera => .ok (needed camera)) coverage = .ok start)
    (cs : List (Call κ)) :
    ((∃ r, start.replay cs = .ok r) ↔ start.looks cs < Checked.words64) ∧
    ∀ past p, start.replay cs = .ok (past, p) →
      (∀ quad, ∃ r, p.slots.release quad = .ok r) ∧
      p.quads.coverage.maxZoom ≤ maxSupportedZoom ∧
      ∀ e ∈ past,
        (∀ quad ∈ startsIn e.2.journal, quad.children = .ok quad.childList ∧
          ∀ t ∈ quad.childList, t.parent? = some quad) ∧
        ∀ f ∈ e.2.effects.fetches, ∃ quad ∈ startsIn e.2.journal, f.tile ∈ quad.childList := by
  have ha := agrees_ofSettings hs
  have hrest := eq_of_ofSettings hs
  refine ⟨?_, fun past p hr => ?_⟩
  · have hculled : ∀ camera, ∃ needed, start.culling camera = .ok needed := by
      rw [hrest.2]
      exact fun camera => ⟨_, rfl⟩
    have hepoch : start.holdings.epoch = 0 := by
      rw [hrest.2]
      rfl
    have hiff := exists_replay_iff ha hculled (by rw [hepoch]; decide) cs
    rw [hepoch, Nat.zero_add] at hiff
    exact hiff
  · obtain ⟨hrun, -⟩ := run_of_replay hr
    obtain ⟨ha', halike, -⟩ := hrun.agrees hs
    refine ⟨ha'.exists_release, ?_, fun e he => ?_⟩
    · rw [halike.coverage, hrest.2]
      exact maxZoom_atRest hrest.1 _ _
    · obtain ⟨before, after, p', -, hbefore, hc⟩ := hrun.of_mem he
      have ha'' := (hbefore.agrees hs).1
      have hquad : ∀ quad ∈ startsIn e.2.journal, quad.IsQuad := fun quad hq =>
        isQuad_of_started ha'' hc hq
      refine ⟨fun quad hq => ?_, fun f hf => ?_⟩
      · exact ⟨TileId.children_eq (hquad quad hq),
          fun t ht => (TileId.mem_childList (hquad quad hq)).mp ht⟩
      · obtain ⟨quad, hq, hparent, -⟩ := (mem_fetches_call ha'' hc f).mp hf
        exact ⟨quad, hq, (TileId.mem_childList (hquad quad hq)).mpr hparent⟩

/-- Looks at ids that are no tiles, deliveries that nobody asked for, and a network that comes and
goes. -/
def strayCalls : List (Call (List TileId)) :=
  [.updateCamera [⟨255, 0xFFFFFFFF, 0xFFFFFFFF⟩, ⟨0, 7, 7⟩, ⟨31, 0, 0xFFFFFFFF⟩] ⟨0⟩,
    .deliver ⟨255, 0xFFFFFFFF, 0⟩ .ortho (.ok [1]) ⟨1⟩, .setOnline false ⟨2⟩, .poll ⟨3⟩,
    .setOnline true ⟨4⟩, .updateCamera [⟨1, 0xFFFFFFFF, 1⟩] ⟨5⟩]

theorem replay_answered_stray :
    ofSettings .standard .ok ⟨255, none⟩ = .ok (atRest (τ := Rat) .standard .ok ⟨255, none⟩) ∧
    ∃ past p, (atRest (τ := Rat) .standard .ok ⟨255, none⟩).replay strayCalls = .ok (past, p) ∧
      p.quads.coverage.maxZoom ≤ maxSupportedZoom := by
  have hs : ofSettings .standard (fun camera => .ok (id camera)) ⟨255, none⟩ =
      .ok (atRest (τ := Rat) .standard .ok ⟨255, none⟩) := rfl
  obtain ⟨hiff, hall⟩ := replay_answered hs strayCalls
  have hfew : (atRest (τ := Rat) .standard .ok ⟨255, none⟩).looks strayCalls < Checked.words64 :=
    Nat.lt_of_le_of_lt (looks_le_length _ _) (by decide)
  obtain ⟨⟨past, p⟩, hr⟩ := hiff.mpr hfew
  exact ⟨hs, past, p, hr, (hall past p hr).2.1⟩

end Pipeline

end TileStream
