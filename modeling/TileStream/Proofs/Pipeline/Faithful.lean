import TileStream.Proofs.Join.Settled
import TileStream.Proofs.Pipeline.Consistency

/-! # Finished quads tell the replies

All that a pipeline learns of the fetches is what its calls bring, and all that its owner learns of them
is what the calls order (`events`). A finished quad tells the replies when it lists its existing children
in order, each with the replies to the fetches of its enabled layers and nothing else
(`QuadRecord.Reports`). Then nothing but these replies matters: not in what order they came, and not what
else came in between (`QuadRecord.Reports.eq`).

Whatever is held of a tile or a quad under way tells the replies so far (`Turn.Faithful`). Within a call
the replies are those of the calls before and of the outcome that the call brings. The tiles that the
call orders have no reply in it, and none of them is among those held.

* `Turn.faithful_step`: every step is true to the replies.
* `Pipeline.faithful_call`: so is every call, and what is finished in it tells the replies. -/

namespace TileStream

/-- The outcome that a call brings. -/
def Call.brings {κ : Type} : Call κ → List Event
  | deliver tile layer outcome _ => [.answered ⟨tile, layer⟩ outcome]
  | _ => []

/-- The orders of a turn. -/
def Turn.orders {τ κ : Type} (t : Turn τ κ) : List Event := t.effects.fetches.map .ordered

/-- **What befell the fetches in some calls:** in each the outcome that it brings, if it brings one, and
then its orders. -/
def events {τ κ : Type} (past : List (Call κ × Turn τ κ)) : List Event :=
  past.flatMap fun e => e.1.brings ++ e.2.orders

theorem brings_of_answered {τ κ : Type} {past : List (Call κ × Turn τ κ)} {f : Fetch}
    {outcome : Outcome} (h : .answered f outcome ∈ events past) :
    ∃ e ∈ past, .answered f outcome ∈ e.1.brings := by
  obtain ⟨e, he, hmem⟩ := List.mem_flatMap.mp h
  rcases List.mem_append.mp hmem with hbrings | horder
  · exact ⟨e, he, hbrings⟩
  · simp [Turn.orders] at horder

/-! ### Finished quads -/

namespace QuadRecord

/-- **The record tells the replies** of the existing children of its quad, in order. -/
structure Reports (coverage : Coverage) (layers : LayerSet) (es : List Event) (record : QuadRecord) :
    Prop where
  children : coverage.children record.id = .ok (record.tiles.map (·.id))
  settled : ∀ r ∈ record.tiles, r.Settled layers es

variable {coverage : Coverage} {layers : LayerSet} {es es' : List Event} {record record' : QuadRecord}

theorem eq_of_ids {rs rs' : List TileRecord} (hids : rs.map (·.id) = rs'.map (·.id))
    (h : ∀ r ∈ rs, ∀ r' ∈ rs', r.id = r'.id → r = r') : rs = rs' := by
  induction rs generalizing rs' with
  | nil =>
    cases rs' with
    | nil => rfl
    | cons => cases hids
  | cons r rs ih =>
    cases rs' with
    | nil => cases hids
    | cons r' rs' =>
      obtain ⟨hid, hids⟩ := List.cons.inj hids
      rw [h r List.mem_cons_self r' List.mem_cons_self hid, ih hids fun a ha b hb =>
        h a (List.mem_cons_of_mem _ ha) b (List.mem_cons_of_mem _ hb)]

/-- **Records of a quad with the same replies are the same.** -/
theorem Reports.eq (h : Reports coverage layers es record) (h' : Reports coverage layers es' record')
    (hid : record.id = record'.id)
    (hsame : ∀ r ∈ record.tiles, ∀ l outcome,
      Replied es ⟨r.id, l⟩ outcome ↔ Replied es' ⟨r.id, l⟩ outcome) : record = record' := by
  have hchildren := h.children
  rw [hid, h'.children, Except.ok.injEq] at hchildren
  have htiles : record.tiles = record'.tiles :=
    eq_of_ids hchildren.symm fun r hr r' hr' he =>
      (h.settled r hr).eq (h'.settled r' hr') he (hsame r hr)
  obtain ⟨id, tiles⟩ := record
  obtain ⟨id', tiles'⟩ := record'
  exact (QuadRecord.mk.injEq ..).mpr ⟨hid, htiles⟩

/-- What a record lost to the network had a reply that told so. -/
theorem Reports.exists_transient (h : Reports coverage layers es record) (hq : record.id.IsQuad)
    (hlost : record.hasNetworkFailure = true) : ∃ f outcome, f.tile.parent? = some record.id ∧
      coverage.covers f.tile = true ∧ layers.contains f.layer = true ∧ Replied es f outcome ∧
      outcome.isTransient = true := by
  obtain ⟨r, hr, hlost⟩ := List.any_eq_true.mp hlost
  obtain ⟨l, outcome, hl, hreplied, htransient⟩ := (h.settled r hr).exists_transient hlost
  have hchild : r.id ∈ record.tiles.map (·.id) := List.mem_map.mpr ⟨r, hr, rfl⟩
  obtain ⟨hcovered, hparent⟩ := (Coverage.mem_children hq h.children).mp hchild
  exact ⟨⟨r.id, l⟩, outcome, hparent, hcovered, hl, hreplied, htransient⟩

end QuadRecord

/-! ### In the middle of a call -/

namespace Turn

variable {τ κ : Type} {base : List Event} {w w' : Turn τ κ × List Task}

/-- **What is under way is true to the replies,** with some tasks left. The replies are those of `base`
and of no order in this turn. -/
structure Faithful (base : List Event) (w : Turn τ κ × List Task) : Prop where
  tiles : w.1.pipeline.tiles.Settling (base ++ w.1.orders)
  quads : w.1.pipeline.quads.Holds (TileRecord.Settled w.1.pipeline.tiles.layers (base ++ w.1.orders))
  passed : ∀ r, .pass r ∈ w.2 → r.Settled w.1.pipeline.tiles.layers (base ++ w.1.orders)
  finished : ∀ r, .finish r ∈ w.2 ∨ .finished r ∈ w.1.journal →
    r.Reports w.1.pipeline.quads.coverage w.1.pipeline.tiles.layers base

/-- Nothing was ordered or held, and nothing more is finished. -/
theorem Faithful.mono (h : Faithful base w) (htiles : w'.1.pipeline.tiles = w.1.pipeline.tiles)
    (hquads : w'.1.pipeline.quads = w.1.pipeline.quads) (horders : w'.1.orders = w.1.orders)
    (hpassed : ∀ r, .pass r ∈ w'.2 → .pass r ∈ w.2)
    (hfinished : ∀ r, .finish r ∈ w'.2 ∨ .finished r ∈ w'.1.journal →
      .finish r ∈ w.2 ∨ .finished r ∈ w.1.journal) : Faithful base w' := by
  obtain ⟨h1, h2, h3, h4⟩ := h
  refine ⟨?_, ?_, fun r hr => ?_, fun r hr => ?_⟩
  · rw [htiles, horders]
    exact h1
  · rw [hquads, htiles, horders]
    exact h2
  · rw [htiles, horders]
    exact h3 r (hpassed r hr)
  · rw [hquads, htiles]
    exact h4 r (hfinished r hr)

variable {t : Turn τ κ} {tasks : List Task}

/-- A quad that is started has no records yet, and one that has no children is finished with none. -/
theorem Faithful.start {quad : QuadId} {quads : QuadJoins} {start : QuadStart} {more : List Task}
    (h : Faithful base (t, .start quad :: tasks)) (ha : t.pipeline.Agrees (.start quad :: tasks))
    (hl : t.pipeline.quads.load quad = .ok (quads, start)) (hpassed : ∀ r, .pass r ∉ more)
    (hfinish : ∀ r, .finish r ∈ more → start = .complete r) :
    Faithful base ({ t.started quad with pipeline.quads := quads }, more ++ tasks) := by
  obtain ⟨hquad, hidle, -⟩ := ha.load
  obtain ⟨hholds, hcomplete⟩ := QuadJoins.holds_load h.quads hquad hidle hl
  refine ⟨h.tiles, hholds, fun r hr => ?_, fun r hr => ?_⟩
  · rcases List.mem_append.mp hr with hr | hr
    · exact absurd hr (hpassed r)
    · exact h.passed r (List.mem_cons_of_mem _ hr)
  · by_cases hnew : .finish r ∈ more
    · obtain ⟨hc, hnil⟩ := hcomplete r (hfinish r hnew)
      refine ⟨by rw [hnil]; exact hc, fun tile ht => ?_⟩
      rw [hnil] at ht
      cases ht
    · show r.Reports quads.coverage _ base
      rw [QuadJoins.coverage_load hl]
      refine h.finished r ?_
      rcases hr with hr | hr
      · exact .inl (List.mem_cons_of_mem _ ((List.mem_append.mp hr).resolve_left hnew))
      · rcases List.mem_append.mp hr with hr | hr
        · exact .inr hr
        · cases List.mem_singleton.mp hr

/-- **A tile that is ordered is none of those whose replies are told.** -/
theorem Faithful.call {tile : TileId} {tiles : TileJoins} {requests : List Fetch}
    (h : Faithful base (t, .call tile :: tasks)) (ha : t.pipeline.Agrees (.call tile :: tasks))
    (hl : t.pipeline.tiles.load tile = (tiles, .fetch requests)) :
    Faithful base ({ t with
      pipeline.tiles := tiles, effects.fetches := t.effects.fetches ++ requests }, tasks) := by
  obtain ⟨hawaits, -, hout⟩ := ha.idle
  rcases t.pipeline.tiles.load_cases tile with ⟨-, heq⟩ | ⟨-, heq⟩ | ⟨-, heq⟩ <;>
    rw [hl] at heq <;> cases heq
  -- only the replies to the new tile are affected
  have horders : base ++ Turn.orders { t with
      pipeline.tiles := t.pipeline.tiles.opened tile
      effects.fetches := t.effects.fetches ++ t.pipeline.tiles.fetchesOf tile } =
      base ++ t.orders ++ (t.pipeline.tiles.fetchesOf tile).map .ordered := by
    simp [orders]
  have hother : ∀ r : TileRecord, r.id ≠ tile →
      r.Settled t.pipeline.tiles.layers (base ++ t.orders) →
      r.Settled t.pipeline.tiles.layers
        (base ++ t.orders ++ (t.pipeline.tiles.fetchesOf tile).map .ordered) := by
    intro r hne hr
    refine hr.mono fun l _ => ?_
    rw [reply_append_ordered, if_neg fun hin => hne (TileJoins.mem_fetchesOf.mp hin).1]
  refine ⟨?_, ?_, fun r hr => ?_, fun r hr => ?_⟩
  · rw [horders]
    exact TileJoins.settling_opened h.tiles tile
  · rw [horders]
    exact h.quads.mono fun q j hj r hr => hother r (QuadJoins.ne_of_awaits ha.quads hawaits hj hr)
  · rw [horders]
    refine hother r ?_ (h.passed r (List.mem_cons_of_mem _ hr))
    rintro rfl
    exact hout (List.mem_filterMap.mpr ⟨.pass r, hr, rfl⟩)
  · exact h.finished r (hr.imp_left (List.mem_cons_of_mem _))

theorem Faithful.callEmpty {tile : TileId} {tiles : TileJoins} {record : TileRecord}
    (h : Faithful base (t, .call tile :: tasks))
    (hl : t.pipeline.tiles.load tile = (tiles, .complete record)) :
    Faithful base ({ t with pipeline.tiles := tiles }, .pass record :: tasks) := by
  obtain ⟨rfl, rfl, hempty⟩ := TileJoins.load_complete hl
  refine ⟨h.tiles, h.quads, fun r hr => ?_, fun r hr => h.finished r ?_⟩
  · rcases List.mem_cons.mp hr with hr | hr
    · cases hr
      exact TileRecord.settled_empty hempty _ _
    · exact h.passed r (List.mem_cons_of_mem _ hr)
  · exact hr.imp_left fun hr => by simpa using hr

/-- **A tile that is passed on joins the others of its quad,** and the last one finishes it. -/
theorem Faithful.pass {record : TileRecord} {quads : QuadJoins} {finished : Option QuadRecord}
    (h : Faithful base (t, .pass record :: tasks)) (ha : t.pipeline.Agrees (.pass record :: tasks))
    (hd : t.pipeline.quads.deliver record = (quads, finished)) :
    Faithful base ({ t with pipeline.quads := quads }, finished.toList.map .finish ++ tasks) := by
  have hcoverage := t.pipeline.quads.coverage_deliver record
  rw [hd] at hcoverage
  obtain ⟨hholds, hlast⟩ := QuadJoins.holds_deliver ha.quads
    (ha.handled record.id List.mem_cons_self) h.quads (h.passed record List.mem_cons_self) hd
  refine ⟨h.tiles, hholds, fun r hr => h.passed r (List.mem_cons_of_mem _ ?_), fun r hr => ?_⟩
  · simpa using hr
  · by_cases hnew : finished = some r
    · obtain ⟨hchildren, hsettled⟩ := hlast r hnew
      exact ⟨hchildren, fun tile ht => (hsettled tile ht).of_orders⟩
    · show r.Reports quads.coverage _ base
      rw [hcoverage]
      refine h.finished r (hr.imp_left fun hr => ?_)
      rcases List.mem_append.mp hr with hr | hr
      · obtain ⟨r', hr', heq⟩ := List.mem_map.mp hr
        cases heq
        exact absurd (Option.mem_toList.mp hr') hnew
      · exact List.mem_cons_of_mem _ hr

variable [TokenArithmetic τ]

/-- **Every step is true to the replies.** -/
theorem faithful_step {now : Instant} (ha : w.1.pipeline.Agrees w.2) (h : Faithful base w)
    (hs : Step now w w') : Faithful base w' := by
  cases hs with
  | poll => exact h.mono rfl rfl rfl (fun r hr => by simp at hr) (fun r hr => by simpa using hr)
  | submit =>
    refine h.mono ?_ ?_ ?_ (fun r hr => List.mem_cons_of_mem _ hr) fun r hr => ?_
    · rw [pipeline_submit]
    · rw [pipeline_submit]
    · rw [orders, effects_submit, orders]
    · refine hr.imp (List.mem_cons_of_mem _) fun hr => ?_
      rw [journal_submit] at hr
      split at hr
      · exact hr
      · simpa using hr
  | start hl => exact h.start ha hl (fun r hr => by simp at hr) (fun r hr => by simp at hr)
  | @startEmpty _ _ _ record _ hl =>
    have hnone : ∀ r, .pass r ∉ [Task.finish record] := fun r hr => by simp at hr
    refine h.start ha hl hnone fun r hr => ?_
    cases List.mem_singleton.mp hr
    rfl
  | startAgain hl => exact absurd hl ha.not_startAgain
  | call hl => exact h.call ha hl
  | callEmpty hl => exact h.callEmpty hl
  | callAgain hl => exact absurd hl ha.not_callAgain
  | pass hd => exact h.pass ha hd
  | passLast hd => exact h.pass ha hd
  | finish hr =>
    refine h.mono ?_ ?_ ?_ (fun r hr => by simpa using hr) fun r hr => ?_
    · rw [pipeline_released]
    · rw [pipeline_released]
    · rw [orders, effects_released, orders]
    · rw [journal_released] at hr
      rcases hr with hr | hr
      · exact .inl (List.mem_cons_of_mem _ (by simpa using hr))
      · rcases List.mem_append.mp hr with hr | hr
        · exact .inr hr
        · cases List.mem_singleton.mp hr
          exact .inl List.mem_cons_self
  | offer | refuse =>
    exact h.mono rfl rfl rfl (fun r hr => List.mem_cons_of_mem _ hr)
      fun r hr => hr.imp_left (List.mem_cons_of_mem _)

end Turn

/-! ### Between the calls -/

namespace Pipeline

variable {τ κ : Type} {p : Pipeline τ κ} {t : Turn τ κ} {tasks : List Task} {es : List Event}

/-- **What is being loaded is true to the replies.** -/
structure Faithful (p : Pipeline τ κ) (es : List Event) : Prop where
  tiles : p.tiles.Settling es
  quads : p.quads.Holds (TileRecord.Settled p.tiles.layers es)

theorem Faithful.begins (h : t.pipeline.Faithful es) (horders : t.orders = [])
    (hpassed : ∀ r, .pass r ∈ tasks → r.Settled t.pipeline.tiles.layers es)
    (hfinished : ∀ r, .finish r ∉ tasks ∧ .finished r ∉ t.journal) :
    Turn.Faithful es (t, tasks) := by
  have hbase : es ++ t.orders = es := by rw [horders, List.append_nil]
  refine ⟨?_, ?_, ?_, fun r hr => ?_⟩
  · rw [hbase]
    exact h.tiles
  · rw [hbase]
    exact h.quads
  · rw [hbase]
    exact hpassed
  · exact absurd hr (not_or.mpr (hfinished r))

theorem Looks.faithful {camera : κ} {now : Instant} (hl : p.Looks camera now t tasks)
    (h : p.Faithful es) : Turn.Faithful es (t, tasks) := by
  obtain ⟨_, _, _, _, _, rfl, rfl⟩ := hl
  exact Faithful.begins (t := looking p _ _ _) ⟨h.tiles, h.quads⟩ rfl (fun r hr => by simp at hr)
    fun r => by simp [looking]

/-- **Every call begins true to the replies,** that of the outcome it brings among them. -/
theorem faithful_open {c : Call κ} (h : p.Faithful es) (hk : p.tiles.Keyed)
    (ho : p.Opens c t tasks) : Turn.Faithful (es ++ c.brings) (t, tasks) := by
  cases ho with
  | look hl =>
    show Turn.Faithful (es ++ []) _
    rw [List.append_nil]
    exact hl.faithful h
  | @answer tile layer outcome _ tiles finished hd =>
    obtain ⟨hsettling, hfinished⟩ := TileJoins.settling_deliver h.tiles hk hd
    have hlayers : (p.tiles.deliver tile layer outcome).1.layers = p.tiles.layers :=
      TileJoins.layers_deliver _ _ _ _
    rw [hd] at hlayers
    have hquads : p.quads.Holds
        (TileRecord.Settled tiles.layers (es ++ [.answered ⟨tile, layer⟩ outcome])) := by
      rw [show tiles.layers = p.tiles.layers from hlayers]
      exact h.quads.mono fun q j hj r hr hs => hs.concat_answered _ _
    have hbegin : Faithful { p with tiles } (es ++ [.answered ⟨tile, layer⟩ outcome]) :=
      ⟨hsettling, hquads⟩
    refine Faithful.begins (t := { p with tiles }.turn) hbegin rfl (fun r hr => ?_) fun r => ?_
    · obtain ⟨r', hr', heq⟩ := List.mem_map.mp hr
      cases heq
      exact hfinished r (Option.mem_toList.mp hr')
    · exact ⟨by simp, List.not_mem_nil⟩
  | poll | heed =>
    show Turn.Faithful (es ++ []) _
    rw [List.append_nil]
    exact Faithful.begins (t := turn _) ⟨h.tiles, h.quads⟩ rfl (fun r hr => by cases hr)
      fun r => ⟨List.not_mem_nil, List.not_mem_nil⟩
  | resume _ _ hl =>
    show Turn.Faithful (es ++ []) _
    rw [List.append_nil]
    exact hl.faithful ⟨h.tiles, h.quads⟩

variable [TokenArithmetic τ]

/-- **A call is true to the replies,** and so is what is finished in it. -/
theorem faithful_call {c : Call κ} (h : p.Faithful es) (ha : p.Agrees []) (hc : p.call c = .ok t) :
    t.pipeline.Faithful (es ++ (c.brings ++ t.orders)) ∧
      ∀ record, .finished record ∈ t.journal →
        record.Reports p.quads.coverage p.tiles.layers (es ++ c.brings) := by
  obtain ⟨t₀, tasks, ho, hs⟩ := steps_call hc
  have hend : t.pipeline.Agrees [] ∧ p.Alike t.pipeline ∧ Turn.Faithful (es ++ c.brings) (t, []) :=
    Turn.Steps.keeps (I := fun w => w.1.pipeline.Agrees w.2 ∧ p.Alike w.1.pipeline ∧
      Turn.Faithful (es ++ c.brings) w)
      (fun ⟨ha, hl, hf⟩ hstep => ⟨agrees_step ha hstep, hl.trans (alike_step hstep),
        Turn.faithful_step ha hf hstep⟩) hs
      ⟨agrees_open ha ho, alike_open ho, faithful_open h ha.keyed ho⟩
  obtain ⟨-, hl, hf⟩ := hend
  rw [← List.append_assoc, ← hl.coverage, ← hl.layers]
  exact ⟨⟨hf.tiles, hf.quads⟩, fun record hr => hf.finished record (.inr hr)⟩

end Pipeline

end TileStream
