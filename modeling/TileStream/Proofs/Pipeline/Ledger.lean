import TileStream.Proofs.Pipeline.Consistency

/-! # The ledger of fetches

A ledger of the fetches that are out can be kept from outside: an answer strikes out its fetch, and
then the fetches that the call ordered are added. It is what the owner of a pipeline sees, and
`Pipeline.Run.ledger_exact` says that it never lists a fetch twice and lists exactly the outcomes
that the tile joins wait for. An outcome that is not in the ledger changes nothing, so taking it in is
the same as polling. Nothing is assumed of the outcomes: they may come in any order, twice, late or
unasked. -/

namespace TileStream

/-- The call brings the outcome of that fetch. -/
def Call.answers {κ : Type} : Call κ → Fetch → Bool
  | deliver tile layer _ _, f => f = ⟨tile, layer⟩
  | _, _ => false

/-- What is left of a ledger after the answer in a call, and what the call adds. -/
def ledgerAfter {τ κ : Type} (out : List Fetch) (e : Call κ × Turn τ κ) : List Fetch :=
  out.filter (fun f => !e.1.answers f) ++ e.2.effects.fetches

/-- The fetches that were ordered and not answered since. -/
def ledger {τ κ : Type} (past : List (Call κ × Turn τ κ)) : List Fetch := past.foldl ledgerAfter []

namespace TileJoins

variable {a : TileJoins} {out : List Fetch}

/-- The ledger lists what the joins wait for, each fetch once. -/
structure Owes (a : TileJoins) (out : List Fetch) : Prop where
  nodup : out.Nodup
  mem : ∀ f, f ∈ out ↔ a.Awaits f

/-- Ordering a tile that is not being loaded adds its fetches. -/
theorem Owes.opened {tile : TileId} (h : a.Owes out)
    (hidle : a.isLoading tile = false) :
    (a.opened tile).Owes (out ++ a.fetchesOf tile) := by
  refine ⟨List.nodup_append.mpr ⟨h.nodup, a.nodup_fetchesOf tile, ?_⟩, fun f => ?_⟩
  · rintro f hf f' hf' rfl
    exact not_awaits_of_mem_fetchesOf hidle hf' ((h.mem f).mp hf)
  · rw [List.mem_append, h.mem, awaits_opened hidle]

/-- An answer strikes out its own fetch. -/
theorem Owes.deliver (h : a.Owes out) (tile : TileId) (layer : Layer) (outcome : Outcome) :
    (a.deliver tile layer outcome).1.Owes (out.filter fun f => !decide (f = ⟨tile, layer⟩)) := by
  refine ⟨h.nodup.filter _, fun f => ?_⟩
  rw [List.mem_filter, h.mem, awaits_deliver]
  simp

end TileJoins

namespace Pipeline

variable {τ κ : Type} {p : Pipeline τ κ} {t : Turn τ κ} {tasks : List Task} {out : List Fetch}

/-- A call begins with the answer struck out and nothing ordered. -/
theorem owes_open {c : Call κ} (h : p.tiles.Owes out) (ho : p.Opens c t tasks) :
    t.pipeline.tiles.Owes (out.filter fun f => !c.answers f) ∧ t.effects.fetches = [] := by
  have hsame : ∀ c : Call κ, (∀ f, c.answers f = false) →
      p.tiles.Owes (out.filter fun f => !c.answers f) := by
    intro c hc
    rwa [List.filter_eq_self.mpr fun f _ => by rw [hc]; rfl]
  cases ho with
  | look hl | resume _ _ hl =>
    obtain ⟨_, _, _, _, _, rfl, _⟩ := hl
    exact ⟨hsame _ fun _ => rfl, rfl⟩
  | @answer tile layer outcome _ _ _ hd =>
    have hdel := h.deliver tile layer outcome
    rw [hd] at hdel
    exact ⟨hdel, rfl⟩
  | poll | heed => exact ⟨hsame _ fun _ => rfl, rfl⟩

variable [TokenArithmetic τ]

/-- **A step orders the fetches of one tile at most,** and these join the ledger. -/
theorem owes_step {now : Instant} {w w' : Turn τ κ × List Task}
    (h : w.1.pipeline.tiles.Owes (out ++ w.1.effects.fetches)) (hs : Turn.Step now w w') :
    w'.1.pipeline.tiles.Owes (out ++ w'.1.effects.fetches) := by
  cases hs with
  | poll | start | startEmpty | startAgain | pass | passLast | offer | refuse => exact h
  | submit => rwa [Turn.pipeline_submit, Turn.effects_submit]
  | finish => rwa [Turn.pipeline_released, Turn.effects_released]
  | @call t tile _ _ _ hl =>
    rcases t.pipeline.tiles.load_cases tile with ⟨-, heq⟩ | ⟨-, heq⟩ | ⟨hidle, heq⟩ <;>
      rw [hl] at heq <;> cases heq
    show (t.pipeline.tiles.opened tile).Owes (out ++ (t.effects.fetches ++ _))
    rw [← List.append_assoc]
    exact h.opened hidle
  | @callEmpty t tile _ _ _ hl | @callAgain t tile _ _ hl =>
    rcases t.pipeline.tiles.load_cases tile with ⟨-, heq⟩ | ⟨-, heq⟩ | ⟨-, heq⟩ <;>
      rw [hl] at heq <;> cases heq
    exact h

theorem owes_call {c : Call κ} (h : p.tiles.Owes out) (hc : p.call c = .ok t) :
    t.pipeline.tiles.Owes (ledgerAfter out (c, t)) := by
  obtain ⟨t₀, tasks, ho, hs⟩ := steps_call hc
  obtain ⟨hopen, hnone⟩ := owes_open h ho
  refine Turn.Steps.keeps (I := fun w => w.1.pipeline.tiles.Owes
    (out.filter (fun f => !c.answers f) ++ w.1.effects.fetches)) owes_step hs ?_
  show t₀.pipeline.tiles.Owes (_ ++ t₀.effects.fetches)
  rwa [hnone, List.append_nil]

/-- An outcome that nobody waits for is as good as a poll. -/
theorem deliver_eq_poll {tile : TileId} {layer : Layer} (h : ¬ p.tiles.Awaits ⟨tile, layer⟩)
    (outcome : Outcome) (now : Instant) : p.deliver tile layer outcome now = p.poll now := by
  unfold deliver
  rw [TileJoins.deliver_of_not_awaits h]
  rfl

variable {s : StreamSettings} {culling : Culling κ} {coverage : Coverage} {start : Pipeline τ κ}
  {past : List (Call κ × Turn τ κ)}

theorem Run.owes (hs : ofSettings s culling coverage = .ok start) (h : start.Run past p) :
    p.tiles.Owes (ledger past) := by
  -- on calls: an answer is struck out before its call orders anything
  induction h with
  | rest =>
    obtain ⟨-, rfl⟩ := eq_of_ofSettings hs
    refine ⟨List.nodup_nil, fun f => ?_⟩
    simp [ledger, atRest, TileJoins.not_awaits_ofLayers]
  | call _ hc ih =>
    rw [ledger, List.foldl_append]
    exact owes_call ih hc

/-- **The ledger is exact.** After every run it lists each fetch once and lists those whose tile is
being loaded and whose layer is outstanding there. The outcome of any other fetch is the same as a
poll. -/
theorem Run.ledger_exact (hs : ofSettings s culling coverage = .ok start) (h : start.Run past p) :
    (ledger past).Nodup ∧
    (∀ f, f ∈ ledger past ↔
      ∃ j, p.tiles.pending.get? f.tile = some j ∧ j.outstanding.contains f.layer = true) ∧
    ∀ tile layer outcome now, ⟨tile, layer⟩ ∉ ledger past →
      p.deliver tile layer outcome now = p.poll now := by
  have howes := h.owes hs
  exact ⟨howes.nodup, howes.mem, fun tile layer outcome now hout =>
    deliver_eq_poll (fun hw => hout ((howes.mem _).mpr hw)) outcome now⟩

theorem Run.ledger_exact_few_calls : ∃ past p, sample.Run past p ∧ past.map (·.1) = fewCalls ∧
    (ledger past).Nodup ∧ ∀ f, f ∈ ledger past ↔ p.tiles.Awaits f := by
  obtain ⟨past, p, hrun, hcalls⟩ := exists_run
  obtain ⟨hnodup, hmem, -⟩ := Run.ledger_exact ofSettings_sample hrun
  exact ⟨past, p, hrun, hcalls, hnodup, hmem⟩

end Pipeline

end TileStream
