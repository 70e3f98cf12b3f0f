import TileStream.Proofs.Holdings.Enumeration
import TileStream.Proofs.Pipeline.InView

/-! # Answers do not depend on how sets are listed

A culling is read as a set of tiles, so two cullings that list the same tiles must not be told apart,
not even when every call is made with another listing (`Culling.SameTiles`). Pipelines match when
their holdings do and all else is the same (`Pipeline.Matches`); every part of a call takes matching
turns to matching turns, or both to the same fault, and a look at a camera brings the cullings in at
one place only, the view of the holdings. So the answers of a pipeline, call after call, are those of
any pipeline that matches it (`Run.answers_eq`). -/

namespace TileStream

/-- **The same tiles for every camera,** in any order and any number of times each. -/
def Culling.SameTiles {κ : Type} (culling culling' : Culling κ) : Prop :=
  ∀ camera, Corresponds (fun needed needed' => ∀ t, t ∈ needed ↔ t ∈ needed') (culling camera)
    (culling' camera)

/-- Holdings that match, and all else the same but for the culling. -/
def Pipeline.Matches {τ κ : Type} (p p' : Pipeline τ κ) : Prop :=
  ∃ holdings culling, p' = { p with holdings, culling } ∧ p.holdings.Matches holdings

namespace Turn

variable {τ κ : Type} {t t' : Turn τ κ} {now : Instant}

/-- Pipelines that match, with the same effects and the same journal. -/
def Matches (t t' : Turn τ κ) : Prop :=
  ∃ pipeline, t' = { t with pipeline } ∧ t.pipeline.Matches pipeline

/-! ### The parts of a call -/

theorem Matches.released (hm : t.Matches t') (record : QuadRecord) (slots : Slots)
    (next : Option QuadId) :
    (t.released record slots next).Matches (t'.released record slots next) := by
  obtain ⟨_, rfl, holdings, culling, rfl, hh⟩ := hm
  cases next with
  | none => exact ⟨_, rfl, _, _, rfl, hh⟩
  | some quad => exact ⟨_, rfl, _, _, rfl, hh⟩

/-- A finished quad is cached or refused alike. -/
theorem Matches.offer (hm : t.Matches t') (record : QuadRecord) (now : Instant) :
    (t.offer record now).Matches (t'.offer record now) := by
  obtain ⟨_, rfl, holdings, culling, rfl, hh⟩ := hm
  have hr := hh.receive record now
  unfold Turn.offer
  dsimp only
  generalize t.pipeline.holdings.receive record now = r, holdings.receive record now = r' at hr
  cases hr with
  | error e => exact ⟨_, rfl, _, _, rfl, hh⟩
  | @ok a b hab =>
    obtain ⟨h, _⟩ := a
    obtain ⟨h', delta⟩ := b
    obtain ⟨hmatch, rfl⟩ := hab
    exact ⟨_, rfl, _, _, rfl, hmatch⟩

theorem Matches.finish (hm : t.Matches t') (now : Instant) (record : QuadRecord) :
    Corresponds Matches (t.finish now record) (t'.finish now record) := by
  have hreleased := hm.released record
  obtain ⟨_, rfl, holdings, culling, rfl, hh⟩ := hm
  unfold Turn.finish
  dsimp only
  cases t.pipeline.slots.release record.id with
  | error e => exact .error e
  | ok r => exact .ok ((hreleased r.1 r.2).offer record now)

theorem Matches.finishTile (hm : t.Matches t') (now : Instant) (record : TileRecord) :
    Corresponds Matches (t.finishTile now record) (t'.finishTile now record) := by
  obtain ⟨_, rfl, holdings, culling, rfl, hh⟩ := hm
  unfold Turn.finishTile
  dsimp only
  cases t.pipeline.quads.deliver record with
  | mk quads finished =>
    have hquads : Matches { t with pipeline.quads := quads }
        { t with pipeline := { t.pipeline with holdings, culling, quads } } :=
      ⟨_, rfl, _, _, rfl, hh⟩
    cases finished with
    | none => exact .ok hquads
    | some quad => exact hquads.finish now quad

theorem Matches.loadTile (hm : t.Matches t') (now : Instant) (tile : TileId) :
    Corresponds Matches (t.loadTile now tile) (t'.loadTile now tile) := by
  obtain ⟨_, rfl, holdings, culling, rfl, hh⟩ := hm
  unfold Turn.loadTile
  dsimp only
  cases t.pipeline.tiles.load tile with
  | mk tiles start =>
    have htiles : Matches { t with pipeline.tiles := tiles }
        { t with pipeline := { t.pipeline with holdings, culling, tiles } } :=
      ⟨_, rfl, _, _, rfl, hh⟩
    cases start with
    | fetch requests => exact .ok ⟨_, rfl, _, _, rfl, hh⟩
    | complete record => exact htiles.finishTile now record
    | alreadyLoading => exact .ok ⟨_, rfl, _, _, rfl, hh⟩

theorem Matches.foldlM {α : Type} {step : Turn τ κ → α → Checked (Turn τ κ)}
    (hstep : ∀ {t t'} a, t.Matches t' → Corresponds Matches (step t a) (step t' a)) (as : List α)
    (hm : t.Matches t') : Corresponds Matches (as.foldlM step t) (as.foldlM step t') := by
  induction as generalizing t t' with
  | nil => exact .ok hm
  | cons a as ih =>
    rw [List.foldlM_cons, List.foldlM_cons]
    exact (hstep a hm).bind ih

theorem Matches.assemble (hm : t.Matches t') (now : Instant) (quad : QuadId) :
    Corresponds Matches (t.assemble now quad) (t'.assemble now quad) := by
  obtain ⟨_, rfl, holdings, culling, rfl, hh⟩ := hm
  unfold Turn.assemble
  simp only [note]
  cases t.pipeline.quads.load quad with
  | error e => exact .error e
  | ok r =>
    obtain ⟨quads, start⟩ := r
    have hquads : Matches { t.started quad with pipeline.quads := quads }
        { Turn.started { t with pipeline := { t.pipeline with holdings, culling } } quad with
          pipeline.quads := quads } :=
      ⟨_, rfl, _, _, rfl, hh⟩
    cases start with
    | started tiles => exact hquads.foldlM (fun tile hm => hm.loadTile now tile) tiles
    | complete record => exact hquads.finish now record
    | alreadyLoading => exact .ok ⟨_, rfl, _, _, rfl, hh⟩

/-- A round of the end of a call, in which some quads leave the token bucket. -/
theorem Matches.round (hm : t.Matches t') (now : Instant) (bucket : TokenBucket τ)
    (quads : List QuadId) :
    Corresponds Matches (quads.foldlM (Turn.assemble now) { t with pipeline.bucket := bucket })
      (quads.foldlM (Turn.assemble now) { t' with pipeline.bucket := bucket }) := by
  obtain ⟨_, rfl, holdings, culling, rfl, hh⟩ := hm
  exact Matches.foldlM (fun quad hm => hm.assemble now quad) quads ⟨_, rfl, _, _, rfl, hh⟩

/-- A quad asks for a slot in matching turns. -/
theorem Matches.submit (hm : t.Matches t') (quad : QuadId) :
    (t.submit quad).Matches (t'.submit quad) := by
  obtain ⟨_, rfl, holdings, culling, rfl, hh⟩ := hm
  unfold Turn.submit
  dsimp only
  rw [await_eq, await_eq]
  split
  · exact ⟨_, rfl, _, _, rfl, hh⟩
  · exact ⟨_, rfl, _, _, rfl, hh⟩

theorem Matches.foldl_submit (hm : t.Matches t') (quads : List QuadId) :
    (quads.foldl Turn.submit t).Matches (quads.foldl Turn.submit t') := by
  induction quads generalizing t t' with
  | nil => exact hm
  | cons quad rest ih => exact ih (hm.submit quad)

variable [TokenArithmetic τ]

/-- The end of a call, round by round. -/
theorem dispatch_eq (now : Instant) (t : Turn τ κ) : t.dispatch now =
    match t.pipeline.bucket.poll now with
    | (bucket, []) => .ok { t with pipeline.bucket := bucket }
    | (bucket, quad :: rest) =>
      (quad :: rest).foldlM (Turn.assemble now) { t with pipeline.bucket := bucket } >>=
        Turn.dispatch now := by
  rw [dispatch]
  split
  · next hp => rw [hp]
  · next hp =>
    rw [hp]
    dsimp only
    split
    · next hs => rw [hs]; rfl
    · next hs => rw [hs]; rfl

/-- **The end of a call** releases the same quads in matching turns. -/
theorem Matches.dispatch (hm : t.Matches t') (now : Instant) :
    Corresponds Matches (t.dispatch now) (t'.dispatch now) := by
  have hbucket : ∀ {t t' : Turn τ κ}, t.Matches t' → t'.pipeline.bucket = t.pipeline.bucket := by
    rintro t t' ⟨_, rfl, holdings, culling, rfl, -⟩
    rfl
  fun_induction Turn.dispatch now t generalizing t' with
  | case1 t bucket hp =>
    rw [dispatch_eq, hbucket hm, hp]
    exact hm.round now bucket []
  | case2 t bucket quad rest hp e hs =>
    have hround := hm.round now bucket (quad :: rest)
    rw [dispatch_eq now t', hbucket hm, hp]
    dsimp only
    generalize (quad :: rest).foldlM (Turn.assemble now)
      { t' with pipeline.bucket := bucket } = r at hround ⊢
    rw [hs] at hround
    cases hround
    exact .error e
  | case3 t bucket quad rest hp u hs ih =>
    have hround := hm.round now bucket (quad :: rest)
    rw [dispatch_eq now t', hbucket hm, hp]
    dsimp only
    generalize (quad :: rest).foldlM (Turn.assemble now)
      { t' with pipeline.bucket := bucket } = r at hround ⊢
    rw [hs] at hround
    cases hround with
    | ok hu => exact ih hu

end Turn

namespace Pipeline

variable {τ κ : Type} {p p' : Pipeline τ κ}

/-- The pipeline with another culling. -/
def withCulling (p : Pipeline τ κ) (culling : Culling κ) : Pipeline τ κ := { p with culling }

theorem Matches.tally (hm : p.Matches p') : p'.tally = p.tally := by
  obtain ⟨holdings, culling, rfl, hh⟩ := hm
  have hdesired := hh.desired.length_eq
  obtain ⟨recency, hc, -⟩ := hh.cache
  obtain ⟨recency', hg, hr⟩ := hh.residents
  have hcached : holdings.cache.size = p.holdings.cache.size := by
    rw [hc]
    rfl
  have hresident : holdings.residents.size = p.holdings.residents.size := by
    rw [hg]
    exact hr.size
  unfold Pipeline.tally
  rw [Tally.mk.injEq]
  exact ⟨hdesired.symm, hcached, hresident, rfl, rfl, rfl, rfl⟩

variable [TokenArithmetic τ]

/-! ### Calls -/

/-- **A look at a camera** has the same effects however the needed tiles are listed. -/
theorem Matches.updateCamera (hm : p.Matches p') (hh : p.holdings.Held)
    (hc : p.culling.SameTiles p'.culling) (camera : κ) (now : Instant) :
    Corresponds Turn.Matches (p.updateCamera camera now) (p'.updateCamera camera now) := by
  obtain ⟨holdings, culling, rfl, hmatch⟩ := hm
  unfold Pipeline.updateCamera
  refine (hc camera).bind fun {needed needed'} hn => ?_
  refine (hmatch.view hh hn now p.slots.contains).bind fun {a b} hab => ?_
  obtain ⟨h, _⟩ := a
  obtain ⟨h', orders⟩ := b
  obtain ⟨hview, rfl⟩ := hab
  have hlook : (p.looking camera h orders).Matches
      (looking { p with holdings, culling } camera h' orders) := by
    unfold looking
    dsimp only at hview ⊢
    rw [hview.isDesired]
    exact ⟨_, rfl, _, _, rfl, hview⟩
  exact (hlook.foldl_submit orders.requests).dispatch now

theorem Matches.deliver (hm : p.Matches p') (tile : TileId) (layer : Layer) (outcome : Outcome)
    (now : Instant) : Corresponds Turn.Matches (p.deliver tile layer outcome now)
      (p'.deliver tile layer outcome now) := by
  obtain ⟨holdings, culling, rfl, hh⟩ := hm
  unfold Pipeline.deliver
  dsimp only
  cases p.tiles.deliver tile layer outcome with
  | mk tiles finished =>
    have hturn : Turn.Matches { p with tiles }.turn (turn { p with holdings, culling, tiles }) :=
      ⟨_, rfl, _, _, rfl, hh⟩
    cases finished with
    | none => exact hturn.dispatch now
    | some record => exact (hturn.finishTile now record).bind fun hm => hm.dispatch now

theorem Matches.setOnline (hm : p.Matches p') (hh : p.holdings.Held)
    (hc : p.culling.SameTiles p'.culling) (online : Bool) (now : Instant) :
    Corresponds Turn.Matches (p.setOnline online now) (p'.setOnline online now) := by
  obtain ⟨holdings, culling, rfl, hmatch⟩ := hm
  have honline : holdings.online = p.holdings.online := by
    obtain ⟨_, _, _, rfl⟩ := hmatch.others
    rfl
  have hset : Matches { p with holdings.online := online }
      { p with holdings := { holdings with online }, culling } := by
    obtain ⟨_, _, _, rfl⟩ := hmatch.others
    exact ⟨_, _, rfl, ⟨_, _, _, rfl⟩, hmatch.cache, hmatch.residents, hmatch.desired⟩
  have hturn : Turn.Matches { p with holdings.online := online }.turn
      (turn { p with holdings := { holdings with online }, culling }) := ⟨_, rfl, hset⟩
  unfold Pipeline.setOnline Holdings.setOnline
  dsimp only
  rw [honline]
  split
  · exact .ok hturn
  · generalize p.camera = looked at hturn hset ⊢
    cases looked with
    | none => exact .ok hturn
    | some camera => exact hset.updateCamera { hh with } hc camera now

theorem Matches.call (hm : p.Matches p') (hh : p.holdings.Held)
    (hc : p.culling.SameTiles p'.culling) (c : Call κ) :
    Corresponds Turn.Matches (p.call c) (p'.call c) := by
  cases c with
  | updateCamera camera now => exact hm.updateCamera hh hc camera now
  | deliver tile layer outcome now => exact hm.deliver tile layer outcome now
  | poll now => exact Turn.Matches.dispatch ⟨_, rfl, hm⟩ now
  | setOnline online now => exact hm.setOnline hh hc online now

/-! ### Calls one after the other -/

/-- What there is to learn from a call and afterwards: the effects, what befell the quads, when the
next poll is due as asked at any time, how many quads stand where, and where each of them stands. -/
structure Answer where
  effects : Effects
  journal : List Notice
  next : Instant → Checked (Option Instant)
  tally : Tally
  desired : QuadId → Bool
  cached : QuadId → Option QuadRecord
  resident : QuadId → Bool
  stage : QuadId → Option Stage

/-- What there is to learn from a call. -/
def answer (t : Turn τ κ) : Answer :=
  { effects := t.effects
    journal := t.journal
    next := t.pipeline.nextDispatchAt
    tally := t.pipeline.tally
    desired := t.pipeline.holdings.isDesired
    cached := t.pipeline.holdings.cache.get?
    resident := t.pipeline.holdings.residents.contains
    stage := t.pipeline.slots.stage? }

/-- The answers to some calls, each made with a culling of its own, up to the first fault. -/
def answers (p : Pipeline τ κ) : List (Culling κ × Call κ) → List (Checked Answer)
  | [] => []
  | (culling, c) :: rest =>
    match (p.withCulling culling).call c with
    | .error e => [.error e]
    | .ok t => .ok (answer t) :: t.pipeline.answers rest

theorem answer_eq {t t' : Turn τ κ} (hm : t.Matches t') : answer t' = answer t := by
  obtain ⟨pipeline, rfl, hp⟩ := hm
  have htally := hp.tally
  obtain ⟨holdings, culling, rfl, hh⟩ := hp
  have hcached : holdings.cache.get? = t.pipeline.holdings.cache.get? := funext hh.get?
  have hresident : holdings.residents.contains = t.pipeline.holdings.residents.contains :=
    funext hh.residents.contains
  unfold answer
  rw [Answer.mk.injEq]
  exact ⟨rfl, rfl, rfl, htally, hh.isDesired, hcached, hresident, rfl⟩

/-- **Pipelines that match are not told apart.** -/
theorem Matches.answers (hm : p.Matches p') (hf : p.holdings.Fit)
    {calls calls' : List (Culling κ × Call κ)}
    (hcalls : List.Forall₂ (fun a b => a.1.SameTiles b.1 ∧ b.2 = a.2) calls calls') :
    p'.answers calls' = p.answers calls := by
  induction hcalls generalizing p p' with
  | nil => rfl
  | @cons a b rest rest' hab _ ih =>
    obtain ⟨culling, _⟩ := a
    obtain ⟨culling', c⟩ := b
    obtain ⟨hsame, rfl⟩ := hab
    have hwith : (p.withCulling culling).Matches (p'.withCulling culling') := by
      obtain ⟨holdings, _, rfl, hh⟩ := hm
      exact ⟨_, _, rfl, hh⟩
    have hcall := hwith.call hf.held hsame c
    unfold Pipeline.answers
    dsimp only
    generalize hr : (p.withCulling culling).call c = r at hcall ⊢
    generalize (p'.withCulling culling').call c = r' at hcall ⊢
    cases hcall with
    | error e => rfl
    | @ok t t' ht =>
      have hwithin : (p.withCulling culling).holdings.Fit := hf
      have hfit : t.pipeline.holdings.Fit := (keeps_call hwithin hr).1
      have hanswer := answer_eq ht
      obtain ⟨pipeline, rfl, hp⟩ := ht
      have hrest := ih hp hfit
      dsimp only
      rw [hanswer, hrest]

variable {s : StreamSettings} {culling : Culling κ} {coverage : Coverage} {start : Pipeline τ κ}
  {past : List (Call κ × Turn τ κ)}

/-- **The answers do not depend on how the needed tiles are listed.** After every run, calls that
differ in nothing but the order and the number of times in which the cullings list the tiles have the
same answers, those to the calls after them among them. -/
theorem Run.answers_eq (hs : ofSettings s culling coverage = .ok start) (h : start.Run past p)
    {calls calls' : List (Culling κ × Call κ)}
    (hcalls : List.Forall₂ (fun a b => a.1.SameTiles b.1 ∧ b.2 = a.2) calls calls') :
    p.answers calls' = p.answers calls :=
  Matches.answers ⟨_, _, rfl, .refl _⟩ (h.fit hs).1 hcalls

/-- Lists every tile twice, first the last tile. -/
def listedTwice : Culling (List TileId) := fun needed => .ok (needed.reverse ++ needed)

/-- A look at two tiles, the network lost and there again, and a look at one tile less. -/
def moreCalls : List (Call (List TileId)) :=
  [.updateCamera [⟨2, 0, 0⟩, ⟨2, 3, 3⟩] ⟨7⟩, .setOnline false ⟨8⟩, .setOnline true ⟨9⟩,
    .updateCamera [⟨2, 3, 3⟩] ⟨10⟩]

theorem sameTiles_listedTwice : Culling.SameTiles .ok listedTwice := fun needed =>
  .ok fun t => by simp

theorem Run.answers_eq_listed_twice : ∃ past p, sample.Run past p ∧ past.map (·.1) = fewCalls ∧
    Culling.SameTiles .ok listedTwice ∧
    listedTwice [⟨2, 0, 0⟩, ⟨2, 3, 3⟩] = .ok [⟨2, 3, 3⟩, ⟨2, 0, 0⟩, ⟨2, 0, 0⟩, ⟨2, 3, 3⟩] ∧
    p.answers (moreCalls.map fun c => (listedTwice, c)) =
      p.answers (moreCalls.map fun c => (.ok, c)) := by
  obtain ⟨past, p, hrun, hcalls⟩ := exists_run
  have hlisted : List.Forall₂
      (fun a b : Culling (List TileId) × Call (List TileId) => a.1.SameTiles b.1 ∧ b.2 = a.2)
      (moreCalls.map fun c => (.ok, c)) (moreCalls.map fun c => (listedTwice, c)) := by
    rw [List.forall₂_map_left_iff, List.forall₂_map_right_iff, List.forall₂_same]
    exact fun c _ => ⟨sameTiles_listedTwice, rfl⟩
  exact ⟨past, p, hrun, hcalls, sameTiles_listedTwice, rfl,
    Run.answers_eq ofSettings_sample hrun hlisted⟩

end Pipeline

end TileStream
