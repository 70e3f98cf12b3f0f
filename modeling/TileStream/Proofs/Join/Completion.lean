import TileStream.Proofs.Join.Settled

/-! # When a tile is finished

A tile that is ordered fans out into one fetch for each layer that its set lists, and it is finished when
its set is empty. Those are two views of one byte. They agree when layers alone make up the set
(`LayerSet.Known`): then the tile is finished by the last of its fetches to be answered, whatever else
comes in between. A bit that stands for no layer is fetched by nobody and taken out by nothing, so with
such a bit no tile that was ordered is ever finished (`TileJoins.finished_iff`,
`TileJoins.never_finished`).

The joins are looked at after any calls. What is being loaded tells the replies that are in and waits for
something (`TileJoins.Keeps`), so which fetches of a tile wait is told by the events alone, and the record
that comes out is the one in which all of them are settled. -/

namespace TileStream

/-- The fetches to be made. -/
def TileStart.requests : TileStart → List Fetch
  | fetch requests => requests
  | _ => []

/-- The record of a tile that is complete at once. -/
def TileStart.record? : TileStart → Option TileRecord
  | complete record => some record
  | _ => none

namespace TileJoins

/-! ### Calls -/

/-- A call of the joins. -/
inductive Call where
  | load (tile : TileId)
  | deliver (f : Fetch) (outcome : Outcome)

/-- The joins after a call, with the record that came out. -/
def act (a : TileJoins) : Call → TileJoins × Option TileRecord
  | .load tile => ((a.load tile).1, (a.load tile).2.record?)
  | .deliver f outcome => a.deliver f.tile f.layer outcome

/-- What befalls the fetches in a call. -/
def events (a : TileJoins) : Call → List Event
  | .load tile => (a.load tile).2.requests.map .ordered
  | .deliver f outcome => [.answered f outcome]

/-- The joins after some calls, with the records that came out, in order. -/
def run (a : TileJoins) : List Call → TileJoins × List TileRecord
  | [] => (a, [])
  | c :: calls => (((a.act c).1.run calls).1, (a.act c).2.toList ++ ((a.act c).1.run calls).2)

/-- What befalls the fetches in some calls. -/
def eventsIn (a : TileJoins) : List Call → List Event
  | [] => []
  | c :: calls => a.events c ++ (a.act c).1.eventsIn calls

variable {a a' : TileJoins} {c : Call} {calls : List Call} {tile : TileId} {layer : Layer}
  {outcome : Outcome} {es : List Event} {record : TileRecord} {f : Fetch}

theorem run_concat (a : TileJoins) (calls : List Call) (c : Call) :
    a.run (calls ++ [c]) =
      (((a.run calls).1.act c).1, (a.run calls).2 ++ ((a.run calls).1.act c).2.toList) := by
  induction calls generalizing a with
  | nil => simp [run]
  | cons d calls ih => rw [List.cons_append, run, ih, run, List.append_assoc]

theorem layers_act (a : TileJoins) (c : Call) : (a.act c).1.layers = a.layers := by
  cases c with
  | load tile => exact layers_load a tile
  | deliver f outcome => exact layers_deliver a f.tile f.layer outcome

theorem layers_run (a : TileJoins) (calls : List Call) : (a.run calls).1.layers = a.layers := by
  induction calls generalizing a with
  | nil => rfl
  | cons c calls ih => exact (ih _).trans (layers_act a c)

/-! ### What any calls keep -/

/-- **What is being loaded** tells the replies that are in and waits for something. Whether bits other
than those of the layers are awaited does not change. -/
structure Keeps (a : TileJoins) (es : List Event) : Prop where
  keyed : a.Keyed
  settling : a.Settling es
  waits : ∀ t j, a.pending.get? t = some j →
    j.outstanding.isEmpty = false ∧ (j.outstanding.Known ↔ a.layers.Known)

theorem keeps_ofLayers (layers : LayerSet) : (ofLayers layers).Keeps [] :=
  ⟨keyed_ofLayers layers, fun _ _ h => (by cases h), fun _ _ h => (by cases h)⟩

theorem Keeps.opened (ha : a.Keeps es) (hne : a.layers.isEmpty = false) (tile : TileId) :
    (a.opened tile).Keeps (es ++ (a.fetchesOf tile).map .ordered) := by
  refine ⟨keyed_opened ha.keyed, settling_opened ha.settling tile, fun t j hj => ?_⟩
  rw [get?_opened] at hj
  split at hj
  · cases hj
    exact ⟨hne, Iff.rfl⟩
  · exact ha.waits t j hj

theorem Keeps.deliver (ha : a.Keeps es) (f : Fetch) (outcome : Outcome) :
    (a.deliver f.tile f.layer outcome).1.Keeps (es ++ [.answered f outcome]) := by
  have hsettling := settling_deliver ha.settling ha.keyed
    (Prod.eta (a.deliver f.tile f.layer outcome)).symm
  refine ⟨keyed_deliver ha.keyed, hsettling.1, fun t k hk => ?_⟩
  rw [layers_deliver]
  by_cases hw : a.Awaits f
  · obtain ⟨j, hj, ⟨hne, hd⟩ | ⟨-, hd⟩⟩ := deliver_of_awaits hw outcome
    · rw [hd, Table.get?_set] at hk
      split at hk
      · cases hk
        exact ⟨hne, LayerSet.known_erase_iff.trans (ha.waits _ j hj).2⟩
      · exact ha.waits t k hk
    · rw [hd, Table.get?_erase] at hk
      split at hk
      · cases hk
      · exact ha.waits t k hk
  · rw [deliver_of_not_awaits hw] at hk
    exact ha.waits t k hk

/-- **A call keeps it,** and a record that comes out is settled. -/
theorem Keeps.act (ha : a.Keeps es) (c : Call) : (a.act c).1.Keeps (es ++ a.events c) ∧
    ∀ r, (a.act c).2 = some r → r.Settled a.layers (es ++ a.events c) := by
  cases c with
  | load tile =>
    cases hl : a.load tile with
    | mk a' start =>
      simp only [TileJoins.act, TileJoins.events, hl]
      cases start with
      | fetch requests =>
        obtain ⟨-, rfl, rfl, hne⟩ := load_fetch hl
        exact ⟨ha.opened hne tile, fun r hr => by cases hr⟩
      | complete record =>
        obtain ⟨rfl, rfl, hempty⟩ := load_complete hl
        refine ⟨by simpa [TileStart.requests] using ha, fun r hr => ?_⟩
        cases hr
        exact TileRecord.settled_empty hempty _ tile
      | alreadyLoading =>
        have hsame : a' = a := by
          rcases a.load_cases tile with ⟨-, he⟩ | ⟨-, he⟩ | ⟨-, he⟩ <;> rw [hl] at he <;> cases he
          rfl
        rw [hsame]
        exact ⟨by simpa [TileStart.requests] using ha, fun r hr => by cases hr⟩
  | deliver f outcome =>
    refine ⟨ha.deliver f outcome, fun r hr => ?_⟩
    have hsettled := (settling_deliver ha.settling ha.keyed (Prod.eta _).symm).2 r hr
    rwa [layers_deliver] at hsettled

theorem Keeps.run (ha : a.Keeps es) (calls : List Call) :
    (a.run calls).1.Keeps (es ++ a.eventsIn calls) := by
  induction calls generalizing a es with
  | nil => rwa [eventsIn, List.append_nil]
  | cons c calls ih =>
    rw [eventsIn, ← List.append_assoc]
    exact ih (ha.act c).1

/-- **A tile that waits for layers alone** waits for a fetch that was asked for. -/
theorem Keeps.exists_asked (ha : a.Keeps es) (hknown : a.layers.Known)
    (h : a.isLoading tile = true) :
    ∃ l, a.layers.contains l = true ∧ reply es ⟨tile, l⟩ = .asked := by
  obtain ⟨j, hj⟩ := a.pending.contains_iff.mp h
  obtain ⟨hne, hiff⟩ := ha.waits tile j hj
  obtain ⟨l, hl⟩ := LayerSet.exists_contains (hiff.mpr hknown) hne
  exact ⟨l, (ha.settling tile j hj).waits l hl⟩

/-- **No tile is finished that waits for other bits.** -/
theorem Keeps.known_of_deliver (ha : a.Keeps es)
    (h : a.deliver tile layer outcome = (a', some record)) : a.layers.Known := by
  by_cases hw : a.Awaits ⟨tile, layer⟩
  · obtain ⟨j, hj, ⟨-, hd⟩ | ⟨hempty, -⟩⟩ := deliver_of_awaits hw outcome
    · rw [h] at hd
      cases hd
    · rw [← (ha.waits tile j hj).2, ← LayerSet.known_erase_iff]
      exact LayerSet.known_of_isEmpty hempty
  · rw [deliver_of_not_awaits hw] at h
    cases h

/-! ### What came of one tile -/

/-- The records of a tile among those that came out. -/
def recordsOf (tile : TileId) (records : List TileRecord) : List TileRecord :=
  records.filter fun r => r.id = tile

theorem recordsOf_append (tile : TileId) (records more : List TileRecord) :
    recordsOf tile (records ++ more) = recordsOf tile records ++ recordsOf tile more :=
  List.filter_append ..

/-- **What came of a tile that was ordered:** nothing while it is loaded, and then one record that tells
all its replies. -/
structure Stands (layers : LayerSet) (tile : TileId) (es : List Event) (waits : Bool)
    (records : List TileRecord) : Prop where
  nothing : waits = true → recordsOf tile records = []
  finished : waits = false → layers.Known ∧
    ∃ r, recordsOf tile records = [r] ∧ r.id = tile ∧ r.Settled layers es

variable {layers : LayerSet} {waits : Bool} {records : List TileRecord}

/-- Events and records of other tiles do not matter. -/
theorem Stands.mono (h : Stands layers tile es waits records) {es' : List Event}
    (hsame : ∀ l, layers.contains l = true → reply es ⟨tile, l⟩ ≠ .asked →
      reply es' ⟨tile, l⟩ = reply es ⟨tile, l⟩)
    {more : List TileRecord} (hother : recordsOf tile more = []) :
    Stands layers tile es' waits (records ++ more) := by
  have hrecords : recordsOf tile (records ++ more) = recordsOf tile records := by
    rw [recordsOf_append, hother, List.append_nil]
  refine ⟨fun hl => hrecords.trans (h.nothing hl), fun hl => ?_⟩
  obtain ⟨hknown, r, hr, hid, hsettled⟩ := h.finished hl
  refine ⟨hknown, r, hrecords.trans hr, hid, hsettled.mono fun l hin => ?_⟩
  rw [hid]
  refine hsame l hin ?_
  obtain ⟨o, ho, -⟩ := hsettled.enabled l hin
  rw [hid, replied_iff] at ho
  rw [ho]
  exact fun he => by cases he

/-- An order to load another tile does not matter. -/
theorem stands_load (hs : Stands a.layers tile es (a.isLoading tile) records)
    {other : TileId} (hne : other ≠ tile) :
    Stands a.layers tile (es ++ a.events (.load other)) ((a.act (.load other)).1.isLoading tile)
      (records ++ (a.act (.load other)).2.toList) := by
  simp only [act, events]
  rcases a.load_cases other with ⟨-, he⟩ | ⟨-, he⟩ | ⟨-, he⟩ <;> rw [he]
  · exact hs.mono (fun l _ _ => by simp [TileStart.requests]) rfl
  · refine hs.mono (fun l _ _ => by simp [TileStart.requests]) ?_
    simp [recordsOf, TileStart.record?, TileRecord.empty, hne]
  · rw [isLoading_opened, decide_eq_false hne.symm, Bool.false_or]
    refine hs.mono (fun l _ _ => ?_) rfl
    have hout : ⟨tile, l⟩ ∉ a.fetchesOf other := fun hin => hne (mem_fetchesOf.mp hin).1.symm
    rw [TileStart.requests, reply_append_ordered, if_neg hout]

/-- An outcome finishes the tile or does not matter. -/
theorem stands_deliver (ha : a.Keeps es) (hs : Stands a.layers tile es (a.isLoading tile) records)
    (f : Fetch) (outcome : Outcome) :
    Stands a.layers tile (es ++ [.answered f outcome])
      ((a.deliver f.tile f.layer outcome).1.isLoading tile)
      (records ++ (a.deliver f.tile f.layer outcome).2.toList) := by
  have hreply : ∀ l, a.layers.contains l = true → reply es ⟨tile, l⟩ ≠ .asked →
      reply (es ++ [.answered f outcome]) ⟨tile, l⟩ = reply es ⟨tile, l⟩ :=
    fun l _ h => reply_concat_answered es f outcome _ fun _ => h
  cases hd : a.deliver f.tile f.layer outcome with
  | mk a' finished =>
    rcases isLoading_deliver ha.keyed hd with ⟨rfl, hsame⟩ | ⟨record, rfl, hid, hload, hgone⟩
    · rw [hsame]
      exact hs.mono hreply rfl
    · by_cases he : f.tile = tile
      · subst he
        have hover : a'.isLoading f.tile = false := by simp [hgone]
        rw [hover]
        refine ⟨fun h => (by cases h), fun _ => ⟨ha.known_of_deliver hd, record, ?_, hid, ?_⟩⟩
        · rw [recordsOf_append, hs.nothing hload]
          simp [recordsOf, hid]
        · exact (ha.act (.deliver f outcome)).2 record (by rw [act, hd])
      · have hkept : a'.isLoading tile = a.isLoading tile := by simp [hgone, Ne.symm he]
        rw [hkept]
        exact hs.mono hreply (by simp [recordsOf, hid, he])

/-- **After any calls that do not order it again** a tile stands as its events tell. -/
theorem stands_run (ha : a.Keeps es) (hs : Stands a.layers tile es (a.isLoading tile) records)
    (honce : .load tile ∉ calls) :
    Stands a.layers tile (es ++ a.eventsIn calls) ((a.run calls).1.isLoading tile)
      (records ++ (a.run calls).2) := by
  induction calls generalizing a es records with
  | nil => simpa [eventsIn, run] using hs
  | cons c calls ih =>
    rw [List.mem_cons, not_or] at honce
    have hstep : Stands a.layers tile (es ++ a.events c) ((a.act c).1.isLoading tile)
        (records ++ (a.act c).2.toList) := by
      cases c with
      | load other => exact stands_load hs fun he => honce.1 (by rw [he])
      | deliver f outcome => exact stands_deliver ha hs f outcome
    rw [← layers_act a c] at hstep
    have hrest := ih (ha.act c).1 hstep honce.2
    rw [layers_act, List.append_assoc, List.append_assoc] at hrest
    exact hrest

/-! ### Which fetches are answered -/

/-- The outcome of a fetch, when the call delivers one. -/
def Call.outcome? (f : Fetch) : Call → Option Outcome
  | deliver g outcome => if g = f then some outcome else none
  | load _ => none

/-- The outcome of a fetch that is delivered first. -/
def firstOutcome? (calls : List Call) (f : Fetch) : Option Outcome :=
  calls.findSome? (Call.outcome? f)

/-- An outcome of the fetch is delivered. -/
def Answered (calls : List Call) (f : Fetch) : Prop := ∃ outcome, .deliver f outcome ∈ calls

theorem answered_concat {g : Fetch} :
    Answered (calls ++ [.deliver f outcome]) g ↔ Answered calls g ∨ g = f := by
  simp only [Answered, List.mem_append, List.mem_singleton, Call.deliver.injEq, exists_or,
    exists_and_left, exists_eq, and_true]

theorem firstOutcome?_eq_none : firstOutcome? calls f = none ↔ ¬ Answered calls f := by
  rw [firstOutcome?, List.findSome?_eq_none_iff]
  constructor
  · rintro h ⟨outcome, hin⟩
    simpa [Call.outcome?] using h _ hin
  · intro h c hc
    cases c with
    | load => rfl
    | deliver g outcome =>
      refine if_neg ?_
      rintro rfl
      exact h ⟨outcome, hc⟩

/-- Nobody orders the fetches of a tile but who orders the tile. -/
theorem fetch_ne_of_mem_events (hc : c ≠ .load f.tile) (hd : c.outcome? f = none) {e : Event}
    (he : e ∈ a.events c) : e.fetch ≠ f := by
  rintro rfl
  cases c with
  | load tile =>
    rcases a.load_cases tile with ⟨-, hl⟩ | ⟨-, hl⟩ | ⟨-, hl⟩ <;> rw [events, hl] at he
    · cases he
    · cases he
    · obtain ⟨g, hg, rfl⟩ := List.mem_map.mp he
      exact hc (by rw [Event.fetch, (mem_fetchesOf.mp hg).1])
  | deliver g outcome =>
    rw [events, List.mem_singleton] at he
    subst he
    simp [Call.outcome?, Event.fetch] at hd

theorem ordered_not_mem_eventsIn (honce : .load f.tile ∉ calls) :
    .ordered f ∉ a.eventsIn calls := by
  induction calls generalizing a with
  | nil => exact List.not_mem_nil
  | cons c calls ih =>
    rw [List.mem_cons, not_or] at honce
    rw [eventsIn, List.mem_append, not_or]
    refine ⟨fun h => ?_, ih honce.2⟩
    cases c with
    | load => exact fetch_ne_of_mem_events (Ne.symm honce.1) rfl h rfl
    | deliver g outcome => simp [events] at h

theorem foldl_eventsIn (honce : .load f.tile ∉ calls) :
    (a.eventsIn calls).foldl (Reply.after f) .asked =
      (firstOutcome? calls f).elim .asked .answered := by
  induction calls generalizing a with
  | nil => rfl
  | cons c calls ih =>
    have honce' := honce
    rw [List.mem_cons, not_or] at honce'
    rw [eventsIn, List.foldl_append, firstOutcome?, List.findSome?_cons]
    cases hd : c.outcome? f with
    | none =>
      rw [foldl_after_of_ne fun e he => fetch_ne_of_mem_events (Ne.symm honce'.1) hd he]
      exact ih honce'.2
    | some outcome =>
      -- the first outcome counts, and those that follow do not
      cases c with
      | load => cases hd
      | deliver g o =>
        obtain ⟨rfl, rfl⟩ : g = f ∧ o = outcome := by simpa [Call.outcome?] using hd
        have hfirst : (a.events (.deliver g o)).foldl (Reply.after g) .asked = .answered o := if_pos rfl
        rw [hfirst, foldl_after_answered (ordered_not_mem_eventsIn honce'.2)]
        rfl

/-- **The reply to a fetch** that is not ordered again is its first outcome. -/
theorem reply_eq_firstOutcome (hl : a.layers.contains layer = true) (honce : .load tile ∉ calls) :
    reply (es ++ (a.fetchesOf tile).map .ordered ++ a.eventsIn calls) ⟨tile, layer⟩ =
      (firstOutcome? calls ⟨tile, layer⟩).elim .asked .answered := by
  have hf : ⟨tile, layer⟩ ∈ a.fetchesOf tile := mem_fetchesOf.mpr ⟨rfl, hl⟩
  rw [reply, List.foldl_append, ← reply, reply_append_ordered, if_pos hf]
  exact foldl_eventsIn honce

/-! ### When the tile is finished -/

section

variable (ha : a.Keeps (es ++ (a.fetchesOf tile).map .ordered)) (hwaits : a.isLoading tile = true)
  (honce : .load tile ∉ calls)

include ha hwaits honce

/-- What comes of a tile that was just ordered. -/
theorem stands_opened : Stands a.layers tile (es ++ (a.fetchesOf tile).map .ordered ++ a.eventsIn calls)
    ((a.run calls).1.isLoading tile) (a.run calls).2 := by
  have hstart : Stands a.layers tile (es ++ (a.fetchesOf tile).map .ordered) (a.isLoading tile) [] :=
    ⟨fun _ => rfl, fun h => by rw [hwaits] at h; cases h⟩
  exact stands_run ha hstart honce

/-- **A tile is finished** when all its fetches are answered, and no bit of its set is left then. -/
theorem isLoading_run : (a.run calls).1.isLoading tile = false ↔
    a.layers.Known ∧ ∀ f ∈ a.fetchesOf tile, Answered calls f := by
  constructor
  · intro hdone
    obtain ⟨hknown, r, -, rfl, hsettled⟩ := (stands_opened ha hwaits honce).finished hdone
    refine ⟨hknown, fun f hf => ?_⟩
    obtain ⟨hid, hl⟩ := mem_fetchesOf.mp hf
    by_contra hnone
    obtain ⟨o, ho, -⟩ := hsettled.enabled f.layer hl
    have hfirst : firstOutcome? calls ⟨r.id, f.layer⟩ = none := by
      rw [← hid]
      exact firstOutcome?_eq_none.mpr hnone
    rw [replied_iff, reply_eq_firstOutcome hl honce, hfirst] at ho
    cases ho
  · rintro ⟨hknown, hall⟩
    by_contra hdone
    rw [Bool.not_eq_false] at hdone
    -- what it waits for was asked and not answered
    obtain ⟨l, hl, hasked⟩ := (ha.run calls).exists_asked (by rwa [layers_run]) hdone
    rw [layers_run] at hl
    rw [reply_eq_firstOutcome hl honce] at hasked
    cases ho : firstOutcome? calls ⟨tile, l⟩ with
    | none => exact firstOutcome?_eq_none.mp ho (hall _ (mem_fetchesOf.mpr ⟨rfl, hl⟩))
    | some o =>
      rw [ho] at hasked
      cases hasked

/-- **The one record of the tile** tells the first outcome of each of its fetches. -/
theorem recordsOf_run (hdone : (a.run calls).1.isLoading tile = false) :
    ∃ record, recordsOf tile (a.run calls).2 = [record] ∧ record.id = tile ∧
      ∀ l, record.layers.get? l =
        if a.layers.contains l then (firstOutcome? calls ⟨tile, l⟩).map .ofOutcome else none := by
  obtain ⟨-, r, hr, hid, hsettled⟩ := (stands_opened ha hwaits honce).finished hdone
  refine ⟨r, hr, hid, fun l => ?_⟩
  split
  · next hl =>
    obtain ⟨o, ho, hget⟩ := hsettled.enabled l hl
    rw [hid, replied_iff, reply_eq_firstOutcome hl honce] at ho
    rw [hget]
    cases hf : firstOutcome? calls ⟨tile, l⟩ with
    | none => rw [hf] at ho; cases ho
    | some o' => rw [hf] at ho; cases ho; rfl
  · next hl => exact hsettled.disabled l (Bool.eq_false_iff.mpr hl)

/-- **The last of its fetches** to be answered finishes a tile. -/
theorem isSome_deliver_run (hf : f ∈ a.fetchesOf tile) (outcome : Outcome) :
    ((a.run calls).1.deliver f.tile f.layer outcome).2.isSome = true ↔
      a.layers.Known ∧ ¬ Answered calls f ∧ ∀ g ∈ a.fetchesOf tile, g ≠ f → Answered calls g := by
  have honce' : .load tile ∉ calls ++ [.deliver f outcome] := by simpa using honce
  have hbefore := isLoading_run ha hwaits honce
  have hafter := isLoading_run ha hwaits honce'
  have hid := (mem_fetchesOf.mp hf).1
  simp only [run_concat, act, answered_concat] at hafter
  -- a record comes out when the tile was loaded before and is not any more
  have hstep : ((a.run calls).1.deliver f.tile f.layer outcome).2.isSome = true ↔
      (a.run calls).1.isLoading tile ≠ false ∧
        ((a.run calls).1.deliver f.tile f.layer outcome).1.isLoading tile = false := by
    cases hd : (a.run calls).1.deliver f.tile f.layer outcome with
    | mk a' finished =>
      rcases isLoading_deliver (ha.run calls).keyed hd with ⟨rfl, hsame⟩ | ⟨r, rfl, -, hload, hgone⟩
      · simp [hsame]
      · rw [← hid]
        simp [hload, hgone]
  rw [hstep, hafter, Ne, hbefore]
  constructor
  · rintro ⟨hopen, hknown, hall⟩
    have hrest : ∀ g ∈ a.fetchesOf tile, g ≠ f → Answered calls g :=
      fun g hg hne => (hall g hg).resolve_right hne
    refine ⟨hknown, fun hans => hopen ⟨hknown, fun g hg => ?_⟩, hrest⟩
    by_cases he : g = f
    · rwa [he]
    · exact hrest g hg he
  · rintro ⟨hknown, hans, hrest⟩
    refine ⟨fun h => hans (h.2 f hf), hknown, fun g hg => ?_⟩
    by_cases he : g = f
    · exact .inr he
    · exact .inl (hrest g hg he)

end

/-- **A tile that was ordered is finished when the last of its fetches is answered,** and at no other
time, if its layers make up the set; with any other bit it is never finished. Its fetches are one for
each layer of the set. It gives one record, which tells their first outcomes. None of this takes anything
of the calls before, or of what is delivered and ordered in between, but that the tile itself is not
ordered again. -/
theorem finished_iff {layers : LayerSet} {past later : List Call} {requests : List Fetch}
    (hload : ((ofLayers layers).run past).1.load tile = (a, .fetch requests))
    (honce : .load tile ∉ later) :
    (requests.Nodup ∧ ∀ f, f ∈ requests ↔ f.tile = tile ∧ layers.contains f.layer = true) ∧
    ((a.run later).1.isLoading tile = false ↔ layers.Known ∧ ∀ f ∈ requests, Answered later f) ∧
    ((a.run later).1.isLoading tile = true → recordsOf tile (a.run later).2 = []) ∧
    ((a.run later).1.isLoading tile = false → ∃ record, recordsOf tile (a.run later).2 = [record] ∧
      record.id = tile ∧ ∀ l, record.layers.get? l =
        if layers.contains l then (firstOutcome? later ⟨tile, l⟩).map .ofOutcome else none) ∧
    ∀ f ∈ requests, ∀ outcome,
      (((a.run later).1.deliver f.tile f.layer outcome).2.isSome = true ↔
        layers.Known ∧ ¬ Answered later f ∧ ∀ g ∈ requests, g ≠ f → Answered later g) := by
  obtain ⟨-, rfl, rfl, hne⟩ := load_fetch hload
  have hkeeps := ((keeps_ofLayers layers).run past).opened hne tile
  have hlayers : (((ofLayers layers).run past).1.opened tile).layers = layers := layers_run _ past
  have hwaits : (((ofLayers layers).run past).1.opened tile).isLoading tile = true := by
    simp [isLoading_opened]
  rw [← fetchesOf_opened _ tile] at hkeeps
  have hdone := isLoading_run hkeeps hwaits honce
  have hrecord := recordsOf_run hkeeps hwaits honce
  have hlast := fun f hf outcome => isSome_deliver_run hkeeps hwaits honce (f := f) hf outcome
  rw [hlayers] at hdone
  simp only [hlayers] at hrecord hlast
  refine ⟨⟨nodup_fetchesOf _ _, fun f => ?_⟩, hdone,
    (stands_opened hkeeps hwaits honce).nothing, hrecord, hlast⟩
  rw [mem_fetchesOf, layers_run]
  rfl

/-- Two layers of a tile are answered. In between come a layer of it that was not asked for, a second
answer and another tile. -/
def crossed : List Call :=
  [.deliver ⟨⟨2, 1, 1⟩, .vector⟩ (.ok [7]), .deliver ⟨⟨2, 1, 1⟩, .ortho⟩ (.ok [8]),
    .load ⟨2, 0, 1⟩, .deliver ⟨⟨2, 1, 1⟩, .vector⟩ (.ok [9]),
    .deliver ⟨⟨2, 0, 1⟩, .height⟩ (.ok [5]), .deliver ⟨⟨2, 1, 1⟩, .height⟩ (.ok [6])]

/-- The second layer finishes the tile, and the first answer of the first one is told. -/
theorem finished_iff_crossed : ∃ a requests,
    ((ofLayers ⟨5⟩).run [.load ⟨1, 0, 0⟩]).1.load ⟨2, 1, 1⟩ = (a, .fetch requests) ∧
    .load ⟨2, 1, 1⟩ ∉ crossed ∧ requests = [⟨⟨2, 1, 1⟩, .height⟩, ⟨⟨2, 1, 1⟩, .vector⟩] ∧
    (a.run crossed).1.isLoading ⟨2, 1, 1⟩ = false ∧
    ∃ record, recordsOf ⟨2, 1, 1⟩ (a.run crossed).2 = [record] ∧
      record.layers.get? .vector = some (.ofOutcome (.ok [7])) := by
  have hload : ((ofLayers ⟨5⟩).run [.load ⟨1, 0, 0⟩]).1.load ⟨2, 1, 1⟩ =
      (_, .fetch [⟨⟨2, 1, 1⟩, .height⟩, ⟨⟨2, 1, 1⟩, .vector⟩]) := rfl
  have honce : .load ⟨2, 1, 1⟩ ∉ crossed := by simp [crossed]
  obtain ⟨-, hdone, -, hrecord, -⟩ := finished_iff hload honce
  have hover := hdone.mpr ⟨by decide, by simp [Answered, crossed]⟩
  obtain ⟨record, hr, -, hget⟩ := hrecord hover
  exact ⟨_, _, hload, honce, rfl, hover, record, hr, hget .vector⟩

/-- **A tile of a set with another bit waits on** when all its fetches are answered. -/
theorem never_finished : ∃ a, (ofLayers ⟨9⟩).load ⟨5, 3, 4⟩ = (a, .fetch [⟨⟨5, 3, 4⟩, .height⟩]) ∧
    (a.run [.deliver ⟨⟨5, 3, 4⟩, .height⟩ (.ok [1])]).2 = [] ∧
    (a.run [.deliver ⟨⟨5, 3, 4⟩, .height⟩ (.ok [1])]).1.isLoading ⟨5, 3, 4⟩ = true :=
  ⟨_, rfl, by decide, by decide⟩

end TileJoins

end TileStream
