import TileStream.Fetching.Cached
import TileStream.Proofs.Store.Reliable

/-! # The warm set

Warm entries are copies, so they could lag behind the store. They do not: over a reliable store that
only the cached source writes, every warm entry is the entry that the store holds now
(`CachedSource.Backed`). A fetch uses the warm entry of its key up before it writes that key, and what
is warmed up is what the store lists. So a fetch answers from what is stored, as a map from keys to
entries does (`Backed.serve`), and a source whose warm set is emptied before every call gives the same
outcomes, asks in the same cases and leaves the same store (`CachedSource.serveAll_eq_cold`). -/

namespace TileStream

/-- A call of a cached source. -/
inductive SourceCall where
  | warmUp (limit : Nat) (now : CalendarTime)
  /-- `outcome` is what the source would answer. -/
  | fetch (tile : TileId) (layer : Layer) (outcome : Outcome) (now : CalendarTime)

/-- The outcome of a fetch, and whether the source was asked. -/
structure Fetched where
  outcome : Outcome
  asked : Bool

/-- Whether the source is accessed. -/
def Access.isAsk : Access → Bool
  | ask _ _ => true
  | _ => false

namespace TileMap

/-- The fresh entry of a key. -/
def fresh? (m : TileMap) (maxAge : Option Duration) (key : TileKey) (now : CalendarTime) :
    Option StoredTile :=
  (m key).filter (StoredTile.isFresh maxAge now)

theorem fresh?_eq_some {m : TileMap} {maxAge : Option Duration} {key : TileKey}
    {now : CalendarTime} {s : StoredTile} : m.fresh? maxAge key now = some s ↔
      m key = some s ∧ s.isFresh maxAge now = true :=
  Option.filter_eq_some_iff

/-- **What a fetch comes to.** The stored bytes are served when they are fresh. Else the source is asked,
and what it delivers is stored. -/
def serve (m : TileMap) (maxAge : Option Duration) : SourceCall → TileMap × Option Fetched
  | .warmUp _ _ => (m, none)
  | .fetch tile layer outcome now =>
    match m.fresh? maxAge (tile, layer) now with
    | some s => (m, some ⟨.ok s.bytes, false⟩)
    | none =>
      match outcome with
      | .ok bytes => (m.store tile layer bytes now, some ⟨.ok bytes, true⟩)
      | .error e => (m, some ⟨.error e, true⟩)

/-- What some calls come to, one after the other. -/
def serveAll (m : TileMap) (maxAge : Option Duration) : List SourceCall → TileMap × List Fetched
  | [] => (m, [])
  | call :: rest =>
    let (m, fetched) := m.serve maxAge call
    let (m, more) := m.serveAll maxAge rest
    (m, fetched.toList ++ more)

end TileMap

namespace CachedSource

variable {σ : Type}

/-! ### Warm entries are stored entries -/

/-- **Every warm entry is the one that is stored.** -/
structure Backed (holds : σ → TileMap → Prop) (c : CachedSource σ) (m : TileMap) : Prop where
  store : holds c.store m
  warm : ∀ k s, c.warm.get? k = some s → m k = some s

variable {holds : σ → TileMap → Prop} {c : CachedSource σ} {m : TileMap}

/-- Entries that are stored may be put into the warm set. -/
theorem warm_foldl_set {all : List StoredTile} (hall : ∀ e ∈ all, m e.key = some e)
    {warm : Table TileKey StoredTile} (hw : ∀ k s, warm.get? k = some s → m k = some s) :
    ∀ k s, (all.foldl (fun w e => w.set e.key e) warm).get? k = some s → m k = some s := by
  induction all generalizing warm with
  | nil => exact hw
  | cons e rest ih =>
    refine ih (fun e he => hall e (List.mem_cons_of_mem _ he)) fun k s hs => ?_
    rw [Table.get?_set] at hs
    split at hs
    · next hk =>
      cases hs
      rw [hk]
      exact hall e List.mem_cons_self
    · exact hw k s hs

/-- Warm entries may be dropped. -/
theorem Backed.drop (h : c.Backed holds m) {warm : Table TileKey StoredTile}
    (hw : ∀ k s, warm.get? k = some s → c.warm.get? k = some s) :
    Backed holds { c with warm } m :=
  ⟨h.store, fun k s hs => h.warm k s (hw k s hs)⟩

/-- The source after a warm entry was used up. -/
def without (c : CachedSource σ) (key : TileKey) : CachedSource σ :=
  { c with warm := c.warm.erase key }

theorem Backed.without (h : c.Backed holds m) (key : TileKey) :
    (c.without key).Backed holds m := by
  refine h.drop fun k s hs => ?_
  rw [Table.get?_erase] at hs
  split at hs
  · cases hs
  · exact hs

/-- The source with nothing warm. -/
def cold (c : CachedSource σ) : CachedSource σ := { c with warm := .empty }

/-- Some warm entries are dropped, and nothing else is done. -/
def Forgets (prepare : CachedSource σ → CachedSource σ) : Prop :=
  ∀ c, ∃ warm, prepare c = { c with warm } ∧
    ∀ k s, warm.get? k = some s → c.warm.get? k = some s

theorem forgets_id : Forgets (id : CachedSource σ → CachedSource σ) :=
  fun _ => ⟨_, rfl, fun _ _ hs => hs⟩

theorem forgets_cold : Forgets (cold : CachedSource σ → CachedSource σ) :=
  fun _ => ⟨_, rfl, fun _ _ hs => by cases hs⟩

variable [TileStore σ]

/-! ### Calls, and what they show -/

/-- What a call leaves, and what it shows. -/
def serve (c : CachedSource σ) : SourceCall → CachedSource σ × Option Fetched
  | .warmUp limit now => ((c.warmUp limit now).source, none)
  | .fetch tile layer outcome now =>
    let served := c.fetch tile layer outcome now
    (served.source, some ⟨served.answer, served.accesses.any Access.isAsk⟩)

/-- What some calls leave and show, with something done to the source before each of them. -/
def serveAll (prepare : CachedSource σ → CachedSource σ) (c : CachedSource σ) :
    List SourceCall → CachedSource σ × List Fetched
  | [] => (c, [])
  | call :: rest =>
    let (c, fetched) := (prepare c).serve call
    let (c, more) := c.serveAll prepare rest
    (c, fetched.toList ++ more)

/-! ### Warming up -/

theorem Backed.warmUp (hr : TileStore.Reliable holds) (h : c.Backed holds m) (limit : Nat)
    (now : CalendarTime) : ∃ warm, (c.warmUp limit now).source = { c with warm } ∧
      Backed holds { c with warm } m := by
  obtain ⟨all, hread, hall⟩ := hr.readAll h.store c.maxAge now
  have hlatest : ∀ e ∈ (latestFirst all).take limit, m e.key = some e := fun e he =>
    hall e (List.mem_mergeSort.mp (List.mem_of_mem_take he))
  refine ⟨((latestFirst all).take limit).foldl (fun w e => w.set e.key e) c.warm, ?_, h.store,
    warm_foldl_set hlatest h.warm⟩
  unfold CachedSource.warmUp
  rw [hread]

/-! ### Fetches -/

theorem answer_ask (c : CachedSource σ) (tile : TileId) (layer : Layer) (outcome : Outcome)
    (now : CalendarTime) : (c.ask tile layer outcome now).answer = outcome ∧
      (c.ask tile layer outcome now).accesses.any Access.isAsk = true := by
  cases outcome with
  | error e => exact ⟨rfl, rfl⟩
  | ok bytes => exact ⟨rfl, rfl⟩

theorem stored?_eq (hr : TileStore.Reliable holds) (h : holds c.store m) (tile : TileId)
    (layer : Layer) (now : CalendarTime) :
    c.stored? tile layer now = m.fresh? c.maxAge (tile, layer) now := by
  unfold stored? TileMap.fresh?
  rw [hr.read h]
  cases m (tile, layer) with
  | none => rfl
  | some s => rw [Option.filter_some]

/-- **A fetch serves the fresh entry that is stored, or else asks,** and uses the warm entry up. -/
theorem Backed.fetch_cases (hr : TileStore.Reliable holds) (h : c.Backed holds m) (tile : TileId)
    (layer : Layer) (outcome : Outcome) (now : CalendarTime) :
    (∃ s accesses, m.fresh? c.maxAge (tile, layer) now = some s ∧
      c.fetch tile layer outcome now = ⟨c.without (tile, layer), .ok s.bytes, accesses⟩ ∧
      accesses.any Access.isAsk = false) ∨
    (m.fresh? c.maxAge (tile, layer) now = none ∧
      c.fetch tile layer outcome now =
        { (c.without (tile, layer)).ask tile layer outcome now with
          accesses := .read tile layer ::
            ((c.without (tile, layer)).ask tile layer outcome now).accesses }) := by
  have hcold : c.fetch tile layer outcome now =
      (c.without (tile, layer)).fetchCold tile layer outcome now ∨ ∃ s,
        m.fresh? c.maxAge (tile, layer) now = some s ∧
          c.fetch tile layer outcome now = ⟨c.without (tile, layer), .ok s.bytes, []⟩ := by
    unfold CachedSource.fetch
    dsimp only
    cases hwarm : c.warm.get? (tile, layer) with
    | none => exact .inl rfl
    | some s =>
      dsimp only
      split
      · next hfresh =>
        exact .inr ⟨s, TileMap.fresh?_eq_some.mpr ⟨h.warm _ s hwarm, hfresh⟩, rfl⟩
      · exact .inl rfl
  rcases hcold with hcold | ⟨s, hfresh, hwarm⟩
  · have hstored := stored?_eq hr (h.without (tile, layer)).store tile layer now
    change _ = m.fresh? c.maxAge (tile, layer) now at hstored
    rw [hcold, ← hstored]
    unfold fetchCold
    cases (c.without (tile, layer)).stored? tile layer now with
    | none => exact .inr ⟨rfl, rfl⟩
    | some s => exact .inl ⟨s, _, rfl, rfl, rfl⟩
  · exact .inl ⟨s, _, hfresh, hwarm, rfl⟩

/-! ### Calls -/

/-- The store after a call that showed `fetched`. -/
def storeAfter (store : σ) : SourceCall → Option Fetched → σ
  | .fetch tile layer _ now, some ⟨.ok bytes, true⟩ =>
    (TileStore.write store tile layer bytes now).1
  | _, _ => store

/-- **A call does what it does to the map,** and to the store it writes what it shows. -/
theorem Backed.serve (hr : TileStore.Reliable holds) (h : c.Backed holds m) (call : SourceCall) :
    ∃ warm, c.serve call = (⟨storeAfter c.store call (m.serve c.maxAge call).2, c.maxAge, warm⟩,
        (m.serve c.maxAge call).2) ∧
      Backed holds ⟨storeAfter c.store call (m.serve c.maxAge call).2, c.maxAge, warm⟩
        (m.serve c.maxAge call).1 := by
  cases call with
  | warmUp limit now =>
    obtain ⟨warm, hsource, hbacked⟩ := h.warmUp hr limit now
    refine ⟨warm, ?_, hbacked⟩
    unfold CachedSource.serve
    dsimp only
    rw [hsource]
    rfl
  | fetch tile layer outcome now =>
    refine ⟨c.warm.erase (tile, layer), ?_⟩
    have hwithout := h.without (tile, layer)
    unfold CachedSource.serve TileMap.serve
    dsimp only
    rcases h.fetch_cases hr tile layer outcome now with
      ⟨s, accesses, hfresh, hfetch, hquiet⟩ | ⟨hnone, hfetch⟩
    · rw [hfresh, hfetch]
      dsimp only
      rw [hquiet]
      exact ⟨rfl, hwithout⟩
    · rw [hnone, hfetch]
      cases outcome with
      | error e => exact ⟨rfl, hwithout⟩
      | ok bytes =>
        obtain ⟨store, hwrite, hholds⟩ := hr.write h.store tile layer bytes now
        have hstore : (TileStore.write c.store tile layer bytes now).1 = store := by rw [hwrite]
        refine ⟨rfl, ?_, fun k s hs => ?_⟩
        · show holds (TileStore.write c.store tile layer bytes now).1 _
          rw [hstore]
          exact hholds
        · -- the key that was written is not warm any more
          have hk : k ≠ (tile, layer) := by
            rintro rfl
            rw [Table.get?_erase, if_pos rfl] at hs
            cases hs
          show TileMap.store m tile layer bytes now k = some s
          unfold TileMap.store
          rw [if_neg hk]
          exact hwithout.warm k s hs

/-! ### Calls one after the other -/

/-- The store after some calls. -/
def storeAfterAll (maxAge : Option Duration) : TileMap → σ → List SourceCall → σ
  | _, store, [] => store
  | m, store, call :: rest =>
    storeAfterAll maxAge (m.serve maxAge call).1
      (storeAfter store call (m.serve maxAge call).2) rest

/-- **Calls do what they do to the map,** whichever warm entries are dropped in between. -/
theorem Backed.serveAll (hr : TileStore.Reliable holds)
    {prepare : CachedSource σ → CachedSource σ} (hp : Forgets prepare) (h : c.Backed holds m)
    (calls : List SourceCall) :
    ∃ warm, c.serveAll prepare calls = (⟨storeAfterAll c.maxAge m c.store calls, c.maxAge, warm⟩,
        (m.serveAll c.maxAge calls).2) ∧
      Backed holds ⟨storeAfterAll c.maxAge m c.store calls, c.maxAge, warm⟩
        (m.serveAll c.maxAge calls).1 := by
  induction calls generalizing c m with
  | nil => exact ⟨c.warm, rfl, h⟩
  | cons call rest ih =>
    obtain ⟨kept, hprepare, hkept⟩ := hp c
    obtain ⟨warm, hserve, hbacked⟩ := (h.drop hkept).serve hr call
    obtain ⟨warm', hrest, hend⟩ := ih hbacked
    refine ⟨warm', ?_, hend⟩
    unfold CachedSource.serveAll
    rw [hprepare, hserve]
    dsimp only
    rw [hrest]
    rfl

/-- **The warm set does not show.** Over a reliable store, whatever the clock, the age limit and the
outcomes of the source are, the calls of a cached source have the same outcomes, ask in the same cases
and leave the same store as with a warm set that is emptied before every call, and that is what they
come to on a map. Afterwards a fetch serves the bytes stored last when they are fresh, and otherwise
what the source answers. -/
theorem serveAll_eq_cold (hr : TileStore.Reliable holds) {store : σ} (hm : holds store m)
    (maxAge : Option Duration) (calls : List SourceCall) :
    let warm := (ofStore store maxAge).serveAll id calls
    let cold := (ofStore store maxAge).serveAll CachedSource.cold calls
    let kept := m.serveAll maxAge calls
    warm.2 = cold.2 ∧ warm.1.store = cold.1.store ∧ warm.2 = kept.2 ∧ holds warm.1.store kept.1 ∧
    ∀ tile layer outcome now, let served := warm.1.fetch tile layer outcome now
      (∃ s, kept.1 (tile, layer) = some s ∧ s.isFresh maxAge now = true ∧
        served.answer = .ok s.bytes ∧ served.accesses.any Access.isAsk = false) ∨
      ((∀ s, kept.1 (tile, layer) = some s → s.isFresh maxAge now = false) ∧
        served.answer = outcome ∧ served.accesses.any Access.isAsk = true) := by
  have hstart : (ofStore store maxAge).Backed holds m := ⟨hm, fun k s hs => by cases hs⟩
  obtain ⟨warm, hwarm, hbacked⟩ := hstart.serveAll hr forgets_id calls
  obtain ⟨none, hcold, -⟩ := hstart.serveAll hr forgets_cold calls
  intro warm cold kept
  have hend : warm.1.Backed holds kept.1 ∧ warm.1.maxAge = maxAge := by
    show Backed holds ((ofStore store maxAge).serveAll id calls).1 kept.1 ∧
      ((ofStore store maxAge).serveAll id calls).1.maxAge = maxAge
    rw [hwarm]
    exact ⟨hbacked, rfl⟩
  refine ⟨(congrArg Prod.snd hwarm).trans (congrArg Prod.snd hcold).symm,
    (congrArg (·.1.store) hwarm).trans (congrArg (·.1.store) hcold).symm,
    congrArg Prod.snd hwarm, hend.1.store, fun tile layer outcome now => ?_⟩
  rw [← hend.2]
  rcases hend.1.fetch_cases hr tile layer outcome now with
    ⟨s, accesses, hfresh, hfetch, hquiet⟩ | ⟨hnone, hfetch⟩
  · obtain ⟨hs, hfresh⟩ := TileMap.fresh?_eq_some.mp hfresh
    rw [hfetch]
    exact .inl ⟨s, hs, hfresh, rfl, hquiet⟩
  · obtain ⟨hanswer, hask⟩ := answer_ask (warm.1.without (tile, layer)) tile layer outcome now
    rw [hfetch]
    refine .inr ⟨fun s hs => ?_, hanswer, ?_⟩
    · rw [Bool.eq_false_iff]
      intro hfresh
      rw [TileMap.fresh?_eq_some.mpr ⟨hs, hfresh⟩] at hnone
      cases hnone
    · rw [List.any_cons, hask]
      rfl

/-- A fetch, one of what was warmed up, and one that comes too late for either. -/
def callsOfATile : List SourceCall :=
  [.fetch ⟨1, 0, 0⟩ .ortho (.ok [1]) ⟨0⟩, .warmUp 8 ⟨1000000000⟩,
    .fetch ⟨1, 0, 0⟩ .ortho (.ok [2]) ⟨2000000000⟩, .warmUp 8 ⟨3000000000⟩,
    .fetch ⟨1, 0, 0⟩ .ortho (.ok [3]) ⟨9000000000⟩]

theorem serveAll_eq_cold_memory :
    TileStore.Reliable MemoryStore.Holds ∧ MemoryStore.empty.Holds (fun _ => none) ∧
    ((ofStore MemoryStore.empty (some (.ofSeconds 5))).serveAll id callsOfATile).2 =
      [⟨.ok [1], true⟩, ⟨.ok [1], false⟩, ⟨.ok [3], true⟩] ∧
    ((ofStore MemoryStore.empty (some (.ofSeconds 5))).serveAll cold callsOfATile).2 =
      [⟨.ok [1], true⟩, ⟨.ok [1], false⟩, ⟨.ok [3], true⟩] := by
  obtain ⟨hcold, -, hkept, -⟩ := serveAll_eq_cold MemoryStore.reliable MemoryStore.holds_empty
    (some (.ofSeconds 5)) callsOfATile
  exact ⟨MemoryStore.reliable, MemoryStore.holds_empty, hkept, hcold.symm.trans hkept⟩

end CachedSource

end TileStream
