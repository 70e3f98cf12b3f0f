import TileStream.Proofs.Fetching.WarmSet
import TileStream.Proofs.Store.Found
import TileStream.Proofs.Store.Listing
import TileStream.Settings.Loader

/-! # The age limit of stored data

An age limit is set in days and compared in milliseconds, cut to 64 bits, in two places: when a fetch looks
for stored bytes, and when everything is read from a disk. Both keep the same entries (`Duration.Means`),
those that are no older than the limit without the multiples of `2 ^ 64` milliseconds that it goes over.
So the limit means the days it is set to up to `213503982334` of them, and no longer than that
(`LoaderSettings.diskCacheMaxAge_means`): a day more makes it a limit of less than ten hours
(`LoaderSettings.young_refetched`). -/

namespace TileStream

/-- Whether stored bytes are no older than some milliseconds. -/
def StoredTile.NoOlder (limit : ℕ) (now : CalendarTime) (e : StoredTile) : Prop :=
  now.epochMillis - e.storedAt ≤ limit

instance (limit : ℕ) (now : CalendarTime) : DecidablePred (StoredTile.NoOlder limit now) :=
  fun _ => Nat.decLe _ _

namespace CachedSource

variable {σ : Type} [TileStore σ]

/-- What a source has in front of it under a key, warm or in its store. -/
def Offers (c : CachedSource σ) (key : TileKey) (e : StoredTile) : Prop :=
  c.warm.get? key = some e ∨ TileStore.read c.store key.1 key.2 = .ok (some e)

theorem stored?_eq_some_iff {c : CachedSource σ} {tile : TileId} {layer : Layer} {now : CalendarTime}
    {e : StoredTile} : c.stored? tile layer now = some e ↔
      TileStore.read c.store tile layer = .ok (some e) ∧ e.isFresh c.maxAge now = true := by
  unfold stored?
  constructor
  · intro h
    split at h
    · next s hread =>
      rw [Option.ite_none_right_eq_some, Option.some.injEq] at h
      obtain ⟨hfresh, rfl⟩ := h
      exact ⟨hread, hfresh⟩
    · cases h
  · rintro ⟨hread, hfresh⟩
    rw [hread]
    exact if_pos hfresh

/-- Past the warm set, a fresh entry of the store is served, or else the source is asked. -/
theorem fetchCold_serves_or_asks (c : CachedSource σ) (tile : TileId) (layer : Layer)
    (outcome : Outcome) (now : CalendarTime) :
    (∃ e, c.stored? tile layer now = some e ∧
      (c.fetchCold tile layer outcome now).answer = .ok e.bytes ∧
      (c.fetchCold tile layer outcome now).accesses.any Access.isAsk = false) ∨
    (c.stored? tile layer now = none ∧
      (c.fetchCold tile layer outcome now).accesses.any Access.isAsk = true) := by
  unfold fetchCold
  cases hstored : c.stored? tile layer now with
  | some e => exact .inl ⟨e, rfl, rfl, rfl⟩
  | none =>
    refine .inr ⟨rfl, ?_⟩
    dsimp only
    rw [List.any_cons, (answer_ask c tile layer outcome now).2, Bool.or_true]

/-- Without a fresh warm entry the store decides, and using up a warm entry does not touch the store. -/
theorem fetch_of_not_warm {c : CachedSource σ} {tile : TileId} {layer : Layer} {outcome : Outcome}
    {now : CalendarTime}
    (hstale : ∀ e, c.warm.get? (tile, layer) = some e → e.isFresh c.maxAge now = false)
    (hfetch : c.fetch tile layer outcome now =
      (c.without (tile, layer)).fetchCold tile layer outcome now) :
    (∃ e, c.Offers (tile, layer) e ∧ e.isFresh c.maxAge now = true ∧
      (c.fetch tile layer outcome now).answer = .ok e.bytes ∧
      (c.fetch tile layer outcome now).accesses.any Access.isAsk = false) ∨
    ((∀ e, c.Offers (tile, layer) e → e.isFresh c.maxAge now = false) ∧
      (c.fetch tile layer outcome now).accesses.any Access.isAsk = true) := by
  rw [hfetch]
  rcases fetchCold_serves_or_asks (c.without (tile, layer)) tile layer outcome now with
    ⟨e, hstored, hanswer, hquiet⟩ | ⟨hnone, hask⟩
  · obtain ⟨hread, hfresh⟩ := stored?_eq_some_iff.mp hstored
    exact .inl ⟨e, .inr hread, hfresh, hanswer, hquiet⟩
  · refine .inr ⟨fun e he => ?_, hask⟩
    rcases he with hwarm | hread
    · exact hstale e hwarm
    · rw [Bool.eq_false_iff]
      intro hfresh
      have hstored : (c.without (tile, layer)).stored? tile layer now = some e :=
        stored?_eq_some_iff.mpr ⟨hread, hfresh⟩
      rw [hstored] at hnone
      cases hnone

/-- **A fetch serves a fresh entry that is offered, or else asks.** -/
theorem fetch_serves_or_asks (c : CachedSource σ) (tile : TileId) (layer : Layer) (outcome : Outcome)
    (now : CalendarTime) :
    (∃ e, c.Offers (tile, layer) e ∧ e.isFresh c.maxAge now = true ∧
      (c.fetch tile layer outcome now).answer = .ok e.bytes ∧
      (c.fetch tile layer outcome now).accesses.any Access.isAsk = false) ∨
    ((∀ e, c.Offers (tile, layer) e → e.isFresh c.maxAge now = false) ∧
      (c.fetch tile layer outcome now).accesses.any Access.isAsk = true) := by
  cases hwarm : c.warm.get? (tile, layer) with
  | none =>
    refine fetch_of_not_warm (fun e he => ?_) ?_
    · rw [hwarm] at he
      cases he
    · unfold fetch
      rw [hwarm]
      rfl
  | some e =>
    cases hfresh : e.isFresh c.maxAge now with
    | true =>
      have hfetch : c.fetch tile layer outcome now = ⟨c.without (tile, layer), .ok e.bytes, []⟩ := by
        unfold fetch
        rw [hwarm]
        exact if_pos hfresh
      rw [hfetch]
      exact .inl ⟨e, .inl hwarm, hfresh, rfl, rfl⟩
    | false =>
      refine fetch_of_not_warm (fun e' he' => ?_) ?_
      · rw [hwarm] at he'
        cases he'
        exact hfresh
      · unfold fetch
        rw [hwarm]
        exact if_neg (Bool.eq_false_iff.mp hfresh)

/-- Bytes of any age that a clock can tell may be all that there is. -/
theorem exists_offers_only (maxAge : Option Duration) {n : ℕ} (h : n < Checked.words64) :
    ∃ (c : CachedSource MemoryStore) (tile : TileId) (layer : Layer) (e : StoredTile)
      (now : CalendarTime), c.maxAge = maxAge ∧ (∀ e', c.Offers (tile, layer) e' ↔ e' = e) ∧
        ∀ limit, e.NoOlder limit now ↔ n ≤ limit := by
  refine ⟨.ofStore (MemoryStore.empty.insert ⟨⟨0, 0, 0⟩, .ortho, [], 0⟩) maxAge, ⟨0, 0, 0⟩, .ortho,
    ⟨⟨0, 0, 0⟩, .ortho, [], 0⟩, ⟨(n * nanosPerMilli : ℕ)⟩, rfl, fun e' => ?_, fun limit => ?_⟩
  · constructor
    · rintro (hwarm | hread)
      · cases hwarm
      · exact (Option.some.inj (Except.ok.inj hread)).symm
    · rintro rfl
      exact .inr rfl
  · have hnow : CalendarTime.epochMillis ⟨(n * nanosPerMilli : ℕ)⟩ = n := by
      unfold CalendarTime.epochMillis
      rw [Int.toNat_natCast, Nat.mul_div_cancel _ (by decide), Nat.mod_eq_of_lt h]
    unfold StoredTile.NoOlder
    rw [hnow, Nat.sub_zero]

end CachedSource

namespace DiskStore

variable {s : DiskStore} {t : FileTree} {layer : Layer} {zoom : ℕ}

/-! ### Reading everything up to a cutoff -/

/-- Whether stored bytes are not older than a cutoff. -/
def Passes (cutoff : Option ℕ) (e : StoredTile) : Bool := !cutoff.any (e.storedAt < ·)

variable (cutoff : Option ℕ)

theorem readFile_passes {x : ℕ} {column : Path} {file : String × Place} {o : Option StoredTile}
    (h : readFile t layer none zoom x column file = .ok o) :
    readFile t layer cutoff zoom x column file = .ok (o.filter (Passes cutoff)) := by
  unfold readFile at h ⊢
  cases hrow : row? file.1 with
  | none =>
    rw [hrow] at h
    cases h
    rfl
  | some y =>
    rw [hrow] at h
    dsimp only at h ⊢
    split at h
    · next hinvalid =>
      cases h
      rw [if_pos hinvalid]
      rfl
    · next hvalid =>
      rw [Option.any_none, if_neg Bool.false_ne_true] at h
      obtain ⟨read, hread, h⟩ := Checked.bind_eq_ok h
      cases h
      rw [if_neg hvalid, hread, Option.filter_some]
      unfold Passes
      cases cutoff.any ((t.modifiedAt file.2).epochMillis < ·) <;> rfl

theorem readColumn_passes {column : ℕ × Path} {found : List StoredTile}
    (h : readColumn t layer none zoom column = .ok found) :
    readColumn t layer cutoff zoom column = .ok (found.filter (Passes cutoff)) := by
  obtain ⟨files, hfiles, h⟩ := Checked.bind_eq_ok h
  obtain ⟨os, hos, h⟩ := Checked.bind_eq_ok h
  cases h
  have hpassing := mapM_map_eq_ok (fun _ _ ho => readFile_passes cutoff ho) hos
  unfold readColumn
  rw [hfiles]
  dsimp only [bind, Except.bind]
  rw [hpassing]
  dsimp only [List.reduceOption]
  rw [List.filter_filterMap, List.filterMap_map]
  rfl

theorem readLevel_passes {level : ℕ × Path} {found : List StoredTile}
    (h : readLevel t layer none level = .ok found) :
    readLevel t layer cutoff level = .ok (found.filter (Passes cutoff)) := by
  obtain ⟨columns, hcolumns, h⟩ := Checked.bind_eq_ok h
  obtain ⟨parts, hparts, h⟩ := Checked.bind_eq_ok h
  cases h
  have hpassing := mapM_map_eq_ok (fun _ _ hpart => readColumn_passes cutoff hpart) hparts
  unfold readLevel
  rw [hcolumns]
  dsimp only [bind, Except.bind]
  rw [hpassing, List.filter_flatten]
  rfl

theorem readLayer_passes {found : List StoredTile} (h : s.readLayer none layer = .ok found) :
    s.readLayer cutoff layer = .ok (found.filter (Passes cutoff)) := by
  obtain ⟨levels, hlevels, h⟩ := Checked.bind_eq_ok h
  obtain ⟨parts, hparts, h⟩ := Checked.bind_eq_ok h
  cases h
  have hpassing := mapM_map_eq_ok (fun _ _ hpart => readLevel_passes cutoff hpart) hparts
  unfold readLayer
  rw [hlevels]
  dsimp only [bind, Except.bind]
  rw [hpassing, List.filter_flatten]
  rfl

/-- **An age limit only takes away what is not fresh.** -/
theorem readAll_fresh {now : CalendarTime} {all : List StoredTile} (h : s.readAll none now = .ok all)
    (maxAge : Option Duration) :
    s.readAll maxAge now = .ok (all.filter (StoredTile.isFresh maxAge now)) := by
  have hpasses : Passes (DiskStore.cutoff maxAge now) = StoredTile.isFresh maxAge now := by
    funext e
    rw [Passes, cutoff_any, Bool.not_not]
  unfold readAll at h ⊢
  split at h
  · next parts hparts =>
    cases h
    rw [mapM_map_eq_ok (fun _ _ hpart => readLayer_passes (DiskStore.cutoff maxAge now) hpart) hparts,
      hpasses]
    dsimp only
    rw [List.filter_flatten]
  · cases h

end DiskStore

/-! ### What an age limit means -/

theorem StoredTile.isFresh_iff {age : Duration} {now : CalendarTime} {e : StoredTile} :
    e.isFresh (some age) now = true ↔ e.NoOlder age.millis64 now :=
  decide_eq_true_iff

namespace Duration

/-- **An age means some milliseconds:** a fetch that is limited to it serves what is no older, and asks only
where nothing is; reading everything from a disk gives what is found and no older. -/
structure Means (age : Duration) (limit : ℕ) : Prop where
  served_iff : ∀ {σ : Type} [TileStore σ] (c : CachedSource σ) tile layer outcome now,
    c.maxAge = some age →
      ((c.fetch tile layer outcome now).accesses.any Access.isAsk = false ↔
        ∃ e, c.Offers (tile, layer) e ∧ e.NoOlder limit now)
  served : ∀ {σ : Type} [TileStore σ] (c : CachedSource σ) tile layer outcome now,
    c.maxAge = some age → (c.fetch tile layer outcome now).accesses.any Access.isAsk = false →
      ∃ e, c.Offers (tile, layer) e ∧ e.NoOlder limit now ∧
        (c.fetch tile layer outcome now).answer = .ok e.bytes
  kept : ∀ (s : DiskStore) now all, s.readAll none now = .ok all →
    s.readAll (some age) now = .ok (all.filter fun e => e.NoOlder limit now)
  kept_iff : ∀ (s : DiskStore) now young, s.readAll (some age) now = .ok young →
    ∀ e, e ∈ young ↔ (∃ path, s.Found path e) ∧ e.NoOlder limit now

variable {age : Duration}

/-- **An age means its milliseconds, cut to 64 bits.** -/
theorem means_millis64 (age : Duration) : age.Means age.millis64 where
  served_iff c tile layer outcome now hage := by
    rcases c.fetch_serves_or_asks tile layer outcome now with
      ⟨e, hoffers, hfresh, -, hquiet⟩ | ⟨hstale, hask⟩
    · rw [hage] at hfresh
      exact iff_of_true hquiet ⟨e, hoffers, StoredTile.isFresh_iff.mp hfresh⟩
    · rw [hask]
      refine iff_of_false Bool.noConfusion ?_
      rintro ⟨e, hoffers, hyoung⟩
      have hfresh := StoredTile.isFresh_iff.mpr hyoung
      rw [← hage, hstale e hoffers] at hfresh
      cases hfresh
  served c tile layer outcome now hage hquiet := by
    rcases c.fetch_serves_or_asks tile layer outcome now with
      ⟨e, hoffers, hfresh, hanswer, -⟩ | ⟨-, hask⟩
    · rw [hage] at hfresh
      exact ⟨e, hoffers, StoredTile.isFresh_iff.mp hfresh, hanswer⟩
    · rw [hask] at hquiet
      cases hquiet
  kept s now all hall := DiskStore.readAll_fresh hall (some age)
  kept_iff s now young hyoung e := by
    obtain ⟨files, hfiles, rfl⟩ := DiskStore.exists_files hyoung
    simp only [List.mem_map, Prod.exists, hfiles.mem_iff, exists_eq_right, DiskStore.cutoff_any,
      Bool.not_eq_false', StoredTile.isFresh_iff, exists_and_right]

/-- **An age means one number of milliseconds,** as far as clocks of 64 bits can tell: bytes that are a
millisecond older than `a` are not served. -/
theorem Means.le {a b : ℕ} (ha : age.Means a) (hb : age.Means b) (h : a + 1 < Checked.words64) :
    b ≤ a := by
  by_contra hlt
  rw [Nat.not_le] at hlt
  obtain ⟨c, tile, layer, e, now, hage, honly, hold⟩ := CachedSource.exists_offers_only (some age) h
  have hyoung : e.NoOlder b now := (hold b).mpr hlt
  have hquiet := (hb.served_iff c tile layer (.ok []) now hage).mpr ⟨e, (honly e).mpr rfl, hyoung⟩
  obtain ⟨e', hoffers, hyoung'⟩ := (ha.served_iff c tile layer (.ok []) now hage).mp hquiet
  rw [(honly e').mp hoffers] at hyoung'
  exact absurd ((hold a).mp hyoung') (Nat.not_succ_le_self a)

end Duration

namespace LoaderSettings

variable {s : LoaderSettings} {age : Duration}

theorem diskCacheMaxAge_eq_some (h : s.diskCacheMaxAge = .ok (some age)) :
    age = .ofSeconds (s.diskCacheMaxAgeDays * 86400) := by
  unfold diskCacheMaxAge at h
  split at h
  · cases h
  · obtain ⟨seconds, hseconds, h⟩ := Checked.bind_eq_ok h
    cases h
    rw [Checked.word64_eq_ok hseconds]

theorem millis64_ofSeconds (n : ℕ) :
    (Duration.ofSeconds n).millis64 = n * 1000 % Checked.words64 := by
  have hmillis : n * nanosPerSecond / nanosPerMilli = n * 1000 := by
    unfold nanosPerSecond nanosPerMilli
    omega
  exact congrArg (· % Checked.words64) hmillis

/-- **What an age limit of some days means,** for every number of days that is not refused: the days in
milliseconds, cut to 64 bits. So it means the days as long as their milliseconds fit 64 bits, and no
longer. -/
theorem diskCacheMaxAge_means (h : s.diskCacheMaxAge = .ok (some age)) :
    age.Means (s.diskCacheMaxAgeDays * 86400000 % Checked.words64) ∧
    (age.Means (s.diskCacheMaxAgeDays * 86400000) ↔ s.diskCacheMaxAgeDays ≤ 213503982334) := by
  have hmeans := age.means_millis64
  have hmillis : age.millis64 = s.diskCacheMaxAgeDays * 86400000 % Checked.words64 := by
    rw [diskCacheMaxAge_eq_some h, millis64_ofSeconds, Nat.mul_assoc]
  rw [hmillis] at hmeans
  refine ⟨hmeans, fun hdays => ?_, fun hle => ?_⟩
  · -- both the milliseconds of the days and what they are cut by are even
    have hle := hmeans.le hdays (by unfold Checked.words64; omega)
    unfold Checked.words64 at hle
    omega
  · have hword : s.diskCacheMaxAgeDays * 86400000 < Checked.words64 := by
      unfold Checked.words64
      omega
    rwa [Nat.mod_eq_of_lt hword] at hmeans

/-- The standard thirty days mean thirty days. -/
theorem diskCacheMaxAge_means_standard :
    standard.diskCacheMaxAge = .ok (some (.ofSeconds 2592000)) ∧
    (Duration.ofSeconds 2592000).Means 2592000000 :=
  ⟨by decide, (@diskCacheMaxAge_means standard _ (by decide)).2.mpr (by decide)⟩

/-- With a limit of a day more than can be meant, bytes that are ten days old are fetched again, and left
out when everything is read. -/
theorem young_refetched :
    let days := 213503982335
    let age := Duration.ofSeconds (days * 86400)
    let now : CalendarTime := ⟨10 * 86400 * nanosPerSecond⟩
    let e : StoredTile := ⟨⟨2, 1, 1⟩, .ortho, [1], 0⟩
    let disk : DiskStore := ⟨FileTree.standard.put ["c", "ortho", "2", "1", "1.tile"] [1] ⟨0⟩, ["c"]⟩
    let served := (CachedSource.ofStore (MemoryStore.empty.insert e) (some age)).fetch ⟨2, 1, 1⟩ .ortho
      (.ok [2]) now
    { standard with diskCacheMaxAgeDays := days }.diskCacheMaxAge = .ok (some age) ∧
    e.NoOlder (days * 86400000) now ∧
    served.answer = .ok [2] ∧ served.accesses.any Access.isAsk = true ∧
    disk.readAll none now = .ok [e] ∧ disk.readAll (some age) now = .ok [] := by
  decide +kernel

end LoaderSettings

end TileStream
