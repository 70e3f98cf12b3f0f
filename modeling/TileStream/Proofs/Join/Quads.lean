import Mathlib.Data.List.Perm.Subperm
import TileStream.Join.Quads
import TileStream.Proofs.Geo.Children
import TileStream.Proofs.Table

/-!
# What the quad joins wait for

A quad that is being loaded waits for those of its existing children that were not delivered yet
(`QuadJoins.Awaits`). The joins keep only a count and a list for it, and `QuadJoins.Sound` says why
that is enough: the list holds distinct existing children, and the count is the number of all of
them. As many distinct children as there are must be all of them (`Part.perm`).

* `load_eq`, `awaits_opened`: ordering a quad that is not being loaded makes its existing children
  awaited, and completes it at once when it has none.
* `deliver_of_awaits`: an awaited tile is taken out of what is awaited, and no other, whether it
  completes its quad or not.
-/

namespace TileStream

namespace QuadJoins

variable {a : QuadJoins} {c : Coverage} {quad : QuadId}

/-- Records of distinct existing children of a quad. -/
structure Part (c : Coverage) (quad : QuadId) (records : List TileRecord) : Prop where
  nodup : (records.map (·.id)).Nodup
  children : ∀ r ∈ records, c.covers r.id = true ∧ r.id.parent? = some quad

/-- What was delivered for a quad so far are distinct existing children, and not all of them. -/
structure Fits (c : Coverage) (quad : QuadId) (j : QuadJoin) : Prop where
  isQuad : quad.IsQuad
  part : Part c quad j.tiles
  short : j.tiles.length < j.expected
  expected : ∀ tiles, c.children quad = .ok tiles → j.expected = tiles.length

/-- Every quad that is being loaded fits its children. -/
def Sound (a : QuadJoins) : Prop :=
  ∀ quad j, a.pending.get? quad = some j → Fits a.coverage quad j

/-- The tile is an existing child of a quad being loaded and was not delivered yet. -/
def Awaits (a : QuadJoins) (t : TileId) : Prop :=
  ∃ quad j tiles, a.pending.get? quad = some j ∧ a.coverage.children quad = .ok tiles ∧ t ∈ tiles ∧
    ∀ r ∈ j.tiles, r.id ≠ t

theorem sound_ofCoverage (c : Coverage) : (ofCoverage c).Sound := fun _ _ h => by cases h

theorem not_awaits_ofCoverage (c : Coverage) (t : TileId) : ¬ (ofCoverage c).Awaits t :=
  fun ⟨_, _, _, h, _⟩ => by cases h

theorem parent?_of_awaits (ha : a.Sound) {t : TileId} (h : a.Awaits t) :
    ∃ quad, t.parent? = some quad := by
  obtain ⟨quad, j, tiles, hj, hc, ht, -⟩ := h
  exact ⟨quad, ((Coverage.mem_children (ha quad j hj).isQuad hc).mp ht).2⟩

/-- **An awaited tile in terms of its parent.** -/
theorem awaits_iff (ha : a.Sound) {t : TileId} (hp : t.parent? = some quad) : a.Awaits t ↔
    a.coverage.covers t = true ∧ ∃ j, a.pending.get? quad = some j ∧ ∀ r ∈ j.tiles, r.id ≠ t := by
  constructor
  · rintro ⟨q, j, tiles, hj, hc, ht, hnew⟩
    obtain ⟨hcov, hp'⟩ := (Coverage.mem_children (ha q j hj).isQuad hc).mp ht
    rw [hp, Option.some.injEq] at hp'
    subst hp'
    exact ⟨hcov, j, hj, hnew⟩
  · rintro ⟨hcov, j, hj, hnew⟩
    have hq := (ha quad j hj).isQuad
    have hc := Coverage.children_eq (c := a.coverage) hq
    exact ⟨quad, j, _, hj, hc, (Coverage.mem_children hq hc).mpr ⟨hcov, hp⟩, hnew⟩

/-! ### Parts of a quad -/

theorem part_nil (c : Coverage) (quad : QuadId) : Part c quad [] := ⟨List.nodup_nil, by simp⟩

theorem Part.append {records : List TileRecord} {record : TileRecord} (h : Part c quad records)
    (hcov : c.covers record.id = true) (hp : record.id.parent? = some quad)
    (hnew : ∀ r ∈ records, r.id ≠ record.id) : Part c quad (records ++ [record]) := by
  refine ⟨?_, fun r hr => ?_⟩
  · rw [List.map_append]
    refine List.nodup_append.mpr ⟨h.nodup, List.nodup_singleton _, ?_⟩
    intro t ht t' ht'
    obtain ⟨r, hr, rfl⟩ := List.mem_map.mp ht
    rw [List.map_singleton, List.mem_singleton] at ht'
    rw [ht']
    exact hnew r hr
  · rcases List.mem_append.mp hr with hr | hr
    · exact h.children r hr
    · rw [List.mem_singleton.mp hr]
      exact ⟨hcov, hp⟩

/-- **As many distinct children as there are** are all the children. -/
theorem Part.perm {records : List TileRecord} {tiles : List TileId} (h : Part c quad records)
    (hq : quad.IsQuad) (hc : c.children quad = .ok tiles) (hlen : tiles.length ≤ records.length) :
    (records.map (·.id)).Perm tiles := by
  have hsub : records.map (·.id) ⊆ tiles := by
    intro t ht
    obtain ⟨r, hr, rfl⟩ := List.mem_map.mp ht
    exact (Coverage.mem_children hq hc).mpr (h.children r hr)
  exact (List.subperm_of_subset h.nodup hsub).perm_of_length_le (by simpa using hlen)

theorem Part.all {records : List TileRecord} {tiles : List TileId} (h : Part c quad records)
    (hq : quad.IsQuad) (hc : c.children quad = .ok tiles) (hlen : tiles.length ≤ records.length)
    {t : TileId} (ht : t ∈ tiles) : ∃ r ∈ records, r.id = t :=
  List.mem_map.mp ((h.perm hq hc hlen).mem_iff.mpr ht)

/-- **A quad that is being loaded waits for a tile.** -/
theorem exists_awaits (ha : a.Sound) (h : a.isLoading quad = true) :
    ∃ t, t.parent? = some quad ∧ a.Awaits t := by
  obtain ⟨j, hj⟩ := a.pending.contains_iff.mp h
  have hfits := ha quad j hj
  have hc := Coverage.children_eq (c := a.coverage) hfits.isQuad
  generalize (if a.coverage.maxZoom ≤ quad.zoom then [] else _) = tiles at hc
  by_contra hnone
  -- then every child was delivered, which are more than were
  have hall : tiles ⊆ j.tiles.map (·.id) := by
    intro t ht
    by_contra hout
    have hp := ((Coverage.mem_children hfits.isQuad hc).mp ht).2
    refine hnone ⟨t, hp, quad, j, tiles, hj, hc, ht, fun r hr he => hout ?_⟩
    exact List.mem_map.mpr ⟨r, hr, he⟩
  have hle := (List.subperm_of_subset (Coverage.nodup_children hfits.isQuad hc) hall).length_le
  have hshort := hfits.short
  rw [hfits.expected tiles hc] at hshort
  rw [List.length_map] at hle
  omega

/-! ### Ordering a quad -/

/-- The joins with a quad of which `n` tiles are awaited. -/
def opened (a : QuadJoins) (quad : QuadId) (n : Nat) : QuadJoins :=
  { a with pending := a.pending.set quad ⟨n, []⟩ }

theorem get?_opened (a : QuadJoins) (quad : QuadId) (n : Nat) (q : QuadId) :
    (a.opened quad n).pending.get? q = if q = quad then some ⟨n, []⟩ else a.pending.get? q :=
  Table.get?_set _ _ _ _

theorem isLoading_opened (n : Nat) (q : QuadId) :
    (a.opened quad n).isLoading q = (decide (q = quad) || a.isLoading q) :=
  Table.contains_set _ _ _ _

/-- What comes of ordering any quad. -/
theorem load_cases {a' : QuadJoins} {start : QuadStart} (h : a.load quad = .ok (a', start)) :
    (start = .alreadyLoading ∧ a' = a) ∨
    (start = .complete (.ofTiles quad []) ∧ a' = a ∧ a.coverage.children quad = .ok []) ∨
    ∃ tiles, tiles ≠ [] ∧ a.coverage.children quad = .ok tiles ∧ start = .started tiles ∧
      a' = a.opened quad tiles.length := by
  unfold load at h
  split at h
  · cases h
    exact .inl ⟨rfl, rfl⟩
  · cases hc : a.coverage.children quad with
    | error e =>
      rw [hc] at h
      cases h
    | ok tiles =>
      rw [hc] at h
      cases tiles with
      | nil =>
        cases h
        exact .inr (.inl ⟨rfl, rfl, rfl⟩)
      | cons t tiles =>
        cases h
        exact .inr (.inr ⟨t :: tiles, List.cons_ne_nil _ _, rfl, rfl, rfl⟩)

theorem coverage_load {a' : QuadJoins} {start : QuadStart} (h : a.load quad = .ok (a', start)) :
    a'.coverage = a.coverage := by
  rcases load_cases h with ⟨-, rfl⟩ | ⟨-, rfl, -⟩ | ⟨tiles, -, -, -, rfl⟩ <;> rfl

/-- What comes of ordering a quad that is not being loaded. -/
theorem load_eq (hq : quad.IsQuad) (h : a.isLoading quad = false) :
    ∃ tiles, a.coverage.children quad = .ok tiles ∧
      a.load quad = if tiles = [] then .ok (a, .complete (.ofTiles quad []))
        else .ok (a.opened quad tiles.length, .started tiles) := by
  have hc := Coverage.children_eq (c := a.coverage) hq
  refine ⟨_, hc, ?_⟩
  unfold load
  rw [show a.pending.contains quad = false from h, hc]
  generalize (if a.coverage.maxZoom ≤ quad.zoom then ([] : List TileId) else _) = tiles
  cases tiles <;> rfl

variable {tiles : List TileId}

theorem sound_opened (ha : a.Sound) (hq : quad.IsQuad) (hc : a.coverage.children quad = .ok tiles)
    (hne : tiles ≠ []) : (a.opened quad tiles.length).Sound := by
  intro q j h
  rw [get?_opened] at h
  split at h
  · next he =>
    cases h
    subst he
    refine ⟨hq, part_nil _ _, List.length_pos_iff.mpr hne, fun tiles' hc' => ?_⟩
    have heq := hc.symm.trans hc'
    cases heq
    rfl
  · exact ha q j h

/-- **Ordering a quad makes its existing children awaited,** which were not before. -/
theorem awaits_opened (ha : a.Sound) (hq : quad.IsQuad) (h : a.isLoading quad = false)
    (hc : a.coverage.children quad = .ok tiles) (t : TileId) :
    ((a.opened quad tiles.length).Awaits t ↔ a.Awaits t ∨ t ∈ tiles) ∧
      (t ∈ tiles → ¬ a.Awaits t) := by
  have hnone := a.pending.contains_eq_false_iff.mp h
  refine ⟨⟨?_, ?_⟩, ?_⟩
  · rintro ⟨q, j, tiles', hj, hc', ht, hnew⟩
    rw [get?_opened] at hj
    split at hj
    · next he =>
      subst he
      have heq := hc.symm.trans hc'
      cases heq
      exact .inr ht
    · exact .inl ⟨q, j, tiles', hj, hc', ht, hnew⟩
  · rintro (⟨q, j, tiles', hj, hc', ht, hnew⟩ | ht)
    · refine ⟨q, j, tiles', ?_, hc', ht, hnew⟩
      rw [get?_opened, if_neg]
      · exact hj
      · rintro rfl
        rw [hnone] at hj
        cases hj
    · exact ⟨quad, _, tiles, by rw [get?_opened, if_pos rfl], hc, ht, by simp⟩
  · intro ht hw
    obtain ⟨-, j, hj, -⟩ := (awaits_iff ha ((Coverage.mem_children hq hc).mp ht).2).mp hw
    rw [hnone] at hj
    cases hj

/-! ### Taking in a tile -/

/-- The joins with one more tile of a quad that waits for others still. -/
def kept (a : QuadJoins) (quad : QuadId) (j : QuadJoin) (record : TileRecord) : QuadJoins :=
  { a with pending := a.pending.set quad ⟨j.expected, j.tiles ++ [record]⟩ }

/-- The joins without a quad that is complete. -/
def closed (a : QuadJoins) (quad : QuadId) : QuadJoins :=
  { a with pending := a.pending.erase quad }

theorem get?_kept (a : QuadJoins) (quad : QuadId) (j : QuadJoin) (record : TileRecord) (q : QuadId) :
    (a.kept quad j record).pending.get? q =
      if q = quad then some ⟨j.expected, j.tiles ++ [record]⟩ else a.pending.get? q :=
  Table.get?_set _ _ _ _

theorem get?_closed (a : QuadJoins) (quad q : QuadId) :
    (a.closed quad).pending.get? q = if q = quad then none else a.pending.get? q :=
  Table.get?_erase _ _ _

theorem isLoading_closed (a : QuadJoins) (quad q : QuadId) :
    (a.closed quad).isLoading q = (decide (q ≠ quad) && a.isLoading q) :=
  Table.contains_erase _ _ _

/-- What comes of a tile of a quad being loaded that was not delivered yet. -/
theorem deliver_eq {record : TileRecord} {j : QuadJoin} (hp : record.id.parent? = some quad)
    (hj : a.pending.get? quad = some j) (hnew : ∀ r ∈ j.tiles, r.id ≠ record.id) :
    a.deliver record =
      if j.tiles.length + 1 < j.expected then (a.kept quad j record, none)
      else (a.closed quad, some (.ofTiles quad (j.tiles ++ [record]))) := by
  have hany : (j.tiles.any fun r => r.id = record.id) = false := by simpa using hnew
  unfold deliver
  simp only [hp, hj, hany, Bool.false_eq_true, if_false, List.length_append, List.length_singleton]
  rfl

/-- A tile is dropped, or it is new to its quad. -/
theorem deliver_cases (a : QuadJoins) (tile : TileRecord) :
    (a.deliver tile = (a, none) ∧ ∀ quad j, tile.id.parent? = some quad →
      a.pending.get? quad = some j → j.tiles.any (·.id = tile.id) = true) ∨
    ∃ quad j, tile.id.parent? = some quad ∧ a.pending.get? quad = some j ∧
      j.tiles.any (·.id = tile.id) = false ∧ a.deliver tile =
        if j.tiles.length + 1 < j.expected then (a.kept quad j tile, none)
        else (a.closed quad, some (.ofTiles quad (j.tiles ++ [tile]))) := by
  cases hp : tile.id.parent? with
  | none => exact .inl ⟨by simp [deliver, hp], fun quad j h => by cases h⟩
  | some quad =>
    cases hj : a.pending.get? quad with
    | none =>
      refine .inl ⟨by simp [deliver, hp, hj], fun q j hq hget => ?_⟩
      cases hq
      rw [hj] at hget
      cases hget
    | some j =>
      cases hany : j.tiles.any (·.id = tile.id) with
      | true =>
        refine .inl ⟨by simp only [deliver, hp, hj, hany, if_true], fun q k hq hget => ?_⟩
        cases hq
        rw [hj] at hget
        cases hget
        exact hany
      | false =>
        have hnew : ∀ r ∈ j.tiles, r.id ≠ tile.id := by simpa using hany
        exact .inr ⟨quad, j, rfl, hj, hany, deliver_eq hp hj hnew⟩

theorem coverage_deliver (a : QuadJoins) (record : TileRecord) :
    (a.deliver record).1.coverage = a.coverage := by
  rcases deliver_cases a record with ⟨heq, -⟩ | ⟨quad, j, -, -, -, heq⟩ <;> rw [heq]
  split <;> rfl

/-- The joins compared before and after a change to one quad. -/
theorem awaits_iff_of_get? {a' : QuadJoins} (ha : a.Sound) (ha' : a'.Sound)
    (hcover : a'.coverage = a.coverage) {record : TileRecord}
    (hp : record.id.parent? = some quad)
    (hsame : ∀ q, q ≠ quad → a'.pending.get? q = a.pending.get? q)
    (hquad : ∀ t, t.parent? = some quad → (a'.Awaits t ↔ a.Awaits t ∧ t ≠ record.id))
    (t : TileId) : a'.Awaits t ↔ a.Awaits t ∧ t ≠ record.id := by
  cases ht : t.parent? with
  | none =>
    constructor
    · intro hw
      obtain ⟨q, hq⟩ := parent?_of_awaits ha' hw
      rw [ht] at hq
      cases hq
    · rintro ⟨hw, -⟩
      obtain ⟨q, hq⟩ := parent?_of_awaits ha hw
      rw [ht] at hq
      cases hq
  | some q =>
    by_cases he : q = quad
    · exact hquad t (he ▸ ht)
    · have hne : t ≠ record.id := by
        rintro rfl
        rw [hp, Option.some.injEq] at ht
        exact he ht.symm
      rw [awaits_iff ha' ht, awaits_iff ha ht, hsame q he, hcover]
      simp [hne]

section

variable {record : TileRecord} {j : QuadJoin}

/-- A tile that leaves its quad waiting for more is not awaited any more. -/
theorem awaits_kept (ha : a.Sound) (hp : record.id.parent? = some quad)
    (hcov : a.coverage.covers record.id = true) (hj : a.pending.get? quad = some j)
    (hnew : ∀ r ∈ j.tiles, r.id ≠ record.id) (hmore : j.tiles.length + 1 < j.expected) :
    (a.kept quad j record).Sound ∧
      (∀ t, (a.kept quad j record).Awaits t ↔ a.Awaits t ∧ t ≠ record.id) ∧
      ∀ q, (a.kept quad j record).isLoading q = a.isLoading q := by
  have hfit := ha quad j hj
  have hload : a.isLoading quad = true := a.pending.contains_iff.mpr ⟨j, hj⟩
  have hget := get?_kept a quad j record
  have hsound : (a.kept quad j record).Sound := by
    intro q k hk
    rw [hget] at hk
    split at hk
    · next he =>
      cases hk
      subst he
      exact ⟨hfit.isQuad, hfit.part.append hcov hp hnew, by simpa using hmore, hfit.expected⟩
    · exact ha q k hk
  refine ⟨hsound, ?_, fun q => ?_⟩
  · refine awaits_iff_of_get? ha hsound rfl hp (fun q hq => by rw [hget, if_neg hq]) fun t ht => ?_
    rw [awaits_iff hsound ht, awaits_iff ha ht, hget, if_pos rfl, hj]
    constructor
    · rintro ⟨htcov, k, hk, htnew⟩
      cases hk
      exact ⟨⟨htcov, j, rfl, fun r hr => htnew r (List.mem_append_left _ hr)⟩,
        (htnew record (by simp)).symm⟩
    · rintro ⟨⟨htcov, k, hk, htnew⟩, hne⟩
      cases hk
      refine ⟨htcov, _, rfl, fun r hr => ?_⟩
      rcases List.mem_append.mp hr with hr | hr
      · exact htnew r hr
      · rw [List.mem_singleton.mp hr]
        exact hne.symm
  · show (a.pending.set quad _).contains q = _
    rw [Table.contains_set]
    by_cases he : q = quad
    · subst he; simpa using hload.symm
    · simp [he]; rfl

/-- A quad that has as many tiles as were expected has all its children, so none of them is awaited
any more. -/
theorem awaits_closed (ha : a.Sound) (hp : record.id.parent? = some quad)
    (hcov : a.coverage.covers record.id = true) (hj : a.pending.get? quad = some j)
    (hnew : ∀ r ∈ j.tiles, r.id ≠ record.id) (hlast : ¬ j.tiles.length + 1 < j.expected) :
    (a.closed quad).Sound ∧ ∀ t, (a.closed quad).Awaits t ↔ a.Awaits t ∧ t ≠ record.id := by
  have hfit := ha quad j hj
  have hget := get?_closed a quad
  have hsound : (a.closed quad).Sound := by
    intro q k hk
    rw [hget] at hk
    split at hk
    · cases hk
    · exact ha q k hk
  refine ⟨hsound, awaits_iff_of_get? ha hsound rfl hp (fun q hq => by rw [hget, if_neg hq])
    fun t ht => ?_⟩
  rw [awaits_iff hsound ht, awaits_iff ha ht, hget, if_pos rfl]
  constructor
  · rintro ⟨-, k, hk, -⟩
    cases hk
  · -- a child of the quad that is awaited still can only be the one just delivered
    rintro ⟨⟨htcov, k, hk, htnew⟩, hne⟩
    rw [hj] at hk
    cases hk
    have hc := Coverage.children_eq (c := a.coverage) hfit.isQuad
    have hlen := hfit.expected _ hc
    obtain ⟨r, hr, he⟩ := (hfit.part.append hcov hp hnew).all hfit.isQuad hc
      (by rw [List.length_append, List.length_singleton, ← hlen]; omega)
      ((Coverage.mem_children hfit.isQuad hc).mpr ⟨htcov, ht⟩)
    rcases List.mem_append.mp hr with hr | hr
    · exact absurd he (htnew r hr)
    · rw [List.mem_singleton.mp hr] at he
      exact absurd he.symm hne

/-- **An awaited tile** either leaves its quad waiting for more, or completes it. In both cases
that tile, and no other, is no longer awaited. -/
theorem deliver_of_awaits (ha : a.Sound) (h : a.Awaits record.id) :
    ∃ quad a' finished, record.id.parent? = some quad ∧ a.isLoading quad = true ∧
      a.deliver record = (a', finished) ∧ a'.coverage = a.coverage ∧ a'.Sound ∧
      (∀ t, a'.Awaits t ↔ a.Awaits t ∧ t ≠ record.id) ∧
      ((finished = none ∧ ∀ q, a'.isLoading q = a.isLoading q) ∨
        ∃ r, finished = some r ∧ r.id = quad ∧
          ∀ q, a'.isLoading q = (decide (q ≠ quad) && a.isLoading q)) := by
  obtain ⟨quad, hp⟩ := parent?_of_awaits ha h
  obtain ⟨hcov, j, hj, hnew⟩ := (awaits_iff ha hp).mp h
  have hload : a.isLoading quad = true := a.pending.contains_iff.mpr ⟨j, hj⟩
  have hdel := deliver_eq hp hj hnew
  by_cases hmore : j.tiles.length + 1 < j.expected
  · rw [if_pos hmore] at hdel
    obtain ⟨hsound, hawaits, hloading⟩ := awaits_kept ha hp hcov hj hnew hmore
    exact ⟨quad, _, _, hp, hload, hdel, rfl, hsound, hawaits, .inl ⟨rfl, hloading⟩⟩
  · rw [if_neg hmore] at hdel
    obtain ⟨hsound, hawaits⟩ := awaits_closed ha hp hcov hj hnew hmore
    exact ⟨quad, _, _, hp, hload, hdel, rfl, hsound, hawaits,
      .inr ⟨_, rfl, rfl, isLoading_closed a quad⟩⟩

end

end QuadJoins

end TileStream
