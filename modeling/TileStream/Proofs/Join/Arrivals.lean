import TileStream.Proofs.Geo.Extent
import TileStream.Proofs.Record.ChildOrder

/-! # What a finished quad consists of

While a quad is being loaded, the joins keep the first record of every tile whose parent it is, and the
quad is finished when these are as many as its existing children. Nobody asks whether such a tile exists.
So the record holds what came in (`QuadJoins.firsts`, `QuadJoins.arrivals`), as many tiles as there are
children, and these are the children if and only if no other tile of the quad came in
(`QuadJoins.finished_exactly`). A tile that does not exist takes the place of one that does
(`QuadJoins.finished_by_stray`). Only an extent parts the tiles of one quad: in a coverage without one they
exist all or none (`Coverage.covers_sibling`).

What came in is told by looking back over the calls. Of the joins this takes that each quad being loaded
holds just that (`QuadJoins.Tracks`), which every call keeps. -/

namespace TileStream

namespace QuadJoins

/-! ### First records -/

/-- The first record of each tile, in order. -/
def firsts (records : List TileRecord) : List TileRecord :=
  records.foldl (fun kept r => if kept.any (·.id = r.id) then kept else kept ++ [r]) []

variable {records : List TileRecord} {r : TileRecord}

theorem firsts_concat (records : List TileRecord) (r : TileRecord) :
    firsts (records ++ [r]) =
      if (firsts records).any (·.id = r.id) then firsts records else firsts records ++ [r] := by
  rw [firsts, List.foldl_append]
  rfl

theorem mem_of_mem_firsts (h : r ∈ firsts records) : r ∈ records := by
  induction records using List.reverseRecOn with
  | nil => cases h
  | append_singleton records last ih =>
    rw [List.mem_append]
    rw [firsts_concat] at h
    split at h
    · exact .inl (ih h)
    · exact (List.mem_append.mp h).imp_left ih

/-- **No tile is left out.** -/
theorem exists_mem_firsts (h : r ∈ records) : ∃ r' ∈ firsts records, r'.id = r.id := by
  induction records using List.reverseRecOn with
  | nil => cases h
  | append_singleton records last ih =>
    rw [firsts_concat]
    rcases List.mem_append.mp h with h | h
    · obtain ⟨r', hr', hid⟩ := ih h
      refine ⟨r', ?_, hid⟩
      split
      · exact hr'
      · exact List.mem_append_left _ hr'
    · rw [List.mem_singleton.mp h]
      split
      · next hany => simpa using hany
      · exact ⟨last, by simp, rfl⟩

/-- **No tile comes twice.** -/
theorem nodup_firsts (records : List TileRecord) : ((firsts records).map (·.id)).Nodup := by
  induction records using List.reverseRecOn with
  | nil => exact List.nodup_nil
  | append_singleton records last ih =>
    rw [firsts_concat]
    split
    · exact ih
    · next hnew =>
      rw [List.map_append, List.map_singleton, List.nodup_append_comm, List.singleton_append,
        List.nodup_cons]
      refine ⟨?_, ih⟩
      simpa using hnew

/-! ### Looking back -/

/-- A call of the joins with what came of it. -/
inductive Happening where
  | loaded (quad : QuadId) (start : QuadStart)
  | delivered (tile : TileRecord) (finished : Option QuadRecord)

/-- The joins after any calls, the last one first, in which the coordinates of quads can be doubled. -/
inductive Run (c : Coverage) : List Happening → QuadJoins → Prop
  | fresh : Run c [] (ofCoverage c)
  | load {past a a' start} (h : Run c past a) (quad : QuadId) (hx : quad.x.toNat < 2147483648)
      (hy : quad.y.toNat < 2147483648) (hl : a.load quad = .ok (a', start)) :
      Run c (.loaded quad start :: past) a'
  | deliver {past a a' finished} (h : Run c past a) (tile : TileRecord)
      (hd : a.deliver tile = (a', finished)) : Run c (.delivered tile finished :: past) a'

variable {c : Coverage} {past : List Happening} {a a' : QuadJoins} {quad : QuadId} {start : QuadStart}
  {tile : TileRecord} {finished : Option QuadRecord} {record : QuadRecord} {j : QuadJoin}

/-- The records of tiles of a quad that came since it was started, in order. -/
def arrivals (quad : QuadId) : List Happening → List TileRecord
  | [] => []
  | .loaded q (.started _) :: past => if q = quad then [] else arrivals quad past
  | .loaded _ (.complete _) :: past | .loaded _ .alreadyLoading :: past => arrivals quad past
  | .delivered tile _ :: past =>
    if tile.id.parent? = some quad then arrivals quad past ++ [tile] else arrivals quad past

theorem parent?_of_mem_arrivals (h : r ∈ arrivals quad past) : r.id.parent? = some quad := by
  induction past with
  | nil => cases h
  | cons e past ih =>
    cases e with
    | loaded q start =>
      cases start with
      | started tiles =>
        rw [arrivals] at h
        split at h
        · cases h
        · exact ih h
      | complete | alreadyLoading => exact ih h
    | delivered tile finished =>
      rw [arrivals] at h
      split at h
      · next hp =>
        rcases List.mem_append.mp h with h | h
        · exact ih h
        · rwa [List.mem_singleton.mp h]
      · exact ih h

/-! ### Starting a quad -/

/-- No quad faults whose coordinates can be doubled. -/
theorem exists_load (a : QuadJoins) (hx : quad.x.toNat < 2147483648)
    (hy : quad.y.toNat < 2147483648) : ∃ a' start, a.load quad = .ok (a', start) := by
  obtain ⟨tiles, hc⟩ := a.coverage.exists_children hx hy
  unfold load
  rw [hc]
  split
  · exact ⟨_, _, rfl⟩
  · cases tiles with
    | nil => exact ⟨_, _, rfl⟩
    | cons t tiles => exact ⟨_, _, rfl⟩

/-! ### What any calls keep -/

/-- A quad being loaded holds the first records of what came in, fewer than it has children. -/
structure Gathers (c : Coverage) (quad : QuadId) (since : List TileRecord) (j : QuadJoin) : Prop where
  isQuad : quad.IsQuad
  tiles : j.tiles = firsts since
  short : j.tiles.length < j.expected
  expected : ∀ tiles, c.children quad = .ok tiles → j.expected = tiles.length

/-- **Every quad being loaded** holds what came in since it was started. -/
structure Tracks (c : Coverage) (past : List Happening) (a : QuadJoins) : Prop where
  coverage : a.coverage = c
  gathers : ∀ quad j, a.pending.get? quad = some j → Gathers c quad (arrivals quad past) j

theorem tracks_ofCoverage (c : Coverage) : Tracks c [] (ofCoverage c) :=
  ⟨rfl, fun _ _ h => by cases h⟩

theorem Tracks.load (ha : Tracks c past a) (hx : quad.x.toNat < 2147483648)
    (hy : quad.y.toNat < 2147483648) (hl : a.load quad = .ok (a', start)) :
    Tracks c (.loaded quad start :: past) a' := by
  rcases load_cases hl with ⟨rfl, rfl⟩ | ⟨rfl, rfl, -⟩ | ⟨tiles, hne, hc, rfl, rfl⟩
  · exact ⟨ha.coverage, ha.gathers⟩
  · exact ⟨ha.coverage, ha.gathers⟩
  · rw [ha.coverage] at hc
    refine ⟨ha.coverage, fun q j hj => ?_⟩
    rw [get?_opened] at hj
    rw [arrivals]
    split at hj
    · next he =>
      cases hj
      subst he
      rw [if_pos rfl]
      refine ⟨Coverage.isQuad_of_children hx hy hc hne, rfl, List.length_pos_iff.mpr hne, fun tiles' hc' => ?_⟩
      rw [hc] at hc'
      cases hc'
      rfl
    · next he =>
      rw [if_neg (Ne.symm he)]
      exact ha.gathers q j hj

section

variable {since : List TileRecord} (hg : Gathers c quad since j)

include hg

/-- A tile that came before changes nothing. -/
theorem Gathers.dropped (hany : j.tiles.any (·.id = tile.id) = true) :
    Gathers c quad (since ++ [tile]) j := by
  refine ⟨hg.isQuad, ?_, hg.short, hg.expected⟩
  rw [firsts_concat, ← hg.tiles, if_pos hany]

variable (hnew : j.tiles.any (·.id = tile.id) = false)

include hnew

theorem Gathers.firsts_of_new : firsts (since ++ [tile]) = j.tiles ++ [tile] := by
  rw [firsts_concat, ← hg.tiles, hnew]
  rfl

theorem Gathers.kept (hmore : j.tiles.length + 1 < j.expected) :
    Gathers c quad (since ++ [tile]) ⟨j.expected, j.tiles ++ [tile]⟩ := by
  refine ⟨hg.isQuad, (hg.firsts_of_new hnew).symm, ?_, hg.expected⟩
  rwa [List.length_append, List.length_singleton]

theorem Gathers.completed (hlast : ¬ j.tiles.length + 1 < j.expected) :
    QuadRecord.ofTiles quad (j.tiles ++ [tile]) = .ofTiles quad (firsts (since ++ [tile])) ∧
      ∀ tiles, c.children quad = .ok tiles →
        (QuadRecord.ofTiles quad (j.tiles ++ [tile])).tiles.length = tiles.length := by
  refine ⟨by rw [hg.firsts_of_new hnew], fun tiles hc => ?_⟩
  have hshort := hg.short
  rw [(QuadRecord.perm_ofTiles _ _).length_eq, List.length_append, List.length_singleton,
    ← hg.expected tiles hc]
  omega

end

/-- A tile concerns its quad alone. -/
theorem Tracks.delivered (ha : Tracks c past a) (hcov : a'.coverage = a.coverage)
    (hother : ∀ q, tile.id.parent? ≠ some q → a'.pending.get? q = a.pending.get? q)
    (hquad : ∀ q k, tile.id.parent? = some q → a'.pending.get? q = some k →
      Gathers c q (arrivals q past ++ [tile]) k) :
    Tracks c (.delivered tile finished :: past) a' := by
  refine ⟨hcov.trans ha.coverage, fun q k hk => ?_⟩
  rw [arrivals]
  split
  · next hp => exact hquad q k hp hk
  · next hp =>
    rw [hother q hp] at hk
    exact ha.gathers q k hk

/-- **A tile is kept if it is the first** of its id, and a quad that has enough of them is given out. -/
theorem Tracks.deliver (ha : Tracks c past a) (hd : a.deliver tile = (a', finished)) :
    Tracks c (.delivered tile finished :: past) a' ∧ ∀ record, finished = some record →
      tile.id.parent? = some record.id ∧ record.id.IsQuad ∧
      record = .ofTiles record.id (firsts (arrivals record.id past ++ [tile])) ∧
      ∀ tiles, c.children record.id = .ok tiles → record.tiles.length = tiles.length := by
  rcases deliver_cases a tile with ⟨heq, hseen⟩ | ⟨quad, j, hp, hj, hnew, heq⟩
  · rw [hd] at heq
    cases heq
    refine ⟨ha.delivered rfl (fun _ _ => rfl) fun q k hq hk => ?_, fun record hr => by cases hr⟩
    exact (ha.gathers q k hk).dropped (hseen q k hq hk)
  · have hg := ha.gathers quad j hj
    have hne : ∀ q, tile.id.parent? ≠ some q → q ≠ quad := by
      rintro q hq rfl
      exact hq hp
    rw [hd] at heq
    split at heq
    · next hmore =>
      cases heq
      refine ⟨ha.delivered rfl (fun q hq => ?_) fun q k hq hk => ?_, fun record hr => by cases hr⟩
      · rw [get?_kept, if_neg (hne q hq)]
      · rw [hp] at hq
        cases hq
        rw [get?_kept, if_pos rfl] at hk
        cases hk
        exact hg.kept hnew hmore
    · next hlast =>
      cases heq
      refine ⟨ha.delivered rfl (fun q hq => ?_) fun q k hq hk => ?_, fun record hr => ?_⟩
      · rw [get?_closed, if_neg (hne q hq)]
      · rw [hp] at hq
        cases hq
        rw [get?_closed, if_pos rfl] at hk
        cases hk
      · cases hr
        exact ⟨hp, hg.isQuad, hg.completed hnew hlast⟩

theorem Run.tracks (h : Run c past a) : Tracks c past a := by
  induction h with
  | fresh => exact tracks_ofCoverage c
  | load _ quad hx hy hl ih => exact ih.load hx hy hl
  | deliver _ tile hd ih => exact (ih.deliver hd).1

/-! ### Finished quads -/

section

variable {since : List TileRecord} {tiles : List TileId} (hq : record.id.IsQuad)
  (hc : c.children record.id = .ok tiles) (hr : record = .ofTiles record.id (firsts since))
  (hlen : record.tiles.length = tiles.length) (hparent : ∀ r ∈ since, r.id.parent? = some record.id)

include hr in
theorem perm_firsts : record.tiles.Perm (firsts since) := by
  rw [hr]
  exact QuadRecord.perm_ofTiles _ _

include hq hc hr hlen hparent

/-- **As much as there are children are the children** if and only if all of it exists. -/
theorem tiles_eq_iff : record.tiles.map (·.id) = tiles ↔ ∀ r ∈ since, c.covers r.id = true := by
  have hperm := perm_firsts hr
  constructor
  · rintro rfl r hin
    obtain ⟨r', hr', hid⟩ := exists_mem_firsts hin
    have hmem : r'.id ∈ record.tiles.map (·.id) := List.mem_map_of_mem (hperm.mem_iff.mpr hr')
    rw [← hid]
    exact ((Coverage.mem_children hq hc).mp hmem).1
  · intro hall
    have hpart : Part c record.id (firsts since) := by
      refine ⟨nodup_firsts since, fun r hin => ?_⟩
      have hmem := mem_of_mem_firsts hin
      exact ⟨hall r hmem, hparent r hmem⟩
    have hle : tiles.length ≤ (firsts since).length := by rw [← hlen, hperm.length_eq]
    have hlisted := QuadRecord.children_ofTiles hq hc hpart hle
    rw [← hr, hc, Except.ok.injEq] at hlisted
    exact hlisted.symm

/-- Without an extent all of it exists, since some of the children do. -/
theorem tiles_eq_of_extent_eq_none (hextent : c.extent = none) (hsome : tile ∈ since) :
    record.tiles.map (·.id) = tiles := by
  refine (tiles_eq_iff hq hc hr hlen hparent).mpr fun r hin => ?_
  obtain ⟨first, hfirst, -⟩ := exists_mem_firsts hsome
  have hpos : 0 < tiles.length := by
    rw [← hlen, (perm_firsts hr).length_eq]
    exact List.length_pos_of_mem hfirst
  obtain ⟨hcov, hp⟩ := (Coverage.mem_children hq hc).mp (List.getElem_mem hpos)
  exact Coverage.covers_sibling hextent hp (hparent r hin) hcov

end

/-- **A finished quad consists of the first records of what came in** of its tiles since it was started,
once each and in child order. They are as many as its existing children, and they are the existing children
if and only if everything that came in exists. Without an extent that is always so. A quad that is complete
at once has no existing children. -/
theorem finished_exactly (h : Run c past a) :
    (∀ quad : QuadId, quad.x.toNat < 2147483648 → quad.y.toNat < 2147483648 →
      ∃ a' start, a.load quad = .ok (a', start)) ∧
    (∀ quad a' record, a.load quad = .ok (a', .complete record) →
      c.children quad = .ok [] ∧ record = ⟨quad, []⟩) ∧
    ∀ tile a' record, a.deliver tile = (a', some record) →
      ∃ tiles, c.children record.id = .ok tiles ∧ tile.id.parent? = some record.id ∧
        record = .ofTiles record.id (firsts (arrivals record.id past ++ [tile])) ∧
        record.tiles.length = tiles.length ∧ (record.tiles.map (·.id)).Nodup ∧
        (record.tiles.Pairwise fun r r' => r.id.childIndex ≤ r'.id.childIndex) ∧
        (∀ r ∈ record.tiles, r.id.parent? = some record.id) ∧
        (record.tiles.map (·.id) = tiles ↔
          ∀ r ∈ arrivals record.id past ++ [tile], c.covers r.id = true) ∧
        (c.extent = none → record.tiles.map (·.id) = tiles) := by
  have ha := h.tracks
  refine ⟨fun quad hx hy => exists_load a hx hy, fun quad a' record hl => ?_,
    fun tile a' record hd => ?_⟩
  · rcases load_cases hl with ⟨he, -⟩ | ⟨he, -, hc⟩ | ⟨tiles, -, -, he, -⟩
    · cases he
    · cases he
      rw [← ha.coverage]
      exact ⟨hc, by rw [QuadRecord.ofTiles, List.mergeSort_nil]⟩
    · cases he
  · obtain ⟨hp, hq, hr, hcount⟩ := (ha.deliver hd).2 record rfl
    obtain ⟨tiles, hc⟩ := c.exists_children hq.x hq.y
    have hlen := hcount tiles hc
    have hparent : ∀ r ∈ arrivals record.id past ++ [tile], r.id.parent? = some record.id := by
      intro r hin
      rcases List.mem_append.mp hin with hin | hin
      · exact parent?_of_mem_arrivals hin
      · rwa [List.mem_singleton.mp hin]
    have hperm := perm_firsts hr
    have hnodup := ((hperm.map (·.id)).nodup_iff).mpr (nodup_firsts _)
    have hsorted : record.tiles.Pairwise fun r r' => r.id.childIndex ≤ r'.id.childIndex := by
      rw [hr]
      exact QuadRecord.pairwise_ofTiles _ _
    refine ⟨tiles, hc, hp, hr, hlen, hnodup, hsorted, fun r hin => ?_,
      tiles_eq_iff hq hc hr hlen hparent, fun hextent => ?_⟩
    · exact hparent r (mem_of_mem_firsts (hperm.mem_iff.mp hin))
    · exact tiles_eq_of_extent_eq_none hq hc hr hlen hparent hextent
        (List.mem_append_right _ (List.mem_singleton_self tile))

/-- Three tiles of the top level came, one of them twice, and a tile of another quad. The fourth finishes
the quad. -/
theorem finished_exactly_world : ∃ past a a' record, Run ⟨10, none⟩ past a ∧
    a.deliver (.empty ⟨1, 0, 0⟩) = (a', some record) ∧
    record.tiles.map (·.id) = [⟨1, 0, 0⟩, ⟨1, 1, 0⟩, ⟨1, 0, 1⟩, ⟨1, 1, 1⟩] := by
  have hrun : Run ⟨10, none⟩ _ _ := Run.fresh.load .root (by decide) (by decide) rfl
    |>.deliver (.empty ⟨1, 1, 1⟩) rfl |>.deliver (.empty ⟨1, 0, 1⟩) rfl
    |>.deliver (.empty ⟨2, 0, 0⟩) rfl |>.deliver (.empty ⟨1, 1, 1⟩) rfl
    |>.deliver (.empty ⟨1, 1, 0⟩) rfl
  obtain ⟨-, -, hfinished⟩ := finished_exactly hrun
  obtain ⟨tiles, hc, -, -, -, -, -, -, -, hexact⟩ := hfinished (.empty ⟨1, 0, 0⟩) _ _ rfl
  have htiles : tiles = [⟨1, 0, 0⟩, ⟨1, 1, 0⟩, ⟨1, 0, 1⟩, ⟨1, 1, 1⟩] := (Except.ok.inj hc).symm
  rw [htiles] at hexact
  exact ⟨_, _, _, _, hrun, rfl, hexact rfl⟩

/-- **A tile that does not exist finishes a quad** of one child, which is missing then. -/
theorem finished_by_stray {child stray : TileId} (hc : c.children quad = .ok [child])
    (hp : stray.parent? = some quad) : ∃ a a', (ofCoverage c).load quad = .ok (a, .started [child]) ∧
      a.deliver (.empty stray) = (a', some ⟨quad, [.empty stray]⟩) := by
  have hl : (ofCoverage c).load quad = .ok ((ofCoverage c).opened quad 1, .started [child]) := by
    unfold load
    rw [show (ofCoverage c).coverage.children quad = .ok [child] from hc]
    rfl
  have hj : ((ofCoverage c).opened quad 1).pending.get? quad = some ⟨1, []⟩ := by
    rw [get?_opened, if_pos rfl]
  have hparent : (TileRecord.empty stray).id.parent? = some quad := hp
  have hd := deliver_eq hparent hj (by simp)
  rw [if_neg (by simp), List.nil_append, QuadRecord.ofTiles, List.mergeSort_singleton] at hd
  exact ⟨_, _, hl, hd⟩

/-- In an extent in the west there is one tile of the first level, and its eastern neighbour finishes the
root. The neighbour is out by its longitudes. That the one child is in takes `Float.sinh` and `Float.atan`,
which the logic does not compute, so it is assumed. -/
theorem finished_by_stray_west :
    (⟨10, some ⟨60, 10, -100, -170⟩⟩ : Coverage).covers ⟨1, 1, 0⟩ = false ∧
    ((⟨10, some ⟨60, 10, -100, -170⟩⟩ : Coverage).children .root = .ok [⟨1, 0, 0⟩] →
      ∃ a a', (ofCoverage ⟨10, some ⟨60, 10, -100, -170⟩⟩).load .root = .ok (a, .started [⟨1, 0, 0⟩]) ∧
        a.deliver (.empty ⟨1, 1, 0⟩) = (a', some ⟨.root, [.empty ⟨1, 1, 0⟩]⟩)) := by
  refine ⟨?_, fun hc => finished_by_stray hc rfl⟩
  have hwest : decide ((⟨1, 1, 0⟩ : TileId).bounds.west < -100) = false := by decide +kernel
  have hout : (⟨1, 1, 0⟩ : TileId).bounds.intersects ⟨60, 10, -100, -170⟩ = false := by
    unfold Box.intersects
    rw [hwest, Bool.and_false, Bool.false_and]
  rw [Bool.eq_false_iff]
  intro hcov
  rcases (Coverage.covers_iff.mp hcov).2.2 _ rfl with hz | hin
  · exact absurd hz (by decide)
  · rw [hout] at hin
    cases hin

end QuadJoins

end TileStream
