import TileStream.Proofs.Join.Replies
import TileStream.Proofs.Join.Tiles
import TileStream.Proofs.Record.ChildOrder

/-! # Records tell the replies

The record of a tile is settled when it tells, for each enabled layer, the reply to its fetch, and
nothing for any other layer (`TileRecord.Settled`). While a tile is being loaded, each enabled layer is
either outstanding, then its fetch was asked for and has no reply, or its reply is told
(`TileJoin.Settling`). An outcome settles the layer it was awaited for, and any other outcome is no
reply. So the tile joins give out settled records only, and the quad joins put them together as they
are.

* `TileJoins.settling_opened`, `TileJoins.settling_deliver`: what is being loaded stays true to the
  replies, and what comes out is settled.
* `QuadJoins.holds_deliver`: a finished quad lists the existing children in order, with the records
  that were held of them. -/

namespace TileStream

namespace PerLayer

variable {α : Type}

theorem get?_set (p : PerLayer α) (l l' : Layer) (a : α) :
    (p.set l a).get? l' = if l' = l then some a else p.get? l' := by
  cases l <;> cases l' <;> rfl

theorem ext_get? {p p' : PerLayer α} (h : ∀ l, p.get? l = p'.get? l) : p = p' := by
  obtain ⟨a, b, c⟩ := p
  obtain ⟨a', b', c'⟩ := p'
  rw [mk.injEq]
  exact ⟨h .height, h .ortho, h .vector⟩

theorem mem_toList {p : PerLayer α} {l : Layer} {a : α} :
    (l, a) ∈ p.toList ↔ p.get? l = some a := by
  have hall : l ∈ Layer.all := by cases l <;> simp [Layer.all]
  simp [toList, hall]

end PerLayer

/-! ### Records of tiles -/

/-- **The record tells the replies** of the enabled layers of its tile, each of which has one. -/
structure TileRecord.Settled (layers : LayerSet) (es : List Event) (r : TileRecord) : Prop where
  enabled : ∀ l, layers.contains l = true →
    ∃ outcome, Replied es ⟨r.id, l⟩ outcome ∧ r.layers.get? l = some (.ofOutcome outcome)
  disabled : ∀ l, layers.contains l = false → r.layers.get? l = none

/-- A tile being loaded tells the replies that are in, and waits for the others. -/
structure TileJoin.Settling (layers : LayerSet) (es : List Event) (tile : TileId) (j : TileJoin) :
    Prop where
  waits : ∀ l, j.outstanding.contains l = true →
    layers.contains l = true ∧ reply es ⟨tile, l⟩ = .asked
  enabled : ∀ l, layers.contains l = true → j.outstanding.contains l = false →
    ∃ outcome, Replied es ⟨tile, l⟩ outcome ∧ j.record.layers.get? l = some (.ofOutcome outcome)
  disabled : ∀ l, layers.contains l = false → j.record.layers.get? l = none

variable {layers : LayerSet} {es es' : List Event} {tile : TileId} {layer : Layer} {outcome : Outcome}

namespace TileRecord

variable {r r' : TileRecord}

/-- Only the replies of the enabled layers matter. -/
theorem Settled.mono (h : r.Settled layers es)
    (hsame : ∀ l, layers.contains l = true → reply es' ⟨r.id, l⟩ = reply es ⟨r.id, l⟩) :
    r.Settled layers es' := by
  refine ⟨fun l hl => ?_, h.disabled⟩
  obtain ⟨o, ho, hget⟩ := h.enabled l hl
  refine ⟨o, ?_, hget⟩
  rw [replied_iff, hsame l hl, ← replied_iff]
  exact ho

/-- What is settled has its replies, and another outcome changes none. -/
theorem Settled.concat_answered (h : r.Settled layers es) (f : Fetch) (outcome : Outcome) :
    r.Settled layers (es ++ [.answered f outcome]) := by
  refine h.mono fun l hl => reply_concat_answered es _ _ _ fun _ => ?_
  obtain ⟨o, ho, -⟩ := h.enabled l hl
  rw [replied_iff.mp ho]
  exact fun he => by cases he

theorem Settled.of_orders {fs : List Fetch} (h : r.Settled layers (es ++ fs.map .ordered)) :
    r.Settled layers es := by
  refine ⟨fun l hl => ?_, h.disabled⟩
  obtain ⟨o, ho, hget⟩ := h.enabled l hl
  refine ⟨o, ?_, hget⟩
  rw [replied_iff, reply_append_ordered] at ho
  split at ho
  · cases ho
  · exact replied_iff.mpr ho

/-- What was lost to the network had a reply that told so. -/
theorem Settled.exists_transient (h : r.Settled layers es) (hlost : r.hasNetworkFailure = true) :
    ∃ l outcome, layers.contains l = true ∧ Replied es ⟨r.id, l⟩ outcome ∧
      outcome.isTransient = true := by
  obtain ⟨⟨l, state⟩, hmem, hstate⟩ := List.any_eq_true.mp hlost
  have hget := PerLayer.mem_toList.mp hmem
  cases hl : layers.contains l with
  | false =>
    rw [h.disabled l hl] at hget
    cases hget
  | true =>
    obtain ⟨outcome, hreplied, hgot⟩ := h.enabled l hl
    refine ⟨l, outcome, hl, hreplied, ?_⟩
    have hlost : LayerState.ofOutcome outcome = .absent .networkError := by
      rw [hget, Option.some.injEq] at hgot
      rw [← hgot]
      exact of_decide_eq_true hstate
    unfold LayerState.ofOutcome at hlost
    split at hlost <;> cases hlost
    rfl

theorem settled_empty (h : layers.isEmpty = true) (es : List Event) (tile : TileId) :
    (empty tile).Settled layers es := by
  have hnone := LayerSet.not_contains_of_isEmpty h
  refine ⟨fun l hl => ?_, fun l _ => by cases l <;> rfl⟩
  rw [hnone l] at hl
  cases hl

/-- **Settled records of a tile with the same replies are the same.** -/
theorem Settled.eq (h : r.Settled layers es) (h' : r'.Settled layers es') (hid : r.id = r'.id)
    (hsame : ∀ l outcome, Replied es ⟨r.id, l⟩ outcome ↔ Replied es' ⟨r.id, l⟩ outcome) : r = r' := by
  have hlayers : r.layers = r'.layers := by
    refine PerLayer.ext_get? fun l => ?_
    cases hl : layers.contains l with
    | false => rw [h.disabled l hl, h'.disabled l hl]
    | true =>
      obtain ⟨o, ho, hget⟩ := h.enabled l hl
      obtain ⟨o', ho', hget'⟩ := h'.enabled l hl
      rw [← hid] at ho'
      rw [hget, hget', ((hsame l o).mp ho).unique ho']
  obtain ⟨id, ls⟩ := r
  obtain ⟨id', ls'⟩ := r'
  exact (TileRecord.mk.injEq ..).mpr ⟨hid, hlayers⟩

end TileRecord

/-! ### Tiles being loaded -/

namespace TileJoin

variable {j : TileJoin}

theorem Settling.mono (h : j.Settling layers es tile)
    (hsame : ∀ l, layers.contains l = true → reply es' ⟨tile, l⟩ = reply es ⟨tile, l⟩) :
    j.Settling layers es' tile := by
  refine ⟨fun l hl => ?_, fun l hl hout => ?_, h.disabled⟩
  · obtain ⟨hin, hr⟩ := h.waits l hl
    exact ⟨hin, (hsame l hin).trans hr⟩
  · obtain ⟨o, ho, hget⟩ := h.enabled l hl hout
    refine ⟨o, ?_, hget⟩
    rw [replied_iff, hsame l hl, ← replied_iff]
    exact ho

/-- **The reply to an outstanding layer is told from then on.** -/
theorem Settling.after (h : j.Settling layers es tile) (hl : j.outstanding.contains layer = true)
    (outcome : Outcome) :
    (TileJoins.after j layer outcome).Settling layers (es ++ [.answered ⟨tile, layer⟩ outcome])
      tile := by
  obtain ⟨hin, hasked⟩ := h.waits layer hl
  -- the replies to the other layers stay as they are
  have hother : ∀ l, l ≠ layer →
      reply (es ++ [.answered ⟨tile, layer⟩ outcome]) ⟨tile, l⟩ = reply es ⟨tile, l⟩ := by
    intro l hne
    refine reply_concat_answered es _ _ _ fun he => ?_
    cases he
    exact absurd rfl hne
  refine ⟨fun l hout => ?_, fun l hen hout => ?_, fun l hdis => ?_⟩
  · simp only [TileJoins.after, LayerSet.contains_erase, Bool.and_eq_true, decide_eq_true_eq] at hout
    obtain ⟨hin', hasked'⟩ := h.waits l hout.2
    exact ⟨hin', (hother l hout.1).trans hasked'⟩
  · simp only [TileJoins.after, LayerSet.contains_erase, Bool.and_eq_false_iff,
      decide_eq_false_iff_not, not_not] at hout
    by_cases he : l = layer
    · subst he
      refine ⟨outcome, replied_iff.mpr (reply_concat_answered_self hasked outcome), ?_⟩
      exact (PerLayer.get?_set _ _ _ _).trans (if_pos rfl)
    · obtain ⟨o, ho, hget⟩ := h.enabled l hen (hout.resolve_left he)
      refine ⟨o, ?_, (PerLayer.get?_set _ _ _ _).trans ((if_neg he).trans hget)⟩
      rw [replied_iff, hother l he, ← replied_iff]
      exact ho
  · have hne : l ≠ layer := by
      rintro rfl
      rw [hin] at hdis
      cases hdis
    exact (PerLayer.get?_set _ _ _ _).trans ((if_neg hne).trans (h.disabled l hdis))

theorem Settling.settled (h : j.Settling layers es tile) (hid : j.record.id = tile)
    (he : j.outstanding.isEmpty = true) : j.record.Settled layers es := by
  subst hid
  exact ⟨fun l hl => h.enabled l hl (LayerSet.not_contains_of_isEmpty he l), h.disabled⟩

end TileJoin

namespace TileJoins

variable {a a' : TileJoins}

/-- What is being loaded tells the replies that are in. -/
def Settling (a : TileJoins) (es : List Event) : Prop :=
  ∀ t j, a.pending.get? t = some j → j.Settling a.layers es t

/-- **A tile that was ordered waits for all its layers.** -/
theorem settling_opened (h : a.Settling es) (tile : TileId) :
    (a.opened tile).Settling (es ++ (a.fetchesOf tile).map .ordered) := by
  intro t j hj
  rw [get?_opened] at hj
  split at hj
  · next he =>
    cases hj
    subst he
    refine ⟨fun l hl => ⟨hl, ?_⟩, fun l hl hout => ?_, fun l _ => by cases l <;> rfl⟩
    · have hmem : ⟨t, l⟩ ∈ a.fetchesOf t := mem_fetchesOf.mpr ⟨rfl, hl⟩
      rw [reply_append_ordered, if_pos hmem]
    · -- every layer is outstanding
      rw [show (a.opened t).layers.contains l = false from hout] at hl
      cases hl
  · next hne =>
    refine (h t j hj).mono fun l _ => ?_
    rw [reply_append_ordered, if_neg fun hin => hne (mem_fetchesOf.mp hin).1]

/-- An outcome that is not awaited was not asked for, or its layer has a reply. -/
theorem Settling.not_asked (h : a.Settling es) {t : TileId} {j : TileJoin}
    (hj : a.pending.get? t = some j) {l : Layer} (hl : a.layers.contains l = true)
    (hw : ¬ a.Awaits ⟨t, l⟩) : reply es ⟨t, l⟩ ≠ .asked := by
  have hout : j.outstanding.contains l = false := Bool.eq_false_iff.mpr fun hc => hw ⟨j, hj, hc⟩
  obtain ⟨o, ho, -⟩ := (h t j hj).enabled l hl hout
  rw [replied_iff.mp ho]
  exact fun he => by cases he

/-- **An outcome is the reply of the layer that waits for it,** and no reply when none does. The
record of a tile that waits for nothing more is settled. -/
theorem settling_deliver (h : a.Settling es) (hk : a.Keyed) {finished : Option TileRecord}
    (hd : a.deliver tile layer outcome = (a', finished)) :
    a'.Settling (es ++ [.answered ⟨tile, layer⟩ outcome]) ∧
      ∀ r, finished = some r →
        r.Settled a'.layers (es ++ [.answered ⟨tile, layer⟩ outcome]) := by
  -- tiles that did not wait for the outcome
  have hother : ∀ t j, a.pending.get? t = some j → (t = tile → ¬ a.Awaits ⟨tile, layer⟩) →
      j.Settling a.layers (es ++ [.answered ⟨tile, layer⟩ outcome]) t := by
    intro t j hj hw
    refine (h t j hj).mono fun l hl => reply_concat_answered es _ _ _ fun he => ?_
    cases he
    exact h.not_asked hj hl (hw rfl)
  by_cases hw : a.Awaits ⟨tile, layer⟩
  · obtain ⟨j, hj, hcase⟩ := deliver_of_awaits hw outcome
    have hout : j.outstanding.contains layer = true := by
      obtain ⟨j', hj', hout⟩ := hw
      rw [hj, Option.some.injEq] at hj'
      rwa [hj']
    have hafter := (h tile j hj).after hout outcome
    rcases hcase with ⟨-, heq⟩ | ⟨hempty, heq⟩
    · rw [hd, Prod.mk.injEq] at heq
      obtain ⟨rfl, rfl⟩ := heq
      refine ⟨fun t k hk' => ?_, fun r hr => by cases hr⟩
      rw [Table.get?_set] at hk'
      split at hk'
      · next he =>
        cases hk'
        rw [he]
        exact hafter
      · next hne => exact hother t k hk' fun he => absurd he hne
    · rw [hd, Prod.mk.injEq] at heq
      obtain ⟨rfl, rfl⟩ := heq
      refine ⟨fun t k hk' => ?_, fun r hr => ?_⟩
      · rw [Table.get?_erase] at hk'
        split at hk'
        · cases hk'
        · next hne => exact hother t k hk' fun he => absurd he hne
      · cases hr
        exact hafter.settled (hk tile j hj) hempty
  · rw [deliver_of_not_awaits hw, Prod.mk.injEq] at hd
    obtain ⟨rfl, rfl⟩ := hd
    exact ⟨fun t j hj => hother t j hj fun _ => hw, fun r hr => by cases hr⟩

end TileJoins

/-! ### Quads -/

namespace QuadJoins

variable {a a' : QuadJoins} {quad : QuadId} {P : TileRecord → Prop}

/-- The records held of tiles all have a property. -/
def Holds (a : QuadJoins) (P : TileRecord → Prop) : Prop :=
  ∀ q j, a.pending.get? q = some j → ∀ r ∈ j.tiles, P r

theorem Holds.mono {Q : TileRecord → Prop} (h : a.Holds P)
    (hmono : ∀ q j, a.pending.get? q = some j → ∀ r ∈ j.tiles, P r → Q r) : a.Holds Q :=
  fun q j hj r hr => hmono q j hj r hr (h q j hj r hr)

theorem ne_of_awaits (ha : a.Sound) {t : TileId} (hw : a.Awaits t) {q : QuadId} {j : QuadJoin}
    (hj : a.pending.get? q = some j) {r : TileRecord} (hr : r ∈ j.tiles) : r.id ≠ t := by
  rintro rfl
  obtain ⟨-, k, hk, hnew⟩ := (awaits_iff ha ((ha q j hj).part.children r hr).2).mp hw
  rw [hj, Option.some.injEq] at hk
  subst hk
  exact hnew r hr rfl

/-- A quad starts without records, and one that is complete at once has no children. -/
theorem holds_load {start : QuadStart} (h : a.Holds P) (hq : quad.IsQuad)
    (hidle : a.isLoading quad = false) (hl : a.load quad = .ok (a', start)) :
    a'.Holds P ∧ ∀ record, start = .complete record →
      a'.coverage.children record.id = .ok [] ∧ record.tiles = [] := by
  obtain ⟨tiles, hc, heq⟩ := load_eq hq hidle
  rw [hl] at heq
  split at heq
  · next hnil =>
    cases heq
    subst hnil
    refine ⟨h, fun record hr => ?_⟩
    cases hr
    exact ⟨hc, List.mergeSort_nil⟩
  · cases heq
    refine ⟨fun q j hj r hr => ?_, fun record hr => by cases hr⟩
    rw [get?_opened] at hj
    split at hj
    · cases hj
      cases hr
    · exact h q j hj r hr

/-- **A finished quad lists its existing children in order, with the records held of them.** -/
theorem holds_deliver {record : TileRecord} {finished : Option QuadRecord} (ha : a.Sound)
    (hw : a.Awaits record.id) (h : a.Holds P) (hp : P record)
    (hd : a.deliver record = (a', finished)) :
    a'.Holds P ∧ ∀ r, finished = some r →
      a'.coverage.children r.id = .ok (r.tiles.map (·.id)) ∧ ∀ tile ∈ r.tiles, P tile := by
  obtain ⟨quad, hparent⟩ := parent?_of_awaits ha hw
  obtain ⟨hcov, j, hj, hnew⟩ := (awaits_iff ha hparent).mp hw
  have hall : ∀ r ∈ j.tiles ++ [record], P r := by
    intro r hr
    rcases List.mem_append.mp hr with hr | hr
    · exact h quad j hj r hr
    · rwa [List.mem_singleton.mp hr]
  rw [deliver_eq hparent hj hnew] at hd
  split at hd
  · cases hd
    refine ⟨fun q k hk r hr => ?_, fun r hr => by cases hr⟩
    rw [get?_kept] at hk
    split at hk
    · cases hk
      exact hall r hr
    · exact h q k hk r hr
  · next hlast =>
    cases hd
    refine ⟨fun q k hk r hr => ?_, fun r hr => ?_⟩
    · rw [get?_closed] at hk
      split at hk
      · cases hk
      · exact h q k hk r hr
    · cases hr
      have hfits := ha quad j hj
      have hc := Coverage.children_eq (c := a.coverage) hfits.isQuad
      have hlen := hfits.expected _ hc
      refine ⟨QuadRecord.children_ofTiles hfits.isQuad hc (hfits.part.append hcov hparent hnew) ?_,
        fun tile ht => hall tile ((QuadRecord.perm_ofTiles _ _).mem_iff.mp ht)⟩
      rw [List.length_append, List.length_singleton, ← hlen]
      omega

end QuadJoins

end TileStream
