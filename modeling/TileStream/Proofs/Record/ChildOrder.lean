import TileStream.Proofs.Geo.Quads
import TileStream.Proofs.Join.Quads

/-! # Records in child order

A quad's record lists its tiles by their place among the children, whatever the order in which they
came. The places of the existing children grow along their list, so a record of all of them lists
just them, in that order (`QuadRecord.children_ofTiles`). -/

namespace TileStream

namespace QuadRecord

variable {c : Coverage} {quad : QuadId} {records : List TileRecord} {tiles : List TileId}

theorem perm_ofTiles (quad : QuadId) (records : List TileRecord) :
    (ofTiles quad records).tiles.Perm records :=
  List.mergeSort_perm _ _

theorem pairwise_ofTiles (quad : QuadId) (records : List TileRecord) :
    (ofTiles quad records).tiles.Pairwise fun a b => a.id.childIndex ≤ b.id.childIndex := by
  let le (a b : TileRecord) : Bool := a.id.childIndex ≤ b.id.childIndex
  have htrans : ∀ a b c, le a b = true → le b c = true → le a c = true := by
    intro a b c hab hbc
    exact decide_eq_true (Nat.le_trans (of_decide_eq_true hab) (of_decide_eq_true hbc))
  have htotal : ∀ a b, (le a b || le b a) = true := by
    intro a b
    simpa [le] using Nat.le_total _ _
  exact (List.pairwise_mergeSort htrans htotal records).imp fun h => of_decide_eq_true h

/-- **A record of as many distinct children as there are lists the children in order.** -/
theorem children_ofTiles (hq : quad.IsQuad) (hc : c.children quad = .ok tiles)
    (hpart : QuadJoins.Part c quad records) (hlen : tiles.length ≤ records.length) :
    c.children quad = .ok ((ofTiles quad records).tiles.map (·.id)) := by
  have hperm : ((ofTiles quad records).tiles.map (·.id)).Perm tiles :=
    ((perm_ofTiles quad records).map _).trans (hpart.perm hq hc hlen)
  have hsorted : ((ofTiles quad records).tiles.map (·.id)).Pairwise
      fun t t' => t.childIndex ≤ t'.childIndex :=
    List.pairwise_map.mpr (pairwise_ofTiles quad records)
  have hparent : ∀ t ∈ tiles, t.parent? = some quad := fun t ht =>
    ((Coverage.mem_children hq hc).mp ht).2
  have hplaces := (Coverage.pairwise_children hq hc).imp Nat.le_of_lt
  rw [hc, hperm.eq_of_pairwise ?_ hsorted hplaces]
  intro t t' ht ht' hle hle'
  exact TileId.eq_of_childIndex (hparent t (hperm.mem_iff.mp ht)) (hparent t' ht')
    (Nat.le_antisymm hle hle')

end QuadRecord

end TileStream
