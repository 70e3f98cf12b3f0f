import TileStream.Proofs.Store.FileTree
import TileStream.Proofs.Text.Number
import TileStream.Store.Disk

/-!
# The names below the root of a store

The directories and files of a store have names that a directory and a file can be made under, and
together they take at most `pathBytes` bytes behind the root. Paths of more than 4095 bytes are
refused, so a store is `Rooted` when its root leads to a directory and leaves room for that much.

* `rowName_inj`: the name of a file gives the row and the extension it was made of. `row?_tile` and
  `row?_draft`: the row is read from the names of tile files and not from those of drafts.
* `columnNames_inj`: the names of the directories give the layer, the zoom level and the column.
* `Rooted.allowed`: no path of the store is refused.
-/

namespace TileStream

theorem Layer.name_inj {a b : Layer} : a.name = b.name ↔ a = b := by
  cases a <;> cases b <;> decide

theorem TileId.eq_of_parts {a b : TileId} (hzoom : a.zoom = b.zoom) (hx : a.x = b.x)
    (hy : a.y = b.y) : a = b := by
  rw [TileId.mk.injEq]
  exact ⟨hzoom, hx, hy⟩

namespace DiskStore

open TileStream.Path (Plain)

variable {s : DiskStore} {here : Place} {tile a b : TileId} {layer layer' : Layer}
  {extension extension' : String}

/-! ### Files -/

theorem cutExtension_append {stem extension : List Char} (hstem : stem ≠ [])
    (hpoint : '.' ∉ extension) :
    Path.cutExtension (stem ++ '.' :: extension) = some (stem, extension) := by
  have hback : (stem ++ '.' :: extension).reverse = extension.reverse ++ '.' :: stem.reverse := by
    simp
  have hall : ∀ c ∈ extension.reverse, decide (c ≠ '.') = true := fun c hc => by
    refine decide_eq_true ?_
    rintro rfl
    exact hpoint (List.mem_reverse.mp hc)
  unfold Path.cutExtension
  rw [hback]
  dsimp only
  rw [List.dropWhile_append_of_pos hall, List.takeWhile_append_of_pos hall]
  simp [hstem]

theorem toList_rowName (tile : TileId) (extension : String) : (rowName tile extension).toList =
    (toString tile.y.toNat).toList ++ '.' :: extension.toList := by
  unfold rowName
  rw [String.toList_append, String.toList_append, List.append_assoc]
  rfl

theorem cutExtension_rowName (hpoint : '.' ∉ extension.toList) (tile : TileId) :
    Path.cutExtension (rowName tile extension).toList =
      some ((toString tile.y.toNat).toList, extension.toList) := by
  rw [toList_rowName]
  refine cutExtension_append (fun h => ?_) hpoint
  exact Text.toString_ne_empty _ (String.toList_eq_nil_iff.mp h)

/-- The extensions that files of a store have. -/
inductive IsExtension : String → Prop where
  | tile : IsExtension tileExtension
  | draft : IsExtension draftExtension

theorem IsExtension.no_point (h : IsExtension extension) : '.' ∉ extension.toList := by
  cases h <;> decide

/-- **A file name gives its row and its extension.** -/
theorem rowName_inj (h : IsExtension extension) (h' : IsExtension extension') :
    rowName a extension = rowName b extension' ↔ a.y = b.y ∧ extension = extension' := by
  refine ⟨fun heq => ?_, fun ⟨hy, hext⟩ => by rw [rowName, rowName, hy, hext]⟩
  have hcut := cutExtension_rowName h.no_point a
  rw [heq, cutExtension_rowName h'.no_point b] at hcut
  obtain ⟨hrow, hext⟩ := Prod.mk.inj (Option.some.inj hcut)
  have hy := Text.toString_inj.mp (String.toList_inj.mp hrow)
  exact ⟨(UInt32.toNat_inj.mp hy).symm, (String.toList_inj.mp hext).symm⟩

theorem row?_tile (tile : TileId) : row? (rowName tile tileExtension) = some tile.y.toNat := by
  unfold row?
  rw [cutExtension_rowName IsExtension.tile.no_point]
  dsimp only
  rw [if_pos rfl, Text.readWhole_toString tile.y.toNat_lt]

theorem row?_draft (tile : TileId) : row? (rowName tile draftExtension) = none := by
  unfold row?
  rw [cutExtension_rowName IsExtension.draft.no_point]
  rfl

/-! ### Directories -/

/-- The names that lead from the root to the directory of a column. -/
def columnNames (tile : TileId) (layer : Layer) : List String :=
  [layer.name, toString tile.zoom.toNat, toString tile.x.toNat]

theorem columnNames_inj : columnNames a layer = columnNames b layer' ↔
    a.zoom = b.zoom ∧ a.x = b.x ∧ layer = layer' := by
  simp only [columnNames, List.cons.injEq, and_true, Layer.name_inj, Text.toString_inj,
    UInt8.toNat_inj, UInt32.toNat_inj]
  exact ⟨fun ⟨hl, hz, hx⟩ => ⟨hz, hx, hl⟩, fun ⟨hz, hx, hl⟩ => ⟨hl, hz, hx⟩⟩

theorem columnPath_eq (s : DiskStore) (tile : TileId) (layer : Layer) :
    s.columnPath tile layer = s.root.below [] ++ columnNames tile layer := Path.below_eq _ _

/-- The place of a file of a key. -/
def filePlace (here : Place) (tile : TileId) (layer : Layer) (extension : String) : Place :=
  here ++ columnNames tile layer ++ [rowName tile extension]

/-- **Different keys have different files.** -/
theorem filePlace_inj (h : IsExtension extension) (h' : IsExtension extension') :
    filePlace here a layer extension = filePlace here b layer' extension' ↔
      (a, layer) = (b, layer') ∧ extension = extension' := by
  constructor
  · intro heq
    obtain ⟨hcolumn, hfile⟩ := List.append_inj' heq rfl
    obtain ⟨hzoom, hx, hlayer⟩ := columnNames_inj.mp (List.append_cancel_left hcolumn)
    obtain ⟨hy, hext⟩ := (rowName_inj h h').mp (List.cons.inj hfile).1
    exact ⟨by rw [TileId.eq_of_parts hzoom hx hy, hlayer], hext⟩
  · rintro ⟨hkey, rfl⟩
    obtain ⟨rfl, rfl⟩ := Prod.mk.inj hkey
    rfl

/-! ### Names that can be made -/

theorem plain_of_head {name : String} {c : Char} {cs : List Char} (hname : name.toList = c :: cs)
    (hc : c ≠ '.') (hshort : name.utf8ByteSize ≤ 255) : Plain name where
  nonempty := by
    rintro rfl
    cases hname
  point := by
    rintro rfl
    exact hc (List.cons.inj hname).1.symm
  points := by
    rintro rfl
    exact hc (List.cons.inj hname).1.symm
  short := hshort

theorem exists_digit (n : ℕ) : ∃ c cs, (toString n).toList = c :: cs ∧ c ≠ '.' := by
  cases hcs : (toString n).toList with
  | nil => exact absurd (String.toList_eq_nil_iff.mp hcs) (Text.toString_ne_empty n)
  | cons c cs =>
    refine ⟨c, cs, rfl, ?_⟩
    rintro rfl
    exact Text.not_mem_toString (by decide) (hcs ▸ List.mem_cons_self)

theorem utf8ByteSize_layer (layer : Layer) : layer.name.utf8ByteSize ≤ 6 := by cases layer <;> decide

theorem utf8ByteSize_zoom (zoom : UInt8) : (toString zoom.toNat).utf8ByteSize ≤ 3 :=
  Text.utf8ByteSize_toString_le (by decide) (zoom.toNat_lt.trans (by decide))

theorem utf8ByteSize_column (x : UInt32) : (toString x.toNat).utf8ByteSize ≤ 10 :=
  Text.utf8ByteSize_toString_le (by decide) (x.toNat_lt.trans (by decide))

theorem utf8ByteSize_rowName (tile : TileId) (h : IsExtension extension) :
    (rowName tile extension).utf8ByteSize ≤ 18 := by
  have hy := utf8ByteSize_column tile.y
  have hext : extension.utf8ByteSize ≤ 7 := by cases h <;> decide
  have hpoint : ".".utf8ByteSize = 1 := rfl
  rw [rowName, String.utf8ByteSize_append, String.utf8ByteSize_append, hpoint]
  omega

theorem plain_of_mem_columnNames {name : String} (h : name ∈ columnNames tile layer) :
    Plain name := by
  simp only [columnNames, List.mem_cons, List.not_mem_nil, or_false] at h
  rcases h with rfl | rfl | rfl
  · have hshort := utf8ByteSize_layer layer
    cases layer <;> exact plain_of_head rfl (by decide) (by omega)
  · obtain ⟨c, cs, hcs, hc⟩ := exists_digit tile.zoom.toNat
    have hshort := utf8ByteSize_zoom tile.zoom
    exact plain_of_head hcs hc (by omega)
  · obtain ⟨c, cs, hcs, hc⟩ := exists_digit tile.x.toNat
    have hshort := utf8ByteSize_column tile.x
    exact plain_of_head hcs hc (by omega)

theorem below_columnPath (s : DiskStore) (tile : TileId) (layer : Layer) (names : List String) :
    (s.columnPath tile layer).below names = s.columnPath tile layer ++ names := by
  rw [columnPath_eq]
  exact Path.below_append _ (fun _ => plain_of_mem_columnNames) (List.cons_ne_nil _ _) names

theorem plain_rowName (tile : TileId) (h : IsExtension extension) :
    Plain (rowName tile extension) := by
  obtain ⟨c, cs, hcs, hc⟩ := exists_digit tile.y.toNat
  have hshort := utf8ByteSize_rowName tile h
  exact plain_of_head (by rw [toList_rowName, hcs]; rfl) hc (by omega)

theorem noNul_of_mem {name : String} (h : IsExtension extension)
    (hname : name ∈ columnNames tile layer ++ [rowName tile extension]) :
    Char.ofNat 0 ∉ name.toList := by
  simp only [columnNames, List.cons_append, List.nil_append, List.mem_cons, List.not_mem_nil,
    or_false] at hname
  rcases hname with rfl | rfl | rfl | rfl
  · cases layer <;> decide
  · exact Text.not_mem_toString (by decide)
  · exact Text.not_mem_toString (by decide)
  · rw [toList_rowName, List.mem_append, not_or]
    refine ⟨Text.not_mem_toString (by decide), ?_⟩
    cases h <;> decide

/-! ### The root -/

/-- The bytes that the longest path of a store takes behind the root, slashes included. -/
def pathBytes : ℕ := 41

/-- **A store with a root:** it leads to a directory, and leaves room for the paths of the store. -/
structure Rooted (s : DiskStore) (here : Place) : Prop where
  noNul : ∀ name ∈ s.root, Char.ofNat 0 ∉ name.toList
  short : s.root.size + pathBytes ≤ 4095
  leads : s.tree.directory (s.root.below []) = .ok here

/-- **No path of a store is refused.** -/
theorem Rooted.allowed (hs : s.Rooted here) (tile : TileId) (layer : Layer)
    (h : IsExtension extension) :
    Path.Allowed (s.columnPath tile layer ++ [rowName tile extension]) := by
  have hpath : s.columnPath tile layer ++ [rowName tile extension] =
      s.root.below (columnNames tile layer ++ [rowName tile extension]) := by
    rw [columnPath_eq, List.append_assoc, ← Path.below_eq]
  have hweight : Path.weight (columnNames tile layer ++ [rowName tile extension]) ≤ pathBytes := by
    have hl := utf8ByteSize_layer layer
    have hz := utf8ByteSize_zoom tile.zoom
    have hx := utf8ByteSize_column tile.x
    have hr := utf8ByteSize_rowName tile h
    simp only [Path.weight, columnNames, List.cons_append, List.nil_append, List.map_cons,
      List.map_nil, Numeric.total_cons, Numeric.total_nil, pathBytes]
    omega
  rw [hpath]
  refine ⟨fun name hname => ?_, ?_⟩
  · rw [Path.below_eq, List.mem_append] at hname
    rcases hname with hroot | hbelow
    · exact hs.noNul name (s.root.below_nil_sublist.mem hroot)
    · exact noNul_of_mem h hbelow
  · have hsize := Path.size_below_le s.root (columnNames tile layer ++ [rowName tile extension])
    have hshort := hs.short
    omega

end DiskStore

end TileStream
