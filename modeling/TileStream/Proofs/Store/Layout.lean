import TileStream.Proofs.Store.Creation
import TileStream.Proofs.Store.Names
import TileStream.Proofs.Store.Reliable

/-!
# What a store on disk looks like

The root of a store leads to the directory `here`, and what is below it says what is stored: there is a
tile file for each key that has bytes, and the directories on the way to it are there (`Arranged`). There
may be more directories than the files need, and drafts of writes that came to nothing. Nothing else has a
place below the names of the layers (`Filed`).

* `Arranged.made`, `Arranged.drafted`, `Arranged.moved`: what the steps of a write leave. Only the last one
  changes what is stored.
* `Arranged.exists_write`: a write comes to its end when the path of its draft is not refused.
* `Arranged.read_eq`: reading gives what is stored, unless the path is refused.

A path is refused when the one of the root is too long. A root that leaves room for the others is `Rooted`,
and then nothing is refused (`LaidOut`).
-/

namespace TileStream.DiskStore

open FileTree

variable {s : DiskStore} {here : Place} {m : TileMap} {tile : TileId} {layer : Layer}
  {extension : String} {t : FileTree} {bytes : Bytes} {modified : CalendarTime}

/-- **What is filed below the directory of a layer:** directories named after zoom levels and columns in
them, drafts, and the tile files of the stored bytes. -/
inductive Filed (m : TileMap) (layer : Layer) : List String → FileEntry → Prop where
  | layer : Filed m layer [] .directory
  | level (zoom : UInt8) : Filed m layer [toString zoom.toNat] .directory
  | column (zoom : UInt8) (x : UInt32) :
    Filed m layer [toString zoom.toNat, toString x.toNat] .directory
  | draft (tile : TileId) (bytes : Bytes) (modified : CalendarTime) :
    Filed m layer [toString tile.zoom.toNat, toString tile.x.toNat, rowName tile draftExtension]
      (.file bytes modified)
  | tile (tile : TileId) (bytes : Bytes) (modified : CalendarTime)
    (stored : m (tile, layer) = some ⟨tile, layer, bytes, modified.epochMillis⟩) :
    Filed m layer [toString tile.zoom.toNat, toString tile.x.toNat, rowName tile tileExtension]
      (.file bytes modified)

/-- **The store holds what the map says:** what there is is filed, and what the map says is there. -/
structure LaidOut (s : DiskStore) (here : Place) (m : TileMap) : Prop extends s.Rooted here where
  known : ∀ layer rest e,
    s.tree.entries.get? (here ++ layer.name :: rest) = some e → Filed m layer rest e
  held : ∀ tile layer e, m (tile, layer) = some e →
    s.tree.Paved here (columnNames tile layer) ∧ ∃ bytes modified,
      e = ⟨tile, layer, bytes, modified.epochMillis⟩ ∧
        s.tree.entries.get? (filePlace here tile layer tileExtension) = some (.file bytes modified)

/-- **What the map says is there,** and what there is is filed under a path that is not refused. -/
structure Arranged (s : DiskStore) (here : Place) (m : TileMap) : Prop where
  noNul : ∀ name ∈ s.root, Char.ofNat 0 ∉ name.toList
  leads : s.tree.directory (s.root.below []) = .ok here
  known : ∀ layer rest e, s.tree.entries.get? (here ++ layer.name :: rest) = some e →
    Filed m layer rest e ∧ Path.Allowed (s.root.below [] ++ layer.name :: rest)
  held : ∀ tile layer e, m (tile, layer) = some e →
    s.tree.Paved here (columnNames tile layer) ∧ ∃ bytes modified,
      e = ⟨tile, layer, bytes, modified.epochMillis⟩ ∧
        s.tree.entries.get? (filePlace here tile layer tileExtension) = some (.file bytes modified)

theorem filePlace_eq (here : Place) (tile : TileId) (layer : Layer) (extension : String) :
    filePlace here tile layer extension = here ++ layer.name ::
      [toString tile.zoom.toNat, toString tile.x.toNat, rowName tile extension] :=
  List.append_assoc here _ _

/-! ### What is filed where -/

theorem Filed.length_of_file {rest : List String} (h : Filed m layer rest (.file bytes modified)) :
    rest.length = 3 := by
  cases h <;> rfl

theorem Filed.length_of_directory {rest : List String} (h : Filed m layer rest .directory) :
    rest.length < 3 := by
  cases h <;> simp

/-- What is in a column is a draft or the file of bytes that are stored. -/
theorem Filed.of_row {zoom : UInt8} {x : UInt32} {file : String} {e : FileEntry}
    (h : Filed m layer [toString zoom.toNat, toString x.toNat, file] e) : ∃ tile : TileId,
    tile.zoom = zoom ∧ tile.x = x ∧ (file = rowName tile draftExtension ∨
      file = rowName tile tileExtension ∧ ∃ bytes modified, e = .file bytes modified ∧
        m (tile, layer) = some ⟨tile, layer, bytes, modified.epochMillis⟩) := by
  generalize hlevel : toString zoom.toNat = level at h
  generalize hcolumn : toString x.toNat = column at h
  cases h with
  | draft tile bytes modified =>
    exact ⟨tile, (UInt8.toNat_inj.mp (Text.toString_inj.mp hlevel)).symm,
      (UInt32.toNat_inj.mp (Text.toString_inj.mp hcolumn)).symm, .inl rfl⟩
  | tile tile bytes modified stored =>
    exact ⟨tile, (UInt8.toNat_inj.mp (Text.toString_inj.mp hlevel)).symm,
      (UInt32.toNat_inj.mp (Text.toString_inj.mp hcolumn)).symm,
      .inr ⟨rfl, bytes, modified, rfl, stored⟩⟩

/-- What has the name of a tile file is the file of the bytes that are stored. -/
theorem Filed.of_tile {e : FileEntry}
    (h : Filed m layer
      [toString tile.zoom.toNat, toString tile.x.toNat, rowName tile tileExtension] e) :
    ∃ bytes modified, e = .file bytes modified ∧
      m (tile, layer) = some ⟨tile, layer, bytes, modified.epochMillis⟩ := by
  obtain ⟨other, hzoom, hx, hfile | ⟨hfile, hstored⟩⟩ := h.of_row
  · exact absurd ((rowName_inj .tile .draft).mp hfile).2 (by decide)
  · rwa [TileId.eq_of_parts hzoom hx ((rowName_inj .tile .tile).mp hfile).1.symm] at hstored

/-! ### Paths that are not refused -/

theorem draftPath_eq (s : DiskStore) (tile : TileId) (layer : Layer) : s.draftPath tile layer =
    s.columnPath tile layer ++ [rowName tile draftExtension] := below_columnPath s tile layer _

theorem tilePath_eq (s : DiskStore) (tile : TileId) (layer : Layer) : s.tilePath tile layer =
    s.columnPath tile layer ++ [rowName tile tileExtension] := below_columnPath s tile layer _

theorem filePath_eq (s : DiskStore) (tile : TileId) (layer : Layer) (extension : String) :
    s.columnPath tile layer ++ [rowName tile extension] = s.root.below [] ++
      layer.name :: [toString tile.zoom.toNat, toString tile.x.toNat, rowName tile extension] := by
  rw [columnPath_eq, List.append_assoc]
  rfl

/-- The paths of a store are told by the path of its root. -/
theorem draftPath_of_root {s' : DiskStore} (hroot : s'.root = s.root) (tile : TileId) (layer : Layer) :
    s'.draftPath tile layer = s.draftPath tile layer := by
  unfold draftPath columnPath
  rw [hroot]

theorem tilePath_of_root {s' : DiskStore} (hroot : s'.root = s.root) (tile : TileId) (layer : Layer) :
    s'.tilePath tile layer = s.tilePath tile layer := by
  unfold tilePath columnPath
  rw [hroot]

/-- A directory can be made where a file can be written. -/
theorem allowed_columnPath (h : Path.Allowed (s.draftPath tile layer)) :
    Path.Allowed (s.columnPath tile layer) := by
  rw [draftPath_eq] at h
  exact h.sublist (List.sublist_append_left _ _)

/-- A tile file has a shorter path than its draft. -/
theorem allowed_tilePath (h : Path.Allowed (s.draftPath tile layer)) :
    Path.Allowed (s.tilePath tile layer) := by
  rw [draftPath_eq] at h
  rw [tilePath_eq]
  have hnul : ∀ name ∈ s.columnPath tile layer ++ [rowName tile tileExtension],
      Char.ofNat 0 ∉ name.toList := fun name hname => by
    rcases List.mem_append.mp hname with hcolumn | hfile
    · exact h.noNul name (List.mem_append_left _ hcolumn)
    · exact noNul_of_mem .tile (List.mem_append_right (columnNames tile layer) hfile)
  have hsize : ∀ extension, (s.columnPath tile layer ++ [rowName tile extension]).size + 1 =
      Path.weight (s.columnPath tile layer) + ((toString tile.y.toNat).utf8ByteSize + 1 +
        extension.utf8ByteSize + 1) := fun extension => by
    have hpoint : ".".utf8ByteSize = 1 := rfl
    rw [Path.size_succ (by simp), Path.weight_append, Path.weight_cons, rowName,
      String.utf8ByteSize_append, String.utf8ByteSize_append, hpoint]
    rfl
  have hshort := h.short
  have htile := hsize tileExtension
  have hdraft := hsize draftExtension
  have hless : tileExtension.utf8ByteSize ≤ draftExtension.utf8ByteSize := by decide
  exact ⟨hnul, by omega⟩

/-- Where there is room for the paths of the store, none of what is filed is refused. -/
theorem Rooted.allowed_filed (hs : s.Rooted here) {rest : List String} {e : FileEntry}
    (h : Filed m layer rest e) : Path.Allowed (s.root.below [] ++ layer.name :: rest) := by
  have hfront : ∀ tile : TileId, Path.Allowed (s.root.below [] ++ columnNames tile layer) :=
    fun tile => by
      rw [← columnPath_eq]
      exact (hs.allowed tile layer .tile).sublist (List.sublist_append_left _ _)
  cases h with
  | layer => exact (hfront ⟨0, 0, 0⟩).sublist (((List.nil_sublist _).cons_cons _).append_left _)
  | level zoom =>
    exact (hfront ⟨zoom, 0, 0⟩).sublist ((((List.nil_sublist _).cons_cons _).cons_cons _).append_left _)
  | column zoom x => exact hfront ⟨zoom, x, 0⟩
  | draft tile => exact filePath_eq s tile layer _ ▸ hs.allowed tile layer .draft
  | tile tile => exact filePath_eq s tile layer _ ▸ hs.allowed tile layer .tile

theorem LaidOut.arranged (h : s.LaidOut here m) : s.Arranged here m :=
  ⟨h.noNul, h.leads, fun layer rest e he =>
    ⟨h.known layer rest e he, h.toRooted.allowed_filed (h.known layer rest e he)⟩, h.held⟩

theorem Arranged.laidOut (h : s.Arranged here m) (hshort : s.root.size + pathBytes ≤ 4095) :
    s.LaidOut here m :=
  ⟨⟨h.noNul, hshort, h.leads⟩, fun layer rest e he => (h.known layer rest e he).1, h.held⟩

section Arranged

variable (h : s.Arranged here m)
include h

/-- A path of the store that is refused is too long: none has a NUL character in it. -/
theorem Arranged.check_columnNames {names rest : List String}
    (hnames : columnNames tile layer = names ++ rest)
    (hlong : ¬ Path.Allowed (s.root.below [] ++ names)) :
    check (s.root.below [] ++ names) = .error .nameTooLong := by
  refine check_of_not_allowed (fun name hname => ?_) hlong
  rcases List.mem_append.mp hname with hroot | hbelow
  · exact h.noNul name (s.root.below_nil_sublist.mem hroot)
  · have hcolumn : name ∈ columnNames tile layer := hnames ▸ List.mem_append_left rest hbelow
    exact noNul_of_mem .tile (List.mem_append_left _ hcolumn)

/-- No directory of a column has the place of a file. -/
theorem Arranged.clear (tile : TileId) (layer : Layer) :
    s.tree.Clear here (columnNames tile layer) := by
  have hno : ∀ rest, rest.length < 3 → ∀ bytes modified,
      s.tree.entries.get? (here ++ layer.name :: rest) ≠ some (.file bytes modified) :=
    fun rest hlen bytes modified he => by
      have := (h.known layer rest _ he).1.length_of_file
      omega
  refine ⟨hno [] (by decide), ?_, ?_, trivial⟩
  · intro bytes modified he
    rw [List.append_assoc] at he
    exact hno [_] (by simp) bytes modified he
  · intro bytes modified he
    rw [List.append_assoc, List.append_assoc] at he
    exact hno [_, _] (by simp) bytes modified he

/-- No file has the place of a directory. -/
theorem Arranged.filePlace_ne_directory (tile : TileId) (layer : Layer) (extension : String) :
    s.tree.entries.get? (filePlace here tile layer extension) ≠ some .directory := by
  intro he
  rw [filePlace_eq] at he
  exact absurd (h.known layer _ _ he).1.length_of_directory (by simp)

theorem Arranged.keepsDirectories_set (e : FileEntry)
    (ht : t.entries = s.tree.entries.set (filePlace here tile layer extension) e) :
    s.tree.KeepsDirectories t := fun q hq => by
  rw [ht, Table.get?_set, if_neg]
  · exact hq
  · rintro rfl
    exact h.filePlace_ne_directory tile layer extension hq

/-! ### The steps of a write -/

/-- **Making the directories** changes nothing that is stored, however far it comes. -/
theorem Arranged.made {made : FileTree} (hopens : s.tree.Opens made here (columnNames tile layer))
    (hgrows : s.tree.Grows t) (hwithin : t.Grows made)
    (hallowed : Path.Allowed (s.columnPath tile layer)) :
    ({ s with tree := t } : DiskStore).Arranged here m where
  noNul := h.noNul
  leads := hgrows.keepsDirectories.directory h.leads
  known := fun layer' rest e he => by
    rcases hopens.new _ e (hwithin _ e he) with hold | ⟨rfl, front, more, -, hnames, hplace⟩
    · exact h.known layer' rest e hold
    · rw [← List.append_cancel_left hplace] at hnames
      rw [columnPath_eq, hnames] at hallowed
      refine ⟨?_, hallowed.sublist ((List.sublist_append_left _ _).append_left _)⟩
      unfold columnNames at hnames
      match rest, hnames with
      | [], _ => exact .layer
      | [_], hnames =>
        obtain ⟨-, rfl, -⟩ := by simpa using hnames
        exact .level _
      | [_, _], hnames =>
        obtain ⟨-, rfl, rfl, -⟩ := by simpa using hnames
        exact .column _ _
      | _ :: _ :: _ :: _, hnames => simp at hnames
  held := fun tile' layer' e he => by
    obtain ⟨hpaved, bytes, modified, hentry, hfile⟩ := h.held tile' layer' e he
    exact ⟨hgrows.keepsDirectories.paved hpaved, bytes, modified, hentry, hgrows _ _ hfile⟩

/-- **Writing a draft** changes nothing that is stored, whatever was written. -/
theorem Arranged.drafted (hallowed : Path.Allowed (s.draftPath tile layer)) (ht : t.entries =
    s.tree.entries.set (filePlace here tile layer draftExtension) (.file bytes modified)) :
    ({ s with tree := t } : DiskStore).Arranged here m := by
  have hkeep := h.keepsDirectories_set _ ht
  refine ⟨h.noNul, hkeep.directory h.leads, fun layer' rest e he => ?_, fun tile' layer' e he => ?_⟩
  · dsimp only at he
    rw [ht, Table.get?_set] at he
    split at he
    · next hplace =>
      cases he
      rw [filePlace_eq] at hplace
      obtain ⟨hname, rfl⟩ := List.cons.inj (List.append_cancel_left hplace)
      obtain rfl := Layer.name_inj.mp hname
      rw [draftPath_eq, filePath_eq] at hallowed
      exact ⟨.draft tile bytes modified, hallowed⟩
    · exact h.known layer' rest e he
  · obtain ⟨hpaved, bytes', modified', hentry, hfile⟩ := h.held tile' layer' e he
    refine ⟨hkeep.paved hpaved, bytes', modified', hentry, ?_⟩
    dsimp only
    rw [ht, Table.get?_set, if_neg, hfile]
    intro hplace
    exact absurd ((filePlace_inj .tile .draft).mp hplace).2 (by decide)

/-- **Moving the draft into place** stores its bytes. -/
theorem Arranged.moved (hallowed : Path.Allowed (s.tilePath tile layer))
    (hpaved : s.tree.Paved here (columnNames tile layer)) (ht : t.entries =
      (s.tree.entries.erase (filePlace here tile layer draftExtension)).set
        (filePlace here tile layer tileExtension) (.file bytes modified)) :
    ({ s with tree := t } : DiskStore).Arranged here (m.store tile layer bytes modified) := by
  have hget : ∀ q, t.entries.get? q =
      if q = filePlace here tile layer tileExtension then some (.file bytes modified)
      else if q = filePlace here tile layer draftExtension then none
      else s.tree.entries.get? q := fun q => by
    rw [ht, Table.get?_set, Table.get?_erase]
  have hkeep : s.tree.KeepsDirectories t := fun q hq => by
    rw [hget, if_neg, if_neg, hq]
    · rintro rfl
      exact h.filePlace_ne_directory tile layer draftExtension hq
    · rintro rfl
      exact h.filePlace_ne_directory tile layer tileExtension hq
  refine ⟨h.noNul, hkeep.directory h.leads, fun layer' rest e he => ?_, fun tile' layer' e he => ?_⟩
  · dsimp only at he
    rw [hget] at he
    split at he
    · next hplace =>
      cases he
      rw [filePlace_eq] at hplace
      obtain ⟨hname, rfl⟩ := List.cons.inj (List.append_cancel_left hplace)
      obtain rfl := Layer.name_inj.mp hname
      rw [tilePath_eq, filePath_eq] at hallowed
      refine ⟨.tile tile bytes modified ?_, hallowed⟩
      rw [TileMap.store, if_pos rfl]
    · next hplace =>
      split at he
      · cases he
      · obtain ⟨hfiled, hpath⟩ := h.known layer' rest e he
        refine ⟨?_, hpath⟩
        cases hfiled with
        | layer => exact .layer
        | level zoom => exact .level zoom
        | column zoom x => exact .column zoom x
        | draft other bytes' modified' => exact .draft other bytes' modified'
        | tile other bytes' modified' stored =>
          refine .tile other bytes' modified' ?_
          rw [TileMap.store, if_neg]
          · exact stored
          · intro hkey
            obtain ⟨rfl, rfl⟩ := Prod.mk.inj hkey
            exact hplace (filePlace_eq _ _ _ _).symm
  · dsimp only
    rw [TileMap.store] at he
    split at he
    · next hkey =>
      obtain ⟨rfl, rfl⟩ := Prod.mk.inj hkey
      cases he
      exact ⟨hkeep.paved hpaved, bytes, modified, rfl, by rw [hget, if_pos rfl]⟩
    · next hkey =>
      obtain ⟨hpaved', bytes', modified', hentry, hfile⟩ := h.held tile' layer' e he
      refine ⟨hkeep.paved hpaved', bytes', modified', hentry, ?_⟩
      rw [hget, if_neg, if_neg, hfile]
      · intro hplace
        exact absurd ((filePlace_inj .tile .draft).mp hplace).2 (by decide)
      · intro hplace
        exact hkey ((filePlace_inj .tile .tile).mp hplace).1

/-! ### Writing -/

theorem Arranged.directory_columnPath (hpaved : s.tree.Paved here (columnNames tile layer)) :
    s.tree.directory (s.columnPath tile layer) = .ok (here ++ columnNames tile layer) := by
  rw [columnPath_eq]
  exact directory_paved h.leads (fun _ => plain_of_mem_columnNames) hpaved

theorem Arranged.exists_made (hallowed : Path.Allowed (s.columnPath tile layer))
    (now : CalendarTime) : ∃ made, s.tree.createAll (s.columnPath tile layer) now = (made, .ok ()) ∧
      s.tree.Opens made here (columnNames tile layer) := by
  rw [columnPath_eq] at hallowed ⊢
  exact exists_createAll now h.leads (fun _ => plain_of_mem_columnNames) (List.cons_ne_nil _ _)
    (h.clear tile layer) hallowed

theorem Arranged.exists_drafted (hallowed : Path.Allowed (s.draftPath tile layer))
    (hpaved : s.tree.Paved here (columnNames tile layer)) (bytes : Bytes) (now : CalendarTime) :
    ∃ drafted, s.tree.write (s.draftPath tile layer) bytes now = .ok drafted ∧
      drafted.Paved here (columnNames tile layer) ∧
      drafted.entries.get? (filePlace here tile layer draftExtension) = some (.file bytes now) ∧
      ({ s with tree := drafted } : DiskStore).Arranged here m := by
  have hpath := hallowed
  rw [draftPath_eq] at hpath
  obtain ⟨drafted, hwrite, hentries⟩ := write_concat now (h.directory_columnPath hpaved)
    (plain_rowName tile .draft) hpath bytes (h.filePlace_ne_directory tile layer draftExtension)
  have hkeep := h.keepsDirectories_set _ hentries
  refine ⟨drafted, ?_, hkeep.paved hpaved, ?_, h.drafted hallowed hentries⟩
  · rw [draftPath_eq]
    exact hwrite
  · rw [hentries]
    exact (Table.get?_set _ _ _ _).trans (if_pos rfl)

theorem Arranged.exists_moved (hallowed : Path.Allowed (s.draftPath tile layer))
    (hpaved : s.tree.Paved here (columnNames tile layer))
    (hdraft : s.tree.entries.get? (filePlace here tile layer draftExtension) =
      some (.file bytes modified)) (now : CalendarTime) : ∃ done,
    s.tree.rename (s.columnPath tile layer) (rowName tile draftExtension)
        (rowName tile tileExtension) now = .ok done ∧
      ({ s with tree := done } : DiskStore).Arranged here (m.store tile layer bytes modified) := by
  have hlast : (s.columnPath tile layer).below [] = s.columnPath tile layer := by
    rw [below_columnPath, List.append_nil]
  have htile := allowed_tilePath hallowed
  obtain ⟨done, hrename, hentries⟩ := rename_concat now hlast (h.directory_columnPath hpaved)
    (plain_rowName tile .draft) (draftPath_eq s tile layer ▸ hallowed)
    (tilePath_eq s tile layer ▸ htile) hdraft (h.filePlace_ne_directory tile layer tileExtension)
  exact ⟨done, hrename, h.moved htile hpaved hentries⟩

/-- **A write comes to its end** and stores the bytes, when the path of its draft is not refused. -/
theorem Arranged.exists_write (hallowed : Path.Allowed (s.draftPath tile layer)) (bytes : Bytes)
    (now : CalendarTime) : ∃ s', s.write tile layer bytes now = (s', .ok ()) ∧ s'.root = s.root ∧
      s'.Arranged here (m.store tile layer bytes now) := by
  have hcolumn := allowed_columnPath hallowed
  obtain ⟨made, hcreate, hopens⟩ := h.exists_made hcolumn now
  have hmade := h.made hopens hopens.kept (Grows.refl made) hcolumn
  obtain ⟨drafted, hwrite, hpaved', hdraft, hdrafted⟩ :=
    hmade.exists_drafted hallowed hopens.paved bytes now
  obtain ⟨done, hrename, hdone⟩ := hdrafted.exists_moved hallowed hpaved' hdraft now
  refine ⟨{ s with tree := done }, ?_, rfl, hdone⟩
  have hdraftPath : s.draftPath tile layer =
      ({ s with tree := made } : DiskStore).draftPath tile layer := rfl
  have hcolumnPath : s.columnPath tile layer =
      ({ s with tree := drafted } : DiskStore).columnPath tile layer := rfl
  unfold DiskStore.write
  rw [hcreate]
  dsimp only
  rw [hdraftPath, hwrite]
  dsimp only
  rw [hcolumnPath, hrename]

/-! ### Reading -/

theorem Arranged.tree_read_of_not_paved (hallowed : Path.Allowed (s.tilePath tile layer))
    (hpaved : ¬ s.tree.Paved here (columnNames tile layer)) :
    s.tree.read (s.tilePath tile layer) = .error .notFound := by
  have hplain : ∀ n ∈ columnNames tile layer ++ [rowName tile tileExtension], Path.Plain n :=
    fun n hn => by
      rcases List.mem_append.mp hn with hn | hn
      · exact plain_of_mem_columnNames hn
      · rw [List.mem_singleton.mp hn]
        exact plain_rowName tile .tile
  have hwalk : s.tree.walk (s.tilePath tile layer) = .error .notFound := by
    rw [tilePath_eq, columnPath_eq, List.append_assoc, walk_below h.leads hplain (by simp),
      placeFrom_of_clear (fun _ => plain_of_mem_columnNames) (h.clear tile layer) hpaved]
  unfold FileTree.read entry
  rw [place_eq_walk hallowed, hwalk]
  rfl

theorem Arranged.tree_read_of_paved (hallowed : Path.Allowed (s.tilePath tile layer))
    (hpaved : s.tree.Paved here (columnNames tile layer)) :
    s.tree.read (s.tilePath tile layer) =
      match s.tree.entries.get? (filePlace here tile layer tileExtension) with
      | none => .error .notFound
      | some .directory => .error .isDirectory
      | some (.file bytes modified) => .ok (bytes, modified) := by
  rw [tilePath_eq] at hallowed ⊢
  exact read_concat (h.directory_columnPath hpaved) (plain_rowName tile .tile) hallowed

/-- The file of a key is found just when something is stored, and it holds what is stored. -/
theorem Arranged.tree_read (hallowed : Path.Allowed (s.tilePath tile layer)) :
    (m (tile, layer) = none ∧ s.tree.read (s.tilePath tile layer) = .error .notFound) ∨
      ∃ bytes modified, m (tile, layer) = some ⟨tile, layer, bytes, modified.epochMillis⟩ ∧
        s.tree.read (s.tilePath tile layer) = .ok (bytes, modified) := by
  cases hstored : m (tile, layer) with
  | some e =>
    obtain ⟨hpaved, bytes, modified, rfl, hentry⟩ := h.held tile layer e hstored
    refine .inr ⟨bytes, modified, rfl, ?_⟩
    rw [h.tree_read_of_paved hallowed hpaved, hentry]
  | none =>
    refine .inl ⟨rfl, ?_⟩
    by_cases hpaved : s.tree.Paved here (columnNames tile layer)
    · rw [h.tree_read_of_paved hallowed hpaved]
      cases hentry : s.tree.entries.get? (filePlace here tile layer tileExtension) with
      | none => rfl
      | some e =>
        rw [filePlace_eq] at hentry
        obtain ⟨bytes, modified, -, hsome⟩ := (h.known layer _ e hentry).1.of_tile
        rw [hstored] at hsome
        cases hsome
    · exact h.tree_read_of_not_paved hallowed hpaved

omit h in
/-- What is refused is refused before it is read. -/
theorem read_of_check {e : SystemError} (hcheck : check (s.tilePath tile layer) = .error e) :
    s.read tile layer = .error (.system e) := by
  have hread : s.tree.read (s.tilePath tile layer) = .error e := by
    unfold FileTree.read entry place
    rw [hcheck]
    rfl
  have hfound : e ≠ .notFound := by
    rintro rfl
    exact check_ne_notFound _ hcheck
  unfold DiskStore.read
  rw [hread]
  cases e <;> first | rfl | exact absurd rfl hfound

/-- **Reading gives what is stored,** unless the path is refused. -/
theorem Arranged.read_eq (tile : TileId) (layer : Layer) : s.read tile layer =
    match check (s.tilePath tile layer) with
    | .ok () => .ok (m (tile, layer))
    | .error e => .error (.system e) := by
  cases hcheck : check (s.tilePath tile layer) with
  | error e => exact read_of_check hcheck
  | ok _ =>
    unfold DiskStore.read
    rcases h.tree_read (allowed_of_check hcheck) with ⟨hnone, hread⟩ | ⟨bytes, modified, hsome, hread⟩
    · rw [hread, hnone]
    · rw [hread, hsome]

end Arranged

/-! ### Where there is room for every path -/

section LaidOut

variable (h : s.LaidOut here m)
include h

theorem LaidOut.allowed_draftPath (tile : TileId) (layer : Layer) :
    Path.Allowed (s.draftPath tile layer) := by
  rw [draftPath_eq]
  exact h.allowed tile layer .draft

/-- **Every write comes to its end** and stores the bytes. -/
theorem LaidOut.exists_write (tile : TileId) (layer : Layer) (bytes : Bytes) (now : CalendarTime) :
    ∃ s', s.write tile layer bytes now = (s', .ok ()) ∧
      s'.LaidOut here (m.store tile layer bytes now) := by
  obtain ⟨s', hwrite, hroot, hs'⟩ := h.arranged.exists_write (h.allowed_draftPath tile layer) bytes now
  exact ⟨s', hwrite, hs'.laidOut (hroot ▸ h.short)⟩

/-- **Reading gives what is stored.** -/
theorem LaidOut.read_eq (tile : TileId) (layer : Layer) :
    s.read tile layer = .ok (m (tile, layer)) := by
  rw [h.arranged.read_eq, check_eq_ok (allowed_tilePath (h.allowed_draftPath tile layer))]

end LaidOut

end TileStream.DiskStore
