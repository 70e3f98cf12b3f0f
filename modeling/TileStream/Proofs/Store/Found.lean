import TileStream.Proofs.Fault
import TileStream.Proofs.Store.Names
import TileStream.Proofs.Store.Walk

/-!
# What reading everything finds

Reading everything is answered for all trees in the same way, whatever else is below the root: it lists the
tile files that a walk finds (`Found`), each once (`exists_files`). A walk takes a file when the names that
lead to it from the directory of its layer read as the numbers of a valid tile. So the list says under which
path each of its entries was found, and no two of them share one.

The lists on the way say so of what is below one directory: `files_of_readColumn`, `files_of_readLevel`,
`files_of_readLayer`. What reading a key looks at is found where the store would put it
(`found_tilePath_iff`).
-/

namespace TileStream.DiskStore

open FileTree
open TileStream.Path (Sought)

variable {s : DiskStore} {t : FileTree} {here : Place} {base : Path} {bound n : ℕ}
  {layer : Layer} {cutoff : Option ℕ} {name file last : String}

/-! ### Names that read as numbers -/

theorem lt_of_readWhole {cs : List Char} (h : Text.readWhole bound cs = some n) : n < bound :=
  of_decide_eq_true (Option.filter_eq_some_iff.mp h).2

theorem sought_of_readWhole (h : Text.readWhole bound name.toList = some n) : Sought name := by
  have hne : ∀ other : String, Text.readWhole bound other.toList = none → name ≠ other := by
    rintro other hnone rfl
    rw [h] at hnone
    cases hnone
  exact ⟨by simp [Path.isIdle, hne "" rfl, hne "." rfl], hne ".." rfl⟩

theorem sought_of_row? (h : row? file = some n) : Sought file := by
  have hne : ∀ other : String, row? other = none → file ≠ other := by
    rintro other hnone rfl
    rw [h] at hnone
    cases hnone
  exact ⟨by simp [Path.isIdle, hne "" rfl, hne "." rfl], hne ".." rfl⟩

theorem row?_lt (h : row? file = some n) : n < Checked.words32 := by
  unfold row? at h
  split at h
  · split at h
    · exact lt_of_readWhole h
    · cases h
  · cases h

theorem sought_layer (layer : Layer) : Sought layer.name := by
  cases layer <;> exact ⟨by decide, by decide⟩

/-! ### Directories with numbers for names -/

/-- A directory in another one, with the number that its name reads as. -/
structure Numbered (t : FileTree) (bound : ℕ) (base : Path) (a : ℕ × Path) : Prop where
  named : ∃ name, Text.readWhole bound name.toList = some a.1 ∧ a.2 = base ++ [name]
  directory : ∃ there, t.directory a.2 = .ok there

theorem Numbered.eq {a a' : ℕ × Path} (h : Numbered t bound base a) (h' : Numbered t bound base a')
    (hpath : a.2 = a'.2) : a = a' := by
  obtain ⟨name, hread, hname⟩ := h.named
  obtain ⟨name', hread', hname'⟩ := h'.named
  rw [hname, hname'] at hpath
  obtain rfl := (List.cons.inj (List.append_cancel_left hpath)).1
  rw [hread] at hread'
  exact Prod.ext (Option.some.inj hread') (hname.trans hname'.symm)

theorem lists_numbered (hlast : Sought last) {found : List (ℕ × Path)}
    (h : numbered t bound (base ++ [last]) = .ok found) :
    Lists found (Numbered t bound (base ++ [last])) := by
  unfold numbered at h
  split at h
  · next hnone =>
    cases h
    refine ⟨List.nodup_nil, fun a => iff_of_false List.not_mem_nil fun ha => ?_⟩
    obtain ⟨name, hread, hpath⟩ := ha.named
    obtain ⟨there, hthere⟩ := ha.directory
    rw [hpath] at hthere
    obtain ⟨here, hdir, -⟩ := (directory_sought_iff (sought_of_readWhole hread)).mp hthere
    exact not_directory_of_contents hlast hnone here hdir
  · cases h
  · next files hfiles =>
    cases h
    obtain ⟨here, hdir, hlists⟩ := exists_of_contents hlast hfiles
    simp only [hlast.below]
    refine (hlists.filterMap fun a a' b ha ha' hb hb' => ?_).congr fun b => ?_
    · simp only [Option.ite_none_right_eq_some, Option.map_eq_some_iff] at hb hb'
      obtain ⟨-, n, -, rfl⟩ := hb
      obtain ⟨-, n', -, hpath⟩ := hb'
      have hname : a.1 = a'.1 :=
        (List.cons.inj (List.append_cancel_left (Prod.mk.inj hpath).2)).1.symm
      exact Prod.ext hname (by rw [ha.1, ha'.1, hname])
    · simp only [Option.ite_none_right_eq_some, Option.map_eq_some_iff, Prod.exists]
      constructor
      · rintro ⟨name, q, ⟨rfl, hin⟩, hat, n, hread, rfl⟩
        refine ⟨⟨name, hread, rfl⟩, here ++ [name], ?_⟩
        obtain ⟨e, he⟩ := t.entries.contains_iff.mp hin
        rw [entryAt, he, Option.getD_some] at hat
        exact (directory_sought_iff (sought_of_readWhole hread)).mpr ⟨here, hdir, rfl, by rw [he, hat]⟩
      · rintro ⟨⟨name, hread, hpath⟩, there, hthere⟩
        rw [hpath] at hthere
        obtain ⟨here', hdir', rfl, hentry⟩ :=
          (directory_sought_iff (sought_of_readWhole hread)).mp hthere
        rw [hdir] at hdir'
        cases hdir'
        refine ⟨name, _, ⟨rfl, t.entries.contains_iff.mpr ⟨_, hentry⟩⟩, ?_, b.1, hread,
          Prod.ext rfl hpath.symm⟩
        rw [entryAt, hentry, Option.getD_some]

/-! ### Files -/

/-- **A tile file of a column,** under its path: it is named after a row, its tile is valid, and it is not
older than the cutoff. -/
structure TileFile (t : FileTree) (layer : Layer) (cutoff : Option ℕ) (zoom x : ℕ) (column : Path)
    (file : String) (f : Path × StoredTile) : Prop where
  path : f.1 = column ++ [file]
  layer : f.2.layer = layer
  zoom : f.2.tile.zoom.toNat = zoom
  x : f.2.tile.x.toNat = x
  row : row? file = some f.2.tile.y.toNat
  valid : f.2.tile.isValid = true
  read : ∃ modified, t.read f.1 = .ok (f.2.bytes, modified) ∧ f.2.storedAt = modified.epochMillis
  young : cutoff.any (f.2.storedAt < ·) = false

variable {zoom x : ℕ} {column : Path} {f f' : Path × StoredTile}

/-- What there is of a tile file is told by its name and the entry at its place. -/
theorem TileFile.eq (h : TileFile t layer cutoff zoom x column file f)
    (hdir : t.directory column = .ok here) (hrow : row? file = some n) :
    f.2.tile = ⟨zoom.toUInt8, x.toUInt32, n.toUInt32⟩ ∧ ∃ modified,
      t.read (column ++ [file]) = .ok (f.2.bytes, modified) ∧
      f.2.storedAt = modified.epochMillis ∧ t.modifiedAt (here ++ [file]) = modified := by
  obtain ⟨modified, hread, hstored⟩ := h.read
  have hy := h.row
  rw [hrow, Option.some.injEq] at hy
  rw [h.path] at hread
  obtain ⟨here', hdir', -, hentry⟩ := exists_of_read (sought_of_row? hrow) hread
  rw [hdir] at hdir'
  cases hdir'
  refine ⟨TileId.eq_of_parts ?_ ?_ ?_, modified, hread, hstored, ?_⟩
  · rw [← h.zoom]
    exact UInt8.ofNat_toNat.symm
  · rw [← h.x]
    exact UInt32.ofNat_toNat.symm
  · rw [hy]
    exact UInt32.ofNat_toNat.symm
  · unfold modifiedAt entryAt
    rw [hentry, Option.getD_some]

/-- **What was read of a file** of a column is what there is of it, if it is a tile file. -/
theorem readFile_eq_some_iff (hlast : Sought last)
    (hdir : t.directory (base ++ [last]) = .ok here) (hzoom : zoom < Checked.words8)
    (hx : x < Checked.words32) {o : Option StoredTile}
    (h : readFile t layer cutoff zoom x (base ++ [last]) (file, here ++ [file]) = .ok o)
    (e : StoredTile) : o = some e ↔
      TileFile t layer cutoff zoom x (base ++ [last]) file (base ++ [last] ++ [file], e) := by
  unfold readFile at h
  cases hrow : row? file with
  | none =>
    rw [hrow] at h
    cases h
    refine iff_of_false (by simp) fun hf => ?_
    rw [hf.row] at hrow
    cases hrow
  | some n =>
    rw [hrow] at h
    dsimp only at h
    split at h
    · next hinvalid =>
      cases h
      refine iff_of_false (by simp) fun hf => ?_
      obtain ⟨htile, -⟩ := hf.eq hdir hrow
      rw [← htile, hf.valid] at hinvalid
      cases hinvalid
    · next hvalid =>
      split at h
      · next hold =>
        cases h
        refine iff_of_false (by simp) fun hf => ?_
        obtain ⟨-, modified, -, hstored, hmodified⟩ := hf.eq hdir hrow
        rw [hmodified, ← hstored, hf.young] at hold
        cases hold
      · next hyoung =>
        obtain ⟨⟨bytes, modified⟩, hread, h⟩ := Checked.bind_eq_ok h
        rw [hlast.below] at hread
        obtain ⟨here', hdir', -, hentry⟩ := exists_of_read (sought_of_row? hrow) hread
        rw [hdir] at hdir'
        cases hdir'
        have hmodified : t.modifiedAt (here ++ [file]) = modified := by
          unfold modifiedAt entryAt
          rw [hentry, Option.getD_some]
        rw [hmodified] at h hyoung
        cases h
        rw [Option.some.injEq]
        constructor
        · rintro rfl
          exact {
            path := rfl
            layer := rfl
            zoom := UInt8.toNat_ofNat_of_lt' hzoom
            x := UInt32.toNat_ofNat_of_lt' hx
            row := by rw [hrow]; exact congrArg some (UInt32.toNat_ofNat_of_lt' (row?_lt hrow)).symm
            valid := by simpa using hvalid
            read := ⟨modified, hread, rfl⟩
            young := Bool.eq_false_iff.mpr hyoung }
        · intro hf
          obtain ⟨htile, modified', hread', hstored, -⟩ := hf.eq hdir hrow
          rw [hread] at hread'
          cases hread'
          rw [StoredTile.mk.injEq]
          exact ⟨htile.symm, hf.layer.symm, rfl, hstored.symm⟩

/-! ### Everything below a directory -/

/-- What was read of a column. -/
theorem files_of_readColumn (hlast : Sought last) (hzoom : zoom < Checked.words8)
    (hx : x < Checked.words32) {found : List StoredTile}
    (h : readColumn t layer cutoff zoom (x, base ++ [last]) = .ok found) : ∃ files,
    Lists files (fun f => ∃ file, TileFile t layer cutoff zoom x (base ++ [last]) file f) ∧
      found = files.map Prod.snd := by
  obtain ⟨contents, hcontents, h⟩ := Checked.bind_eq_ok h
  obtain ⟨os, hos, h⟩ := Checked.bind_eq_ok h
  cases h
  obtain ⟨here, hdir, hlists⟩ := exists_of_contents hlast hcontents
  obtain ⟨files, hfiles, hfound⟩ := hlists.reduceOption_of_mapM
    (q := fun a f => TileFile t layer cutoff zoom x (base ++ [last]) a.1 f) (k := Prod.snd)
    (fun a a' f ha ha' hf hf' => by
      have hname : a.1 = a'.1 :=
        (List.cons.inj (List.append_cancel_left (hf.path.symm.trans hf'.path))).1
      exact Prod.ext hname (by rw [ha.1, ha'.1, hname])) hos
    fun a o ha ho => by
      obtain ⟨file, q⟩ := a
      obtain rfl : q = here ++ [file] := ha.1
      have hiff := readFile_eq_some_iff hlast hdir hzoom hx ho
      refine ⟨o.map fun e => (base ++ [last] ++ [file], e), fun f => ?_, ?_⟩
      · rw [Option.map_eq_some_iff]
        constructor
        · rintro ⟨e, he, rfl⟩
          exact (hiff e).mp he
        · intro hf
          have hpair : (base ++ [last] ++ [file], f.2) = f := Prod.ext hf.path.symm rfl
          exact ⟨f.2, (hiff f.2).mpr (hpair ▸ hf), hpair⟩
      · rw [Option.map_map]
        exact Option.map_id'.symm
  refine ⟨files, hfiles.congr fun f => ⟨fun ⟨a, _, hf⟩ => ⟨a.1, hf⟩, fun ⟨file, hf⟩ => ?_⟩, hfound⟩
  obtain ⟨modified, hread, -⟩ := hf.read
  rw [hf.path] at hread
  obtain ⟨here', hdir', -, hentry⟩ := exists_of_read (sought_of_row? hf.row) hread
  rw [hdir] at hdir'
  cases hdir'
  exact ⟨(file, here ++ [file]), ⟨rfl, t.entries.contains_iff.mpr ⟨_, hentry⟩⟩, hf⟩

/-- What was read of a zoom level. -/
theorem files_of_readLevel (hlast : Sought last) (hzoom : zoom < Checked.words8)
    {found : List StoredTile} (h : readLevel t layer cutoff (zoom, base ++ [last]) = .ok found) :
    ∃ files, Lists files (fun f => ∃ column, Numbered t Checked.words32 (base ++ [last]) column ∧
      ∃ file, TileFile t layer cutoff zoom column.1 column.2 file f) ∧ found = files.map Prod.snd := by
  obtain ⟨columns, hcolumns, h⟩ := Checked.bind_eq_ok h
  obtain ⟨parts, hparts, h⟩ := Checked.bind_eq_ok h
  cases h
  refine (lists_numbered hlast hcolumns).flatten_of_mapM ?_ hparts ?_
  · rintro a a' f ha ha' ⟨file, hf⟩ ⟨file', hf'⟩
    exact ha.eq ha' (List.append_inj' (hf.path.symm.trans hf'.path) rfl).1
  · rintro ⟨x, path⟩ part ⟨⟨name, hread, hpath⟩, -⟩ hpart
    dsimp only at hread hpath
    subst hpath
    exact files_of_readColumn (sought_of_readWhole hread) hzoom (lt_of_readWhole hread) hpart

/-- **A tile file that a walk finds** under a path: the names behind the directory of its layer read as the
numbers of its tile, which is valid, and the path leads to a file with its bytes and its time. -/
structure Found (s : DiskStore) (path : Path) (e : StoredTile) : Prop where
  named : ∃ level column file, path = s.root.below [e.layer.name] ++ [level] ++ [column] ++ [file] ∧
    Text.readWhole Checked.words8 level.toList = some e.tile.zoom.toNat ∧
    Text.readWhole Checked.words32 column.toList = some e.tile.x.toNat ∧
    row? file = some e.tile.y.toNat
  valid : e.tile.isValid = true
  read : ∃ modified, s.tree.read path = .ok (e.bytes, modified) ∧ e.storedAt = modified.epochMillis

/-! ### Where the store puts a tile file -/

variable {e : StoredTile}

theorem tilePath_steps (s : DiskStore) (tile : TileId) (layer : Layer) : s.tilePath tile layer =
    s.root.below [layer.name] ++ [toString tile.zoom.toNat] ++ [toString tile.x.toNat] ++
      [rowName tile tileExtension] := by
  rw [tilePath, below_columnPath, columnPath_eq, Path.below_eq s.root [layer.name]]
  simp only [columnNames, List.append_assoc, List.cons_append, List.nil_append]

theorem read_eq_some_iff : s.read e.tile e.layer = .ok (some e) ↔ ∃ modified,
    s.tree.read (s.tilePath e.tile e.layer) = .ok (e.bytes, modified) ∧
      e.storedAt = modified.epochMillis := by
  unfold DiskStore.read
  constructor
  · intro h
    split at h
    · next bytes modified hread =>
      have he := Option.some.inj (Except.ok.inj h)
      rw [← he]
      exact ⟨modified, hread, rfl⟩
    · cases h
    · cases h
  · rintro ⟨modified, hread, hstored⟩
    rw [hread]
    dsimp only
    rw [← hstored]

/-- **What is read of a valid tile is found** where the store puts it, and what is found there is read. -/
theorem found_tilePath_iff (hvalid : e.tile.isValid = true) :
    s.Found (s.tilePath e.tile e.layer) e ↔ s.read e.tile e.layer = .ok (some e) := by
  rw [read_eq_some_iff]
  refine ⟨fun h => h.read, fun hread => ⟨⟨_, _, _, tilePath_steps s e.tile e.layer, ?_, ?_, row?_tile e.tile⟩,
    hvalid, hread⟩⟩
  · exact Text.readWhole_toString e.tile.zoom.toNat_lt
  · exact Text.readWhole_toString e.tile.x.toNat_lt

/-! ### Everything below a layer -/

/-- What is found is in a column of a zoom level of its layer. -/
theorem found_iff : (∃ level, Numbered s.tree Checked.words8 (s.root.below [layer.name]) level ∧
      ∃ column, Numbered s.tree Checked.words32 level.2 column ∧
        ∃ file, TileFile s.tree layer cutoff level.1 column.1 column.2 file f) ↔
    f.2.layer = layer ∧ s.Found f.1 f.2 ∧ cutoff.any (f.2.storedAt < ·) = false := by
  constructor
  · rintro ⟨⟨zoom, p⟩, ⟨⟨level, hlevel, hp⟩, -⟩, ⟨x, q⟩, ⟨⟨column, hcolumn, hq⟩, -⟩, file, hf⟩
    dsimp only at hlevel hp hcolumn hq hf
    subst hp hq
    obtain rfl := hf.zoom
    obtain rfl := hf.x
    obtain rfl := hf.layer
    exact ⟨rfl, ⟨⟨level, column, file, hf.path, hlevel, hcolumn, hf.row⟩, hf.valid, hf.read⟩, hf.young⟩
  · rintro ⟨rfl, hf, hyoung⟩
    obtain ⟨level, column, file, hpath, hlevel, hcolumn, hrow⟩ := hf.named
    obtain ⟨modified, hread, -⟩ := hf.read
    rw [hpath] at hread
    obtain ⟨there, hthere, -⟩ := exists_of_read (sought_of_row? hrow) hread
    obtain ⟨here, hhere, -⟩ := (directory_sought_iff (sought_of_readWhole hcolumn)).mp hthere
    exact ⟨(_, _), ⟨⟨level, hlevel, rfl⟩, here, hhere⟩, (_, _), ⟨⟨column, hcolumn, rfl⟩, there, hthere⟩,
      file, hpath, rfl, rfl, rfl, hrow, hf.valid, hf.read, hyoung⟩

/-- What was read of a layer. -/
theorem files_of_readLayer {found : List StoredTile} (h : s.readLayer cutoff layer = .ok found) :
    ∃ files : List (Path × StoredTile), Lists files (fun f => f.2.layer = layer ∧ s.Found f.1 f.2 ∧
      cutoff.any (f.2.storedAt < ·) = false) ∧ found = files.map Prod.snd := by
  have hbase := Path.below_eq s.root [layer.name]
  obtain ⟨levels, hlevels, h⟩ := Checked.bind_eq_ok h
  obtain ⟨parts, hparts, h⟩ := Checked.bind_eq_ok h
  cases h
  rw [hbase] at hlevels
  obtain ⟨files, hfiles, hfound⟩ := (lists_numbered (sought_layer layer) hlevels).flatten_of_mapM
    (q := fun level f => ∃ column, Numbered s.tree Checked.words32 level.2 column ∧
      ∃ file, TileFile s.tree layer cutoff level.1 column.1 column.2 file f)
    (fun a a' f ha ha' ⟨column, ⟨⟨name, _, hname⟩, _⟩, file, hf⟩
        ⟨column', ⟨⟨name', _, hname'⟩, _⟩, file', hf'⟩ => by
      have hcolumn := (List.append_inj' (hf.path.symm.trans hf'.path) rfl).1
      rw [hname, hname'] at hcolumn
      exact ha.eq ha' (List.append_inj' hcolumn rfl).1) hparts
    fun ⟨zoom, path⟩ part ⟨⟨name, hread, hpath⟩, _⟩ hpart => by
      dsimp only at hread hpath
      subst hpath
      exact files_of_readLevel (sought_of_readWhole hread) (lt_of_readWhole hread) hpart
  refine ⟨files, hfiles.congr fun f => ?_, hfound⟩
  rw [← hbase]
  exact found_iff

/-! ### Everything -/

/-- **What was read of everything** is what is found and not older than the limit, each file once. -/
theorem exists_files {maxAge : Option Duration} {now : CalendarTime} {all : List StoredTile}
    (h : s.readAll maxAge now = .ok all) : ∃ files : List (Path × StoredTile), Lists files (fun f =>
      s.Found f.1 f.2 ∧ (DiskStore.cutoff maxAge now).any (f.2.storedAt < ·) = false) ∧
        all = files.map Prod.snd := by
  unfold readAll at h
  split at h
  · next parts hparts =>
    cases h
    have hlayers : Lists Layer.all fun _ => True := ⟨by decide, fun l => by cases l <;> decide⟩
    obtain ⟨files, hfiles, hall⟩ := hlayers.flatten_of_mapM
      (q := fun l (f : Path × StoredTile) => f.2.layer = l ∧ s.Found f.1 f.2 ∧
        (DiskStore.cutoff maxAge now).any (f.2.storedAt < ·) = false)
      (fun l l' f _ _ hf hf' => hf.1.symm.trans hf'.1) hparts
      fun l part _ hpart => files_of_readLayer hpart
    exact ⟨files, hfiles.congr fun f =>
      ⟨fun ⟨_, _, _, hf⟩ => hf, fun hf => ⟨f.2.layer, trivial, rfl, hf⟩⟩, hall⟩
  · cases h

end TileStream.DiskStore
