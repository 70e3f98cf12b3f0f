import TileStream.Proofs.Store.Found
import TileStream.Proofs.Store.Layout

/-!
# Reading everything that a store on disk holds

Everything that is filed below the root of a store can be read: what leads to a directory is listed, and
what leads to a file is a draft or a tile file. So reading everything comes to its end
(`Arranged.exists_readAll`), and what a walk finds is what is stored of valid tiles (`Arranged.found_iff`).
Only a layer whose directory has a path that is refused cannot be read, and then nothing is
(`Arranged.readAll_of_not_allowed`).
-/

namespace TileStream.DiskStore

open FileTree
open TileStream.Path (Sought)

variable {s : DiskStore} {t : FileTree} {here there : Place} {base path : Path} {m : TileMap}
  {layer : Layer} {cutoff : Option ℕ} {level column file last : String}

/-- **Older than the cutoff is not fresh.** The one takes the age off the time of the clock, the other the
time of storing, and both stop at zero. -/
theorem cutoff_any (maxAge : Option Duration) (now : CalendarTime) (e : StoredTile) :
    (DiskStore.cutoff maxAge now).any (e.storedAt < ·) = !e.isFresh maxAge now := by
  unfold DiskStore.cutoff StoredTile.isFresh
  cases maxAge with
  | none => rfl
  | some age =>
    rw [Option.map_some, Option.any_some, ← decide_not, decide_eq_decide]
    omega

/-- The directories with numbers for names are listed where a directory is. -/
theorem exists_numbered (hlast : Sought last) (hallowed : Path.Allowed (base ++ [last]))
    (hdir : t.directory (base ++ [last]) = .ok there) (bound : ℕ) :
    ∃ found, numbered t bound (base ++ [last]) = .ok found := by
  obtain ⟨files, hfiles⟩ := exists_contents_of_directory hlast (check_eq_ok hallowed) hdir
  unfold numbered
  rw [hfiles]
  exact ⟨_, rfl⟩

theorem below_layer (s : DiskStore) (layer : Layer) (names : List String) :
    s.root.below [layer.name] ++ names = s.root.below [] ++ layer.name :: names := by
  rw [Path.below_eq, List.append_assoc]
  rfl

section Arranged

variable (h : s.Arranged here m)
include h

/-! ### What there is can be read -/

theorem Arranged.leads_to_layer (hdir : s.tree.directory (s.root.below [layer.name]) = .ok there) :
    there = here ++ [layer.name] := by
  rw [Path.below_eq] at hdir
  obtain ⟨here', hhere, rfl, -⟩ := (directory_sought_iff (sought_layer layer)).mp hdir
  rw [h.leads] at hhere
  cases hhere
  rfl

theorem Arranged.leads_to_level (hlevel : Sought level)
    (hdir : s.tree.directory (s.root.below [layer.name] ++ [level]) = .ok there) :
    there = here ++ [layer.name] ++ [level] ∧
      Path.Allowed (s.root.below [layer.name] ++ [level]) := by
  obtain ⟨here', hhere, rfl, hentry⟩ := (directory_sought_iff hlevel).mp hdir
  obtain rfl := h.leads_to_layer hhere
  rw [List.append_assoc] at hentry
  rw [below_layer]
  exact ⟨rfl, (h.known layer [level] _ hentry).2⟩

theorem Arranged.leads_to_column (hlevel : Sought level) (hcolumn : Sought column)
    (hdir : s.tree.directory (s.root.below [layer.name] ++ [level] ++ [column]) = .ok there) :
    there = here ++ layer.name :: [level, column] ∧
      Path.Allowed (s.root.below [layer.name] ++ [level] ++ [column]) := by
  obtain ⟨here', hhere, rfl, hentry⟩ := (directory_sought_iff hcolumn).mp hdir
  obtain ⟨rfl, -⟩ := h.leads_to_level hlevel hhere
  have hplace : here ++ [layer.name] ++ [level] ++ [column] = here ++ layer.name :: [level, column] := by
    simp
  rw [hplace] at hentry ⊢
  rw [List.append_assoc, below_layer]
  exact ⟨rfl, (h.known layer [level, column] _ hentry).2⟩

theorem Arranged.exists_readFile (hlevel : Sought level) (hcolumn : Sought column)
    (hdir : s.tree.directory (s.root.below [layer.name] ++ [level] ++ [column]) = .ok there)
    (hthere : s.tree.entries.contains (there ++ [file]) = true) (zoom x : ℕ) : ∃ o,
    readFile s.tree layer cutoff zoom x (s.root.below [layer.name] ++ [level] ++ [column])
      (file, there ++ [file]) = .ok o := by
  unfold readFile
  cases hrow : row? file with
  | none => exact ⟨_, rfl⟩
  | some y =>
    dsimp only
    split
    · exact ⟨_, rfl⟩
    · split
      · exact ⟨_, rfl⟩
      · obtain ⟨e, he⟩ := s.tree.entries.contains_iff.mp hthere
        obtain ⟨rfl, -⟩ := h.leads_to_column hlevel hcolumn hdir
        have hentry := he
        rw [List.append_assoc, List.cons_append] at hentry
        obtain ⟨hfiled, hallowed⟩ := h.known layer [level, column, file] e hentry
        cases e with
        | directory => exact absurd hfiled.length_of_directory (by simp)
        | file bytes modified =>
          have hpath : s.root.below [layer.name] ++ [level] ++ [column] ++ [file] =
              s.root.below [] ++ layer.name :: [level, column, file] := by
            rw [List.append_assoc, List.append_assoc, below_layer]
            rfl
          have hread : s.tree.read (s.root.below [layer.name] ++ [level] ++ [column] ++ [file]) =
              .ok (bytes, modified) :=
            read_eq_ok_iff.mpr ⟨_, (place_sought_iff (sought_of_row? hrow)
              (check_eq_ok (hpath ▸ hallowed))).mpr ⟨_, hdir, rfl, hthere⟩, he⟩
          rw [hcolumn.below, hread]
          exact ⟨_, rfl⟩

theorem Arranged.exists_readColumn (hlevel : Sought level) (hcolumn : Sought column)
    (hdir : s.tree.directory (s.root.below [layer.name] ++ [level] ++ [column]) = .ok there)
    (zoom x : ℕ) : ∃ found, readColumn s.tree layer cutoff zoom
      (x, s.root.below [layer.name] ++ [level] ++ [column]) = .ok found := by
  obtain ⟨-, hallowed⟩ := h.leads_to_column hlevel hcolumn hdir
  obtain ⟨files, hfiles⟩ := exists_contents_of_directory hcolumn (check_eq_ok hallowed) hdir
  obtain ⟨there', hdir', hlists⟩ := exists_of_contents hcolumn hfiles
  rw [hdir] at hdir'
  cases hdir'
  obtain ⟨os, hos⟩ := exists_mapM_eq_ok (l := files)
    (f := readFile s.tree layer cutoff zoom x (s.root.below [layer.name] ++ [level] ++ [column]))
    fun ⟨file, q⟩ hfile => by
      obtain ⟨hq, hthere⟩ := (hlists.mem_iff _).mp hfile
      dsimp only at hq hthere
      subst hq
      exact h.exists_readFile hlevel hcolumn hdir hthere zoom x
  unfold readColumn
  dsimp only [bind, Except.bind]
  rw [hfiles]
  dsimp only
  rw [hos]
  exact ⟨_, rfl⟩

theorem Arranged.exists_readLevel (hlevel : Sought level)
    (hdir : s.tree.directory (s.root.below [layer.name] ++ [level]) = .ok there) (zoom : ℕ) :
    ∃ found, readLevel s.tree layer cutoff (zoom, s.root.below [layer.name] ++ [level]) =
      .ok found := by
  obtain ⟨-, hallowed⟩ := h.leads_to_level hlevel hdir
  obtain ⟨columns, hcolumns⟩ := exists_numbered hlevel hallowed hdir Checked.words32
  obtain ⟨parts, hparts⟩ := exists_mapM_eq_ok (l := columns) (f := readColumn s.tree layer cutoff zoom)
    fun ⟨x, p⟩ hcolumn => by
      obtain ⟨⟨name, hread, rfl⟩, there', hthere'⟩ :=
        ((lists_numbered hlevel hcolumns).mem_iff _).mp hcolumn
      exact h.exists_readColumn hlevel (sought_of_readWhole hread) hthere' zoom x
  unfold readLevel
  dsimp only [bind, Except.bind]
  rw [hcolumns]
  dsimp only
  rw [hparts]
  exact ⟨_, rfl⟩

theorem Arranged.exists_levels (hallowed : Path.Allowed (s.root.below [layer.name])) : ∃ levels,
    numbered s.tree Checked.words8 (s.root.below [layer.name]) = .ok levels := by
  rw [Path.below_eq] at hallowed ⊢
  have hplain : ∀ n ∈ [layer.name], Path.Plain n := fun n hn => by
    have hcolumn : n ∈ columnNames ⟨0, 0, 0⟩ layer := List.mem_append_left _ hn
    exact plain_of_mem_columnNames hcolumn
  by_cases hpaved : s.tree.Paved here [layer.name]
  · exact exists_numbered (sought_layer layer) hallowed (directory_paved h.leads hplain hpaved) _
  · have hclear : s.tree.Clear here [layer.name] := ⟨(h.clear ⟨0, 0, 0⟩ layer).1, trivial⟩
    unfold numbered
    rw [contents_of_clear h.leads hplain hallowed (List.cons_ne_nil _ _) hclear hpaved]
    exact ⟨[], rfl⟩

theorem Arranged.exists_readLayer (hallowed : Path.Allowed (s.root.below [layer.name])) :
    ∃ found, s.readLayer cutoff layer = .ok found := by
  obtain ⟨levels, hlevels⟩ := h.exists_levels hallowed
  have hnumbered := hlevels
  rw [Path.below_eq] at hnumbered
  have hlists := lists_numbered (sought_layer layer) hnumbered
  rw [← Path.below_eq] at hlists
  obtain ⟨parts, hparts⟩ := exists_mapM_eq_ok (l := levels) (f := readLevel s.tree layer cutoff)
    fun ⟨zoom, p⟩ hlevel => by
      obtain ⟨⟨name, hread, rfl⟩, there, hthere⟩ := (hlists.mem_iff _).mp hlevel
      exact h.exists_readLevel (sought_of_readWhole hread) hthere zoom
  unfold readLayer
  dsimp only [bind, Except.bind]
  rw [hlevels]
  dsimp only
  rw [hparts]
  exact ⟨_, rfl⟩

theorem Arranged.readLayer_of_not_allowed (hlong : ¬ Path.Allowed (s.root.below [layer.name])) :
    s.readLayer cutoff layer = .error .nameTooLong := by
  rw [Path.below_eq] at hlong
  have hcheck : check (s.root.below [layer.name]) = .error .nameTooLong := by
    rw [Path.below_eq]
    exact h.check_columnNames (show columnNames ⟨0, 0, 0⟩ layer = [layer.name] ++ _ from rfl) hlong
  unfold readLayer numbered
  rw [contents_of_check hcheck]
  rfl

/-! ### What a walk finds -/

/-- **A walk finds the tile files of what is stored** of valid tiles, where the store put them. -/
theorem Arranged.found_iff {e : StoredTile} : s.Found path e ↔
    e.tile.isValid = true ∧ m e.key = some e ∧ path = s.tilePath e.tile e.layer := by
  constructor
  · intro hfound
    obtain ⟨level, column, file, rfl, hlevel, hcolumn, hrow⟩ := hfound.named
    obtain ⟨modified, hread, hstored⟩ := hfound.read
    obtain ⟨there, hdir, -, hentry⟩ := exists_of_read (sought_of_row? hrow) hread
    obtain ⟨rfl, -⟩ := h.leads_to_column (sought_of_readWhole hlevel) (sought_of_readWhole hcolumn) hdir
    rw [List.append_assoc, List.cons_append] at hentry
    have hfiled := (h.known e.layer [level, column, file] _ hentry).1
    cases hfiled with
    | draft tile =>
      rw [row?_draft] at hrow
      cases hrow
    | tile tile bytes modified stored =>
      rw [Text.readWhole_toString tile.zoom.toNat_lt] at hlevel
      rw [Text.readWhole_toString tile.x.toNat_lt] at hcolumn
      rw [row?_tile] at hrow
      obtain rfl := TileId.eq_of_parts (UInt8.toNat_inj.mp (Option.some.inj hlevel))
        (UInt32.toNat_inj.mp (Option.some.inj hcolumn)) (UInt32.toNat_inj.mp (Option.some.inj hrow))
      rw [← hstored] at stored
      exact ⟨hfound.valid, stored, (tilePath_steps s e.tile e.layer).symm⟩
  · rintro ⟨hvalid, hstored, rfl⟩
    obtain ⟨-, bytes, modified, -, hentry⟩ := h.held e.tile e.layer e hstored
    rw [filePlace_eq] at hentry
    have hallowed := (h.known e.layer _ _ hentry).2
    rw [← filePath_eq, ← tilePath_eq] at hallowed
    rw [found_tilePath_iff hvalid, h.read_eq, check_eq_ok hallowed]
    exact congrArg Except.ok hstored

/-! ### Everything -/

/-- **Everything that is stored** of valid tiles and fresh is read, each key once. -/
theorem Arranged.exists_readAll (hallowed : ∀ layer : Layer, Path.Allowed (s.root.below [layer.name]))
    (maxAge : Option Duration) (now : CalendarTime) : ∃ all,
    s.readAll maxAge now = .ok all ∧ (all.map StoredTile.key).Nodup ∧ ∀ e, e ∈ all ↔
      e.tile.isValid = true ∧ m e.key = some e ∧ e.isFresh maxAge now = true := by
  obtain ⟨all, hall⟩ : ∃ all, s.readAll maxAge now = .ok all := by
    obtain ⟨parts, hparts⟩ := exists_mapM_eq_ok (l := Layer.all)
      (f := s.readLayer (DiskStore.cutoff maxAge now)) fun layer _ => h.exists_readLayer (hallowed layer)
    unfold DiskStore.readAll
    rw [hparts]
    exact ⟨_, rfl⟩
  obtain ⟨files, hfiles, rfl⟩ := exists_files hall
  have hmem : ∀ f, f ∈ files ↔ (f.2.tile.isValid = true ∧ m f.2.key = some f.2 ∧
      f.1 = s.tilePath f.2.tile f.2.layer) ∧ f.2.isFresh maxAge now = true := fun f => by
    rw [hfiles.mem_iff, h.found_iff, cutoff_any, Bool.not_eq_false']
  refine ⟨_, hall, ?_, fun e => ?_⟩
  · rw [List.map_map]
    refine hfiles.nodup.map_on fun ⟨path, e⟩ hf ⟨path', e'⟩ hf' hkey => ?_
    obtain ⟨⟨-, hstored, hpath⟩, -⟩ := (hmem _).mp hf
    obtain ⟨⟨-, hstored', hpath'⟩, -⟩ := (hmem _).mp hf'
    dsimp only [Function.comp_apply] at hkey hstored hpath hstored' hpath'
    rw [hkey, hstored'] at hstored
    obtain rfl := Option.some.inj hstored
    rw [hpath, hpath']
  · simp only [List.mem_map, Prod.exists, hmem, exists_eq_right]
    exact ⟨fun ⟨_, ⟨hvalid, hstored, _⟩, hfresh⟩ => ⟨hvalid, hstored, hfresh⟩,
      fun ⟨hvalid, hstored, hfresh⟩ => ⟨_, ⟨hvalid, hstored, rfl⟩, hfresh⟩⟩

/-- **Nothing is read** when the directory of a layer has a path that is too long. -/
theorem Arranged.readAll_of_not_allowed
    (hlong : ∃ layer : Layer, ¬ Path.Allowed (s.root.below [layer.name])) (maxAge : Option Duration)
    (now : CalendarTime) : s.readAll maxAge now = .error (.system .nameTooLong) := by
  have hfault : Layer.all.mapM (s.readLayer (DiskStore.cutoff maxAge now)) = .error .nameTooLong := by
    refine mapM_eq_error (fun layer _ => ?_) ?_
    · by_cases hallowed : Path.Allowed (s.root.below [layer.name])
      · exact .inl (h.exists_readLayer hallowed)
      · exact .inr (h.readLayer_of_not_allowed hallowed)
    · obtain ⟨layer, hlayer⟩ := hlong
      exact ⟨layer, by cases layer <;> decide, h.readLayer_of_not_allowed hlayer⟩
  unfold DiskStore.readAll
  rw [hfault]

end Arranged

/-- **Everything that is stored** of valid tiles and fresh is read, where there is room for every path. -/
theorem LaidOut.exists_readAll (h : s.LaidOut here m) (maxAge : Option Duration) (now : CalendarTime) :
    ∃ all, s.readAll maxAge now = .ok all ∧ (all.map StoredTile.key).Nodup ∧ ∀ e, e ∈ all ↔
      e.tile.isValid = true ∧ m e.key = some e ∧ e.isFresh maxAge now = true := by
  refine h.arranged.exists_readAll (fun layer => ?_) maxAge now
  rw [Path.below_eq]
  exact h.toRooted.allowed_filed (m := m) .layer

end TileStream.DiskStore
