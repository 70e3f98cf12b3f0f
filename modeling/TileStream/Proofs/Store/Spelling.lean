import TileStream.Proofs.Store.Found

/-!
# Spellings of numbers in names

A number has many spellings that are read, with a plus sign and with zeros in front, and one that is
written. Reading everything takes a tile file under any of them, and reading a key looks at the one path that
is written. So what is listed is what is read under its key just when every tile file that is found is where
the store would put it (`listed_as_read_iff`). A file under another spelling is listed and not read, or a
second time under one key (`spelledTwice_listed`).
-/

namespace TileStream.DiskStore

variable {s : DiskStore} {e : StoredTile}

/-- **Listed as read.** When everything could be read, in whatever tree, the list holds what a walk finds.
It holds no key twice and of each key what reading the key gives, just when every file that is found is
where the store would put it. -/
theorem listed_as_read_iff {now : CalendarTime} {all : List StoredTile}
    (h : s.readAll none now = .ok all) : (∀ e, e ∈ all ↔ ∃ path, s.Found path e) ∧
    (((all.map StoredTile.key).Nodup ∧ ∀ e ∈ all, s.read e.tile e.layer = .ok (some e)) ↔
      ∀ path e, s.Found path e → path = s.tilePath e.tile e.layer) := by
  obtain ⟨files, hfiles, rfl⟩ := exists_files h
  have hmem : ∀ path e, (path, e) ∈ files ↔ s.Found path e := fun path e =>
    (hfiles.mem_iff (path, e)).trans (and_iff_left rfl)
  have hlisted : ∀ e, e ∈ files.map Prod.snd ↔ ∃ path, s.Found path e := fun e => by
    simp only [List.mem_map, Prod.exists, hmem, exists_eq_right]
  refine ⟨hlisted, fun ⟨hnodup, hread⟩ path e hfound => ?_, fun hplaced => ⟨?_, fun e he => ?_⟩⟩
  · -- the file where the key is read is found too, and the key is listed once
    have hcanonical := (found_tilePath_iff hfound.valid).mpr (hread e ((hlisted e).mpr ⟨path, hfound⟩))
    rw [List.map_map] at hnodup
    have hpair := List.inj_on_of_nodup_map hnodup ((hmem _ _).mpr hfound) ((hmem _ _).mpr hcanonical) rfl
    exact (Prod.mk.inj hpair).1
  · rw [List.map_map]
    refine hfiles.nodup.map_on fun ⟨path, e⟩ hf ⟨path', e'⟩ hf' hkey => ?_
    have hfound := (hmem path e).mp hf
    have hfound' := (hmem path' e').mp hf'
    obtain rfl := hplaced path e hfound
    obtain rfl := hplaced path' e' hfound'
    obtain ⟨htile, hlayer⟩ := Prod.mk.inj hkey
    dsimp only at htile hlayer
    have hread := (found_tilePath_iff hfound.valid).mp hfound
    rw [htile, hlayer, (found_tilePath_iff hfound'.valid).mp hfound'] at hread
    cases hread
    rfl
  · obtain ⟨path, hfound⟩ := (hlisted e).mp he
    obtain rfl := hplaced path e hfound
    exact (found_tilePath_iff hfound.valid).mp hfound

/-- A file tree with some files, each in the directories that its path passes. -/
def treeOf (files : List (Path × Bytes)) : FileTree :=
  files.foldl (fun t f => t.put f.1 f.2 ⟨0⟩) FileTree.standard

/-- A store with a tile file, and with things of other names around it. -/
def spelledOnce : DiskStore where
  tree := treeOf [(["c", "ortho", "3", "3", "1.tile"], [1]), (["c", "ortho", "3", "3", "01.txt"], [2]),
    (["c", "ortho", "3", "03", "1"], [3]), (["c", "ortho", "zoom", "3", "1.tile"], [4])]
  root := ["c"]

theorem listed_as_read_iff_spelledOnce :
    spelledOnce.readAll none ⟨0⟩ = .ok [⟨⟨3, 3, 1⟩, .ortho, [1], 0⟩] ∧
    spelledOnce.read ⟨3, 3, 1⟩ .ortho = .ok (some ⟨⟨3, 3, 1⟩, .ortho, [1], 0⟩) ∧
    ∀ path e, spelledOnce.Found path e → path = spelledOnce.tilePath e.tile e.layer := by
  have hall : spelledOnce.readAll none ⟨0⟩ = .ok [⟨⟨3, 3, 1⟩, .ortho, [1], 0⟩] := by decide +kernel
  have hread : spelledOnce.read ⟨3, 3, 1⟩ .ortho = .ok (some ⟨⟨3, 3, 1⟩, .ortho, [1], 0⟩) := by
    decide +kernel
  refine ⟨hall, hread, (listed_as_read_iff hall).2.mp ⟨by decide, fun e he => ?_⟩⟩
  rw [List.mem_singleton.mp he]
  exact hread

/-- A store with a tile file and with another one under the same numbers, of which one is written with a
zero in front. -/
def spelledTwice : DiskStore where
  tree := treeOf [(["c", "ortho", "3", "3", "1.tile"], [1]), (["c", "ortho", "3", "03", "1.tile"], [2])]
  root := ["c"]

/-- The key is listed twice, and once with bytes that reading it does not give. -/
theorem spelledTwice_listed : spelledTwice.readAll none ⟨0⟩ =
      .ok [⟨⟨3, 3, 1⟩, .ortho, [2], 0⟩, ⟨⟨3, 3, 1⟩, .ortho, [1], 0⟩] ∧
    spelledTwice.read ⟨3, 3, 1⟩ .ortho = .ok (some ⟨⟨3, 3, 1⟩, .ortho, [1], 0⟩) := by
  decide +kernel

end TileStream.DiskStore
