import TileStream.Proofs.Store.Listing

/-!
# A store on disk is a map

Bytes are put under keys, one after the other, into a store whose root is empty (`Vacant`). Then the store
is the map from each key to what was put last (`lastPut?`): reading a key gives the value of the map,
reading everything gives the values of the valid tiles, and a limit of the age leaves out those that are
not fresh (`refines_map`). No put fails, whatever the tiles, the layers and the bytes are.

`exists_openAt` says how a store with an empty root comes about, `exists_bare_of_openAt` what opening gives
however long the path of the root is (`Bare`), and `reliable` that a store on disk is as good as one in
memory.
-/

namespace TileStream

namespace DiskStore

open FileTree

variable {s : DiskStore} {here : Place} {m : TileMap}

/-- **A store on disk is reliable,** whatever it holds. -/
theorem reliable (here : Place) : TileStore.Reliable fun s m => LaidOut s here m where
  read h tile layer := h.read_eq tile layer
  write h tile layer bytes now := h.exists_write tile layer bytes now
  readAll h maxAge now := by
    obtain ⟨all, hall, -, hmem⟩ := h.exists_readAll maxAge now
    exact ⟨all, hall, fun e he => ((hmem e).mp he).2.1⟩

/-! ### An empty root -/

/-- A store with an empty root, however long the path of the root is. -/
structure Bare (s : DiskStore) (here : Place) : Prop where
  noNul : ∀ name ∈ s.root, Char.ofNat 0 ∉ name.toList
  leads : s.tree.directory (s.root.below []) = .ok here
  nothing : ∀ (layer : Layer) rest, s.tree.entries.get? (here ++ layer.name :: rest) = none

theorem Bare.arranged (h : s.Bare here) : s.Arranged here fun _ => none where
  noNul := h.noNul
  leads := h.leads
  known := fun layer rest e he => by
    rw [h.nothing] at he
    cases he
  held := fun _ _ _ he => by cases he

/-- **A store with an empty root:** nothing has a place below the name of a layer. -/
structure Vacant (s : DiskStore) (here : Place) : Prop extends s.Rooted here where
  nothing : ∀ (layer : Layer) rest, s.tree.entries.get? (here ++ layer.name :: rest) = none

theorem Vacant.laidOut (h : s.Vacant here) : s.LaidOut here fun _ => none :=
  (Bare.arranged ⟨h.noNul, h.leads, h.nothing⟩).laidOut h.short

/-- **Opening makes the root** when no file is in the way. -/
theorem exists_openAt {tree : FileTree} {base : Path} {names : List String}
    (hbase : tree.directory base = .ok here) (hnames : ∀ n ∈ names, Path.Plain n) (hn : names ≠ [])
    (hclear : tree.Clear here names) (hnul : ∀ n ∈ base ++ names, Char.ofNat 0 ∉ n.toList)
    (hshort : (base ++ names).size + pathBytes ≤ 4095)
    (hnothing : ∀ (layer : Layer) rest,
      tree.entries.get? (here ++ names ++ layer.name :: rest) = none) (now : CalendarTime) :
    ∃ s, openAt tree (base ++ names) now = (s.tree, .ok s) ∧ s.Vacant (here ++ names) := by
  obtain ⟨made, hmade, hopens⟩ := exists_createAll now hbase hnames hn hclear
    ⟨hnul, Nat.le_of_add_right_le hshort⟩
  refine ⟨⟨made, base ++ names⟩, by unfold openAt; rw [hmade], ⟨hnul, hshort, ?_⟩, ?_⟩
  · dsimp only
    rw [Path.below_append base hnames hn, List.append_nil]
    exact directory_paved (hopens.keepsDirectories.directory hbase) hnames hopens.paved
  · intro layer rest
    rw [Option.eq_none_iff_forall_ne_some]
    intro e he
    rcases hopens.new _ e he with hold | ⟨-, front, more, -, hfront, hplace⟩
    · rw [hnothing] at hold
      cases hold
    · -- what was made is on the way to the root, and this is below it
      have hlength := congrArg List.length hplace
      rw [hfront] at hlength
      simp only [List.length_append, List.length_cons] at hlength
      omega

/-- **A store that was opened has a root,** and it is empty when there is nothing in it. -/
theorem exists_bare_of_openAt {tree : FileTree} {root : Path} {now : CalendarTime}
    (hopen : (openAt tree root now).2 = .ok s) : ∃ here,
    s.tree.directory (s.root.below []) = .ok here ∧
      ((∀ (layer : Layer) rest, s.tree.entries.get? (here ++ layer.name :: rest) = none) →
        s.Bare here) := by
  unfold openAt at hopen
  split at hopen
  · next made hmade =>
    cases hopen
    have hthere := isDirectory_of_createAll hmade
    obtain ⟨here, hleads⟩ := exists_directory_of_isDirectory hthere
    obtain ⟨place, hplace, -⟩ := isDirectory_iff.mp hthere
    exact ⟨here, hleads, fun hnothing =>
      ⟨(allowed_of_check (check_of_place hplace)).noNul, hleads, hnothing⟩⟩
  · cases hopen

/-! ### Puts -/

/-- Bytes that are put under a key, and when. -/
structure Put where
  tile : TileId
  layer : Layer
  bytes : Bytes
  now : CalendarTime
  deriving DecidableEq, Repr

namespace Put

/-- What is stored by a put. -/
def entry (p : Put) : StoredTile := ⟨p.tile, p.layer, p.bytes, p.now.epochMillis⟩

end Put

/-- The last put for a key. -/
def lastPut? (puts : List Put) (k : TileKey) : Option Put :=
  puts.reverse.find? fun p => p.entry.key = k

/-- The store after some puts, unless one of them fails. -/
def writeAll (s : DiskStore) : List Put → Except StoreFailure DiskStore
  | [] => .ok s
  | p :: puts =>
    match s.write p.tile p.layer p.bytes p.now with
    | (s', .ok ()) => s'.writeAll puts
    | (_, .error e) => .error e

theorem lastPut?_cons (p : Put) (puts : List Put) (k : TileKey) : lastPut? (p :: puts) k =
    (lastPut? puts k).or (if p.entry.key = k then some p else none) := by
  unfold lastPut?
  rw [List.reverse_cons, List.find?_append, List.find?_singleton]
  simp only [decide_eq_true_eq]

/-- **No put fails** whose draft has a path that is not refused, and what is stored is what was put last, or
else what there was before. -/
theorem Arranged.exists_writeAll (h : s.Arranged here m) (puts : List Put)
    (hallowed : ∀ p ∈ puts, Path.Allowed (s.draftPath p.tile p.layer)) : ∃ s',
    s.writeAll puts = .ok s' ∧ s'.root = s.root ∧
      s'.Arranged here fun k => ((lastPut? puts k).map Put.entry).or (m k) := by
  induction puts generalizing s m with
  | nil => exact ⟨s, rfl, rfl, h⟩
  | cons p puts ih =>
    obtain ⟨s₁, hwrite, hroot, hs₁⟩ := h.exists_write (hallowed p List.mem_cons_self) p.bytes p.now
    obtain ⟨s', hrest, hroot', hs'⟩ := ih hs₁ fun p' hp' => by
      rw [draftPath_of_root hroot]
      exact hallowed p' (List.mem_cons_of_mem _ hp')
    refine ⟨s', by rw [writeAll, hwrite]; exact hrest, hroot'.trans hroot, ?_⟩
    have hmap : (fun k => ((lastPut? (p :: puts) k).map Put.entry).or (m k)) = fun k =>
        ((lastPut? puts k).map Put.entry).or (m.store p.tile p.layer p.bytes p.now k) := by
      funext k
      rw [lastPut?_cons, TileMap.store]
      by_cases hk : p.entry.key = k
      · have hkey : k = (p.tile, p.layer) := hk.symm
        rw [if_pos hk, if_pos hkey]
        cases lastPut? puts k <;> rfl
      · have hkey : k ≠ (p.tile, p.layer) := fun hkey => hk hkey.symm
        rw [if_neg hk, if_neg hkey]
        cases lastPut? puts k <;> rfl
    rw [hmap]
    exact hs'

/-- **No put fails** where there is room for every path. -/
theorem LaidOut.exists_writeAll (h : s.LaidOut here m) (puts : List Put) : ∃ s',
    s.writeAll puts = .ok s' ∧
      s'.LaidOut here fun k => ((lastPut? puts k).map Put.entry).or (m k) := by
  obtain ⟨s', hputs, hroot, hs'⟩ :=
    h.arranged.exists_writeAll puts fun p _ => h.allowed_draftPath p.tile p.layer
  exact ⟨s', hputs, hs'.laidOut (hroot ▸ h.short)⟩

/-- **A store on disk refines a map.** After any puts into an empty root, reading a key gives what was put
last under it; reading everything gives each of these entries of valid tiles once and nothing else; and
with a limit of the age, just those of them that are fresh. -/
theorem refines_map (h : s.Vacant here) (puts : List Put) : ∃ s', s.writeAll puts = .ok s' ∧
    (∀ tile layer, s'.read tile layer = .ok ((lastPut? puts (tile, layer)).map Put.entry)) ∧
    ∀ now, ∃ all, s'.readAll none now = .ok all ∧ (all.map StoredTile.key).Nodup ∧
      (∀ e, e ∈ all ↔ e.tile.isValid = true ∧ (lastPut? puts e.key).map Put.entry = some e) ∧
      ∀ age, ∃ young, s'.readAll (some age) now = .ok young ∧
        (young.map StoredTile.key).Nodup ∧
        ∀ e, e ∈ young ↔ e ∈ all ∧ e.isFresh (some age) now = true := by
  obtain ⟨s', hputs, hlaid⟩ := h.laidOut.exists_writeAll puts
  simp only [Option.or_none] at hlaid
  refine ⟨s', hputs, hlaid.read_eq, fun now => ?_⟩
  obtain ⟨all, hall, hnodup, hmem⟩ := hlaid.exists_readAll none now
  have hmem' : ∀ e, e ∈ all ↔
      e.tile.isValid = true ∧ (lastPut? puts e.key).map Put.entry = some e := fun e => by
    rw [hmem]
    exact ⟨fun ⟨hvalid, hlast, _⟩ => ⟨hvalid, hlast⟩, fun ⟨hvalid, hlast⟩ => ⟨hvalid, hlast, rfl⟩⟩
  refine ⟨all, hall, hnodup, hmem', fun age => ?_⟩
  obtain ⟨young, hyoung, hnodup', hmem''⟩ := hlaid.exists_readAll (some age) now
  exact ⟨young, hyoung, hnodup', fun e => by rw [hmem'', hmem', and_assoc]⟩

/-- A store in the directory `data`: a tile put twice, and a tile whose column is out of range. -/
theorem refines_map_put_twice : ∃ s s', openAt FileTree.standard ["data"] ⟨0⟩ = (s.tree, .ok s) ∧
    s.writeAll [⟨⟨1, 1, 0⟩, .ortho, [1], ⟨5000000⟩⟩, ⟨⟨1, 9, 0⟩, .height, [2], ⟨6000000⟩⟩,
      ⟨⟨1, 1, 0⟩, .ortho, [3, 4], ⟨7000000⟩⟩] = .ok s' ∧
    s'.read ⟨1, 1, 0⟩ .ortho = .ok (some ⟨⟨1, 1, 0⟩, .ortho, [3, 4], 7⟩) ∧
    s'.read ⟨1, 9, 0⟩ .height = .ok (some ⟨⟨1, 9, 0⟩, .height, [2], 6⟩) ∧
    s'.read ⟨1, 1, 0⟩ .height = .ok none ∧
    ∃ all, s'.readAll none ⟨8000000⟩ = .ok all ∧
      ⟨⟨1, 1, 0⟩, .ortho, [3, 4], 7⟩ ∈ all ∧ ⟨⟨1, 9, 0⟩, .height, [2], 6⟩ ∉ all := by
  have hbase : FileTree.standard.directory [] = .ok [] := rfl
  have hplain : ∀ n ∈ ["data"], Path.Plain n := fun n hn => by
    rw [List.mem_singleton.mp hn]
    exact ⟨by decide, by decide, by decide, by decide⟩
  have hclear : FileTree.standard.Clear [] ["data"] := by
    refine ⟨fun bytes modified h => ?_, trivial⟩
    have hnone : FileTree.standard.entries.get? ["data"] = none := by decide
    rw [List.nil_append, hnone] at h
    cases h
  obtain ⟨s, hopen, hvacant⟩ := exists_openAt hbase hplain (List.cons_ne_nil _ _) hclear (by decide)
    (by decide) (fun layer rest => rfl) ⟨0⟩
  obtain ⟨s', hputs, hread, hall⟩ := refines_map hvacant [⟨⟨1, 1, 0⟩, .ortho, [1], ⟨5000000⟩⟩,
    ⟨⟨1, 9, 0⟩, .height, [2], ⟨6000000⟩⟩, ⟨⟨1, 1, 0⟩, .ortho, [3, 4], ⟨7000000⟩⟩]
  obtain ⟨all, hreadAll, -, hmem, -⟩ := hall ⟨8000000⟩
  refine ⟨s, s', hopen, hputs, (hread _ _).trans ?_, (hread _ _).trans ?_, (hread _ _).trans ?_, all,
    hreadAll, (hmem _).mpr ⟨?_, ?_⟩, fun h => ?_⟩
  · rfl
  · rfl
  · rfl
  · rfl
  · rfl
  · exact absurd ((hmem _).mp h).1 (by decide)

end DiskStore

end TileStream
