import TileStream.Store.FileTree
import TileStream.Text.Number

/-!
# A store on disk

A layer of a tile is the file `layer/zoom/x/y.tile` below the root of the store. It is written under
another name first and then moved into place, so that an interrupted write leaves no part of a tile
behind. Reading everything walks the tree, skips what is not named like a tile of the store, and
takes any spelling of a number that a reader of numbers takes.
-/

namespace TileStream

/-- A store in a file tree, below a root. -/
structure DiskStore where
  tree : FileTree
  root : Path
  deriving DecidableEq, Repr

namespace Path

/-- A file name cut at its last point, unless there is none or only one in front. -/
def cutExtension (name : List Char) : Option (List Char × List Char) :=
  let back := name.reverse
  match back.dropWhile (· ≠ '.') with
  | [] => none
  | _ :: stem =>
    if stem.isEmpty then none else some (stem.reverse, (back.takeWhile (· ≠ '.')).reverse)

end Path

namespace DiskStore

/-- The extension of tile files. -/
def tileExtension : String := "tile"

/-- The extension of files that are being written. -/
def draftExtension : String := "partial"

/-- Opens a store, in the tree that comes of it. The root is made if it is missing. -/
def openAt (tree : FileTree) (root : Path) (now : CalendarTime) :
    FileTree × Except StoreFailure DiskStore :=
  match tree.createAll root now with
  | (tree, .ok ()) => (tree, .ok ⟨tree, root⟩)
  | (tree, .error e) => (tree, .error (.cannotCreate root.text e))

/-- The directory of the files of a column of a layer. -/
def columnPath (s : DiskStore) (tile : TileId) (layer : Layer) : Path :=
  s.root.below [layer.name, toString tile.zoom.toNat, toString tile.x.toNat]

/-- The name of a file in the column of a tile. -/
def rowName (tile : TileId) (extension : String) : String :=
  toString tile.y.toNat ++ "." ++ extension

/-- The file of a layer of a tile. -/
def tilePath (s : DiskStore) (tile : TileId) (layer : Layer) : Path :=
  (s.columnPath tile layer).below [rowName tile tileExtension]

/-- The file that a layer of a tile is first written to. -/
def draftPath (s : DiskStore) (tile : TileId) (layer : Layer) : Path :=
  (s.columnPath tile layer).below [rowName tile draftExtension]

/-- What is stored of a layer of a tile. -/
def read (s : DiskStore) (tile : TileId) (layer : Layer) :
    Except StoreFailure (Option StoredTile) :=
  match s.tree.read (s.tilePath tile layer) with
  | .ok (bytes, modified) => .ok (some ⟨tile, layer, bytes, modified.epochMillis⟩)
  | .error .notFound => .ok none
  | .error e => .error (.system e)

/-- Stores a layer of a tile: makes its directory, writes the draft, moves it into place. A step
that fails leaves what the steps before it did. -/
def write (s : DiskStore) (tile : TileId) (layer : Layer) (bytes : Bytes) (now : CalendarTime) :
    DiskStore × Except StoreFailure Unit :=
  match s.tree.createAll (s.columnPath tile layer) now with
  | (made, .error e) => ({ s with tree := made }, .error (.system e))
  | (made, .ok ()) =>
    match made.write (s.draftPath tile layer) bytes now with
    | .error e => ({ s with tree := made }, .error (.system e))
    | .ok drafted =>
      match drafted.rename (s.columnPath tile layer) (rowName tile draftExtension)
        (rowName tile tileExtension) now with
      | .error e => ({ s with tree := drafted }, .error (.system e))
      | .ok done => ({ s with tree := done }, .ok ())

/-- The directories in a directory whose names are whole numbers below `bound`, with the numbers.
There are none in a directory that is missing. -/
def numbered (t : FileTree) (bound : Nat) (p : Path) : Except SystemError (List (Nat × Path)) :=
  match t.contents p with
  | .error .notFound => .ok []
  | .error e => .error e
  | .ok found => .ok <| found.filterMap fun (name, place) =>
    if t.entryAt place = .directory then
      (Text.readWhole bound name.toList).map fun n => (n, p.below [name])
    else none

/-- The row that a file name gives, for names of tile files. -/
def row? (name : String) : Option Nat :=
  match Path.cutExtension name.toList with
  | some (stem, extension) =>
    if extension = tileExtension.toList then Text.readWhole Checked.words32 stem else none
  | none => none

/-- Reads one file of a column, unless it is no tile file or last changed before the cutoff. Its
time is known from the listing of the column; only its bytes are read by a path. -/
def readFile (t : FileTree) (layer : Layer) (cutoff : Option Nat) (zoom x : Nat) (column : Path)
    (file : String × Place) : Except SystemError (Option StoredTile) :=
  match row? file.1 with
  | none => .ok none
  | some y =>
    let tile : TileId := ⟨zoom.toUInt8, x.toUInt32, y.toUInt32⟩
    if !tile.isValid then .ok none
    else
      let storedAt := (t.modifiedAt file.2).epochMillis
      if cutoff.any (storedAt < ·) then .ok none
      else do
        let (bytes, _) ← t.read (column.below [file.1])
        return some ⟨tile, layer, bytes, storedAt⟩

/-- Reads the tile files of a column. -/
def readColumn (t : FileTree) (layer : Layer) (cutoff : Option Nat) (zoom : Nat)
    (column : Nat × Path) : Except SystemError (List StoredTile) := do
  let files ← t.contents column.2
  let found ← files.mapM (readFile t layer cutoff zoom column.1 column.2)
  return found.reduceOption

/-- Reads the tile files of a zoom level. -/
def readLevel (t : FileTree) (layer : Layer) (cutoff : Option Nat) (level : Nat × Path) :
    Except SystemError (List StoredTile) := do
  let columns ← numbered t Checked.words32 level.2
  let found ← columns.mapM (readColumn t layer cutoff level.1)
  return found.flatten

/-- Reads the tile files of a layer. -/
def readLayer (s : DiskStore) (cutoff : Option Nat) (layer : Layer) :
    Except SystemError (List StoredTile) := do
  let levels ← numbered s.tree Checked.words8 (s.root.below [layer.name])
  let found ← levels.mapM (readLevel s.tree layer cutoff)
  return found.flatten

/-- The time before which stored bytes are too old. -/
def cutoff (maxAge : Option Duration) (now : CalendarTime) : Option Nat :=
  maxAge.map fun age => now.epochMillis - age.millis64

/-- All that is stored and no older than the limit. -/
def readAll (s : DiskStore) (maxAge : Option Duration) (now : CalendarTime) :
    Except StoreFailure (List StoredTile) :=
  match Layer.all.mapM (s.readLayer (cutoff maxAge now)) with
  | .ok found => .ok found.flatten
  | .error e => .error (.system e)

instance : TileStore DiskStore := ⟨read, write, readAll⟩

end DiskStore

end TileStream
