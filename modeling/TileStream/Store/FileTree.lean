import TileStream.Store.Basic
import TileStream.Store.Path
import TileStream.Table

/-!
# File trees

The files and directories around a working directory, each under its place: the names that lead to
it from there, after as many double points as it takes to go up, or after a slash when it is told
from the top. The working directory, those above it and the top are always there.

A path is walked from its start, and an operation on it is refused as soon as a name on the way is
missing or is a file. A path that is too long is refused before it is walked, whatever it leads to;
places have no such limit.

* `FileTree.place` finds the place that a path leads to, `FileTree.entry` what is there.
* `FileTree.makeDirectory`, `FileTree.createAll`, `FileTree.write`, `FileTree.rename` and
  `FileTree.remove` change a tree.
* `FileTree.contents` lists a directory.
-/

namespace TileStream

/-- Where something is, told without detours. -/
abbrev Place := List String

namespace Place

/-- The top of all directories. -/
def top : Place := ["/"]

/-- The directory above a directory; there is none above the top. -/
def up (place : Place) : Place :=
  if place = top then top
  else match place.getLast? with
    | none | some ".." => place ++ [".."]
    | some _ => place.dropLast

end Place

/-- What is at a place. -/
inductive FileEntry where
  | directory
  | file (bytes : Bytes) (modified : CalendarTime)
  deriving DecidableEq, Repr

/-- Files and directories under their places, and when the directories last changed. -/
structure FileTree where
  entries : Table Place FileEntry
  changes : Table Place CalendarTime
  deriving DecidableEq, Repr

namespace FileTree

/-- Nothing but the working directory, those above it and the top. -/
def empty : FileTree := ⟨.empty, .empty⟩

/-- An empty tree in a system that has the null device. -/
def standard : FileTree :=
  { empty with
    entries := (Table.empty.set (Place.top ++ ["dev", "null"]) (.file [] ⟨0⟩)).set
      (Place.top ++ ["dev"]) .directory }

/-- Why there is nothing of a name where it was looked for. -/
def absence (name : String) : SystemError :=
  if 255 < name.utf8ByteSize then .nameTooLong else .notFound

/-- The place that is reached from the directory `here` by the names of a path. -/
def placeFrom (t : FileTree) (here : Place) : Path → Except SystemError Place
  | [] => .ok here
  | name :: rest =>
    if Path.isIdle name then t.placeFrom here rest
    else if name = ".." then t.placeFrom here.up rest
    else
      match t.entries.get? (here ++ [name]) with
      | none => .error (absence name)
      | some .directory => t.placeFrom (here ++ [name]) rest
      | some (.file _ _) => if rest.isEmpty then .ok (here ++ [name]) else .error .notDirectory

/-- The place that the names of a path lead to, however many they are. -/
def walk (t : FileTree) (p : Path) : Except SystemError Place :=
  if p.isAbsolute then t.placeFrom Place.top p.tail else t.placeFrom [] p

/-- Refuses the paths that no operation takes. -/
def check (p : Path) : Except SystemError Unit :=
  if p.any fun name => name.toList.contains (Char.ofNat 0) then .error .nulCharacter
  else if 4095 < p.size then .error .nameTooLong
  else .ok ()

/-- The place that a path leads to. -/
def place (t : FileTree) (p : Path) : Except SystemError Place := do
  check p
  t.walk p

/-- What is at a place that a path led to. -/
def entryAt (t : FileTree) (place : Place) : FileEntry := (t.entries.get? place).getD .directory

/-- What a path leads to. -/
def entry (t : FileTree) (p : Path) : Except SystemError FileEntry := do
  return t.entryAt (← t.place p)

/-- Whether a path leads to a directory. -/
def isDirectory (t : FileTree) (p : Path) : Bool :=
  match t.entry p with
  | .ok .directory => true
  | _ => false

/-- The directory that the names of a path lead to, where a new name may be looked for. -/
def directory (t : FileTree) (p : Path) : Except SystemError Place := t.walk (p ++ [""])

/-- The tree in which the directory of a place has changed. -/
def touchAbove (t : FileTree) (place : Place) (now : CalendarTime) : FileTree :=
  { t with changes := t.changes.set place.dropLast now }

/-- The tree with something new at a place. -/
def add (t : FileTree) (place : Place) (e : FileEntry) (now : CalendarTime) : FileTree :=
  { t with entries := t.entries.set place e }.touchAbove place now

/-- Makes one directory. -/
def makeDirectory (t : FileTree) (p : Path) (now : CalendarTime) : Except SystemError FileTree := do
  check p
  match p.split? with
  | none => .error .fileExists
  | some (parents, name) =>
    let here ← t.directory parents
    if name = "." || name = ".." then .error .fileExists
    else
      match t.entries.get? (here ++ [name]) with
      | some _ => .error .fileExists
      | none =>
        if absence name = .notFound then
          let made := t.add (here ++ [name]) .directory now
          return { made with changes := made.changes.set (here ++ [name]) now }
        else .error (absence name)

/-- Makes a directory where there is none yet. A directory that is there is as good as one made. -/
def ensureDirectory (t : FileTree) (p : Path) (now : CalendarTime) : Except SystemError FileTree :=
  match t.makeDirectory p now with
  | .ok made => .ok made
  | .error e => if t.isDirectory p then .ok t else .error e

/-- Makes the first of some directories. Where a name on the way to it is missing, the others are
made before it, the last one first. What is made stays, even when it is of no use. -/
def createFirst (t : FileTree) (now : CalendarTime) : List Path → FileTree × Except SystemError Unit
  | [] => (t, .ok ())
  | p :: above =>
    match t.ensureDirectory p now with
    | .ok made => (made, .ok ())
    | .error .notFound =>
      match t.createFirst now above with
      | (t, .error e) => (t, .error e)
      | (t, .ok ()) =>
        match t.ensureDirectory p now with
        | .ok made => (made, .ok ())
        | .error e => (t, .error e)
    | .error e => (t, .error e)

/-- Makes a directory and those that its path passes, as far as they are missing. -/
def createAll (t : FileTree) (p : Path) (now : CalendarTime) : FileTree × Except SystemError Unit :=
  t.createFirst now (p :: p.passed)

/-- Writes a file, new or in place of what it held. -/
def write (t : FileTree) (p : Path) (bytes : Bytes) (now : CalendarTime) :
    Except SystemError FileTree := do
  check p
  match p.split? with
  | none => .error .isDirectory
  | some (parents, name) =>
    let here ← t.directory parents
    if name = "." || name = ".." then .error .isDirectory
    else
      match t.entries.get? (here ++ [name]) with
      | some .directory => .error .isDirectory
      | some (.file _ _) =>
        return { t with entries := t.entries.set (here ++ [name]) (.file bytes now) }
      | none =>
        if absence name = .notFound then return t.add (here ++ [name]) (.file bytes now) now
        else .error (absence name)

/-- Writes a file, and makes the directories before it that are missing, as far as that goes. -/
def put (t : FileTree) (p : Path) (bytes : Bytes) (now : CalendarTime) : FileTree :=
  let (made, _) := t.createAll p.dropLast now
  (made.write p bytes now).toOption.getD made

/-- The bytes of a file and when it was last written. -/
def read (t : FileTree) (p : Path) : Except SystemError (Bytes × CalendarTime) := do
  match ← t.entry p with
  | .directory => .error .isDirectory
  | .file bytes modified => return (bytes, modified)

/-- When the file at a place was last written, or the directory there last changed. -/
def modifiedAt (t : FileTree) (place : Place) : CalendarTime :=
  match t.entryAt place with
  | .directory => (t.changes.get? place).getD ⟨0⟩
  | .file _ modified => modified

/-- Moves a file to another name in its directory, in place of what file is there. -/
def rename (t : FileTree) (directory : Path) (source target : String) (now : CalendarTime) :
    Except SystemError FileTree := do
  check (directory.below [source])
  check (directory.below [target])
  let (bytes, modified) ← t.read (directory.below [source])
  let here ← t.directory directory
  match t.entries.get? (here ++ [target]) with
  | some .directory => .error .isDirectory
  | _ =>
    let rest := { t with entries := t.entries.erase (here ++ [source]) }
    return rest.add (here ++ [target]) (.file bytes modified) now

/-- Takes away a file, or a directory with all that is below it. -/
def remove (t : FileTree) (p : Path) (now : CalendarTime) : FileTree :=
  match t.place p with
  | .error _ => t
  | .ok place =>
    ({ t with entries := t.entries.keep fun q => !place.isPrefixOf q }).touchAbove place now

/-- Sets the time at which a file was last written or a directory last changed. -/
def stamp (t : FileTree) (p : Path) (modified : CalendarTime) : FileTree :=
  match t.place p with
  | .error _ => t
  | .ok place =>
    match t.entryAt place with
    | .directory => { t with changes := t.changes.set place modified }
    | .file bytes _ => { t with entries := t.entries.set place (.file bytes modified) }

/-- The files and directories in a directory, each with its name and its place. -/
def contents (t : FileTree) (p : Path) : Except SystemError (List (String × Place)) := do
  let here ← t.place p
  match t.entryAt here with
  | .directory =>
    return t.entries.keys.filterMap fun q =>
      if q.dropLast = here then q.getLast?.map fun name => (name, q) else none
  | .file _ _ => .error .notDirectory

/-- What is below a place, each thing under the names that lead to it from there. -/
def under (t : FileTree) (place : Place) : List (List String × FileEntry) :=
  t.entries.entries.filterMap fun (q, e) =>
    if place.isPrefixOf q && place.length < q.length then some (q.drop place.length, e) else none

end FileTree

end TileStream
