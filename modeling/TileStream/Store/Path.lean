import TileStream.Text.Blank

/-!
# Paths

A path is the list of the names between its slashes. An empty name and a single point lead nowhere,
two points lead one directory up, and a path that begins with a slash starts at the top of all
directories. No name is lost: `Path.text` writes what `Path.ofText` has read.
-/

namespace TileStream

/-- The names between the slashes of a path. -/
abbrev Path := List String

namespace Path

/-- The path that a text writes. -/
def ofText (text : String) : Path := (Text.splitAt '/' text.toList).map String.ofList

/-- The text that writes a path. -/
def text (p : Path) : String := "/".intercalate p

/-- Whether a name leads nowhere. -/
def isIdle (name : String) : Bool := name = "" || name = "."

/-- Whether a path starts at the top of all directories. -/
def isAbsolute (p : Path) : Bool := p.head? = some "" && 1 < p.length

/-- The path that leads on from another one by some names. -/
def below (p : Path) (names : List String) : Path :=
  (if p.getLast? = some "" then p.dropLast else p) ++ names

/-- What a path means that is read in a directory. -/
def within (p directory : Path) : Path := if p.isAbsolute then p else directory.below p

/-- The path without the names at its ends that lead nowhere. -/
def trimmed (p : Path) : Path := ((p.dropWhile isIdle).reverse.dropWhile isIdle).reverse

/-- The path up to its last name, and that name; slashes behind it do not count. None for a path of
nothing but slashes. -/
def split? (p : Path) : Option (Path × String) :=
  match p.reverse.dropWhile (· = "") with
  | [] => none
  | name :: parents => some (parents.reverse, name)

/-- The paths that lead on from `front` by some, but not all, of the names, the shortest first. -/
def stations (front : Path) : List String → List Path
  | [] => []
  | [_] => []
  | name :: names => (front ++ [name]) :: stations (front ++ [name]) names

/-- The paths that a path passes, the nearest first. -/
def passed (p : Path) : List Path :=
  (stations (if p.isAbsolute then [""] else []) (p.filter fun name => !isIdle name)).reverse

/-- The number of bytes that a path takes. -/
def size (p : Path) : Nat := p.text.utf8ByteSize

end Path

end TileStream
