/-!
# Patterns

A pattern describes texts: characters, classes of characters, places such as the start of a word, and
all of these repeated, grouped, one after the other or one instead of the other. Flags change how the
rest of a group is understood. Patterns are kept as far as it matters whether a matcher can be built
from them: what a group is named, or how often something is repeated, is not.

`Pattern.depth` is how deep the parts of a pattern are nested.
-/

namespace TileStream

/-- What a flag of a pattern changes. -/
inductive PatternFlag where
  /-- Capital and small letters are the same. -/
  | caseless
  /-- Lines start and end inside the text. -/
  | manyLines
  /-- A point stands for the end of a line too. -/
  | pointForAll
  /-- Repetitions take as little as they can. -/
  | lazy
  /-- Characters are those of Unicode, not bytes. -/
  | unicode
  /-- Lines end with a carriage return too. -/
  | returns
  /-- Blank characters and comments in the pattern mean nothing. -/
  | spaced
  deriving DecidableEq, Repr

/-- A flag and whether it is set from here on. -/
abbrev FlagChange := PatternFlag × Bool

/-- A character in a pattern. -/
structure PatternLiteral where
  char : Char
  /-- Whether it is written as a byte, by two hexadecimal digits. -/
  isByte : Bool
  deriving DecidableEq, Repr

/-- A class of characters, as written between brackets. -/
inductive CharClass where
  | literal (l : PatternLiteral)
  | range (first last : PatternLiteral)
  /-- A class of ASCII characters with a name, or all but those. -/
  | named (negated : Bool)
  /-- Digits, blank characters or characters of words, or all but those. -/
  | kind (negated : Bool)
  | bracket (negated : Bool) (c : CharClass)
  | union (cs : List CharClass)
  /-- What two classes have in common, or in what they differ. -/
  | operation (left right : CharClass)

/-- A pattern. -/
inductive Pattern where
  | flags (changes : List FlagChange)
  | literal (l : PatternLiteral)
  | point
  /-- The start or the end of the text or of a line. -/
  | edge
  /-- A place where a word starts or ends, or one where none does. -/
  | wordEdge
  | kind (negated : Bool)
  | bracket (negated : Bool) (c : CharClass)
  | repeated (p : Pattern)
  | group (changes : List FlagChange) (p : Pattern)
  | sequence (ps : List Pattern)
  | choice (ps : List Pattern)

namespace CharClass

/-- The union of some classes. A single class stands for itself. -/
def ofList : List CharClass → CharClass
  | [c] => c
  | cs => union cs

mutual

/-- How deep the parts of a class are nested. -/
def depth : CharClass → Nat
  | bracket _ c => c.depth + 1
  | union [] => 0
  | union (c :: cs) => max c.depth (depths cs) + 1
  | operation left right => max left.depth right.depth + 1
  | _ => 0

/-- How deep the deepest of some classes is nested. -/
def depths : List CharClass → Nat
  | [] => 0
  | c :: cs => max c.depth (depths cs)

end

end CharClass

namespace Pattern

/-- Patterns one after the other. A single one stands for itself. -/
def ofSequence : List Pattern → Pattern
  | [p] => p
  | ps => sequence ps

/-- One of some patterns. A single one stands for itself. -/
def ofChoice : List Pattern → Pattern
  | [p] => p
  | ps => choice ps

mutual

/-- How deep the parts of a pattern are nested. -/
def depth : Pattern → Nat
  | bracket _ c => c.depth + 1
  | repeated p => p.depth + 1
  | group _ p => p.depth + 1
  | sequence [] => 0
  | sequence (p :: ps) => max p.depth (depths ps) + 1
  | choice ps => depths ps + 1
  | _ => 0

/-- How deep the deepest of some patterns is nested. -/
def depths : List Pattern → Nat
  | [] => 0
  | p :: ps => max p.depth (depths ps)

end

end Pattern

end TileStream
