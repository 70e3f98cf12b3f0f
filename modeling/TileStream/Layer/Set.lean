import TileStream.Layer.Basic

/-!
# Sets of layers

A set of layers is a byte with a bit for each layer. The other bits mean nothing, but they are kept:
they count in the size and make the set nonempty.
-/

namespace TileStream

/-- A set of layers, as the bits of a byte. -/
structure LayerSet where
  bits : UInt8
  deriving DecidableEq, Repr

/-- The bit that stands for a layer. -/
def Layer.bit : Layer → UInt8
  | .height => 1
  | .ortho => 2
  | .vector => 4

namespace LayerSet

/-- No layer. -/
def empty : LayerSet := ⟨0⟩

/-- The set with a layer added. -/
def insert (s : LayerSet) (l : Layer) : LayerSet := ⟨s.bits ||| l.bit⟩

/-- The set with a layer taken out. -/
def erase (s : LayerSet) (l : Layer) : LayerSet := ⟨s.bits &&& ~~~l.bit⟩

/-- Whether a layer is in the set. -/
def contains (s : LayerSet) (l : Layer) : Bool := s.bits &&& l.bit != 0

/-- The number of bits set. -/
def size (s : LayerSet) : Nat := (List.range 8).countP s.bits.toNat.testBit

/-- Whether no bit is set. -/
def isEmpty (s : LayerSet) : Bool := s.bits == 0

/-- The layers in the set, in order. -/
def toList (s : LayerSet) : List Layer := Layer.all.filter s.contains

/-- The set of the members of a list. -/
def ofList (ls : List Layer) : LayerSet := ls.foldl insert empty

/-- Every layer. -/
def all : LayerSet := ofList Layer.all

/-- The parts of a comma separated list: trimmed, without the blank ones. -/
def parts (text : List Char) : List (List Char) :=
  ((Text.splitAt ',' text).map Text.trim).filter fun part => !part.isEmpty

/-- The set that a comma separated list names, or the first part that names no layer. -/
def parse (text : List Char) : Except UnknownLayer LayerSet :=
  return ofList (← (parts text).mapM Layer.parse)

/-- The names of the layers in the set, comma separated. -/
def display (s : LayerSet) : String := ",".intercalate (s.toList.map Layer.name)

/-- The layers in the set between braces. -/
def braced (s : LayerSet) : String := "\x7b" ++ ", ".intercalate (s.toList.map Layer.title) ++ "\x7d"

end LayerSet

end TileStream
