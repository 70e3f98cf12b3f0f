import TileStream.Text.Blank

/-!
# Layers

Each tile carries up to three layers of data. A layer has one name that is written and several that
are read, whatever the case of their ASCII letters and with blanks around them. `PerLayer` holds a
value for some of the layers.
-/

namespace TileStream

/-- A kind of data a tile carries. -/
inductive Layer where
  | height
  | ortho
  | vector
  deriving DecidableEq, Repr, Hashable

/-- A text that names no layer, trimmed and with small ASCII letters. -/
structure UnknownLayer where
  name : List Char
  deriving DecidableEq, Repr

/-- What is wrong with a text that names no layer. -/
def UnknownLayer.message (e : UnknownLayer) : String :=
  "unknown layer `" ++ String.ofList e.name ++ "`"

/-- The message with the kind of the error in front. -/
def UnknownLayer.display (e : UnknownLayer) : String := "InvalidInput: " ++ e.message

namespace Layer

/-- The layers in their order. -/
def all : List Layer := [height, ortho, vector]

/-- The name that is written. -/
def name : Layer → String
  | height => "height"
  | ortho => "ortho"
  | vector => "vector"

/-- The name as a type would be called. -/
def title : Layer → String
  | height => "Height"
  | ortho => "Ortho"
  | vector => "Vector"

/-- The place in the order. -/
def index : Layer → Nat
  | height => 0
  | ortho => 1
  | vector => 2

/-- The names that are read. -/
def names : Layer → List String
  | height => ["height", "dem", "elevation"]
  | ortho => ["ortho", "imagery"]
  | vector => ["vector", "labels"]

/-- The layer with that name among the names that are read. -/
def ofName? (name : String) : Option Layer := all.find? fun l => l.names.contains name

/-- The layer that a text names. -/
def parse (text : List Char) : Except UnknownLayer Layer :=
  let name := Text.lower (Text.trim text)
  match ofName? (String.ofList name) with
  | some l => .ok l
  | none => .error ⟨name⟩

end Layer

/-- A value for some of the layers. -/
structure PerLayer (α : Type) where
  height : Option α
  ortho : Option α
  vector : Option α
  deriving DecidableEq, Repr

namespace PerLayer

variable {α : Type}

/-- No layer has a value. -/
def empty : PerLayer α := ⟨none, none, none⟩

/-- The value of a layer. -/
def get? (p : PerLayer α) : Layer → Option α
  | .height => p.height
  | .ortho => p.ortho
  | .vector => p.vector

/-- The same values but for one layer. -/
def set (p : PerLayer α) (l : Layer) (a : α) : PerLayer α :=
  match l with
  | .height => { p with height := some a }
  | .ortho => { p with ortho := some a }
  | .vector => { p with vector := some a }

/-- The layers that have a value, with their values, in order. -/
def toList (p : PerLayer α) : List (Layer × α) :=
  Layer.all.filterMap fun l => (p.get? l).map fun a => (l, a)

end PerLayer

end TileStream
