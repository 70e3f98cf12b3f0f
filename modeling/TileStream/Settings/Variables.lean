import TileStream.Fault
import TileStream.Text.Number

/-!
# Variables

Settings are read from named variables. A variable that is unset, or whose text is not of the form
asked for, counts as the default. Blanks around a number are ignored.
-/

namespace TileStream

/-- The variables that are set, with their texts. -/
structure Variables where
  entries : List (String × String)

namespace Variables

/-- The text of a variable. -/
def get? (v : Variables) (name : String) : Option String := v.entries.lookup name

/-- The text of a variable, or the default. -/
def text (v : Variables) (name : String) (default : String) : String := (v.get? name).getD default

/-- The whole number below `bound` that a variable holds, or the default. -/
def whole (v : Variables) (bound : Nat) (name : String) (default : Nat) : Nat :=
  ((v.get? name).bind fun s => Text.readWhole bound (Text.trim s.toList)).getD default

/-- The 64-bit number that a variable holds, or the default. -/
def word64 (v : Variables) (name : String) (default : Nat) : Nat := v.whole Checked.words64 name default

/-- The 32-bit number that a variable holds, or the default. -/
def word32 (v : Variables) (name : String) (default : Nat) : Nat := v.whole Checked.words32 name default

/-- The 8-bit number that a variable holds, or the default. -/
def word8 (v : Variables) (name : String) (default : UInt8) : UInt8 :=
  (v.whole Checked.words8 name default.toNat).toUInt8

/-- The float that a variable holds, or the default. -/
def float (v : Variables) (name : String) (default : Float) : Float :=
  ((v.get? name).bind fun s => Text.readFloat (Text.trim s.toList)).getD default

end Variables

end TileStream
