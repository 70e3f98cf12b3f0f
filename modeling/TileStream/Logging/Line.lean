/-!
# Log lines

A line of a log comes from a part of the program, its target, and carries named values beside what
it says.
-/

namespace TileStream

/-- How grave a log line is. -/
inductive LogLevel where
  | error
  | warn
  | info
  | debug
  | trace
  deriving DecidableEq, Repr

/-- The rank of a level: the graver, the smaller. -/
def LogLevel.rank : LogLevel → Nat
  | error => 1
  | warn => 2
  | info => 3
  | debug => 4
  | trace => 5

/-- A line of a log: its level, the part of the program it comes from, what it says, and values. -/
structure LogLine where
  level : LogLevel
  target : String
  message : String
  fields : List (String × String)
  deriving DecidableEq, Repr

/-- Whether a line carries something of a name. What it says is the field `message`. -/
def LogLine.has (line : LogLine) (field : String) : Bool :=
  field = "message" || line.fields.any (·.1 = field)

end TileStream
