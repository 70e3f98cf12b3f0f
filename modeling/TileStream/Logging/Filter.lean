import TileStream.Logging.Directive

/-!
# Log filters

A filter says how much is logged: a list of directives, with commas between them. Of the directives
that are meant for a line one decides; where none is, the line is not logged. A filter without
directives lets errors through, and one that cannot be read counts as the level `info`.
-/

namespace TileStream

/-- What is logged. -/
structure LogFilter where
  directives : List Directive
  deriving DecidableEq, Repr

namespace LogFilter

/-- Everything up to a level. -/
def ofLevel (level : LogLevel) : LogFilter := ⟨[{ Directive.everything with rank := level.rank }]⟩

/-- The filter that a text writes. A fault when a directive is cut inside a character. -/
def ofText (text : List Char) : Checked LogFilter := do
  let parts := (Text.splitAt ',' text).filter fun part => !part.isEmpty
  if parts.isEmpty then return ofLevel .error
  match ← (parts.mapM Directive.ofText?).run with
  | some directives => return ⟨directives⟩
  | none => return ofLevel .info

/-- The directive that decides, of one found before, if any, and another one. -/
def deciding (best : Option Directive) (d : Directive) : Option Directive :=
  match best with
  | none => some d
  | some b => if b.yieldsTo d then some d else some b

/-- Whether a line is logged. -/
def lets (f : LogFilter) (line : LogLine) : Bool :=
  let meant := f.directives.filter fun d => d.isStatic && d.fits line
  (meant.foldl deciding none).any fun d => line.level.rank ≤ d.rank

end LogFilter

end TileStream
