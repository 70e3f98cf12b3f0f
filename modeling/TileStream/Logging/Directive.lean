import TileStream.Logging.Line
import TileStream.Pattern.Usable
import TileStream.Text.Alphanumeric
import TileStream.Text.Number
import TileStream.Text.Offset

/-!
# Directives of log filters

A directive is written `target[span{field=value}]=level`, and most of its parts can be left out; a
word that stands alone is a level if it names one, else a target. Without a level everything is let
through.

The reader skips the blank characters around a directive, but it cuts the parts out of the whole
text at the offsets that they have in the trimmed one. So after blank characters in front each part
is shifted by their number of bytes.

* `Directive.step` reads one character, `Directive.finish` ends a directive.
* `Directive.fits` says for which lines a directive is meant, `Directive.yieldsTo` which of two
  directives decides.
-/

namespace TileStream

/-- A field that lines must carry, and whether a value of it is asked for. -/
structure FieldDemand where
  name : List Char
  hasValue : Bool
  deriving DecidableEq, Repr

/-- Lets lines through up to a rank, zero for none: those of a target, of a span, with a field. -/
structure Directive where
  target : Option (List Char)
  span : Option (List Char)
  field : Option FieldDemand
  rank : Nat
  deriving DecidableEq, Repr

namespace Directive

/-- The part of a directive that is being read, with the offset of its first character. -/
inductive Mode where
  | start
  | head
  | span (first : Nat)
  | field (first : Nat)
  | fieldEnd
  | spanEnd
  | level (first : Nat)
  deriving DecidableEq, Repr

/-- The directive that lets everything through. -/
def everything : Directive := ⟨none, none, none, LogLevel.trace.rank⟩

/-- The rank that a text gives, as a name or as a digit. -/
def rank? (text : List Char) : Option Nat :=
  match String.ofList (Text.lower text) with
  | "off" => some 0
  | "error" => some 1
  | "warn" => some 2
  | "info" => some 3
  | "debug" => some 4
  | "trace" => some 5
  | _ => Text.readWhole 6 text

/-- Whether a target or a level may start with a character. -/
def mayStart (c : Char) : Bool := c = '-' || c = ':' || c = '_' || Text.isAlphanumeric c

/-- Whether a text can be asked for as the value of a field: as a number, or as a pattern. -/
def isValue (text : List Char) : Bool := (Text.readFloat text).isSome || Pattern.isUsable text

/-- The field that a text asks for: a name, and a value behind the first equals sign. What is behind a
second one does not count. None when the value cannot be asked for. -/
def demand? (text : List Char) : Option FieldDemand :=
  match Text.splitAt '=' text with
  | name :: value :: _ => if isValue value then some ⟨name, true⟩ else none
  | _ => some ⟨text, false⟩

/-- Reads the character at an offset. The parts that end there are cut out of `text`. None when it
cannot stand there. -/
def step (text : List Char) : Directive × Mode → Nat × Char → OptionT Checked (Directive × Mode)
  | (d, .start), (i, c) =>
    if c = '[' then return (d, .span (i + 1))
    else if mayStart c then return (d, .head)
    else failure
  | (d, .head), (i, c) => do
    if c = '=' then return ({ d with target := some (← Text.between 0 i text) }, .level (i + 1))
    else if c = '[' then return ({ d with target := some (← Text.between 0 i text) }, .span (i + 1))
    else return (d, .head)
  | (d, .span first), (i, c) => do
    if c = ']' then return ({ d with span := some (← Text.between first i text) }, .spanEnd)
    else if c = '\x7b' then
      let name ← Text.between first i text
      return ({ d with span := if name.isEmpty then none else some name }, .field (i + 1))
    else return (d, .span first)
  | (d, .field first), (i, c) => do
    if c = '\x7d' then
      let asked ← Text.between first i text
      match if asked.isEmpty then none else demand? asked with
      | none => failure
      | field => return ({ d with field }, .fieldEnd)
    else return (d, .field first)
  | (d, .fieldEnd), (_, c) => if c = ']' then return (d, .spanEnd) else failure
  | (d, .spanEnd), (i, c) => if c = '=' then return (d, .level (i + 1)) else failure
  | (d, .level first), _ => return (d, .level first)

/-- Ends a directive. None when a part of it is missing, or the level is none. -/
def finish (text : List Char) : Directive × Mode → OptionT Checked Directive
  | (d, .head) =>
    match rank? text with
    | some rank => return { d with rank }
    | none => return { d with target := some text }
  | (d, .spanEnd) => return d
  | (d, .level first) => do
    let (_, level) ← Text.cutAt first text
    if level.isEmpty then return d
    match rank? level with
    | some rank => return { d with rank }
    | none => failure
  | _ => failure

/-- The directive that a text writes. -/
def ofText? (text : List Char) : OptionT Checked Directive := do
  finish text (← (Text.withOffsets 0 (Text.trim text)).foldlM (step text) (everything, .start))

/-- Whether a directive decides about lines at all. One that asks for a span or for the value of a
field would decide only inside of spans. -/
def isStatic (d : Directive) : Bool := d.span.isNone && !d.field.any (·.hasValue)

/-- Whether a directive is meant for a line. -/
def fits (d : Directive) (line : LogLine) : Bool :=
  d.target.all (·.isPrefixOf line.target.toList) &&
    d.field.all fun f => line.has (String.ofList f.name)

/-- How much of the target of a line a directive names; less than nothing when it names no target. -/
def reach (d : Directive) : Nat := (d.target.map fun t => t.length + 1).getD 0

/-- The name of the field that a directive asks for, empty when it asks for none. -/
def fieldName (d : Directive) : List Char := (d.field.map (·.name)).getD []

/-- Whether of two directives for one line the second decides: it names more of the target, or as
much and more of the fields, or the fields with the later names. A directive that asks for the same
as an earlier one takes its place. -/
def yieldsTo (a b : Directive) : Bool :=
  let before := List.lex b.fieldName a.fieldName fun x y => x.toNat < y.toNat
  a.reach < b.reach || (a.reach = b.reach && !before)

end Directive

end TileStream
