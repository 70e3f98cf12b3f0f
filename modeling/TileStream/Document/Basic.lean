import TileStream.Fault
import TileStream.Text.Number

/-!
# Documents

A document is the tree in which settings and geometry are exchanged: null, truth values, whole
numbers, floats, texts, lists and objects with named fields. A number literal is whole when it is
written without point and exponent and fits 64 bits; every other number is a float, and so is minus
zero.

A record is read from an object, whatever other fields it has, or from a list with exactly its
fields in order. A missing field counts as null.
-/

namespace TileStream

/-- A tree of named and listed values. -/
inductive Document where
  | null
  | truth (b : Bool)
  | whole (n : Int)
  | real (x : Float)
  | text (s : String)
  | list (items : List Document)
  | object (fields : List (String × Document))
  deriving Repr, Inhabited

namespace Document

/-- The whole number that a literal writes, if it fits 64 bits with or without a sign. -/
def wholeLiteral? : List Char → Option Int
  | '-' :: digits => do
    let n ← Text.readDigits digits
    if n = 0 || 9223372036854775808 < n then none else some (-(n : Int))
  | digits => do
    let n ← Text.readDigits digits
    if n < Checked.words64 then some n else none

/-- The number that a literal writes. -/
def number? (literal : String) : Option Document :=
  match wholeLiteral? literal.toList with
  | some n => some (whole n)
  | none => (Text.readFloat literal.toList).map real

/-- The whole number below `bound` that a document is. -/
def nat? (bound : Nat) : Document → Option Nat
  | whole n => if 0 ≤ n && n < bound then some n.toNat else none
  | _ => none

/-- The float that a document is; whole numbers are floats too. -/
def float? : Document → Option Float
  | real x => some x
  | whole n => some (if n < 0 then -(Float.ofNat (-n).toNat) else Float.ofNat n.toNat)
  | _ => none

/-- The text that a document is. -/
def text? : Document → Option String
  | text s => some s
  | _ => none

/-- What `read` makes of a document, nothing being made of null. -/
def optional? {α : Type} (read : Document → Option α) : Document → Option (Option α)
  | null => some none
  | d => (read d).map some

/-- The value of a field, null where there is none. -/
def field (d : Document) (name : String) : Document :=
  match d with
  | object fields => (fields.lookup name).getD null
  | _ => null

/-- The fields of a record in the order of their names. -/
def fields? (names : List String) : Document → Option (List Document)
  | object fields => some (names.map (object fields).field)
  | list items => if items.length = names.length then some items else none
  | _ => none

/-- The choice among `names` that a document makes: the name alone, or an object that has the name
as its one field and holds null. -/
def choice? {α : Type} (names : List (String × α)) : Document → Option α
  | text s => names.lookup s
  | object [(s, null)] => names.lookup s
  | _ => none

/-- An optional value as a document. -/
def ofOption {α : Type} (write : α → Document) : Option α → Document
  | none => null
  | some a => write a

end Document

end TileStream
