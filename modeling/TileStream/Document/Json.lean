import TileStream.Document.Basic
import TileStream.Text.Hex

/-!
# Documents as JSON text

`Document.ofJson?` reads a document from JSON text and `Document.json` writes one. Of two fields of
one name the later counts. The reader carries a budget that the length of the text always covers:
every step of it uses up a character.
-/

namespace TileStream.Document

/-- The text without the blanks that JSON allows in front. -/
def skipBlanks (cs : List Char) : List Char :=
  cs.dropWhile fun c => c = ' ' || c = '\n' || c = '\t' || c = '\r'

/-- The character that a letter stands for after a backslash. -/
def escaped : Char → Char
  | 'n' => '\n'
  | 't' => '\t'
  | 'r' => '\r'
  | 'b' => Char.ofNat 8
  | 'f' => Char.ofNat 12
  | c => c

/-- The rest of a string after its opening quote, and what follows it. -/
def readString : List Char → Option (List Char × List Char)
  | '"' :: rest => some ([], rest)
  | '\\' :: 'u' :: a :: b :: c :: d :: rest => do
    let n ← Text.Hex.value? [a, b, c, d]
    if 0xD800 ≤ n && n < 0xDC00 then
      match rest with
      | '\\' :: 'u' :: e :: f :: g :: h :: rest =>
        let low ← Text.Hex.value? [e, f, g, h]
        let (cs, rest) ← readString rest
        return (Char.ofNat (0x10000 + (n - 0xD800) * 0x400 + (low - 0xDC00)) :: cs, rest)
      | _ => none
    else
      let (cs, rest) ← readString rest
      return (Char.ofNat n :: cs, rest)
  | '\\' :: c :: rest => (readString rest).map fun (cs, rest) => (escaped c :: cs, rest)
  | c :: rest => (readString rest).map fun (cs, rest) => (c :: cs, rest)
  | [] => none

/-- Whether a character can be part of a number. -/
def inNumber (c : Char) : Bool :=
  c.isDigit || c = '-' || c = '+' || c = '.' || c = 'e' || c = 'E'

mutual

/-- The document at the front of a text, and what follows it. -/
def readValue : Nat → List Char → Option (Document × List Char)
  | 0, _ => none
  | budget + 1, cs =>
    match skipBlanks cs with
    | 'n' :: 'u' :: 'l' :: 'l' :: rest => some (null, rest)
    | 't' :: 'r' :: 'u' :: 'e' :: rest => some (truth true, rest)
    | 'f' :: 'a' :: 'l' :: 's' :: 'e' :: rest => some (truth false, rest)
    | '"' :: rest => (readString rest).map fun (s, rest) => (text (String.ofList s), rest)
    | '[' :: rest =>
      match skipBlanks rest with
      | ']' :: rest => some (list [], rest)
      | rest => (readItems budget rest).map fun (items, rest) => (list items, rest)
    | '{' :: rest =>
      match skipBlanks rest with
      | '}' :: rest => some (object [], rest)
      | rest => (readFields budget rest).map fun (fields, rest) => (object fields.reverse, rest)
    | rest => do
      let d ← number? (String.ofList (rest.takeWhile inNumber))
      return (d, rest.dropWhile inNumber)

/-- The items of a list up to its closing bracket. -/
def readItems : Nat → List Char → Option (List Document × List Char)
  | 0, _ => none
  | budget + 1, cs => do
    let (item, rest) ← readValue budget cs
    match skipBlanks rest with
    | ',' :: rest =>
      let (items, rest) ← readItems budget rest
      return (item :: items, rest)
    | ']' :: rest => return ([item], rest)
    | _ => none

/-- The fields of an object up to its closing brace. -/
def readFields : Nat → List Char → Option (List (String × Document) × List Char)
  | 0, _ => none
  | budget + 1, cs => do
    let '"' :: rest := skipBlanks cs | none
    let (name, rest) ← readString rest
    let ':' :: rest := skipBlanks rest | none
    let (value, rest) ← readValue budget rest
    let field := (String.ofList name, value)
    match skipBlanks rest with
    | ',' :: rest =>
      let (fields, rest) ← readFields budget rest
      return (field :: fields, rest)
    | '}' :: rest => return ([field], rest)
    | _ => none

end

/-- The document that a JSON text holds, with nothing but blanks after it. -/
def ofJson? (json : String) : Option Document := do
  let cs := json.toList
  let (d, rest) ← readValue (cs.length + 1) cs
  if (skipBlanks rest).isEmpty then some d else none

/-- A text between quotes. -/
def quoted (s : String) : String :=
  let escape (c : Char) : List Char :=
    if c = '"' || c = '\\' then ['\\', c]
    else if c.toNat < 32 then '\\' :: 'u' :: (Text.Hex.ofNat 4 c.toNat).toList
    else [c]
  "\"" ++ String.ofList (s.toList.flatMap escape) ++ "\""

mutual

/-- The JSON text of a document. -/
def json : Document → String
  | null => "null"
  | truth b => if b then "true" else "false"
  | whole n => toString n
  | real x => Numeric.plainText x
  | text s => quoted s
  | list items => "[" ++ ",".intercalate (jsonItems items) ++ "]"
  | object fields => "\x7b" ++ ",".intercalate (jsonFields fields) ++ "\x7d"

/-- The JSON texts of the items of a list. -/
def jsonItems : List Document → List String
  | [] => []
  | d :: ds => json d :: jsonItems ds

/-- The JSON texts of the fields of an object. -/
def jsonFields : List (String × Document) → List String
  | [] => []
  | (name, d) :: fields => (quoted name ++ ":" ++ json d) :: jsonFields fields

end

end TileStream.Document
