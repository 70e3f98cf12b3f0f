import TileStream.Pattern.Basic
import TileStream.Text.Alphanumeric
import TileStream.Text.Blank
import TileStream.Text.Hex

/-!
# Reading patterns

A reader takes what it reads off the front of a text, and fails where the text cannot go on that way.
Blank characters and comments are left out where they mean nothing. No text with a closing brace is
ever read as a pattern, so neither is anything that would need one, such as a counted repetition or
the name of a property.

* `PatternReader.escape`, `PatternReader.bracket` and `PatternReader.opening` read what starts with a
  backslash, a bracket and a parenthesis.
* `PatternReader.terms` reads up to the end of a group, `Pattern.ofText?` a whole pattern.
-/

namespace TileStream

/-- What is left of a text, whether blank characters mean nothing, and the names of groups so far. -/
structure PatternRest where
  rest : List Char
  spaced : Bool
  names : List (List Char)

/-- Reads something off the front of a text. -/
abbrev PatternReader := StateT PatternRest Option

namespace PatternReader

/-- The text without blank characters and comments in front. -/
def skip (inComment : Bool) : List Char → List Char
  | [] => []
  | c :: cs =>
    if inComment then skip (c ≠ '\n') cs
    else if c = '#' then skip true cs
    else if Text.isBlank c then skip false cs
    else c :: cs

/-- Leaves out what means nothing. -/
def settle : PatternReader Unit :=
  modify fun r => if r.spaced then { r with rest := skip false r.rest } else r

/-- Leaves out some characters. -/
def drop (n : Nat) : PatternReader Unit := modify fun r => { r with rest := r.rest.drop n }

/-- What is left. -/
def rest : PatternReader (List Char) := return (← get).rest

/-- The next character. -/
def look : PatternReader Char := do
  match ← rest with
  | [] => failure
  | c :: _ => return c

/-- Goes on to the character after the next one. -/
def advance : PatternReader Char := do
  drop 1
  settle
  look

/-- The character that follows the first of a text: past blank characters where they mean nothing,
and past one sign of a comment, but not past the comment. -/
def second (spaced : Bool) (text : List Char) : Option Char :=
  let behind := text.tail
  if !spaced then behind.head?
  else
    match Text.trimStart behind with
    | [] => behind.head?
    | '#' :: comment => (Text.trimStart comment).head?.or behind.head?
    | c :: _ => some c

/-- Reads hexadecimal digits, the first of them behind the next character. -/
def hexDigits : (count value : Nat) → PatternReader Nat
  | 0, value => return value
  | count + 1, value => do
    match Text.Hex.digit? (← advance) with
    | none => failure
    | some d => hexDigits count (16 * value + d)

/-- Reads a character that is written by its number. -/
def numbered (digits : Nat) (isByte : Bool) : PatternReader Pattern := do
  let n ← hexDigits digits 0
  drop 1
  settle
  if n.isValidChar then return .literal ⟨Char.ofNat n, isByte⟩ else failure

/-- What a letter or an angle behind a backslash stands for. -/
def special? : Char → Option Pattern
  | 'a' => some (.literal ⟨'\x07', false⟩)
  | 'f' => some (.literal ⟨'\x0c', false⟩)
  | 't' => some (.literal ⟨'\t', false⟩)
  | 'n' => some (.literal ⟨'\n', false⟩)
  | 'r' => some (.literal ⟨'\r', false⟩)
  | 'v' => some (.literal ⟨'\x0b', false⟩)
  | 'd' | 's' | 'w' => some (.kind false)
  | 'D' | 'S' | 'W' => some (.kind true)
  | 'A' | 'z' => some .edge
  | 'b' | 'B' | '<' | '>' => some .wordEdge
  | _ => none

/-- Reads what starts with a backslash. Any other ASCII character than a letter or a digit stands for
itself. -/
def escape : PatternReader Pattern := do
  drop 1
  match ← look with
  | 'x' => numbered 2 true
  | 'u' => numbered 4 false
  | 'U' => numbered 8 false
  | c =>
    drop 1
    match special? c with
    | some p => return p
    | none => if c.toNat < 128 && !c.isAlphanum then return .literal ⟨c, false⟩ else failure

/-! ### Classes -/

/-- The names of the classes of ASCII characters. -/
def classNames : List String :=
  ["alnum", "alpha", "ascii", "blank", "cntrl", "digit", "graph", "lower", "print", "punct", "space",
   "upper", "word", "xdigit"]

/-- The class with a name that a text starts with, as in `[:^alpha:]`, and what is left. -/
def named? : List Char → Option (CharClass × List Char)
  | '[' :: ':' :: cs =>
    let (negated, cs) := match cs with
      | '^' :: more => (true, more)
      | _ => (false, cs)
    let name := cs.takeWhile (· ≠ ':')
    match cs.dropWhile (· ≠ ':') with
    | ':' :: ']' :: left =>
      if classNames.contains (String.ofList name) then some (.named negated, left) else none
    | _ => none
  | _ => none

/-- Reads a character of a class. -/
def classTerm : PatternReader Pattern := do
  match ← look with
  | '\\' => escape
  | c =>
    drop 1
    return .literal ⟨c, false⟩

/-- What may stand in a class. -/
def classOf? : Pattern → Option CharClass
  | .literal l => some (.literal l)
  | .kind negated => some (.kind negated)
  | _ => none

/-- Reads a character of a class, or a range of characters. A hyphen in front of the end of the class
or of another hyphen makes no range. -/
def classRange : PatternReader CharClass := do
  let first ← classTerm
  settle
  let next ← look
  let beyond := second (← get).spaced (← rest)
  if next ≠ '-' || beyond = some ']' || beyond = some '-' then classOf? first
  else
    let _ ← advance
    match first, ← classTerm with
    | .literal a, .literal b => if a.char ≤ b.char then return .range a b else failure
    | _, _ => failure

/-- Reads the hyphens that a class starts with. -/
def hyphens : (fuel : Nat) → PatternReader (List CharClass)
  | 0 => return []
  | fuel + 1 => do
    if (← look) = '-' then
      let _ ← advance
      return .literal ⟨'-', false⟩ :: (← hyphens fuel)
    else return []

/-- Reads the start of a class: whether all but its characters are meant, and the hyphens or the
bracket that stand for themselves there. -/
def classStart : PatternReader (Bool × List CharClass) := do
  let negated := (← advance) = '^'
  if negated then let _ ← advance
  let items ← hyphens (← rest).length
  if items.isEmpty && (← look) = ']' then
    let _ ← advance
    return (negated, [.literal ⟨']', false⟩])
  else return (negated, items)

/-- A class behind an operation, if there was one. -/
def operated (left : Option CharClass) (right : CharClass) : CharClass :=
  match left with
  | none => right
  | some left => .operation left right

/-- Reads the rest of a class. What stands before the last operation in it is `left`, what has been
read since then is `items`, backwards. -/
def classRest : (fuel : Nat) → (left : Option CharClass) → (items : List CharClass) →
    PatternReader CharClass
  | 0, _, _ => failure
  | fuel + 1, left, items => do
    settle
    match ← rest with
    | [] => failure
    | ']' :: _ =>
      drop 1
      return operated left (.ofList items.reverse)
    | '&' :: '&' :: _ | '-' :: '-' :: _ | '~' :: '~' :: _ =>
      drop 2
      classRest fuel (some (operated left (.ofList items.reverse))) []
    | '[' :: cs =>
      match named? ('[' :: cs) with
      | some (c, behind) =>
        modify fun r => { r with rest := behind }
        classRest fuel left (c :: items)
      | none =>
        let (negated, inner) ← classStart
        let c ← classRest fuel none inner.reverse
        classRest fuel left (.bracket negated c :: items)
    | _ => classRest fuel left ((← classRange) :: items)

/-- Reads a class. -/
def bracket : PatternReader Pattern := do
  let (negated, items) ← classStart
  return .bracket negated (← classRest ((← rest).length + 1) none items.reverse)

/-! ### Groups -/

/-- The flag that a letter stands for. -/
def flag? : Char → Option PatternFlag
  | 'i' => some .caseless
  | 'm' => some .manyLines
  | 's' => some .pointForAll
  | 'U' => some .lazy
  | 'u' => some .unicode
  | 'R' => some .returns
  | 'x' => some .spaced
  | _ => none

/-- The changes of flags that a text starts with, up to a colon or a parenthesis, and what is left. No
flag is named twice, and one hyphen, which is not the last, turns off those behind it. -/
def flags? (isOn isLast : Bool) (seen : List PatternFlag) :
    List Char → Option (List FlagChange × List Char)
  | [] => none
  | c :: cs =>
    if c = ':' || c = ')' then if isLast then none else some ([], c :: cs)
    else if c = '-' then if isOn then flags? false true seen cs else none
    else
      match flag? c with
      | none => none
      | some flag =>
        if seen.contains flag then none
        else (flags? isOn false (flag :: seen) cs).map fun (changes, left) =>
          ((flag, isOn) :: changes, left)

/-- Whether a text is the name of a group. -/
def isName : List Char → Bool
  | [] => false
  | c :: cs => (c = '_' || Text.isLetter c) &&
    cs.all fun c => c = '_' || c = '.' || c = '[' || c = ']' || Text.isAlphanumeric c

/-- Reads the name of a group up to the angle behind it. No two groups have one name. -/
def name : PatternReader Unit := do
  let r ← get
  let name := r.rest.takeWhile (· ≠ '>')
  if r.rest.contains '>' && isName name && !r.names.contains name then
    set { r with rest := r.rest.drop (name.length + 1), names := name :: r.names }
  else failure

/-- What a parenthesis opens: a group, or only changes of flags, which are complete. -/
inductive Opening where
  | group (changes : List FlagChange)
  | flags (changes : List FlagChange)

/-- Reads what starts with a parenthesis, up to the first pattern of a group. -/
def opening : PatternReader Opening := do
  drop 1
  settle
  match ← rest with
  | '?' :: 'P' :: '<' :: _ =>
    drop 3
    name
    return .group []
  | '?' :: '<' :: _ =>
    drop 2
    name
    return .group []
  | '?' :: cs =>
    match flags? true false [] cs with
    | some (changes, ')' :: left) =>
      modify fun r => { r with rest := left }
      if changes.isEmpty then failure else return .flags changes
    | some (changes, _ :: left) =>
      modify fun r => { r with rest := left }
      return .group changes
    | _ => failure
  | _ => return .group []

/-- Whether blank characters mean nothing after changes of flags. -/
def spacedAfter (spaced : Bool) (changes : List FlagChange) : Bool :=
  (changes.lookup .spaced).getD spaced

/-- What a repetition repeats: what was read last, unless that changes flags. -/
def repeatable? : List Pattern → Option (Pattern × List Pattern)
  | [] | .flags _ :: _ => none
  | p :: ps => some (p, ps)

/-- Reads up to the end of the text or of a group. The alternatives so far are `choices`, and what
has been read of the present one is `items`, both backwards. -/
def terms : (fuel : Nat) → (choices items : List Pattern) → PatternReader Pattern
  | 0, _, _ => failure
  | fuel + 1, choices, items => do
    settle
    match ← rest with
    | [] | ')' :: _ => return .ofChoice (.ofSequence items.reverse :: choices).reverse
    | '|' :: _ =>
      drop 1
      terms fuel (.ofSequence items.reverse :: choices) []
    | '(' :: _ =>
      let spaced := (← get).spaced
      match ← opening with
      | .flags changes =>
        modify fun r => { r with spaced := spacedAfter spaced changes }
        terms fuel choices (.flags changes :: items)
      | .group changes =>
        modify fun r => { r with spaced := spacedAfter spaced changes }
        let p ← terms fuel [] []
        if (← look) ≠ ')' then failure
        drop 1
        modify fun r => { r with spaced }
        terms fuel choices (.group changes p :: items)
    | '[' :: _ => terms fuel choices ((← bracket) :: items)
    | '\\' :: _ => terms fuel choices ((← escape) :: items)
    | c :: cs =>
      if c = '?' || c = '*' || c = '+' then
        let (p, items) ← repeatable? items
        drop (if cs.head? = some '?' then 2 else 1)
        terms fuel choices (.repeated p :: items)
      else if c = '\x7b' then failure
      else
        drop 1
        let p : Pattern :=
          if c = '.' then .point else if c = '^' || c = '$' then .edge else .literal ⟨c, false⟩
        terms fuel choices (p :: items)

end PatternReader

/-- The pattern that a text writes. -/
def Pattern.ofText? (text : List Char) : Option Pattern :=
  match PatternReader.terms (text.length + 1) [] [] ⟨text, false, []⟩ with
  | some (p, r) => if r.rest.isEmpty then some p else none
  | none => none

end TileStream
