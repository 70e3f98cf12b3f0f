import TileStream.Pattern.Reader

/-!
# Patterns that can be used

A matcher works on texts in UTF-8 and knows no tables of Unicode. So as long as characters are those
of Unicode it knows no kinds of characters, no edges of words and no caseless letters; otherwise it
takes nothing that could stand for a part of a character. Parts nested more than 250 deep are refused.

`Pattern.modeAfter` follows the flags through a pattern, `Pattern.isUsable` is the question itself.
-/

namespace TileStream

/-- The flags that decide what can be used. -/
structure PatternMode where
  caseless : Bool
  unicode : Bool
  deriving DecidableEq, Repr

namespace PatternMode

/-- The flags at the start of a pattern. -/
def standard : PatternMode := ⟨false, true⟩

/-- The flags after some changes. -/
def change (m : PatternMode) (changes : List FlagChange) : PatternMode :=
  changes.foldl (fun m (flag, isOn) =>
    match flag with
    | .caseless => { m with caseless := isOn }
    | .unicode => { m with unicode := isOn }
    | _ => m) m

/-- Whether a character can be used. -/
def takes (m : PatternMode) (l : PatternLiteral) : Bool :=
  if m.unicode then !m.caseless else !l.isByte || l.char.toNat < 128

/-- Whether a character can be used in a class. -/
def takesInClass (m : PatternMode) (l : PatternLiteral) : Bool :=
  if m.unicode then !m.caseless else l.char.toNat < 128

end PatternMode

namespace CharClass

mutual

/-- Whether a class can be used. -/
def isUsable (m : PatternMode) : CharClass → Bool
  | literal l => m.takesInClass l
  | range first last => m.takesInClass first && m.takesInClass last
  | named negated => if m.unicode then !m.caseless else !negated
  | kind negated => !m.unicode && !negated
  | bracket negated c => c.isUsable m && (m.unicode || !negated)
  | union cs => areUsable m cs
  | operation left right => left.isUsable m && right.isUsable m

/-- Whether some classes can be used. -/
def areUsable (m : PatternMode) : List CharClass → Bool
  | [] => true
  | c :: cs => c.isUsable m && areUsable m cs

end

end CharClass

namespace Pattern

/-- The deepest nesting of a pattern that can be used. -/
def depthLimit : Nat := 250

mutual

/-- The flags behind a pattern. None when it cannot be used. -/
def modeAfter (m : PatternMode) : Pattern → Option PatternMode
  | flags changes => some (m.change changes)
  | literal l => if m.takes l then some m else none
  | point => if m.unicode then some m else none
  | edge => some m
  | wordEdge => if m.unicode then none else some m
  | kind negated => if m.unicode || negated then none else some m
  | bracket negated c => if c.isUsable m && (m.unicode || !negated) then some m else none
  | repeated p => p.modeAfter m
  | group changes p => (p.modeAfter (m.change changes)).map fun _ => m
  | sequence ps => modeAfterAll m ps
  | choice ps => modeAfterAll m ps

/-- The flags behind some patterns, each read with those that the one before it leaves. -/
def modeAfterAll (m : PatternMode) : List Pattern → Option PatternMode
  | [] => some m
  | p :: ps => (p.modeAfter m).bind fun m => modeAfterAll m ps

end

/-- Whether a text writes a pattern that can be used. -/
def isUsable (text : List Char) : Bool :=
  match ofText? text with
  | none => false
  | some p => p.depth ≤ depthLimit && (p.modeAfter .standard).isSome

end Pattern

end TileStream
