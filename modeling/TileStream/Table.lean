/-!
# Tables

A table gives values to some keys. It is a list of pairs in which the last value set for a key comes
first and is the only one; the order of the pairs carries no meaning.
-/

namespace TileStream

/-- Values for some keys. -/
structure Table (κ α : Type) where
  entries : List (κ × α)
  distinct : (entries.map (·.1)).Nodup
  deriving DecidableEq, Repr

namespace Table

variable {κ α : Type} [DecidableEq κ]

/-- No key has a value. -/
def empty : Table κ α := ⟨[], .nil⟩

/-- The value of a key. -/
def get? (t : Table κ α) (k : κ) : Option α := t.entries.lookup k

/-- Whether a key has a value. -/
def contains (t : Table κ α) (k : κ) : Bool := (t.get? k).isSome

/-- The table without the keys that `p` refuses. -/
def keep (t : Table κ α) (p : κ → Bool) : Table κ α :=
  ⟨t.entries.filter fun e => p e.1, t.distinct.sublist (List.filter_sublist.map _)⟩

/-- The table without a key. -/
def erase (t : Table κ α) (k : κ) : Table κ α := t.keep fun key => key ≠ k

/-- The table with the value of a key set. -/
def set (t : Table κ α) (k : κ) (a : α) : Table κ α :=
  ⟨(k, a) :: (t.erase k).entries,
    List.nodup_cons.mpr ⟨by simp [erase, keep], (t.erase k).distinct⟩⟩

/-- The keys that have a value. -/
def keys (t : Table κ α) : List κ := t.entries.map (·.1)

/-- The values. -/
def values (t : Table κ α) : List α := t.entries.map (·.2)

/-- The number of keys that have a value. -/
def size (t : Table κ α) : Nat := t.entries.length

end Table

end TileStream
