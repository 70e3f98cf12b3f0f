/-!
# Totals

The sum of a list of whole numbers. It is built up from the front and splits where the list does.
-/

namespace TileStream.Numeric

/-- The sum of whole numbers. -/
def total (ns : List Nat) : Nat := ns.foldr (· + ·) 0

@[simp] theorem total_nil : total [] = 0 := rfl

@[simp] theorem total_cons (n : Nat) (ns : List Nat) : total (n :: ns) = n + total ns := rfl

@[simp] theorem total_append (ms ns : List Nat) : total (ms ++ ns) = total ms + total ns := by
  induction ms with
  | nil => simp
  | cons m ms ih => simp only [List.cons_append, total_cons, ih]; omega

end TileStream.Numeric
