import Mathlib.Data.List.Nodup
import TileStream.Table

/-!
# Looking up in tables

What a table is to the rest of the library is its lookups and how many of its values pass a test.

* `get?_set`, `get?_erase`, `get?_keep`, `get?_foldl_erase`: an operation changes the lookups of the
  keys it names and no other.
* `countP_values_set`, `countP_values_erase`: what it does to a count of values.
* `countP_values_eq_length`: the count is the length of any list of the keys in question without
  repetition, so it depends on the lookups alone (`countP_values_congr`).
-/

namespace TileStream

namespace Table

variable {κ α : Type} [DecidableEq κ] (t : Table κ α)

/-! ### Lookups -/

theorem lookup_filter_fst (es : List (κ × α)) (p : κ → Bool) (k : κ) :
    (es.filter fun e => p e.1).lookup k = if p k then es.lookup k else none := by
  induction es with
  | nil => simp
  | cons e es ih =>
    obtain ⟨key, a⟩ := e
    by_cases hk : k = key
    · subst hk
      by_cases hp : p k = true
      · simp [hp]
      · simp [hp, ih]
    · have hne : (k == key) = false := by simpa using hk
      have hskip : ((key, a) :: es).lookup k = es.lookup k := by rw [List.lookup_cons, hne]
      rw [hskip, ← ih, List.filter_cons]
      split
      · rw [List.lookup_cons, hne]
      · rfl

@[simp] theorem get?_empty (k : κ) : (empty : Table κ α).get? k = none := rfl

theorem get?_keep (p : κ → Bool) (k : κ) : (t.keep p).get? k = if p k then t.get? k else none :=
  lookup_filter_fst t.entries p k

theorem get?_erase (k k' : κ) : (t.erase k).get? k' = if k' = k then none else t.get? k' := by
  unfold erase
  rw [get?_keep]
  by_cases h : k' = k <;> simp [h]

theorem get?_set (k k' : κ) (a : α) :
    (t.set k a).get? k' = if k' = k then some a else t.get? k' := by
  have hcons : (t.set k a).get? k' = if k' = k then some a else (t.erase k).get? k' := by
    show ((k, a) :: (t.erase k).entries).lookup k' = _
    rw [List.lookup_cons]
    by_cases h : k' = k
    · simp [h]
    · have hne : (k' == k) = false := by simpa using h
      rw [hne, if_neg h]
      rfl
  rw [hcons, get?_erase]
  by_cases h : k' = k <;> simp [h]

theorem get?_foldl_erase (ks : List κ) (k : κ) :
    (ks.foldl erase t).get? k = if k ∈ ks then none else t.get? k := by
  induction ks generalizing t with
  | nil => simp
  | cons key ks ih =>
    rw [List.foldl_cons, ih, get?_erase]
    by_cases hks : k ∈ ks <;> by_cases hkey : k = key <;> simp [hks, hkey]

theorem contains_iff {k : κ} : t.contains k = true ↔ ∃ a, t.get? k = some a :=
  Option.isSome_iff_exists

theorem contains_eq_false_iff {k : κ} : t.contains k = false ↔ t.get? k = none := by
  unfold contains
  rw [Option.isSome_eq_false_iff, Option.isNone_iff_eq_none]

@[simp] theorem contains_empty (k : κ) : (empty : Table κ α).contains k = false := rfl

@[simp] theorem contains_erase (k k' : κ) :
    (t.erase k).contains k' = (decide (k' ≠ k) && t.contains k') := by
  unfold contains
  rw [get?_erase]
  by_cases h : k' = k <;> simp [h]

@[simp] theorem contains_set (k k' : κ) (a : α) :
    (t.set k a).contains k' = (decide (k' = k) || t.contains k') := by
  unfold contains
  rw [get?_set]
  by_cases h : k' = k <;> simp [h]

/-! ### Keys -/

theorem mem_keys {k : κ} : k ∈ t.keys ↔ t.contains k = true := by
  unfold keys contains get?
  rw [List.lookup_isSome_iff]
  simp only [List.mem_map, beq_iff_eq]
  exact ⟨fun ⟨e, he, hk⟩ => ⟨e, he, hk.symm⟩, fun ⟨e, he, hk⟩ => ⟨e, he, hk.symm⟩⟩

omit [DecidableEq κ] in
theorem length_keys : t.keys.length = t.size := List.length_map _

theorem size_eq_zero_iff : t.size = 0 ↔ ∀ k, t.contains k = false := by
  rw [← length_keys, List.length_eq_zero_iff, List.eq_nil_iff_forall_not_mem]
  simp only [mem_keys, Bool.not_eq_true]

/-- **An entry is a lookup,** since no key has two. -/
theorem mem_entries_iff {k : κ} {a : α} : (k, a) ∈ t.entries ↔ t.get? k = some a := by
  obtain ⟨es, hd⟩ := t
  show (k, a) ∈ es ↔ es.lookup k = some a
  induction es with
  | nil => simp
  | cons e es ih =>
    obtain ⟨key, b⟩ := e
    rw [List.map_cons, List.nodup_cons] at hd
    rw [List.mem_cons, List.lookup_cons, ih hd.2]
    by_cases h : k = key
    · subst h
      have hfresh : es.lookup k = none := by
        rw [List.lookup_eq_none_iff]
        intro e he
        have hne : k ≠ e.1 := fun heq => hd.1 (List.mem_map.mpr ⟨e, he, heq.symm⟩)
        simpa using hne
      simp [hfresh, eq_comm]
    · have hne : (k == key) = false := by simpa using h
      simp [h, hne]

theorem erase_of_get?_eq_none {k : κ} (h : t.get? k = none) : t.erase k = t := by
  obtain ⟨es, hd⟩ := t
  have hall : es.filter (fun e => decide (e.1 ≠ k)) = es := by
    refine List.filter_eq_self.mpr fun e he => ?_
    have hne : k ≠ e.1 := by simpa using List.lookup_eq_none_iff.mp h e he
    exact decide_eq_true hne.symm
  simp only [erase, keep, mk.injEq]
  exact hall

/-! ### Counting values -/

theorem values_set (k : κ) (a : α) : (t.set k a).values = a :: (t.erase k).values := rfl

/-- The keys whose values pass a test. -/
def keysWhere (p : α → Bool) : List κ := (t.entries.filter fun e => p e.2).map (·.1)

omit [DecidableEq κ] in
theorem nodup_keysWhere (p : α → Bool) : (t.keysWhere p).Nodup :=
  t.distinct.sublist (List.filter_sublist.map _)

theorem mem_keysWhere {p : α → Bool} {k : κ} :
    k ∈ t.keysWhere p ↔ ∃ a, t.get? k = some a ∧ p a = true := by
  simp only [keysWhere, List.mem_map, List.mem_filter, ← mem_entries_iff]
  constructor
  · rintro ⟨⟨key, a⟩, ⟨he, hp⟩, rfl⟩
    exact ⟨a, he, hp⟩
  · rintro ⟨a, he, hp⟩
    exact ⟨(k, a), ⟨he, hp⟩, rfl⟩

omit [DecidableEq κ] in
theorem length_keysWhere (p : α → Bool) : (t.keysWhere p).length = t.values.countP p := by
  rw [keysWhere, values, List.length_map, List.countP_map, List.countP_eq_length_filter]
  rfl

/-- **A count of values is the length of any list of their keys** without repetition. -/
theorem countP_values_eq_length {p : α → Bool} {l : List κ} (hl : l.Nodup)
    (h : ∀ k, k ∈ l ↔ ∃ a, t.get? k = some a ∧ p a = true) : t.values.countP p = l.length := by
  rw [← length_keysWhere]
  refine ((List.perm_ext_iff_of_nodup (t.nodup_keysWhere p) hl).mpr fun k => ?_).length_eq
  rw [mem_keysWhere, h]

/-- A count of values depends on the lookups alone. -/
theorem countP_values_congr {t' : Table κ α} {p : α → Bool}
    (h : ∀ k a, p a = true → (t.get? k = some a ↔ t'.get? k = some a)) :
    t.values.countP p = t'.values.countP p := by
  rw [t.countP_values_eq_length (t'.nodup_keysWhere p), length_keysWhere]
  intro k
  rw [mem_keysWhere]
  exact ⟨fun ⟨a, ha, hp⟩ => ⟨a, (h k a hp).mpr ha, hp⟩, fun ⟨a, ha, hp⟩ => ⟨a, (h k a hp).mp ha, hp⟩⟩

/-- Erasing a key takes its value out of the count. -/
theorem countP_values_erase {k : κ} {a : α} (h : t.get? k = some a) (p : α → Bool) :
    t.values.countP p = (t.erase k).values.countP p + if p a then 1 else 0 := by
  have hset : t.values.countP p = ((t.erase k).set k a).values.countP p := by
    refine t.countP_values_congr fun k' b _ => ?_
    rw [get?_set, get?_erase]
    by_cases hk : k' = k
    · subst hk; simp [h]
    · simp [hk]
  rw [hset, values_set, erase_of_get?_eq_none _ (by rw [get?_erase, if_pos rfl]), List.countP_cons]

/-- Setting a fresh key puts its value into the count. -/
theorem countP_values_set {k : κ} (a : α) (h : t.get? k = none) (p : α → Bool) :
    (t.set k a).values.countP p = t.values.countP p + if p a then 1 else 0 := by
  rw [values_set, erase_of_get?_eq_none _ h, List.countP_cons]

omit [DecidableEq κ] in
theorem countP_values_true : t.values.countP (fun _ => true) = t.size := by
  simp [values, size]

theorem size_erase {k : κ} (h : t.contains k = true) : t.size = (t.erase k).size + 1 := by
  obtain ⟨a, ha⟩ := t.contains_iff.mp h
  have := t.countP_values_erase ha fun _ => true
  rwa [countP_values_true, countP_values_true] at this

theorem size_erase_le (k : κ) : (t.erase k).size ≤ t.size := List.length_filter_le _ _

theorem size_set {k : κ} (a : α) :
    (t.set k a).size = (t.erase k).size + 1 := rfl

/-- Setting a key makes a table larger only when the key is new. -/
theorem size_set_eq (k : κ) (a : α) :
    (t.set k a).size = if t.contains k then t.size else t.size + 1 := by
  rw [size_set]
  split
  · next hin => exact (t.size_erase hin).symm
  · next hout =>
    have hnone := t.contains_eq_false_iff.mp (Bool.eq_false_iff.mpr hout)
    rw [erase_of_get?_eq_none _ hnone]

end Table

end TileStream
