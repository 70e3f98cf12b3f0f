import Mathlib.Data.List.Basic
import Mathlib.Data.List.TakeWhile
import TileStream.Numeric.Total
import TileStream.Store.Path

/-!
# Sizes and stations of paths

A path with some names behind it takes at most the bytes of the path and those of the names, with a
slash before each (`size_below_le`), and what is left of it when names are dropped takes no more
(`size_le_of_sublist`).

* `split?_concat`: a path whose last name is not empty is cut before that name.
* `passed_concat`: the nearest path that is passed on the way to a name is the one the name stands
  behind, without the names that lead nowhere (`tidy`), and the others are those that this one passes.
-/

namespace TileStream.Path

variable {p q names : Path} {name : String}

/-- The names that a file or a directory can be made under, and that lead there. -/
structure Plain (name : String) : Prop where
  nonempty : name ≠ ""
  point : name ≠ "."
  points : name ≠ ".."
  short : name.utf8ByteSize ≤ 255

theorem Plain.not_isIdle (h : Plain name) : isIdle name = false := by
  simp [isIdle, h.nonempty, h.point]

theorem Plain.not_points (h : Plain name) : (decide (name = ".") || decide (name = "..")) = false := by
  simp [h.point, h.points]

/-! ### Sizes -/

/-- The bytes of some names with a slash before each. -/
def weight (p : Path) : ℕ := Numeric.total (p.map fun name => name.utf8ByteSize + 1)

theorem weight_cons (name : String) (p : Path) :
    weight (name :: p) = name.utf8ByteSize + 1 + weight p := rfl

theorem weight_append : weight (p ++ q) = weight p + weight q := by
  rw [weight, List.map_append, Numeric.total_append]
  rfl

theorem size_succ (hp : p ≠ []) : p.size + 1 = weight p := by
  unfold size text
  induction p with
  | nil => exact absurd rfl hp
  | cons name rest ih =>
    cases rest with
    | nil => rw [String.intercalate_singleton]; rfl
    | cons next rest =>
      have hrest := ih (List.cons_ne_nil _ _)
      have hslash : "/".utf8ByteSize = 1 := rfl
      rw [String.intercalate_cons_cons, String.utf8ByteSize_append, String.utf8ByteSize_append,
        hslash, weight_cons]
      omega

theorem weight_le_of_sublist (h : p.Sublist q) : weight p ≤ weight q := by
  induction h with
  | slnil => exact Nat.le_refl _
  | cons name _ ih =>
    rw [weight_cons]
    omega
  | cons_cons name _ ih =>
    rw [weight_cons, weight_cons]
    omega

/-- **Fewer names take no more bytes.** -/
theorem size_le_of_sublist (h : p.Sublist q) : p.size ≤ q.size := by
  by_cases hp : p = []
  · subst hp
    exact Nat.zero_le _
  · have hq : q ≠ [] := fun hq => hp (List.sublist_nil.mp (hq ▸ h))
    have hw := weight_le_of_sublist h
    rw [← size_succ hp, ← size_succ hq] at hw
    omega

theorem below_eq (p : Path) (names : List String) : p.below names = p.below [] ++ names := by
  unfold below
  rw [List.append_nil]

theorem below_append (base : Path) (hnames : ∀ n ∈ names, Plain n) (hn : names ≠ [])
    (more : List String) : (base ++ names).below more = base ++ names ++ more := by
  have hlast : (base ++ names).getLast? ≠ some "" := by
    rw [List.getLast?_append_of_ne_nil _ hn]
    exact fun h => (hnames "" (List.mem_of_getLast? h)).nonempty rfl
  unfold below
  rw [if_neg hlast]

theorem below_nil_sublist (p : Path) : (p.below []).Sublist p := by
  unfold below
  rw [List.append_nil]
  split
  · exact List.dropLast_sublist p
  · exact List.Sublist.refl p

theorem size_below_le (p : Path) (names : List String) :
    (p.below names).size ≤ p.size + weight names := by
  by_cases hb : p.below names = []
  · rw [hb]
    exact Nat.zero_le _
  · have hsize := size_succ hb
    have hbase := weight_le_of_sublist p.below_nil_sublist
    have hweight : weight (p.below names) = weight (p.below []) + weight names := by
      rw [below_eq, weight_append]
    by_cases hp : p = []
    · subst hp
      have hnil : weight (below [] []) = 0 := rfl
      omega
    · have := size_succ hp
      omega

/-- The paths that are not refused before they are walked. -/
structure Allowed (p : Path) : Prop where
  noNul : ∀ name ∈ p, Char.ofNat 0 ∉ name.toList
  short : p.size ≤ 4095

theorem Allowed.sublist (h : Allowed q) (hsub : p.Sublist q) : Allowed p :=
  ⟨fun name hname => h.noNul name (hsub.mem hname), Nat.le_trans (size_le_of_sublist hsub) h.short⟩

/-! ### The last name, and the way there -/

theorem split?_concat (p : Path) (h : name ≠ "") : (p ++ [name]).split? = some (p, name) := by
  simp [split?, h]

/-- What a path is cut to: its last name that is not empty, and what stands before it. -/
theorem exists_of_split?_eq_some {parents : Path} (h : p.split? = some (parents, name)) :
    name ≠ "" ∧ ∃ slashes, p = parents ++ name :: slashes ∧ ∀ n ∈ slashes, n = "" := by
  unfold split? at h
  split at h
  · cases h
  · next last before hdrop =>
    cases h
    have hlast := List.head?_dropWhile_not (fun n : String => decide (n = "")) p.reverse
    have hback := List.takeWhile_append_dropWhile (p := fun n : String => decide (n = ""))
      (l := p.reverse)
    rw [hdrop] at hlast hback
    have hslashes : ∀ n ∈ p.reverse.takeWhile fun n => decide (n = ""), n = "" := fun n hn => by
      simpa using List.mem_takeWhile_imp hn
    generalize (p.reverse.takeWhile fun n => decide (n = "")) = slashes at hback hslashes
    refine ⟨of_decide_eq_false hlast, slashes.reverse, ?_,
      fun n hn => hslashes n (List.mem_reverse.mp hn)⟩
    rw [← List.reverse_inj, ← hback]
    simp

/-- The path without the names that lead nowhere, but with the slash in front. -/
def tidy (p : Path) : Path :=
  (if p.head? = some "" then [""] else []) ++ p.filter fun name => !isIdle name

theorem tidy_sublist (p : Path) : p.tidy.Sublist p := by
  cases p with
  | nil => exact List.Sublist.refl []
  | cons name rest =>
    unfold tidy
    by_cases h : name = ""
    · subst h
      exact (List.filter_sublist (l := rest)).cons_cons ""
    · rw [List.head?_cons, if_neg (by simpa using h), List.nil_append]
      exact List.filter_sublist

theorem filter_tidy (p : Path) :
    p.tidy.filter (fun name => !isIdle name) = p.filter fun name => !isIdle name := by
  unfold tidy
  rw [List.filter_append, List.filter_filter]
  split <;> simp [isIdle]

theorem head?_tidy (p : Path) : p.tidy.head? = some "" ↔ p.head? = some "" := by
  unfold tidy
  by_cases h : p.head? = some ""
  · simp [h]
  · rw [if_neg h, List.nil_append]
    refine iff_of_false (fun hhead => ?_) h
    have hmem := List.mem_of_mem_head? hhead
    simp [isIdle] at hmem

theorem isAbsolute_append (p : Path) (hq : q ≠ []) (hhead : q.head? ≠ some "") :
    (p ++ q).isAbsolute = decide (p.head? = some "") := by
  cases p with
  | nil => simp [isAbsolute, hhead]
  | cons name rest =>
    have hlength : 0 < q.length := List.length_pos_iff.mpr hq
    have : 1 < (name :: rest ++ q).length := by
      rw [List.length_append, List.length_cons]
      omega
    simp [isAbsolute]
    omega

theorem stations_concat (front : Path) (hn : names ≠ []) :
    stations front (names ++ [name]) = stations front names ++ [front ++ names] := by
  induction names generalizing front with
  | nil => exact absurd rfl hn
  | cons first rest ih =>
    cases rest with
    | nil => rfl
    | cons next rest =>
      have hrest := ih (front ++ [first]) (List.cons_ne_nil _ _)
      simp only [List.cons_append, stations] at hrest ⊢
      rw [hrest]
      simp

/-- **What is passed on the way to a name:** the path that it stands behind, and what that path passes. -/
theorem passed_concat (p : Path) (hnames : ∀ n ∈ names, Plain n) (hn : names ≠ [])
    (hname : Plain name) :
    (p ++ (names ++ [name])).passed = (p.tidy ++ names) :: (p.tidy ++ names).passed := by
  have hkeep : names.filter (fun n => !isIdle n) = names :=
    List.filter_eq_self.mpr fun n hm => by rw [(hnames n hm).not_isIdle]; rfl
  have hlast : [name].filter (fun n => !isIdle n) = [name] := by simp [hname.not_isIdle]
  have hhead : names.head? ≠ some "" := fun h =>
    (hnames "" (List.mem_of_mem_head? h)).nonempty rfl
  have hhead' : (names ++ [name]).head? ≠ some "" := by
    rwa [List.head?_append_of_ne_nil _ hn]
  unfold passed
  rw [isAbsolute_append p (by simp) hhead', isAbsolute_append p.tidy hn hhead]
  rw [List.filter_append, List.filter_append, List.filter_append, filter_tidy, hkeep, hlast,
    ← List.append_assoc, stations_concat _ (by simp [hn]), List.reverse_append]
  simp only [head?_tidy, List.reverse_singleton, List.singleton_append, List.cons.injEq, and_true]
  unfold tidy
  simp

end TileStream.Path
