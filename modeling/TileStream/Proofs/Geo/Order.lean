import TileStream.Proofs.Geo.Children

/-! # The order of ids

`TileId.before` compares the zoom, then the column, then the row. It is a strict order in which any
two ids are comparable, so a list sorted by it does not tell how it was listed before
(`sort_eq_of_perm`). Putting a list in order keeps its members and lists each of them once
(`mem_ordered`, `pairwise_ordered`). -/

namespace TileStream

namespace TileId

variable {a b c : TileId}

theorem before_iff : a.before b = true ↔ a.zoom.toNat < b.zoom.toNat ∨
    a.zoom.toNat = b.zoom.toNat ∧ (a.x.toNat < b.x.toNat ∨
      a.x.toNat = b.x.toNat ∧ a.y.toNat < b.y.toNat) := by
  simp only [before, Bool.or_eq_true, Bool.and_eq_true, decide_eq_true_eq, UInt8.lt_iff_toNat_lt,
    UInt32.lt_iff_toNat_lt, ← UInt8.toNat_inj, ← UInt32.toNat_inj]

theorem not_before_self (a : TileId) : a.before a = false := by
  rw [← Bool.not_eq_true, before_iff]
  omega

theorem before_trans (h : a.before b = true) (h' : b.before c = true) : a.before c = true := by
  rw [before_iff] at *
  omega

/-- **Any two ids are comparable.** -/
theorem before_or (h : a ≠ b) : a.before b = true ∨ b.before a = true := by
  rw [before_iff, before_iff]
  by_contra hnot
  refine h (ext_toNat ?_ ?_ ?_) <;> omega

/-! ### Sorting -/

theorem atMost_iff : a.atMost b = true ↔ b.before a = false := by simp [atMost]

theorem atMost_trans (h : a.atMost b = true) (h' : b.atMost c = true) : a.atMost c = true := by
  rw [atMost_iff, ← Bool.not_eq_true, before_iff] at *
  omega

theorem atMost_or (a b : TileId) : (a.atMost b || b.atMost a) = true := by
  rw [Bool.or_eq_true, atMost_iff, atMost_iff, ← Bool.not_eq_true, ← Bool.not_eq_true, before_iff,
    before_iff]
  omega

theorem eq_of_atMost (h : a.atMost b = true) (h' : b.atMost a = true) : a = b := by
  rw [atMost_iff] at h h'
  by_contra hne
  rcases before_or hne with hb | hb
  · rw [hb] at h'
    cases h'
  · rw [hb] at h
    cases h

theorem pairwise_sort (l : List TileId) : (sort l).Pairwise fun a b => a.atMost b = true :=
  @List.pairwise_mergeSort _ atMost (fun _ _ _ => atMost_trans) atMost_or l

/-- **Sorting forgets in which order the ids were listed.** -/
theorem sort_eq_of_perm {l l' : List TileId} (h : l.Perm l') : sort l = sort l' := by
  have hperm : (sort l).Perm (sort l') :=
    (List.mergeSort_perm l _).trans (h.trans (List.mergeSort_perm l' _).symm)
  exact hperm.eq_of_pairwise (fun _ _ _ _ => eq_of_atMost) (pairwise_sort l) (pairwise_sort l')

/-! ### Each id once -/

theorem mem_mergeRuns {l : List TileId} : a ∈ mergeRuns l ↔ a ∈ l := by
  induction l using mergeRuns.induct with
  | case1 => rfl
  | case2 t => rfl
  | case3 t ts ih =>
    rw [mergeRuns, if_pos rfl, ih]
    simp
  | case4 t u ts hne ih => rw [mergeRuns, if_neg hne, List.mem_cons, ih, ← List.mem_cons]

/-- **Without its repetitions a sorted list is strictly increasing.** -/
theorem pairwise_mergeRuns {l : List TileId} (h : l.Pairwise fun a b => a.atMost b = true) :
    (mergeRuns l).Pairwise fun a b => a.before b = true := by
  induction l using mergeRuns.induct with
  | case1 => exact .nil
  | case2 t => exact List.pairwise_singleton _ _
  | case3 t ts ih =>
    rw [mergeRuns, if_pos rfl]
    exact ih h.of_cons
  | case4 t u ts hne ih =>
    rw [mergeRuns, if_neg hne]
    obtain ⟨ht, hrest⟩ := List.pairwise_cons.mp h
    refine List.pairwise_cons.mpr ⟨fun b hb => ?_, ih hrest⟩
    -- `t` comes strictly before `u`, which comes no later than what follows it
    have htu : t.before u = true := by
      rcases before_or hne with h | h
      · exact h
      · rw [atMost_iff.mp (ht u List.mem_cons_self)] at h
        cases h
    rcases List.mem_cons.mp (mem_mergeRuns.mp hb) with rfl | hb
    · exact htu
    · have hub := List.rel_of_pairwise_cons hrest hb
      rw [atMost_iff, ← Bool.not_eq_true, before_iff] at hub
      rw [before_iff] at htu ⊢
      omega

theorem mem_ordered {l : List TileId} : a ∈ ordered l ↔ a ∈ l := by
  rw [ordered, mem_mergeRuns, sort, List.mem_mergeSort]

theorem pairwise_ordered (l : List TileId) :
    (ordered l).Pairwise fun a b => a.before b = true := pairwise_mergeRuns (pairwise_sort l)

end TileId

end TileStream
