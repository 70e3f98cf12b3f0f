import TileStream.Cache.Recency
import TileStream.Proofs.Geo.Order
import TileStream.Proofs.Table

/-! # The two views of a recency index

The index keeps stamps by quad and quads by stamp, and `Recency.Sound` says that they are the same
stamps, the quads in strict order. So the search for the oldest quad that is not pinned finds one
whenever there is one (`oldestUnpinned_eq_none`), and the one it finds is older than all others that are
not pinned (`older_of_oldestUnpinned`).

How the stamps are listed carries no meaning: indices match when they have the same stamps and the same
order (`Recency.Matches`), and the stamps alone tell the order (`matches_of_stamps`). -/

namespace TileStream

namespace Recency

variable {r r' : Recency} {quad : QuadId}

/-- The quads by stamp are the stamps by quad, in strict order. -/
structure Sound (r : Recency) : Prop where
  sorted : r.order.Pairwise fun a b => older a b = true
  mem : ∀ n q, (n, q) ∈ r.order ↔ r.stamp? q = some n

/-! ### The order of stamped quads -/

theorem older_iff {a b : Nat × QuadId} :
    older a b = true ↔ a.1 < b.1 ∨ a.1 = b.1 ∧ a.2.before b.2 = true := by
  simp [older]

theorem not_older_self (a : Nat × QuadId) : older a a = false := by
  rw [← Bool.not_eq_true, older_iff, TileId.not_before_self]
  simp

theorem older_trans {a b c : Nat × QuadId} (h : older a b = true) (h' : older b c = true) :
    older a c = true := by
  rw [older_iff] at *
  rcases h with h | ⟨h, hb⟩ <;> rcases h' with h' | ⟨h', hb'⟩
  · exact .inl (by omega)
  · exact .inl (by omega)
  · exact .inl (by omega)
  · exact .inr ⟨by omega, TileId.before_trans hb hb'⟩

theorem older_or {a b : Nat × QuadId} (h : a ≠ b) : older a b = true ∨ older b a = true := by
  rw [older_iff, older_iff]
  rcases Nat.lt_trichotomy a.1 b.1 with hlt | heq | hgt
  · exact .inl (.inl hlt)
  · have hne : a.2 ≠ b.2 := fun he => h (Prod.ext heq he)
    rcases TileId.before_or hne with hb | hb
    · exact .inl (.inr ⟨heq, hb⟩)
    · exact .inr (.inr ⟨heq.symm, hb⟩)
  · exact .inr (.inl hgt)

theorem mem_place {e x : Nat × QuadId} {xs : List (Nat × QuadId)} :
    x ∈ place e xs ↔ x = e ∨ x ∈ xs := by
  induction xs with
  | nil => simp [place]
  | cons y ys ih =>
    unfold place
    split
    · next he =>
      subst he
      simp
    · split
      · exact List.mem_cons
      · rw [List.mem_cons, ih, List.mem_cons]
        tauto

theorem sorted_place {e : Nat × QuadId} {xs : List (Nat × QuadId)}
    (h : xs.Pairwise fun a b => older a b = true) :
    (place e xs).Pairwise fun a b => older a b = true := by
  induction xs with
  | nil => exact List.pairwise_singleton _ _
  | cons y ys ih =>
    obtain ⟨hy, hys⟩ := List.pairwise_cons.mp h
    unfold place
    split
    · exact h
    · next hne =>
      split
      · next hlt =>
        refine List.pairwise_cons.mpr ⟨fun x hx => ?_, h⟩
        rcases List.mem_cons.mp hx with rfl | hx
        · exact hlt
        · exact older_trans hlt (hy x hx)
      · next hnot =>
        refine List.pairwise_cons.mpr ⟨fun x hx => ?_, ih hys⟩
        rcases mem_place.mp hx with rfl | hx
        · exact (older_or hne).resolve_left hnot
        · exact hy x hx

theorem Sound.nodup (h : r.Sound) : r.order.Nodup := by
  refine h.sorted.imp fun {a b} hab he => ?_
  rw [he, not_older_self] at hab
  cases hab

/-! ### Seeing and forgetting quads -/

theorem sound_empty : empty.Sound := ⟨List.Pairwise.nil, fun n q => by simp [empty, stamp?]⟩

/-- A stamp never goes back. -/
theorem stamp?_touch (r : Recency) (quad q : QuadId) (stamp : Nat) :
    (r.touch quad stamp).stamp? q =
      if q = quad then some (max ((r.stamp? quad).getD 0) stamp) else r.stamp? q := by
  unfold touch
  split
  · next hnone =>
    have hquad : r.stamp? quad = none := hnone
    rw [hquad, Option.getD_none, Nat.zero_max]
    exact r.stamps.get?_set quad q stamp
  · next current hc =>
    have hquad : r.stamp? quad = some current := hc
    rw [hquad]
    split
    · next hlt =>
      rw [Option.getD_some, Nat.max_eq_right (Nat.le_of_lt hlt)]
      exact r.stamps.get?_set quad q stamp
    · next hge =>
      rw [Option.getD_some, Nat.max_eq_left (Nat.le_of_not_lt hge)]
      by_cases he : q = quad
      · rw [if_pos he, he, hquad]
      · rw [if_neg he]

theorem stamp?_erase (r : Recency) (quad q : QuadId) :
    (r.erase quad).stamp? q = if q = quad then none else r.stamp? q := by
  unfold erase
  split
  · next hnone =>
    by_cases he : q = quad
    · rw [if_pos he, he]
      exact hnone
    · rw [if_neg he]
  · exact r.stamps.get?_erase quad q

theorem contains_touch (r : Recency) (quad q : QuadId) (stamp : Nat) :
    (r.touch quad stamp).contains q = (decide (q = quad) || r.contains q) := by
  unfold touch
  split
  · exact Table.contains_set _ _ _ _
  · next current hc =>
    split
    · exact Table.contains_set _ _ _ _
    · have hin : r.contains quad = true := r.stamps.contains_iff.mpr ⟨current, hc⟩
      by_cases he : q = quad
      · subst he; simpa using hin
      · simp [he]

theorem contains_erase (r : Recency) (quad q : QuadId) :
    (r.erase quad).contains q = (decide (q ≠ quad) && r.contains q) := by
  unfold erase
  split
  · next hnone =>
    have hout : r.contains quad = false := r.stamps.contains_eq_false_iff.mpr hnone
    by_cases he : q = quad
    · subst he; simpa using hout
    · simp [he]
  · exact Table.contains_erase _ _ _

theorem size_touch (r : Recency) (quad : QuadId) (stamp : Nat) :
    (r.touch quad stamp).size = if r.contains quad then r.size else r.size + 1 := by
  unfold touch
  split
  · exact Table.size_set_eq _ _ _
  · next current hc =>
    have hin : r.contains quad = true := r.stamps.contains_iff.mpr ⟨current, hc⟩
    rw [if_pos hin]
    split
    · exact (Table.size_set_eq _ _ _).trans (if_pos hin)
    · rfl

theorem size_erase (h : r.contains quad = true) : r.size = (r.erase quad).size + 1 := by
  unfold erase
  split
  · next hnone =>
    have hout : r.contains quad = false := r.stamps.contains_eq_false_iff.mpr hnone
    rw [hout] at h
    cases h
  · exact Table.size_erase _ h

theorem mem_erase_order (h : r.Sound) {current : Nat} (hc : r.stamp? quad = some current) (n : Nat)
    (q : QuadId) : (n, q) ∈ r.order.erase (current, quad) ↔ q ≠ quad ∧ r.stamp? q = some n := by
  rw [h.nodup.mem_erase_iff, h.mem, Ne, Prod.mk.injEq]
  by_cases he : q = quad
  · subst he
    simp only [hc, and_true, ne_eq, not_true, false_and, iff_false, not_and, Option.some.injEq]
    exact fun hne heq => hne heq.symm
  · simp [he]

theorem sound_touch (h : r.Sound) (quad : QuadId) (stamp : Nat) : (r.touch quad stamp).Sound := by
  unfold touch
  split
  · next hnone =>
    refine ⟨sorted_place h.sorted, fun n q => ?_⟩
    show _ ↔ (r.stamps.set quad stamp).get? q = some n
    rw [mem_place, h.mem, Table.get?_set, Prod.mk.injEq]
    by_cases he : q = quad
    · subst he; simp [stamp?, hnone, eq_comm]
    · simp [he, stamp?]
  · next current hc =>
    split
    · refine ⟨sorted_place (h.sorted.sublist List.erase_sublist), fun n q => ?_⟩
      show _ ↔ (r.stamps.set quad stamp).get? q = some n
      rw [mem_place, mem_erase_order h hc, Table.get?_set, Prod.mk.injEq]
      by_cases he : q = quad
      · subst he; simp [eq_comm]
      · simp [he, stamp?]
    · exact h

theorem sound_erase (h : r.Sound) (quad : QuadId) : (r.erase quad).Sound := by
  unfold erase
  split
  · exact h
  · next current hc =>
    refine ⟨h.sorted.sublist List.erase_sublist, fun n q => ?_⟩
    show _ ↔ (r.stamps.erase quad).get? q = some n
    rw [mem_erase_order h hc, Table.get?_erase]
    by_cases he : q = quad <;> simp [he, stamp?]

/-! ### The oldest quad -/

theorem mem_order (h : r.Sound) : quad ∈ r.order.map (·.2) ↔ r.contains quad = true := by
  rw [contains, Table.contains_iff, List.mem_map]
  constructor
  · rintro ⟨⟨n, q⟩, he, rfl⟩
    exact ⟨n, (h.mem n q).mp he⟩
  · rintro ⟨n, hn⟩
    exact ⟨(n, quad), (h.mem n quad).mpr hn, rfl⟩

theorem oldestUnpinned_eq_none (h : r.Sound) {pinned : QuadId → Bool} :
    r.oldestUnpinned pinned = none ↔ ∀ q, r.contains q = true → pinned q = true := by
  simp only [oldestUnpinned, List.find?_eq_none, mem_order h]
  simp

theorem oldestUnpinned_eq_some (h : r.Sound) {pinned : QuadId → Bool} {victim : QuadId}
    (hv : r.oldestUnpinned pinned = some victim) :
    r.contains victim = true ∧ pinned victim = false := by
  have hp := List.find?_some hv
  exact ⟨(mem_order h).mp (List.mem_of_find?_eq_some hv), by simpa using hp⟩

/-- **The oldest quad that is not pinned is older than every other one** that is not pinned. -/
theorem older_of_oldestUnpinned (h : r.Sound) {pinned : QuadId → Bool} {victim : QuadId}
    (hv : r.oldestUnpinned pinned = some victim) {n m : Nat} (hn : r.stamp? victim = some n)
    (hm : r.stamp? quad = some m) (hp : pinned quad = false) (hne : quad ≠ victim) :
    older (n, victim) (m, quad) = true := by
  obtain ⟨-, before, after, horder, hbefore⟩ := List.find?_eq_some_iff_append.mp hv
  obtain ⟨first, rest, hsplit, hfirst, hrest⟩ := List.map_eq_append_iff.mp horder
  obtain ⟨e, last, rfl, rfl, -⟩ := List.map_eq_cons_iff.mp hrest
  have he : e.1 = n := by
    have hmem : (e.1, e.2) ∈ r.order := hsplit ▸ by simp
    exact Option.some.inj (((h.mem _ _).mp hmem).symm.trans hn)
  have hquad : (m, quad) ∈ first ++ e :: last := hsplit ▸ (h.mem m quad).mpr hm
  have hsorted := hsplit ▸ h.sorted
  rcases List.mem_append.mp hquad with hin | hin
  · -- the quads in front are pinned
    have hpinned := hbefore quad (hfirst ▸ List.mem_map_of_mem hin)
    simp [hp] at hpinned
  · have hlast : (m, quad) ∈ last :=
      (List.mem_cons.mp hin).resolve_left fun heq => hne (congrArg Prod.snd heq)
    have hafter := (List.pairwise_append.mp hsorted).2.1
    exact he ▸ List.rel_of_pairwise_cons hafter hlast

/-! ### Indices with the same stamps -/

/-- The same stamps and the same order, however the stamps are kept. -/
structure Matches (r r' : Recency) : Prop where
  order : r'.order = r.order
  stamps : ∀ q, r'.stamp? q = r.stamp? q

theorem Matches.refl (r : Recency) : r.Matches r := ⟨rfl, fun _ => rfl⟩

/-- **The stamps determine the order.** -/
theorem matches_of_stamps (h : r.Sound) (h' : r'.Sound) (hs : ∀ q, r'.stamp? q = r.stamp? q) :
    r.Matches r' := by
  have hperm : r'.order.Perm r.order := by
    refine (List.perm_ext_iff_of_nodup h'.nodup h.nodup).mpr fun e => ?_
    rw [h'.mem e.1 e.2, h.mem e.1 e.2, hs]
  refine ⟨hperm.eq_of_pairwise (fun a b _ _ hab hba => ?_) h'.sorted h.sorted, hs⟩
  have hself := older_trans hab hba
  rw [not_older_self] at hself
  cases hself

theorem Matches.sound (hm : r.Matches r') (h : r.Sound) : r'.Sound := by
  refine ⟨hm.order ▸ h.sorted, fun n q => ?_⟩
  rw [hm.order, hm.stamps]
  exact h.mem n q

theorem Matches.contains (hm : r.Matches r') (q : QuadId) : r'.contains q = r.contains q :=
  congrArg Option.isSome (hm.stamps q)

theorem Matches.size (hm : r.Matches r') : r'.size = r.size := by
  have hcount : r'.stamps.values.countP (fun _ => true) = r.stamps.values.countP fun _ => true :=
    Table.countP_values_congr _ fun q n _ => by
      rw [show r'.stamps.get? q = r.stamps.get? q from hm.stamps q]
  rwa [Table.countP_values_true, Table.countP_values_true] at hcount

theorem Matches.oldestUnpinned (hm : r.Matches r') (pinned : QuadId → Bool) :
    r'.oldestUnpinned pinned = r.oldestUnpinned pinned := by
  unfold Recency.oldestUnpinned
  rw [hm.order]

theorem Matches.touch (hm : r.Matches r') (quad : QuadId) (stamp : Nat) :
    (r.touch quad stamp).Matches (r'.touch quad stamp) := by
  refine ⟨?_, fun q => by rw [stamp?_touch, stamp?_touch, hm.stamps, hm.stamps]⟩
  unfold Recency.touch
  rw [show r'.stamps.get? quad = r.stamps.get? quad from hm.stamps quad, hm.order]
  split
  · rfl
  · split
    · rfl
    · exact hm.order

theorem Matches.erase (hm : r.Matches r') (quad : QuadId) :
    (r.erase quad).Matches (r'.erase quad) := by
  refine ⟨?_, fun q => by rw [stamp?_erase, stamp?_erase, hm.stamps]⟩
  unfold Recency.erase
  rw [show r'.stamps.get? quad = r.stamps.get? quad from hm.stamps quad, hm.order]
  split
  · exact hm.order
  · rfl

end Recency

end TileStream
