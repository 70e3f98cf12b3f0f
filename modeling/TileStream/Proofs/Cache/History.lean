import Mathlib.Data.List.Induction
import TileStream.Proofs.Cache.Recency

/-! # What a recency index knows of the past

An index that was only changed by seeing quads, at any stamps, and by forgetting them keeps its two views
in step (`Recency.sound_after`). Of the calls that led to it there is left, for each quad it knows, the
greatest stamp at which the quad was seen since it last became known (`Recency.stamp?_after_eq_some_iff`),
and nothing else: the stamps tell the order, and the order tells the oldest quad that is not pinned
(`Recency.oldestUnpinned_eq_some_iff`). So the order in which two quads are seen leaves no trace
(`Recency.matches_after_swap`). `Recency.after_exact` puts this together. -/

namespace TileStream

namespace Recency

/-- A call that changes the index. -/
inductive Call where
  | touch (quad : QuadId) (stamp : Nat)
  | erase (quad : QuadId)

/-- The index after a call. -/
def act (r : Recency) : Call → Recency
  | .touch quad stamp => r.touch quad stamp
  | .erase quad => r.erase quad

/-- The index after some calls. -/
def after (r : Recency) (calls : List Call) : Recency := calls.foldl act r

/-- The stamp at which a call sees `quad`. -/
def Call.stampOf? (quad : QuadId) : Call → Option Nat
  | .touch q stamp => if q = quad then some stamp else none
  | .erase _ => none

/-- The stamps at which some calls see `quad`. -/
def stampsOf (quad : QuadId) (calls : List Call) : List Nat := calls.filterMap (Call.stampOf? quad)

variable {r r' : Recency} {quad : QuadId} {calls : List Call} {n : Nat}

theorem after_append (r : Recency) (calls calls' : List Call) :
    r.after (calls ++ calls') = (r.after calls).after calls' := List.foldl_append

/-! ### The two views stay in step -/

theorem sound_act (h : r.Sound) (call : Call) : (r.act call).Sound := by
  cases call with
  | touch quad stamp => exact sound_touch h quad stamp
  | erase quad => exact sound_erase h quad

theorem Sound.after (h : r.Sound) (calls : List Call) : (r.after calls).Sound := by
  induction calls generalizing r with
  | nil => exact h
  | cons call calls ih => exact ih (sound_act h call)

/-- **Any calls keep the two views in step.** -/
theorem sound_after (calls : List Call) : (empty.after calls).Sound := sound_empty.after calls

/-! ### Stamps -/

/-- A call that does not forget a known quad leaves it with the greater stamp. -/
theorem stamp?_act (h : r.stamp? quad = some n) {call : Call} (hkept : call ≠ .erase quad) :
    (r.act call).stamp? quad = some ((call.stampOf? quad).elim n (max n)) := by
  cases call with
  | touch q stamp =>
    rw [act, stamp?_touch, Call.stampOf?]
    by_cases he : q = quad
    · subst he
      rw [if_pos rfl, if_pos rfl, h]
      rfl
    · rw [if_neg (Ne.symm he), if_neg he]
      exact h
  | erase q =>
    have hne : quad ≠ q := fun he => hkept (congrArg Call.erase he.symm)
    rw [act, stamp?_erase, if_neg hne]
    exact h

/-- **While a quad is not forgotten** its stamp is the greatest one at which it was seen. -/
theorem stamp?_after (h : r.stamp? quad = some n) (hkept : .erase quad ∉ calls) :
    (r.after calls).stamp? quad = (n :: stampsOf quad calls).max? := by
  induction calls generalizing r n with
  | nil => exact h
  | cons call calls ih =>
    rw [List.mem_cons, not_or] at hkept
    have hstep := ih (stamp?_act h (Ne.symm hkept.1)) hkept.2
    have hcons : (r.after (call :: calls)).stamp? quad = ((r.act call).after calls).stamp? quad := rfl
    rw [hcons, hstep, stampsOf, stampsOf, List.filterMap_cons]
    cases call.stampOf? quad <;> rfl

/-- A quad becomes known only when it is seen. -/
theorem exists_touch_of_contains_act (hout : r.contains quad = false) {call : Call}
    (h : (r.act call).contains quad = true) : ∃ stamp, call = .touch quad stamp := by
  cases call with
  | touch q stamp =>
    have hknown := (contains_touch r q quad stamp).symm.trans h
    rw [hout, Bool.or_false] at hknown
    exact ⟨stamp, by rw [of_decide_eq_true hknown]⟩
  | erase q =>
    have hknown := (contains_erase r q quad).symm.trans h
    rw [hout, Bool.and_false] at hknown
    cases hknown

theorem ne_erase_of_contains_act {call : Call} (h : (r.act call).contains quad = true) :
    call ≠ .erase quad := by
  rintro rfl
  have hknown := (contains_erase r quad quad).symm.trans h
  simp at hknown

/-- **A known quad came at one of the calls** and was not forgotten since. -/
theorem exists_arrival (h : (empty.after calls).contains quad = true) :
    ∃ before stamp since, calls = before ++ .touch quad stamp :: since ∧
      (empty.after before).contains quad = false ∧ .erase quad ∉ since := by
  induction calls using List.reverseRecOn with
  | nil => cases h
  | append_singleton calls call ih =>
    rw [after_append] at h
    by_cases hin : (empty.after calls).contains quad = true
    · obtain ⟨before, stamp, since, rfl, hnew, hkept⟩ := ih hin
      refine ⟨before, stamp, since ++ [call], by simp, hnew, ?_⟩
      rw [List.mem_append, List.mem_singleton]
      exact fun hmem => hmem.elim hkept (ne_erase_of_contains_act h).symm
    · -- the quad came at the last call
      have hout : (empty.after calls).contains quad = false := Bool.eq_false_iff.mpr hin
      obtain ⟨stamp, rfl⟩ := exists_touch_of_contains_act hout h
      exact ⟨calls, stamp, [], rfl, hout, List.not_mem_nil⟩

/-- From the call on at which a quad became known, the stamps at which it was seen tell its stamp. -/
theorem stamp?_after_arrival {before since : List Call} {stamp : Nat}
    (hnew : (empty.after before).contains quad = false) (hkept : .erase quad ∉ since) :
    (empty.after (before ++ .touch quad stamp :: since)).stamp? quad =
      (stamp :: stampsOf quad since).max? := by
  have hnone : (empty.after before).stamp? quad = none :=
    (empty.after before).stamps.contains_eq_false_iff.mp hnew
  have hcame : ((empty.after before).touch quad stamp).stamp? quad = some stamp := by
    rw [stamp?_touch, if_pos rfl, hnone, Option.getD_none, Nat.zero_max]
  rw [after_append]
  exact stamp?_after hcame hkept

/-- **The stamp of a quad** is the greatest one at which it was seen since it last became known. -/
theorem stamp?_after_eq_some_iff : (empty.after calls).stamp? quad = some n ↔
    ∃ before stamp since, calls = before ++ .touch quad stamp :: since ∧
      (empty.after before).contains quad = false ∧ .erase quad ∉ since ∧
      (stamp :: stampsOf quad since).max? = some n := by
  constructor
  · intro h
    have hin : (empty.after calls).contains quad = true :=
      (empty.after calls).stamps.contains_iff.mpr ⟨n, h⟩
    obtain ⟨before, stamp, since, rfl, hnew, hkept⟩ := exists_arrival hin
    exact ⟨before, stamp, since, rfl, hnew, hkept, (stamp?_after_arrival hnew hkept).symm.trans h⟩
  · rintro ⟨before, stamp, since, rfl, hnew, hkept, hmax⟩
    exact (stamp?_after_arrival hnew hkept).trans hmax

/-! ### The oldest quad -/

/-- **The oldest quad that is not pinned** is the one with the least stamp, ties by id. -/
theorem oldestUnpinned_eq_some_iff (h : r.Sound) {pinned : QuadId → Bool} :
    r.oldestUnpinned pinned = some quad ↔ ∃ n, r.stamp? quad = some n ∧ pinned quad = false ∧
      ∀ q m, r.stamp? q = some m → pinned q = false → q ≠ quad →
        n < m ∨ n = m ∧ quad.before q = true := by
  constructor
  · intro hv
    obtain ⟨hin, hfree⟩ := oldestUnpinned_eq_some h hv
    obtain ⟨n, hn⟩ := r.stamps.contains_iff.mp hin
    refine ⟨n, hn, hfree, fun q m hm hp hne => ?_⟩
    exact older_iff.mp (older_of_oldestUnpinned h hv hn hm hp hne)
  · rintro ⟨n, hn, hfree, hleast⟩
    cases hv : r.oldestUnpinned pinned with
    | none =>
      have hpinned := (oldestUnpinned_eq_none h).mp hv quad (r.stamps.contains_iff.mpr ⟨n, hn⟩)
      rw [hfree] at hpinned
      cases hpinned
    | some victim =>
      obtain ⟨hin, hfree'⟩ := oldestUnpinned_eq_some h hv
      obtain ⟨m, hm⟩ := r.stamps.contains_iff.mp hin
      by_contra hne
      have hne' : victim ≠ quad := fun he => hne (congrArg some he)
      -- each of the two would be older than the other
      have hover : older (n, quad) (m, victim) = true :=
        older_iff.mpr (hleast victim m hm hfree' hne')
      have hunder := older_of_oldestUnpinned h hv hm hn hfree hne'.symm
      exact Bool.false_ne_true ((not_older_self _).symm.trans (older_trans hover hunder))

/-! ### The order of the calls -/

theorem Matches.after (hm : r.Matches r') (calls : List Call) :
    (r.after calls).Matches (r'.after calls) := by
  induction calls generalizing r r' with
  | nil => exact hm
  | cons call calls ih =>
    cases call with
    | touch quad stamp => exact ih (hm.touch quad stamp)
    | erase quad => exact ih (hm.erase quad)

/-- **Seeing two quads** leads to the same index in either order. -/
theorem matches_touch_touch (h : r.Sound) {a b : QuadId} (hne : a ≠ b) (n m : Nat) :
    ((r.touch a n).touch b m).Matches ((r.touch b m).touch a n) := by
  refine matches_of_stamps (sound_touch (sound_touch h a n) b m)
    (sound_touch (sound_touch h b m) a n) fun q => ?_
  simp only [stamp?_touch, if_neg hne, if_neg hne.symm]
  by_cases ha : q = a
  · rw [if_pos ha, if_neg fun hb => hne (ha.symm.trans hb), if_pos ha]
  · rw [if_neg ha, if_neg ha]

/-- Whatever comes before and after, two quads can be seen in either order. -/
theorem matches_after_swap {a b : QuadId} (hne : a ≠ b) (n m : Nat) (calls further : List Call) :
    (empty.after (calls ++ .touch a n :: .touch b m :: further)).Matches
      (empty.after (calls ++ .touch b m :: .touch a n :: further)) := by
  rw [after_append, after_append]
  exact (matches_touch_touch (sound_after calls) hne n m).after further

/-! ### All that is known -/

/-- **What an index knows** after any calls. Its order holds, in strict order, just the stamps by quad.
The stamp of a quad is the greatest one at which it was seen since it last became known. Unless all
known quads are pinned, the search for the oldest one that is not gives the one with the least stamp,
ties by id. And seeing two quads in either order makes no difference, then or later. -/
theorem after_exact (calls : List Call) :
    let r := empty.after calls
    (r.order.Pairwise fun a b => a.1 < b.1 ∨ a.1 = b.1 ∧ a.2.before b.2 = true) ∧
    (∀ n q, (n, q) ∈ r.order ↔ r.stamp? q = some n) ∧
    (∀ q n, r.stamp? q = some n ↔
      ∃ before stamp since, calls = before ++ .touch q stamp :: since ∧
        (empty.after before).contains q = false ∧ .erase q ∉ since ∧
        (stamp :: stampsOf q since).max? = some n) ∧
    (∀ pinned : QuadId → Bool,
      (r.oldestUnpinned pinned = none ↔ ∀ q, r.contains q = true → pinned q = true) ∧
      ∀ quad, r.oldestUnpinned pinned = some quad ↔
        ∃ n, r.stamp? quad = some n ∧ pinned quad = false ∧
          ∀ q m, r.stamp? q = some m → pinned q = false → q ≠ quad →
            n < m ∨ n = m ∧ quad.before q = true) ∧
    ∀ a b n m further, a ≠ b →
      (empty.after (calls ++ .touch a n :: .touch b m :: further)).Matches
        (empty.after (calls ++ .touch b m :: .touch a n :: further)) := by
  intro r
  have h : r.Sound := sound_after calls
  refine ⟨h.sorted.imp older_iff.mp, h.mem, fun q n => stamp?_after_eq_some_iff, fun pinned => ?_, ?_⟩
  · exact ⟨oldestUnpinned_eq_none h, fun quad => oldestUnpinned_eq_some_iff h⟩
  · exact fun a b n m further hne => matches_after_swap hne n m calls further

/-- Two quads seen once more, one of them at a stamp that comes late. -/
theorem after_exact_late_stamp :
    let calls : List Call := [.touch ⟨1, 0, 0⟩ 5, .touch ⟨1, 1, 0⟩ 3]
    (⟨1, 0, 0⟩ : QuadId) ≠ ⟨1, 1, 0⟩ ∧
      (empty.after (calls ++ [.touch ⟨1, 0, 0⟩ 2, .touch ⟨1, 1, 0⟩ 7])).Matches
        (empty.after (calls ++ [.touch ⟨1, 1, 0⟩ 7, .touch ⟨1, 0, 0⟩ 2])) :=
  ⟨by decide, (after_exact _).2.2.2.2 _ _ 2 7 [] (by decide)⟩

/-- A stamp that comes late changes nothing, but a quad that was forgotten starts anew. -/
example : let r := empty.after [.touch ⟨1, 0, 0⟩ 5, .touch ⟨1, 1, 0⟩ 3, .touch ⟨1, 0, 0⟩ 2,
      .erase ⟨1, 1, 0⟩, .touch ⟨1, 1, 0⟩ 1]
    r.order = [(1, ⟨1, 1, 0⟩), (5, ⟨1, 0, 0⟩)] := by decide

end Recency

end TileStream
