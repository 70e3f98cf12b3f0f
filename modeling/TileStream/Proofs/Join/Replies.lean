import Mathlib.Data.List.Induction
import TileStream.Join.Tiles

/-! # Replies to fetches

From outside, all that befalls a fetch is that it is ordered and that it is answered, any number of
times and in any order. The reply to a fetch is the first outcome that came after it was last ordered
(`Replied`). Outcomes that came before count for nothing, and neither do those that come later. Read
from the beginning, the reply is what a state of three values becomes (`Reply.after`,
`replied_iff`). -/

namespace TileStream

/-- What can befall a fetch. -/
inductive Event where
  | ordered (f : Fetch)
  | answered (f : Fetch) (outcome : Outcome)

/-- The fetch that an event befalls. -/
def Event.fetch : Event → Fetch
  | ordered f | answered f _ => f

/-- **The reply to a fetch** is the first outcome since it was last ordered. -/
def Replied (es : List Event) (f : Fetch) (outcome : Outcome) : Prop :=
  ∃ before between after, es = before ++ .ordered f :: (between ++ .answered f outcome :: after) ∧
    (∀ e ∈ between, e.fetch ≠ f) ∧ .ordered f ∉ after

/-- How things stand with a fetch. -/
inductive Reply where
  | unasked
  | asked
  | answered (outcome : Outcome)

/-- How things stand after one more event. -/
def Reply.after (f : Fetch) : Reply → Event → Reply
  | r, .ordered g => if g = f then asked else r
  | asked, .answered g outcome => if g = f then answered outcome else asked
  | r, .answered _ _ => r

/-- How things stand after some events. -/
def reply (es : List Event) (f : Fetch) : Reply := es.foldl (Reply.after f) .unasked

variable {es : List Event} {f : Fetch} {outcome : Outcome}

/-! ### One event more -/

theorem reply_concat (es : List Event) (e : Event) (f : Fetch) :
    reply (es ++ [e]) f = (reply es f).after f e := by
  rw [reply, List.foldl_append]
  rfl

theorem Reply.after_of_ne {e : Event} (r : Reply) (h : e.fetch ≠ f) : r.after f e = r := by
  cases e with
  | ordered g => exact if_neg h
  | answered g outcome =>
    cases r with
    | asked => exact if_neg h
    | unasked | answered => rfl

/-- An order starts anew. -/
theorem reply_append_ordered (es : List Event) (fs : List Fetch) (f : Fetch) :
    reply (es ++ fs.map .ordered) f = if f ∈ fs then .asked else reply es f := by
  induction fs generalizing es with
  | nil => simp
  | cons g fs ih =>
    rw [List.map_cons, List.append_cons, ih, reply_concat]
    by_cases hg : g = f
    · simp [hg, Reply.after]
    · simp [hg, Ne.symm hg, Reply.after]

/-- Only an answer that was asked for counts. -/
theorem reply_concat_answered (es : List Event) (g : Fetch) (outcome : Outcome) (f : Fetch)
    (h : f = g → reply es f ≠ .asked) : reply (es ++ [.answered g outcome]) f = reply es f := by
  rw [reply_concat]
  by_cases hg : g = f
  · cases hr : reply es f with
    | asked => exact absurd hr (h hg.symm)
    | unasked | answered => rfl
  · exact Reply.after_of_ne _ hg

theorem reply_concat_answered_self (h : reply es f = .asked) (outcome : Outcome) :
    reply (es ++ [.answered f outcome]) f = .answered outcome := by
  rw [reply_concat, h]
  exact if_pos rfl

/-! ### Reading from the beginning -/

theorem Reply.eq_of_after_asked {r : Reply} {e : Event} (h : r.after f e = .asked) :
    e = .ordered f ∨ r = .asked ∧ e.fetch ≠ f := by
  by_cases he : e.fetch = f
  · cases he
    cases e with
    | ordered => exact .inl rfl
    | answered => cases r <;> simp [after, Event.fetch] at h
  · rw [after_of_ne r he] at h
    exact .inr ⟨h, he⟩

theorem Reply.eq_of_after_answered {r : Reply} {e : Event} (h : r.after f e = .answered outcome) :
    r = .asked ∧ e = .answered f outcome ∨ r = .answered outcome ∧ e ≠ .ordered f := by
  by_cases he : e.fetch = f
  · cases e with
    | ordered g =>
      rw [show r.after f (.ordered g) = asked from if_pos he] at h
      cases h
    | answered g o =>
      cases r with
      | unasked => cases h
      | asked =>
        rw [show asked.after f (.answered g o) = answered o from if_pos he] at h
        cases h
        exact .inl ⟨rfl, by rw [← he]; rfl⟩
      | answered => exact .inr ⟨h, fun hne => by cases hne⟩
  · rw [after_of_ne r he] at h
    exact .inr ⟨h, fun hord => he (by rw [hord]; rfl)⟩

theorem foldl_after_of_ne (h : ∀ e ∈ es, e.fetch ≠ f) (r : Reply) :
    es.foldl (Reply.after f) r = r := by
  induction es with
  | nil => rfl
  | cons e es ih =>
    rw [List.foldl_cons, Reply.after_of_ne r (h e List.mem_cons_self)]
    exact ih fun e he => h e (List.mem_cons_of_mem _ he)

theorem foldl_after_answered (h : .ordered f ∉ es) :
    es.foldl (Reply.after f) (.answered outcome) = .answered outcome := by
  induction es with
  | nil => rfl
  | cons e es ih =>
    rw [List.mem_cons, not_or] at h
    rw [List.foldl_cons]
    cases e with
    | ordered g =>
      have hg : (Event.ordered g).fetch ≠ f := fun he => h.1 (by rw [← he]; rfl)
      rw [Reply.after_of_ne _ hg]
      exact ih h.2
    | answered => exact ih h.2

theorem exists_of_asked (h : reply es f = .asked) :
    ∃ before between, es = before ++ .ordered f :: between ∧ ∀ e ∈ between, e.fetch ≠ f := by
  -- from the last event back to the order
  induction es using List.reverseRecOn with
  | nil => cases h
  | append_singleton es e ih =>
    rw [reply_concat] at h
    rcases Reply.eq_of_after_asked h with rfl | ⟨hr, he⟩
    · exact ⟨es, [], rfl, fun _ hb => by cases hb⟩
    · obtain ⟨before, between, rfl, hb⟩ := ih hr
      refine ⟨before, between ++ [e], by simp, fun d hd => ?_⟩
      rcases List.mem_append.mp hd with hd | hd
      · exact hb d hd
      · rwa [List.mem_singleton.mp hd]

/-- **The reply is what the last state says.** -/
theorem replied_iff : Replied es f outcome ↔ reply es f = .answered outcome := by
  constructor
  · rintro ⟨before, between, after, rfl, hbetween, hafter⟩
    have hasked : (reply before f).after f (.ordered f) = .asked := if_pos rfl
    have hanswered : Reply.asked.after f (.answered f outcome) = .answered outcome := if_pos rfl
    rw [reply, List.foldl_append, List.foldl_cons, ← reply, hasked, List.foldl_append,
      foldl_after_of_ne hbetween, List.foldl_cons, hanswered, foldl_after_answered hafter]
  · intro h
    induction es using List.reverseRecOn with
    | nil => cases h
    | append_singleton es e ih =>
      rw [reply_concat] at h
      rcases Reply.eq_of_after_answered h with ⟨hr, rfl⟩ | ⟨hr, he⟩
      · obtain ⟨before, between, rfl, hb⟩ := exists_of_asked hr
        exact ⟨before, between, [], by simp, hb, List.not_mem_nil⟩
      · obtain ⟨before, between, after, rfl, hb, ha⟩ := ih hr
        refine ⟨before, between, after ++ [e], by simp, hb, ?_⟩
        rw [List.mem_append, List.mem_singleton, not_or]
        exact ⟨ha, he.symm⟩

/-- The reply to a fetch that was ordered among the last events is one of them. -/
theorem Replied.answered_of_ordered {es' : List Event} (h : Replied (es ++ es') f outcome)
    (ho : .ordered f ∈ es') : .answered f outcome ∈ es' := by
  rw [replied_iff] at h
  induction es' using List.reverseRecOn with
  | nil => cases ho
  | append_singleton es' e ih =>
    rw [← List.append_assoc, reply_concat] at h
    rcases Reply.eq_of_after_answered h with ⟨-, rfl⟩ | ⟨hr, he⟩
    · exact List.mem_append_right _ (List.mem_singleton_self _)
    · have hbefore : .ordered f ∈ es' :=
        (List.mem_append.mp ho).resolve_right fun hlast => he (List.mem_singleton.mp hlast).symm
      exact List.mem_append_left _ (ih hr hbefore)

theorem Replied.unique {outcome' : Outcome} (h : Replied es f outcome)
    (h' : Replied es f outcome') : outcome = outcome' := by
  rw [replied_iff] at h h'
  exact Reply.answered.inj (h.symm.trans h')

end TileStream
