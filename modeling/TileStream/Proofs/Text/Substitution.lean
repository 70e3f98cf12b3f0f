import Mathlib.Data.List.Infix
import TileStream.Text.Occurrence

/-! # Parts of a text replaced

`Replaced subs` relates a text to the one in which the parts that `subs` lists are replaced: what goes is an
occurrence of a part, and what stays begins none. A scan over the text yields such a one
(`Scans.replaced`), and `Text.replace` scans for one part.

When the parts are told apart by how they begin and new texts have no character of theirs (`Apart`), there
is one such text only (`Replaced.eq`) and no part occurs in it (`Replaced.not_infix`). Then nothing that is
put in ever forms a part with what stands beside it, or breaks one: replacing one more part afterwards is
replacing it with the others at once (`Replaced.then`), so parts may be replaced one after the other
(`replaced_foldl`). Every occurrence goes, wherever it stands, and the texts on its two sides are replaced
as if they stood alone (`Replaced.around`). -/

namespace TileStream.Text

/-- A part of a text and what takes its place. -/
abbrev Substitution : Type := List Char × List Char

/-- **A text with parts replaced.** -/
inductive Replaced (subs : List Substitution) : List Char → List Char → Prop
  | nil : Replaced subs [] []
  | swap {s cs out} (hs : s ∈ subs) (h : Replaced subs cs out) :
    Replaced subs (s.1 ++ cs) (s.2 ++ out)
  | keep {c cs out} (hnone : ∀ s ∈ subs, ¬ s.1 <+: c :: cs) (h : Replaced subs cs out) :
    Replaced subs (c :: cs) (c :: out)

/-- **Parts told apart:** they begin with one character, which comes nowhere else in them, none of them begins
another, and no character of a new text is one of theirs. -/
structure Apart (opening : Char) (subs : List Substitution) : Prop where
  opens : ∀ s ∈ subs, ∃ rest, s.1 = opening :: rest ∧ opening ∉ rest
  eq_of_prefix : ∀ s ∈ subs, ∀ s' ∈ subs, s.1 <+: s'.1 → s = s'
  ne_nil : ∀ s ∈ subs, s.2 ≠ []
  foreign : ∀ s ∈ subs, ∀ s' ∈ subs, ∀ c ∈ s.1, c ∉ s'.2

variable {opening : Char} {subs subs' : List Substitution} {s : Substitution}
  {c : Char} {w cs mid out out' : List Char}

theorem Apart.mono (h : Apart opening subs) (hsub : ∀ s ∈ subs', s ∈ subs) : Apart opening subs' where
  opens s hs := h.opens s (hsub s hs)
  eq_of_prefix s hs s' hs' := h.eq_of_prefix s (hsub s hs) s' (hsub s' hs')
  ne_nil s hs := h.ne_nil s (hsub s hs)
  foreign s hs s' hs' := h.foreign s (hsub s hs) s' (hsub s' hs')

theorem Replaced.congr (hsubs : ∀ s, s ∈ subs ↔ s ∈ subs') (h : Replaced subs cs out) :
    Replaced subs' cs out := by
  induction h with
  | nil => exact .nil
  | swap hs _ ih => exact .swap ((hsubs _).mp hs) ih
  | keep hnone _ ih => exact .keep (fun s hs => hnone s ((hsubs s).mpr hs)) ih

/-- What becomes of the beginning of a text. -/
theorem Replaced.cons_cases (h : Replaced subs (c :: cs) out) :
    (∃ s ∈ subs, ∃ cs' out', c :: cs = s.1 ++ cs' ∧ out = s.2 ++ out' ∧ Replaced subs cs' out') ∨
    ((∀ s ∈ subs, ¬ s.1 <+: c :: cs) ∧ ∃ out', out = c :: out' ∧ Replaced subs cs out') := by
  generalize htext : c :: cs = text at h
  cases h with
  | nil => cases htext
  | swap hs h => exact .inl ⟨_, hs, _, _, rfl, rfl, h⟩
  | keep hnone h =>
    cases htext
    exact .inr ⟨hnone, _, rfl, h⟩

/-- A text with no part in it stays. -/
theorem replaced_self (h : ∀ s ∈ subs, ¬ s.1 <:+: cs) : Replaced subs cs cs := by
  induction cs with
  | nil => exact .nil
  | cons c cs ih =>
    exact .keep (fun s hs hp => h s hs hp.isInfix) (ih fun s hs hi => h s hs (List.infix_cons hi))

/-! ### Texts in which no part begins -/

section

variable (ha : Apart opening subs)
include ha

theorem Apart.not_prefix (hc : c ≠ opening) (hs : s ∈ subs) : ¬ s.1 <+: c :: cs := by
  obtain ⟨rest, hrest, -⟩ := ha.opens s hs
  rw [hrest, List.cons_prefix_cons]
  exact fun h => hc h.1.symm

theorem Apart.opening_not_mem (hs : s ∈ subs) : opening ∉ s.2 := by
  obtain ⟨rest, hrest, -⟩ := ha.opens s hs
  exact ha.foreign s hs s hs opening (by rw [hrest]; exact List.mem_cons_self)

theorem Replaced.eq_nil (h : Replaced subs [] out) : out = [] := by
  generalize hnil : [] = text at h
  cases h with
  | nil => rfl
  | swap hs h =>
    obtain ⟨rest, hrest, -⟩ := ha.opens _ hs
    rw [hrest] at hnil
    cases hnil
  | keep => cases hnil

/-- Where no part begins the text stays, and the rest is replaced as if it stood alone. -/
theorem replaced_append_iff (hw : opening ∉ w) :
    Replaced subs (w ++ cs) out ↔ ∃ out', out = w ++ out' ∧ Replaced subs cs out' := by
  induction w generalizing out with
  | nil => exact ⟨fun h => ⟨out, rfl, h⟩, by rintro ⟨_, rfl, h⟩; exact h⟩
  | cons c w ih =>
    rw [List.mem_cons, not_or] at hw
    have hnone : ∀ s ∈ subs, ¬ s.1 <+: c :: (w ++ cs) := fun s hs =>
      ha.not_prefix (Ne.symm hw.1) hs
    constructor
    · intro h
      rcases h.cons_cases with ⟨s, hs, cs', out', htext, -, -⟩ | ⟨-, tail, rfl, htail⟩
      · exact absurd ⟨cs', htext.symm⟩ (hnone s hs)
      · obtain ⟨out', rfl, hout⟩ := (ih hw.2).mp htail
        exact ⟨out', rfl, hout⟩
    · rintro ⟨out', rfl, hout⟩
      exact .keep hnone ((ih hw.2).mpr ⟨out', rfl, hout⟩)

/-- What of a new text is none of the texts put in was there before. -/
theorem Replaced.of_append (hw : ∀ c ∈ w, ∀ s ∈ subs, c ∉ s.2) (h : Replaced subs cs (w ++ out)) :
    ∃ cs', cs = w ++ cs' ∧ Replaced subs cs' out := by
  induction w generalizing cs with
  | nil => exact ⟨cs, rfl, h⟩
  | cons c w ih =>
    cases cs with
    | nil => cases h.eq_nil ha
    | cons d cs =>
      rcases h.cons_cases with ⟨s, hs, cs', out', -, hout, -⟩ | ⟨-, tail, hout, htail⟩
      · obtain ⟨c', new, hnew⟩ := List.exists_cons_of_ne_nil (ha.ne_nil s hs)
        rw [hnew] at hout
        obtain ⟨rfl, -⟩ := List.cons.inj hout
        exact absurd (hnew ▸ List.mem_cons_self) (hw c List.mem_cons_self s hs)
      · obtain ⟨rfl, rfl⟩ := List.cons.inj hout
        obtain ⟨cs', rfl, hcs'⟩ := ih (fun c hc => hw c (List.mem_cons_of_mem _ hc)) htail
        exact ⟨cs', rfl, hcs'⟩

/-- A part that was not there does not come into being behind a character that stays. -/
theorem Replaced.prefix_iff (hs : ∀ c ∈ s.1, ∀ s' ∈ subs, c ∉ s'.2)
    (hopen : ∃ rest, s.1 = opening :: rest ∧ opening ∉ rest) (h : Replaced subs cs out) :
    s.1 <+: c :: out ↔ s.1 <+: c :: cs := by
  obtain ⟨rest, hrest, hfree⟩ := hopen
  rw [hrest] at hs ⊢
  rw [List.cons_prefix_cons, List.cons_prefix_cons, and_congr_right_iff]
  rintro -
  constructor
  · rintro ⟨out', rfl⟩
    obtain ⟨cs', rfl, -⟩ := h.of_append ha fun c hc => hs c (List.mem_cons_of_mem _ hc)
    exact ⟨cs', rfl⟩
  · rintro ⟨cs', rfl⟩
    obtain ⟨out', rfl, -⟩ := (replaced_append_iff ha hfree).mp h
    exact ⟨out', rfl⟩

/-! ### The text with parts replaced -/

/-- **There is one text with the parts replaced.** -/
theorem Replaced.eq (h : Replaced subs cs out) (h' : Replaced subs cs out') : out = out' := by
  induction h generalizing out' with
  | nil => exact (h'.eq_nil ha).symm
  | @swap s cs out hs h ih =>
    obtain ⟨rest, hrest, -⟩ := ha.opens s hs
    have htext' : s.1 ++ cs = opening :: (rest ++ cs) := by rw [hrest]; rfl
    rw [htext'] at h'
    rcases h'.cons_cases with ⟨s', hs', cs', tail, htext, rfl, htail⟩ | ⟨hnone, -⟩
    · rw [← htext'] at htext
      have heq : s = s' := by
        rcases List.prefix_or_prefix_of_prefix ⟨cs, htext⟩ ⟨cs', rfl⟩ with hp | hp
        · exact ha.eq_of_prefix s hs s' hs' hp
        · exact (ha.eq_of_prefix s' hs' s hs hp).symm
      subst heq
      rw [List.append_cancel_left htext] at ih
      rw [ih htail]
    · exact absurd ⟨cs, htext'⟩ (hnone s hs)
  | @keep c cs out hnone h ih =>
    rcases h'.cons_cases with ⟨s, hs, cs', out', htext, -, -⟩ | ⟨-, tail, rfl, htail⟩
    · exact absurd ⟨cs', htext.symm⟩ (hnone s hs)
    · rw [ih htail]

omit ha in
theorem infix_of_infix_append {rest : List Char} (hw : opening ∉ w) (h : opening :: rest <:+: w ++ out) :
    opening :: rest <:+: out := by
  induction w with
  | nil => exact h
  | cons c w ih =>
    rw [List.mem_cons, not_or] at hw
    rw [List.cons_append, List.infix_cons_iff, List.cons_prefix_cons] at h
    exact ih hw.2 (h.resolve_left fun hp => hw.1 hp.1)

/-- **No part occurs where the parts are replaced.** -/
theorem Replaced.not_infix (h : Replaced subs cs out) (hs : s ∈ subs) : ¬ s.1 <:+: out := by
  obtain ⟨rest, hrest, hfree⟩ := ha.opens s hs
  induction h with
  | nil =>
    rw [hrest, List.infix_nil]
    exact List.cons_ne_nil _ _
  | swap hs' h ih =>
    intro hi
    rw [hrest] at hi ih
    exact ih (infix_of_infix_append (ha.opening_not_mem hs') hi)
  | keep hnone h ih =>
    intro hi
    rcases List.infix_cons_iff.mp hi with hp | hi
    · refine hnone s hs ((h.prefix_iff ha (fun c hc s' hs' => ?_) ⟨rest, hrest, hfree⟩).mp hp)
      exact ha.foreign s hs s' hs' c hc
    · exact ih hi

/-- Texts may be put together in front of a part. -/
theorem Replaced.append (h : Replaced subs cs out) {cs' : List Char} (hcs' : cs'.head? = some opening)
    (h' : Replaced subs cs' out') : Replaced subs (cs ++ cs') (out ++ out') := by
  induction h with
  | nil => exact h'
  | swap hs _ ih =>
    rw [List.append_assoc, List.append_assoc]
    exact .swap hs ih
  | @keep c cs out hnone _ ih =>
    refine .keep (fun s hs hp => ?_) ih
    obtain ⟨rest, hrest, hfree⟩ := ha.opens s hs
    obtain ⟨more, hmore⟩ := hp
    have hmore' : s.1 ++ more = (c :: cs) ++ cs' := hmore
    rcases List.append_eq_append_iff.mp hmore' with ⟨inner, hin, -⟩ | ⟨beyond, hbeyond, rfl⟩
    · exact hnone s hs ⟨inner, hin.symm⟩
    · cases beyond with
      | nil => exact hnone s hs (by rw [hbeyond, List.append_nil])
      | cons d beyond =>
        -- the part would go on into the text behind, which begins with an opening
        obtain rfl : d = opening := Option.some.inj hcs'
        rw [hbeyond] at hrest
        obtain ⟨-, rfl⟩ := List.cons.inj hrest
        exact hfree (List.mem_append_right _ List.mem_cons_self)

/-- **Every occurrence of a part is replaced,** and the texts on its two sides are replaced as if they stood
alone. -/
theorem Replaced.around (h : Replaced subs cs out) (hs : s ∈ subs) {cs' : List Char}
    (h' : Replaced subs cs' out') : Replaced subs (cs ++ s.1 ++ cs') (out ++ s.2 ++ out') := by
  obtain ⟨rest, hrest, -⟩ := ha.opens s hs
  rw [List.append_assoc, List.append_assoc]
  exact h.append ha (by rw [hrest]; rfl) (.swap hs h')

end

/-! ### One part after the other -/

/-- **Replacing one more part afterwards** is replacing it with the others. -/
theorem Replaced.then (ha : Apart opening (s :: subs)) (h : Replaced subs cs mid)
    (h' : Replaced [s] mid out) : Replaced (s :: subs) cs out := by
  have hall : Apart opening subs := ha.mono fun _ => List.mem_cons_of_mem s
  have hone : Apart opening [s] := ha.mono fun _ hs => List.mem_singleton.mp hs ▸ List.mem_cons_self
  obtain ⟨rest, hrest, hfree⟩ := ha.opens s List.mem_cons_self
  have hforeign : ∀ c ∈ s.1, ∀ s' ∈ subs, c ∉ s'.2 := fun c hc s' hs' =>
    ha.foreign s List.mem_cons_self s' (List.mem_cons_of_mem _ hs') c hc
  induction h generalizing out with
  | nil =>
    rw [h'.eq_nil hone]
    exact .nil
  | swap hs _ ih =>
    obtain ⟨out', rfl, hout⟩ := (replaced_append_iff hone (hall.opening_not_mem hs)).mp h'
    exact .swap (List.mem_cons_of_mem _ hs) (ih hout)
  | @keep c cs mid hnone h ih =>
    rcases h'.cons_cases with ⟨s', hs', mid', tail, htext, rfl, htail⟩ | ⟨hnone', tail, rfl, htail⟩
    · -- the part stood there before, since nothing of it was put in
      obtain rfl := List.mem_singleton.mp hs'
      rw [hrest] at htext
      obtain ⟨rfl, rfl⟩ := List.cons.inj htext
      obtain ⟨cs', rfl, -⟩ := h.of_append hall fun c hc => by
        rw [hrest] at hforeign
        exact hforeign c (List.mem_cons_of_mem _ hc)
      have hbehind := ih ((replaced_append_iff hone hfree).mpr ⟨tail, rfl, htail⟩)
      obtain ⟨tail', hsame, hbehind⟩ := (replaced_append_iff ha hfree).mp hbehind
      rw [← List.append_cancel_left hsame] at hbehind
      rw [← List.cons_append, ← hrest]
      exact .swap List.mem_cons_self hbehind
    · refine .keep (fun s' hs' => ?_) (ih htail)
      rcases List.mem_cons.mp hs' with rfl | hs'
      · rw [← h.prefix_iff hall hforeign ⟨rest, hrest, hfree⟩]
        exact hnone' s' List.mem_cons_self
      · exact hnone s' hs'

/-! ### Scans -/

/-- **A scan** goes over a text once and replaces the parts that it meets. The number is how many characters
are left out first, being the rest of a part. -/
structure Scans (subs : List Substitution) (f : Nat → List Char → List Char) : Prop where
  nil : ∀ k, f k [] = []
  skip : ∀ k c cs, f (k + 1) (c :: cs) = f k cs
  meets : ∀ c cs,
    (∃ s ∈ subs, s.1 <+: c :: cs ∧ f 0 (c :: cs) = s.2 ++ f (s.1.length - 1) cs) ∨
    ((∀ s ∈ subs, ¬ s.1 <+: c :: cs) ∧ f 0 (c :: cs) = c :: f 0 cs)

variable {f : Nat → List Char → List Char}

theorem Scans.eq_drop (h : Scans subs f) (k : Nat) (cs : List Char) : f k cs = f 0 (cs.drop k) := by
  induction k generalizing cs with
  | zero => rfl
  | succ k ih =>
    cases cs with
    | nil => rw [List.drop_nil, h.nil, h.nil]
    | cons c cs => rw [h.skip, ih, List.drop_succ_cons]

theorem Scans.replaced (h : Scans subs f) (hne : ∀ s ∈ subs, s.1 ≠ []) (cs : List Char) :
    Replaced subs cs (f 0 cs) := by
  induction hn : cs.length using Nat.strong_induction_on generalizing cs with
  | _ n ih =>
    cases cs with
    | nil =>
      rw [h.nil]
      exact .nil
    | cons c cs =>
      subst hn
      rcases h.meets c cs with ⟨s, hs, ⟨cs', htext⟩, heq⟩ | ⟨hnone, heq⟩
      · obtain ⟨d, rest, hrest⟩ := List.exists_cons_of_ne_nil (hne s hs)
        have hcs : cs.drop (s.1.length - 1) = cs' := by
          rw [hrest] at htext ⊢
          cases htext
          exact List.drop_left
        have hlt : cs'.length < (c :: cs).length := by
          rw [← htext, hrest]
          simp only [List.length_append, List.length_cons]
          omega
        rw [heq, h.eq_drop, hcs, ← htext]
        exact .swap hs (ih _ hlt cs' rfl)
      · rw [heq]
        exact .keep hnone (ih _ (Nat.lt_succ_self _) cs rfl)

theorem scans_replaceFrom (part new : List Char) : Scans [(part, new)] (replaceFrom part new) where
  nil k := by cases k <;> rfl
  skip k c cs := rfl
  meets c cs := by
    by_cases h : part.isPrefixOf (c :: cs) = true
    · exact .inl ⟨_, List.mem_singleton_self _, List.isPrefixOf_iff_prefix.mp h,
        by rw [replaceFrom, if_pos h]⟩
    · refine .inr ⟨fun s hs hp => h ?_, by rw [replaceFrom, if_neg h]⟩
      rw [List.mem_singleton.mp hs] at hp
      exact List.isPrefixOf_iff_prefix.mpr hp

/-- **Parts may be replaced one after the other.** -/
theorem replaced_foldl (ha : Apart opening subs) (cs : List Char) :
    Replaced subs cs (subs.foldl (fun cs s => replace s.1 s.2 cs) cs) := by
  induction subs using List.reverseRecOn with
  | nil => exact replaced_self fun s hs => absurd hs List.not_mem_nil
  | append_singleton subs s ih =>
    have hmem : ∀ s', s' ∈ s :: subs ↔ s' ∈ subs ++ [s] := fun s' => by
      rw [List.mem_cons, List.mem_append, List.mem_singleton, or_comm]
    have hpart : ∀ s' ∈ [s], s'.1 ≠ [] := fun s' hs' => by
      obtain ⟨rest, hrest, -⟩ := ha.opens s' (List.mem_append_right _ hs')
      rw [hrest]
      exact List.cons_ne_nil _ _
    rw [List.foldl_concat]
    exact ((ih (ha.mono fun _ => List.mem_append_left _)).then (ha.mono fun s' => (hmem s').mp)
      ((scans_replaceFrom s.1 s.2).replaced hpart _)).congr hmem

end TileStream.Text
