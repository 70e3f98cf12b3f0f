import Mathlib.Data.List.DropRight
import TileStream.Text.Blank

/-! # Parts of a text

A text is split at a separator into the one list of parts without it from which it can be put together
(`splitAt_eq_iff`), and two texts with a separator between them are split into the parts of both
(`splitAt_append`). Trimming leaves the one text that begins and ends with no blank character and differs
from the whole by blank characters around it (`stripped_iff`), so it leaves a trimmed text as it is
(`trim_trim`), and blank characters that are put around a text make no difference (`trim_pad`). -/

namespace TileStream.Text

variable {sep : Char} {cs part : List Char}

/-! ### Splitting -/

theorem splitAt_eq_splitOn (sep : Char) (cs : List Char) : splitAt sep cs = cs.splitOn sep := by
  induction cs with
  | nil => rfl
  | cons c cs ih =>
    unfold splitAt
    rw [ih, List.splitOn_cons_eq_if_modifyHead]
    by_cases h : c = sep
    · rw [if_pos h, if_pos (beq_iff_eq.mpr h)]
    · rw [if_neg h, if_neg (mt beq_iff_eq.mp h)]
      cases hparts : cs.splitOn sep with
      | nil => exact absurd hparts (List.splitOn_ne_nil _ _)
      | cons part parts => rfl

theorem splitAt_append (cs cs' : List Char) :
    splitAt sep (cs ++ sep :: cs') = splitAt sep cs ++ splitAt sep cs' := by
  rw [splitAt_eq_splitOn, splitAt_eq_splitOn, splitAt_eq_splitOn, List.splitOn_append_cons_self]

theorem not_mem_of_mem_splitAt (h : part ∈ splitAt sep cs) : sep ∉ part := by
  induction cs generalizing part with
  | nil =>
    rw [splitAt, List.mem_singleton] at h
    rw [h]
    exact List.not_mem_nil
  | cons c cs ih =>
    rw [splitAt] at h
    split at h
    · rcases List.mem_cons.mp h with rfl | h
      · exact List.not_mem_nil
      · exact ih h
    · next hc =>
      split at h
      · rw [List.mem_singleton] at h
        rw [h, List.mem_singleton]
        exact Ne.symm hc
      · next first rest hparts =>
        rw [hparts] at ih
        rcases List.mem_cons.mp h with rfl | h
        · rw [List.mem_cons, not_or]
          exact ⟨Ne.symm hc, ih List.mem_cons_self⟩
        · exact ih (List.mem_cons_of_mem _ h)

/-- **A text is split** into the parts without the separator from which it can be put together. -/
theorem splitAt_eq_iff {parts : List (List Char)} : splitAt sep cs = parts ↔
    parts ≠ [] ∧ (∀ part ∈ parts, sep ∉ part) ∧ cs = [sep].intercalate parts := by
  constructor
  · rintro rfl
    refine ⟨?_, fun _ => not_mem_of_mem_splitAt, ?_⟩
    · rw [splitAt_eq_splitOn]
      exact List.splitOn_ne_nil _ _
    · rw [splitAt_eq_splitOn, List.intercalate_splitOn]
  · rintro ⟨hne, h, rfl⟩
    rw [splitAt_eq_splitOn, List.splitOn_intercalate sep h hne]

/-! ### Trimming -/

/-- Blank characters and nothing else. -/
def Blank (cs : List Char) : Prop := ∀ c ∈ cs, isBlank c = true

/-- **What is left of a text without the blank characters around it.** -/
structure Stripped (cs part : List Char) : Prop where
  around : ∃ before after, Blank before ∧ Blank after ∧ cs = before ++ part ++ after
  first : ∀ c ∈ part.head?, isBlank c = false
  last : ∀ c ∈ part.getLast?, isBlank c = false

theorem trim_eq (cs : List Char) : trim cs = (cs.dropWhile isBlank).rdropWhile isBlank := rfl

theorem rdropWhile_append {after : List Char} (ha : Blank after) (cs : List Char) :
    (cs ++ after).rdropWhile isBlank = cs.rdropWhile isBlank := by
  unfold List.rdropWhile
  rw [List.reverse_append, List.dropWhile_append_of_pos fun c hc => ha c (List.mem_reverse.mp hc)]

/-- **Blank characters around a text go when it is trimmed.** -/
theorem trim_pad {before after : List Char} (hb : Blank before) (ha : Blank after) (cs : List Char) :
    trim (before ++ cs ++ after) = trim cs := by
  rw [List.append_assoc, trim_eq, List.dropWhile_append_of_pos hb, List.dropWhile_append, trim_eq]
  split
  · next hblank =>
    rw [List.isEmpty_iff.mp hblank, List.dropWhile_eq_nil_iff.mpr ha]
  · exact rdropWhile_append ha _

/-- A text with no blank character at its ends stays as it is. -/
theorem trim_eq_self (hfirst : ∀ c ∈ cs.head?, isBlank c = false)
    (hlast : ∀ c ∈ cs.getLast?, isBlank c = false) : trim cs = cs := by
  have hstart : cs.dropWhile isBlank = cs := by
    cases cs with
    | nil => rfl
    | cons c cs => exact List.dropWhile_cons_of_neg (by simp [hfirst c rfl])
  rw [trim_eq, hstart, List.rdropWhile_eq_self_iff]
  intro hne
  simp [hlast _ (List.getLast?_eq_getLast_of_ne_nil hne)]

/-- **A trimmed text** is the whole without the blank characters around it. -/
theorem stripped_trim (cs : List Char) : Stripped cs (trim cs) where
  around := by
    refine ⟨cs.takeWhile isBlank, (cs.dropWhile isBlank).rtakeWhile isBlank,
      fun c hc => List.mem_takeWhile_imp hc, fun c hc => List.mem_rtakeWhile_imp hc, ?_⟩
    rw [List.append_assoc, trim_eq, List.rdropWhile_append_rtakeWhile, List.takeWhile_append_dropWhile]
  first c hc := by
    -- the text without the blank characters in front begins with the same character
    obtain ⟨tail, htail⟩ := List.rdropWhile_prefix isBlank (cs.dropWhile isBlank)
    rw [← trim_eq] at htail
    have hhead : (cs.dropWhile isBlank).head? = some c := by
      rw [← htail, List.head?_append_of_ne_nil, hc]
      intro hnil
      rw [hnil] at hc
      cases hc
    have := List.head?_dropWhile_not isBlank cs
    rw [hhead] at this
    simpa using this
  last c hc := by
    have hne : trim cs ≠ [] := by
      intro hnil
      rw [hnil] at hc
      cases hc
    have hlast := List.rdropWhile_last_not isBlank (cs.dropWhile isBlank) hne
    rw [Option.mem_def, List.getLast?_eq_getLast_of_ne_nil hne, Option.some.injEq] at hc
    rw [← hc]
    exact eq_false_of_ne_true hlast

theorem stripped_iff : Stripped cs part ↔ trim cs = part := by
  constructor
  · rintro ⟨⟨before, after, hb, ha, rfl⟩, hfirst, hlast⟩
    rw [trim_pad hb ha, trim_eq_self hfirst hlast]
  · rintro rfl
    exact stripped_trim cs

theorem trim_trim (cs : List Char) : trim (trim cs) = trim cs :=
  trim_eq_self (stripped_trim cs).first (stripped_trim cs).last

end TileStream.Text
