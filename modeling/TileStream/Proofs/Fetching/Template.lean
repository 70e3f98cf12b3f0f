import TileStream.Fetching.Template
import TileStream.Proofs.Text.Number
import TileStream.Proofs.Text.Substitution

/-! # Addresses of tiles

The placeholders of a template begin with a brace and have it nowhere else, and the numbers of a tile are
digits, which no placeholder has (`TileId.apart_substitutions`). So a number that is put in neither completes
a placeholder nor breaks one, whatever braces stand around it, and it does not matter in which order the
placeholders are replaced (`TileId.address_simultaneous`). -/

namespace TileStream

open Text

theorem Text.isDigit_of_mem_decimal {n : Nat} {c : Char} (h : c ∈ decimal n) : c.isDigit = true :=
  isDigit_of_mem_toString h

theorem Text.decimal_ne_nil (n : Nat) : decimal n ≠ [] := by
  intro h
  exact toString_ne_empty n (String.toList_injective h)

namespace TileId

variable {t : TileId} {s : Substitution}

theorem substitutions_eq (t : TileId) : t.substitutions =
    [(['\x7b', 'z', '\x7d'], decimal t.zoom.toNat), (['\x7b', 'x', '\x7d'], decimal t.x.toNat),
      (['\x7b', 'y', '\x7d'], decimal t.y.toNat)] := rfl

theorem exists_of_mem_substitutions (h : s ∈ t.substitutions) : ∃ n, s.2 = decimal n := by
  rw [substitutions_eq] at h
  simp only [List.mem_cons, List.not_mem_nil, or_false] at h
  rcases h with rfl | rfl | rfl <;> exact ⟨_, rfl⟩

theorem mem_placeholders_iff {part : List Char} :
    part ∈ placeholders ↔ ∃ s ∈ t.substitutions, s.1 = part := by
  rw [substitutions_eq]
  simp [placeholders, eq_comm]

/-- **Numbers keep out of placeholders.** -/
theorem apart_substitutions (t : TileId) : Apart '\x7b' t.substitutions where
  opens s hs := by
    rw [substitutions_eq] at hs
    simp only [List.mem_cons, List.not_mem_nil, or_false] at hs
    rcases hs with rfl | rfl | rfl <;> exact ⟨_, rfl, by decide⟩
  eq_of_prefix s hs s' hs' hp := by
    rw [substitutions_eq] at hs hs'
    simp only [List.mem_cons, List.not_mem_nil, or_false] at hs hs'
    rcases hs with rfl | rfl | rfl <;> rcases hs' with rfl | rfl | rfl <;>
      simp [List.cons_prefix_cons] at hp ⊢
  ne_nil s hs := by
    obtain ⟨n, hn⟩ := exists_of_mem_substitutions hs
    rw [hn]
    exact decimal_ne_nil n
  foreign s hs s' hs' c hc hc' := by
    obtain ⟨n, hn⟩ := exists_of_mem_substitutions hs'
    rw [hn] at hc'
    have hdigit := isDigit_of_mem_decimal hc'
    have hnone : (placeholders.all fun part => part.all fun c => !c.isDigit) = true := by decide
    have hpart := List.all_eq_true.mp hnone s.1 (mem_placeholders_iff.mpr ⟨s, hs, rfl⟩)
    have hnot := List.all_eq_true.mp hpart c hc
    rw [hdigit] at hnot
    cases hnot

theorem scans_addressFrom (t : TileId) : Scans t.substitutions t.addressFrom where
  nil k := by cases k <;> rfl
  skip k c cs := rfl
  meets c cs := by
    cases h : t.substitutions.find? fun s => s.1.isPrefixOf (c :: cs) with
    | some s =>
      have hp := List.find?_some (p := fun s : Substitution => s.1.isPrefixOf (c :: cs)) h
      exact .inl ⟨s, List.mem_of_find?_eq_some h, List.isPrefixOf_iff_prefix.mp hp,
        by rw [addressFrom, h]⟩
    | none =>
      refine .inr ⟨fun s hs hp => ?_, by rw [addressFrom, h]⟩
      exact List.find?_eq_none.mp h s hs (List.isPrefixOf_iff_prefix.mpr hp)

theorem replaced_addressAtOnce (t : TileId) (template : List Char) :
    Replaced t.substitutions template (t.addressAtOnce template) :=
  (scans_addressFrom t).replaced (fun s hs => by
    obtain ⟨rest, hrest, -⟩ := (apart_substitutions t).opens s hs
    rw [hrest]
    exact List.cons_ne_nil _ _) template

theorem replaced_address (t : TileId) (template : List Char) :
    Replaced t.substitutions template (t.address template) :=
  replaced_foldl (apart_substitutions t) template

/-- **The address of a tile is its template with all placeholders replaced at once.** It is what one pass over
the template yields, and replacing the placeholders one after the other yields it in any order. Every
occurrence of a placeholder becomes its number, and what stands before and behind it is replaced as if it
stood alone; where no placeholder occurs nothing changes; and none occurs in an address. -/
theorem address_simultaneous (t : TileId) (template : List Char) :
    t.address template = t.addressAtOnce template ∧
    (∀ order : List Substitution, order.Perm t.substitutions →
      order.foldl (fun cs s => replace s.1 s.2 cs) template = t.address template) ∧
    (∀ before after : List Char, ∀ s ∈ t.substitutions, template = before ++ s.1 ++ after →
      t.address template = t.address before ++ s.2 ++ t.address after) ∧
    ((∀ part ∈ placeholders, ¬ part <:+: template) → t.address template = template) ∧
    ∀ part ∈ placeholders, ¬ part <:+: t.address template := by
  have ha := apart_substitutions t
  have h := replaced_address t template
  refine ⟨h.eq ha (replaced_addressAtOnce t template), fun order hperm => ?_, ?_, fun hnone => ?_, ?_⟩
  · have horder : Apart '\x7b' order := ha.mono fun s => hperm.mem_iff.mp
    exact ((replaced_foldl horder template).congr fun _ => hperm.mem_iff).eq ha h
  · rintro before after s hs rfl
    exact h.eq ha ((replaced_address t before).around ha hs (replaced_address t after))
  · exact h.eq ha (replaced_self fun s hs => hnone s.1 (mem_placeholders_iff.mpr ⟨s, hs, rfl⟩))
  · intro part hpart
    obtain ⟨s, hs, rfl⟩ := mem_placeholders_iff.mp hpart
    exact h.not_infix ha hs

/-- Braces that do not close, and placeholders between them. -/
def bracedTemplate : List Char :=
  ['\x7b', '\x7b', 'x', '\x7d', 'z', '\x7d', '\x7b', '\x7b', 'z', '\x7d', '\x7b', 'y', '\x7d']

/-- The numbers that come in between braces make no placeholder with them, in whatever order they come. -/
theorem address_simultaneous_braces :
    let t : TileId := ⟨3, 5, 6⟩
    let address := ['\x7b', '5', 'z', '\x7d', '\x7b', '3', '6']
    t.address bracedTemplate = address ∧ t.addressAtOnce bracedTemplate = address ∧
    t.substitutions.reverse.Perm t.substitutions ∧
    t.substitutions.reverse.foldl (fun cs s => replace s.1 s.2 cs) bracedTemplate = address := by
  intro t address
  obtain ⟨hatOnce, horder, -⟩ := address_simultaneous t bracedTemplate
  have haddress : t.address bracedTemplate = address := by decide
  have hperm : t.substitutions.reverse.Perm t.substitutions := List.reverse_perm _
  exact ⟨haddress, hatOnce ▸ haddress, hperm, (horder _ hperm).trans haddress⟩

end TileId

end TileStream
