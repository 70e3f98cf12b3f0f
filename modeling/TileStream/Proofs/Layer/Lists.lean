import Mathlib.Data.List.Forall2
import TileStream.Proofs.Fault
import TileStream.Proofs.Layer.Set
import TileStream.Proofs.Text.Parts

/-! # Lists of layers, read

A list of layers is read part by part, and each part is trimmed twice, by the list and by the layer. The
second time changes nothing, so a list is read when every part is a name, its set has the layers that the
parts name (`LayerSet.parse_eq_ok_iff`), and otherwise the first part that names none is told
(`LayerSet.parse_eq_error_iff`). What the set has depends on which parts there are and not on how they are
arranged (`Rearranged.parse_eq_ok_iff`), and a list of two lists is the union of both
(`LayerSet.parse_append`). All of it together is `LayerSet.parse_exact`. -/

namespace TileStream

/-! ### One layer -/

namespace Layer

/-- Whether a text is a name of the layer, whatever the case of its ASCII letters. -/
def NamedBy (l : Layer) (part : List Char) : Prop := ∃ name ∈ l.names, Text.lower part = name.toList

variable {l l' : Layer} {name : String} {text part : List Char} {e : UnknownLayer}

/-- No two layers share a name. -/
theorem eq_of_mem_names (h : name ∈ l.names) (h' : name ∈ l'.names) : l = l' := by
  have hdisj : ∀ l l' : Layer, l ≠ l' → ∀ n ∈ l.names, n ∉ l'.names := by
    intro l l'
    cases l <;> cases l' <;> decide
  exact Decidable.byContradiction fun hne => hdisj l l' hne name h h'

theorem ofName?_eq_some_iff : ofName? name = some l ↔ name ∈ l.names := by
  constructor
  · intro h
    exact List.contains_iff_mem.mp (List.find?_some (p := fun l : Layer => l.names.contains name) h)
  · intro h
    cases hfind : ofName? name with
    | none =>
      have hall : l ∈ all := by cases l <;> decide
      exact absurd (List.contains_iff_mem.mpr h) (List.find?_eq_none.mp hfind l hall)
    | some l' =>
      have h' := List.find?_some (p := fun l : Layer => l.names.contains name) hfind
      rw [eq_of_mem_names h (List.contains_iff_mem.mp h')]

theorem ofName?_lower : ofName? (String.ofList (Text.lower part)) = some l ↔ l.NamedBy part := by
  rw [ofName?_eq_some_iff]
  constructor
  · exact fun h => ⟨_, h, String.toList_ofList.symm⟩
  · rintro ⟨name, hname, h⟩
    rw [h, String.ofList_toList]
    exact hname

theorem parse_eq_ok_iff : parse text = .ok l ↔ l.NamedBy (Text.trim text) := by
  unfold parse
  dsimp only
  rw [← ofName?_lower]
  cases ofName? (String.ofList (Text.lower (Text.trim text))) <;> simp

theorem parse_eq_error_iff : parse text = .error e ↔
    (∀ l : Layer, ¬ l.NamedBy (Text.trim text)) ∧ e.name = Text.lower (Text.trim text) := by
  unfold parse
  dsimp only
  simp only [← ofName?_lower]
  cases ofName? (String.ofList (Text.lower (Text.trim text))) with
  | none =>
    cases e
    simp [eq_comm]
  | some l => simp

/-- All the names that are read. -/
theorem exists_namedBy_iff : (∃ l : Layer, l.NamedBy part) ↔
    String.ofList (Text.lower part) ∈
      ["height", "dem", "elevation", "ortho", "imagery", "vector", "labels"] := by
  have hall : ["height", "dem", "elevation", "ortho", "imagery", "vector", "labels"] =
      all.flatMap names := rfl
  rw [hall, List.mem_flatMap]
  refine exists_congr fun l => ?_
  have hl : l ∈ all := by cases l <;> decide
  rw [← ofName?_lower, ofName?_eq_some_iff, and_iff_right hl]

end Layer

/-! ### The parts of a list -/

/-- **The parts of a comma separated list:** what is left of the texts between its commas without the
blank characters around them, where anything is left. -/
def Listed (text : List Char) (parts : List (List Char)) : Prop :=
  ∃ pieces stripped, pieces ≠ [] ∧ (∀ piece ∈ pieces, ',' ∉ piece) ∧
    text = [','].intercalate pieces ∧ List.Forall₂ Text.Stripped pieces stripped ∧
    parts = stripped.filter fun part => part ≠ []

namespace LayerSet

variable {text part : List Char} {pieces pieces' : List (List Char)}

/-- What is left of the texts between commas. -/
def kept (pieces : List (List Char)) : List (List Char) :=
  (pieces.map Text.trim).filter fun part => part ≠ []

theorem mem_kept : part ∈ kept pieces ↔ part ≠ [] ∧ ∃ piece ∈ pieces, Text.trim piece = part := by
  simp [kept, and_comm]

theorem kept_append (pieces pieces' : List (List Char)) :
    kept (pieces ++ pieces') = kept pieces ++ kept pieces' := by
  rw [kept, List.map_append, List.filter_append]
  rfl

theorem parts_eq (text : List Char) : parts text = kept (Text.splitAt ',' text) := by
  unfold parts kept
  refine List.filter_congr fun part _ => ?_
  cases part <;> rfl

theorem parts_append (text text' : List Char) :
    parts (text ++ ',' :: text') = parts text ++ parts text' := by
  rw [parts_eq, parts_eq, parts_eq, Text.splitAt_append, kept_append]

theorem parts_intercalate (h : ∀ piece ∈ pieces, ',' ∉ piece) :
    parts ([','].intercalate pieces) = kept pieces := by
  cases pieces with
  | nil => rfl
  | cons piece pieces =>
    rw [parts_eq, Text.splitAt_eq_iff.mpr ⟨List.cons_ne_nil _ _, h, rfl⟩]

/-- The parts are trimmed. -/
theorem trim_of_mem_parts (h : part ∈ parts text) : Text.trim part = part := by
  rw [parts_eq, mem_kept] at h
  obtain ⟨-, piece, -, rfl⟩ := h
  exact Text.trim_trim piece

/-- **Every list has its parts** and no others. -/
theorem listed_iff {ps : List (List Char)} : Listed text ps ↔ ps = parts text := by
  have hmap : ∀ pieces stripped,
      List.Forall₂ Text.Stripped pieces stripped ↔ pieces.map Text.trim = stripped := by
    intro pieces stripped
    have htrim : Text.Stripped = fun piece part => Text.trim piece = part :=
      funext₂ fun piece part => propext Text.stripped_iff
    rw [htrim, ← List.forall₂_map_left_iff (R := Eq), List.forall₂_eq_eq_eq]
  constructor
  · rintro ⟨pieces, stripped, -, hcomma, rfl, hstripped, rfl⟩
    rw [parts_intercalate hcomma, ← (hmap _ _).mp hstripped, kept]
  · rintro rfl
    obtain ⟨hne, hcomma, htext⟩ := Text.splitAt_eq_iff.mp (rfl : Text.splitAt ',' text = _)
    exact ⟨_, _, hne, hcomma, htext, (hmap _ _).mpr rfl, parts_eq text⟩

/-! ### Reading a list -/

variable {s : LayerSet} {e : UnknownLayer}

theorem layer_parse_eq_ok_iff {l : Layer} (h : part ∈ parts text) :
    Layer.parse part = .ok l ↔ l.NamedBy part := by
  rw [Layer.parse_eq_ok_iff, trim_of_mem_parts h]

/-- **A list is read** when its parts are names, and its set has the layers that they name. -/
theorem parse_eq_ok_iff : parse text = .ok s ↔ (∀ part ∈ parts text, ∃ l : Layer, l.NamedBy part) ∧
    s.Known ∧ ∀ l, s.contains l = true ↔ ∃ part ∈ parts text, l.NamedBy part := by
  have hset : ∀ {ls}, (parts text).mapM Layer.parse = .ok ls → ∀ l,
      (ofList ls).contains l = true ↔ ∃ part ∈ parts text, l.NamedBy part := by
    intro ls hls l
    rw [contains_ofList, mem_iff_of_mapM_eq_ok hls]
    exact exists_congr fun part => and_congr_right layer_parse_eq_ok_iff
  constructor
  · intro h
    obtain ⟨ls, hls, h⟩ := Checked.bind_eq_ok h
    cases h
    refine ⟨fun part hpart => ?_, known_ofList ls, hset hls⟩
    obtain ⟨l, hl⟩ := exists_of_mapM_eq_ok hls part hpart
    exact ⟨l, (layer_parse_eq_ok_iff hpart).mp hl⟩
  · rintro ⟨hnamed, hknown, hs⟩
    obtain ⟨ls, hls⟩ := exists_mapM_eq_ok fun part hpart =>
      (hnamed part hpart).imp fun l => (layer_parse_eq_ok_iff hpart).mpr
    rw [parse, hls, ← (known_ofList ls).ext hknown fun l => (hset hls l).trans (hs l).symm]
    rfl

/-- **A list is not read** because of the first part that is no name. -/
theorem parse_eq_error_iff : parse text = .error e ↔
    ∃ before bad after, parts text = before ++ bad :: after ∧
      (∀ part ∈ before, ∃ l : Layer, l.NamedBy part) ∧ (∀ l : Layer, ¬ l.NamedBy bad) ∧
      e.name = Text.lower bad := by
  have hmap : parse text = .error e ↔ (parts text).mapM Layer.parse = .error e := by
    unfold parse
    cases (parts text).mapM Layer.parse <;> simp [bind, Except.bind, pure, Except.pure]
  rw [hmap, mapM_eq_error_iff]
  refine exists_congr fun before => exists_congr fun bad => exists_congr fun after =>
    and_congr_right fun hparts => ?_
  have hbefore : ∀ part ∈ before, ∀ l : Layer, Layer.parse part = .ok l ↔ l.NamedBy part :=
    fun part hpart l => layer_parse_eq_ok_iff (hparts ▸ List.mem_append_left _ hpart)
  have hbad : Text.trim bad = bad :=
    trim_of_mem_parts (hparts ▸ List.mem_append_right _ List.mem_cons_self)
  rw [Layer.parse_eq_error_iff, hbad]
  refine and_congr_left fun _ => forall₂_congr fun part hpart => ?_
  exact exists_congr fun l => hbefore part hpart l

/-- **A list of two lists** makes the union of their sets. -/
theorem parse_append (text text' : List Char) :
    parse (text ++ ',' :: text') = do return (← parse text).union (← parse text') := by
  unfold parse
  rw [parts_append, List.mapM_append]
  cases (parts text).mapM Layer.parse with
  | error e => rfl
  | ok ls =>
    cases (parts text').mapM Layer.parse with
    | error e => rfl
    | ok ls' =>
      show Except.ok (ofList (ls ++ ls')) = .ok ((ofList ls).union (ofList ls'))
      rw [ofList_append]

end LayerSet

/-! ### The same list in another arrangement -/

/-- **Texts between commas in another arrangement:** in another order, or with one of them again, with blank
characters around it or a blank one more; as often as one likes, there and back. -/
inductive Rearranged : List (List Char) → List (List Char) → Prop
  | reorder {pieces pieces'} : pieces.Perm pieces' → Rearranged pieces pieces'
  | again {piece pieces} : piece ∈ pieces → Rearranged pieces (piece :: pieces)
  | pad {before piece after pieces} : Text.Blank before → Text.Blank after →
      Rearranged (piece :: pieces) ((before ++ piece ++ after) :: pieces)
  | blank {piece pieces} : Text.Blank piece → Rearranged pieces (piece :: pieces)
  | symm {pieces pieces'} : Rearranged pieces pieces' → Rearranged pieces' pieces
  | trans {pieces pieces' pieces''} : Rearranged pieces pieces' → Rearranged pieces' pieces'' →
      Rearranged pieces pieces''

namespace Rearranged

variable {pieces pieces' : List (List Char)}

theorem comma_not_mem_of_blank {cs : List Char} (h : Text.Blank cs) : ',' ∉ cs :=
  fun hc => absurd (h ',' hc) (by decide)

/-- No comma comes in or goes. -/
theorem comma_iff (h : Rearranged pieces pieces') :
    (∀ piece ∈ pieces, ',' ∉ piece) ↔ ∀ piece ∈ pieces', ',' ∉ piece := by
  induction h with
  | reorder hperm => exact forall_congr' fun piece => imp_congr_left hperm.mem_iff
  | again hmem =>
    rw [List.forall_mem_cons]
    exact ⟨fun h => ⟨h _ hmem, h⟩, And.right⟩
  | pad hbefore hafter =>
    rw [List.forall_mem_cons, List.forall_mem_cons, List.mem_append, List.mem_append]
    simp [comma_not_mem_of_blank hbefore, comma_not_mem_of_blank hafter]
  | blank hblank =>
    rw [List.forall_mem_cons]
    exact ⟨fun h => ⟨comma_not_mem_of_blank hblank, h⟩, And.right⟩
  | symm _ ih => exact ih.symm
  | trans _ _ ih ih' => exact ih.trans ih'

/-- **The same parts are left,** in whatever order and however often. -/
theorem mem_kept_iff (h : Rearranged pieces pieces') (part : List Char) :
    part ∈ LayerSet.kept pieces ↔ part ∈ LayerSet.kept pieces' := by
  induction h with
  | reorder hperm =>
    rw [LayerSet.mem_kept, LayerSet.mem_kept]
    simp only [hperm.mem_iff]
  | again hmem =>
    simp only [LayerSet.mem_kept, List.mem_cons, exists_eq_or_imp]
    exact and_congr_right fun _ => ⟨.inr, fun h => h.elim (fun h => ⟨_, hmem, h⟩) id⟩
  | pad hbefore hafter =>
    simp only [LayerSet.mem_kept, List.mem_cons, exists_eq_or_imp, Text.trim_pad hbefore hafter]
  | @blank piece pieces hblank =>
    have hnil : Text.Blank [] := fun c hc => by cases hc
    have htrim : Text.trim piece = [] := by
      have hpad := Text.trim_pad hblank hnil []
      rwa [List.append_nil, List.append_nil] at hpad
    simp only [LayerSet.mem_kept, List.mem_cons, exists_eq_or_imp, htrim]
    exact and_congr_right fun hne => ⟨.inr, fun h => h.resolve_left fun hnil => hne hnil.symm⟩
  | symm _ ih => exact ih.symm
  | trans _ _ ih ih' => exact ih.trans ih'

/-- **However its parts are arranged,** a list makes the same set. -/
theorem parse_eq_ok_iff (h : Rearranged pieces pieces') (hcomma : ∀ piece ∈ pieces, ',' ∉ piece)
    {s : LayerSet} : LayerSet.parse ([','].intercalate pieces') = .ok s ↔
      LayerSet.parse ([','].intercalate pieces) = .ok s := by
  rw [LayerSet.parse_eq_ok_iff, LayerSet.parse_eq_ok_iff, LayerSet.parts_intercalate hcomma,
    LayerSet.parts_intercalate (h.comma_iff.mp hcomma)]
  simp only [h.mem_kept_iff]

end Rearranged

namespace LayerSet

/-- **What a comma separated list of layers means.** For every text there is one list of parts. The text is
read just when each part is a name, and its set then has the layers that the parts name and nothing else;
otherwise the error has the first part that is no name, in small letters. Reordering, repeating and padding
what stands between the commas leaves the set the same, and two lists with a comma between them make the
union of both, or the error of the first that is not read. -/
theorem parse_exact (text : List Char) : ∃ parts, (∀ parts', Listed text parts' ↔ parts' = parts) ∧
    ((∃ s, parse text = .ok s) ↔ ∀ part ∈ parts, String.ofList (Text.lower part) ∈
      ["height", "dem", "elevation", "ortho", "imagery", "vector", "labels"]) ∧
    (∀ s, parse text = .ok s → s.Known ∧
      ∀ l, s.contains l = true ↔ ∃ part ∈ parts, l.NamedBy part) ∧
    (∀ e, parse text = .error e ↔ ∃ before bad after, parts = before ++ bad :: after ∧
      (∀ part ∈ before, ∃ l : Layer, l.NamedBy part) ∧ (∀ l : Layer, ¬ l.NamedBy bad) ∧
      e.name = Text.lower bad) ∧
    (∀ pieces pieces', (∀ piece ∈ pieces, ',' ∉ piece) → text = [','].intercalate pieces →
      Rearranged pieces pieces' →
        ∀ s, parse ([','].intercalate pieces') = .ok s ↔ parse text = .ok s) ∧
    ∀ text', parse (text ++ ',' :: text') = do return (← parse text).union (← parse text') := by
  refine ⟨parts text, fun _ => listed_iff, ?_, fun s h => (parse_eq_ok_iff.mp h).2,
    fun _ => parse_eq_error_iff, ?_, parse_append text⟩
  · simp only [← Layer.exists_namedBy_iff]
    constructor
    · rintro ⟨s, hs⟩
      exact (parse_eq_ok_iff.mp hs).1
    · intro h
      cases hparse : parse text with
      | ok s => exact ⟨s, rfl⟩
      | error e =>
        obtain ⟨before, bad, after, hparts, -, hbad, -⟩ := parse_eq_error_iff.mp hparse
        obtain ⟨l, hl⟩ := h bad (hparts ▸ List.mem_append_right _ List.mem_cons_self)
        exact absurd hl (hbad l)
  · rintro pieces pieces' hcomma rfl h s
    exact h.parse_eq_ok_iff hcomma

/-- Elevation and imagery, and then the other way around, with blanks and one of them twice. -/
theorem parse_exact_shuffled :
    (∀ piece ∈ ["DEM".toList, " imagery".toList], ',' ∉ piece) ∧
    "DEM, imagery".toList = [','].intercalate ["DEM".toList, " imagery".toList] ∧
    Rearranged ["DEM".toList, " imagery".toList]
      [" imagery\t".toList, "DEM".toList, "DEM".toList] ∧
    parse " imagery\t,DEM,DEM".toList = .ok (ofList [.height, .ortho]) := by
  have hre : Rearranged ["DEM".toList, " imagery".toList]
      [" imagery\t".toList, "DEM".toList, "DEM".toList] := by
    have htwice : Rearranged ["DEM".toList, " imagery".toList]
        ["DEM".toList, "DEM".toList, " imagery".toList] := .again List.mem_cons_self
    have horder : Rearranged ["DEM".toList, "DEM".toList, " imagery".toList]
        [" imagery".toList, "DEM".toList, "DEM".toList] := .reorder (by decide)
    have hpad : Rearranged [" imagery".toList, "DEM".toList, "DEM".toList]
        [[] ++ " imagery".toList ++ ['\t'], "DEM".toList, "DEM".toList] :=
      .pad (fun c hc => by cases hc) fun c hc => by
        rw [List.mem_singleton.mp hc]
        decide
    exact (htwice.trans horder).trans hpad
  have hcomma : ∀ piece ∈ ["DEM".toList, " imagery".toList], ',' ∉ piece := by decide
  refine ⟨hcomma, by decide, hre, ?_⟩
  obtain ⟨parts, -, -, -, -, h, -⟩ := parse_exact "DEM, imagery".toList
  exact (h _ _ hcomma (by decide) hre _).mpr rfl

end LayerSet

end TileStream
