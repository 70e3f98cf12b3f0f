import Mathlib.Data.List.Nodup
import Mathlib.Data.List.ReduceOption
import TileStream.Fault

/-! # Calls that may fault

A chain of calls is answered when each of them is (`Checked.bind_eq_ok`).

When no call is refused, calling for every member of a list is mapping over the list, and asking for
every member is filtering it. When the list is one of exactly what it should hold, each thing once
(`Lists`), and no two members lead to the same thing, then so is the list of what the calls gave, if none
of them was refused (`Lists.flatten_of_mapM`, `Lists.reduceOption_of_mapM`). -/

namespace TileStream

namespace Checked

theorem bind_eq_ok {ε α β : Type} {x : Except ε α} {f : α → Except ε β} {b : β}
    (h : x >>= f = .ok b) : ∃ a, x = .ok a ∧ f a = .ok b := by
  cases x with
  | error e => cases h
  | ok a => exact ⟨a, rfl, h⟩

theorem word64_eq_ok {n m : Nat} (h : word64 n = .ok m) : m = n := by
  unfold word64 below at h
  split at h <;> cases h
  rfl

end Checked

/-! ### A call for every member of a list -/

variable {ε α β γ : Type}

/-- Calls for a list that were answered, told apart. -/
theorem of_mapM_cons_eq_ok {f : α → Except ε β} {a : α} {l : List α} {bs : List β}
    (h : (a :: l).mapM f = .ok bs) : ∃ b rest, f a = .ok b ∧ l.mapM f = .ok rest ∧ bs = b :: rest := by
  rw [List.mapM_cons] at h
  obtain ⟨b, hb, h⟩ := Checked.bind_eq_ok h
  obtain ⟨rest, hrest, h⟩ := Checked.bind_eq_ok h
  cases h
  exact ⟨b, rest, hb, hrest, rfl⟩

/-- **Every call was answered** when all of them were. -/
theorem exists_of_mapM_eq_ok {f : α → Except ε β} {l : List α} {bs : List β}
    (h : l.mapM f = .ok bs) : ∀ a ∈ l, ∃ b, f a = .ok b := by
  induction l generalizing bs with
  | nil => exact fun a ha => by cases ha
  | cons first l ih =>
    obtain ⟨b, rest, hb, hrest, -⟩ := of_mapM_cons_eq_ok h
    intro a ha
    rcases List.mem_cons.mp ha with rfl | ha
    · exact ⟨b, hb⟩
    · exact ih hrest a ha

/-- What the calls for a list gave. -/
theorem mem_iff_of_mapM_eq_ok {f : α → Except ε β} {l : List α} {bs : List β} (h : l.mapM f = .ok bs)
    {b : β} : b ∈ bs ↔ ∃ a ∈ l, f a = .ok b := by
  induction l generalizing bs with
  | nil =>
    cases h
    simp
  | cons first l ih =>
    obtain ⟨b', rest, hb', hrest, rfl⟩ := of_mapM_cons_eq_ok h
    have hfirst : f first = .ok b ↔ b = b' := by
      rw [hb', Except.ok.injEq]
      exact eq_comm
    rw [List.mem_cons, ih hrest, ← hfirst]
    simp only [List.mem_cons, exists_eq_or_imp]

theorem mapM_cons_eq_error_iff {f : α → Except ε β} {e : ε} {a : α} {l : List α} :
    (a :: l).mapM f = .error e ↔ f a = .error e ∨ (∃ b, f a = .ok b) ∧ l.mapM f = .error e := by
  rw [List.mapM_cons]
  cases hfirst : f a with
  | error e' => simp [bind, Except.bind]
  | ok b => cases hrest : l.mapM f <;> simp [bind, Except.bind, pure, Except.pure]

/-- **The first call that is refused** is why the list is. -/
theorem mapM_eq_error_iff {f : α → Except ε β} {e : ε} {l : List α} : l.mapM f = .error e ↔
    ∃ before a after, l = before ++ a :: after ∧ (∀ a' ∈ before, ∃ b, f a' = .ok b) ∧
      f a = .error e := by
  induction l with
  | nil =>
    constructor
    · intro h
      cases h
    · rintro ⟨before, a, after, h, -⟩
      simp at h
  | cons first l ih =>
    rw [mapM_cons_eq_error_iff, ih]
    constructor
    · rintro (h | ⟨hfirst, before, a, after, rfl, hbefore, ha⟩)
      · exact ⟨[], first, l, rfl, by simp, h⟩
      · exact ⟨first :: before, a, after, rfl, List.forall_mem_cons.mpr ⟨hfirst, hbefore⟩, ha⟩
    · rintro ⟨before, a, after, h, hbefore, ha⟩
      cases before with
      | nil =>
        cases h
        exact .inl ha
      | cons a' before =>
        cases h
        rw [List.forall_mem_cons] at hbefore
        exact .inr ⟨hbefore.1, before, a, after, rfl, hbefore.2, ha⟩

/-- All calls are answered when every one of them is. -/
theorem exists_mapM_eq_ok {f : α → Except ε β} {l : List α} (h : ∀ a ∈ l, ∃ b, f a = .ok b) :
    ∃ bs, l.mapM f = .ok bs := by
  induction l with
  | nil => exact ⟨[], rfl⟩
  | cons a l ih =>
    obtain ⟨b, hb⟩ := h a List.mem_cons_self
    obtain ⟨bs, hbs⟩ := ih fun a' ha' => h a' (List.mem_cons_of_mem _ ha')
    refine ⟨b :: bs, ?_⟩
    rw [List.mapM_cons, hb, hbs]
    rfl

/-- Calls that can fault in one way only do so when one of them does. -/
theorem mapM_eq_error {f : α → Except ε β} {e : ε} {l : List α}
    (h : ∀ a ∈ l, (∃ b, f a = .ok b) ∨ f a = .error e) (hfault : ∃ a ∈ l, f a = .error e) :
    l.mapM f = .error e := by
  induction l with
  | nil => exact absurd hfault (by simp)
  | cons a l ih =>
    rw [List.mapM_cons]
    rcases h a List.mem_cons_self with ⟨b, hb⟩ | ha
    · have hrest : ∃ a' ∈ l, f a' = .error e := by
        obtain ⟨a', ha', hf⟩ := hfault
        rcases List.mem_cons.mp ha' with rfl | hmem
        · rw [hb] at hf
          cases hf
        · exact ⟨a', hmem, hf⟩
      rw [hb, ih (fun a' ha' => h a' (List.mem_cons_of_mem _ ha')) hrest]
      rfl
    · rw [ha]
      rfl

/-- Calls whose answers are told from those of other calls. -/
theorem mapM_map_eq_ok {f : α → Except ε β} {g : α → Except ε γ} {k : β → γ} {l : List α}
    {bs : List β} (hg : ∀ a b, f a = .ok b → g a = .ok (k b)) (h : l.mapM f = .ok bs) :
    l.mapM g = .ok (bs.map k) := by
  induction l generalizing bs with
  | nil =>
    cases h
    rfl
  | cons a l ih =>
    obtain ⟨b, rest, hb, hrest, rfl⟩ := of_mapM_cons_eq_ok h
    rw [List.mapM_cons, hg a b hb, ih hrest]
    rfl

theorem mapM_eq_ok {f : α → Except ε β} {g : α → β} {l : List α} (h : ∀ a ∈ l, f a = .ok (g a)) :
    l.mapM f = .ok (l.map g) := by
  induction l with
  | nil => rfl
  | cons a rest ih =>
    rw [List.mapM_cons, h a List.mem_cons_self, ih fun b hb => h b (List.mem_cons_of_mem _ hb)]
    rfl

theorem filterAuxM_eq_ok {f : α → Except ε Bool} {p : α → Bool} {l : List α}
    (h : ∀ a ∈ l, f a = .ok (p a)) (kept : List α) :
    l.filterAuxM f kept = .ok ((l.filter p).reverse ++ kept) := by
  induction l generalizing kept with
  | nil => rfl
  | cons a rest ih =>
    have hrest := ih fun b hb => h b (List.mem_cons_of_mem _ hb)
    rw [List.filterAuxM, h a List.mem_cons_self]
    show rest.filterAuxM f (cond (p a) (a :: kept) kept) = _
    rw [hrest]
    cases hp : p a <;> simp [hp]

theorem filterM_eq_ok {f : α → Except ε Bool} {p : α → Bool} {l : List α}
    (h : ∀ a ∈ l, f a = .ok (p a)) : l.filterM f = .ok (l.filter p) := by
  rw [List.filterM, filterAuxM_eq_ok h]
  simp [bind, Except.bind, pure, Except.pure]

/-! ### Lists of exactly what they should hold -/

/-- **A list of all that passes a test,** each once. -/
structure Lists {α : Type} (found : List α) (p : α → Prop) : Prop where
  nodup : found.Nodup
  mem_iff : ∀ a, a ∈ found ↔ p a

namespace Lists

variable {ε α β γ : Type} {l : List α} {p p' : α → Prop} {q : α → β → Prop}

theorem congr (h : Lists l p) (hp : ∀ a, p a ↔ p' a) : Lists l p' :=
  ⟨h.nodup, fun a => (h.mem_iff a).trans (hp a)⟩

/-- What is picked from different members must differ. -/
theorem filterMap (h : Lists l p) {f : α → Option β}
    (hdisj : ∀ a a' b, p a → p a' → f a = some b → f a' = some b → a = a') :
    Lists (l.filterMap f) fun b => ∃ a, p a ∧ f a = some b where
  nodup := by
    refine List.pairwise_filterMap.mpr (h.nodup.imp_of_mem fun {a a'} ha ha' hne b hb b' hb' => ?_)
    rintro rfl
    exact hne (hdisj a a' b ((h.mem_iff a).mp ha) ((h.mem_iff a').mp ha') hb hb')
  mem_iff b := by
    rw [List.mem_filterMap]
    exact ⟨fun ⟨a, ha, hb⟩ => ⟨a, (h.mem_iff a).mp ha, hb⟩,
      fun ⟨a, ha, hb⟩ => ⟨a, (h.mem_iff a).mpr ha, hb⟩⟩

variable (h : Lists l p) (hdisj : ∀ a a' b, p a → p a' → q a b → q a' b → a = a')
include h hdisj

/-- What every member leads to, all in one list. -/
theorem flatMap {g : α → List β} (hg : ∀ a, p a → Lists (g a) (q a)) :
    Lists (l.flatMap g) fun b => ∃ a, p a ∧ q a b where
  nodup := by
    rw [List.nodup_flatMap]
    refine ⟨fun a ha => (hg a ((h.mem_iff a).mp ha)).nodup, ?_⟩
    refine h.nodup.imp_of_mem fun {a a'} ha ha' hne b hb hb' => hne ?_
    have hpa := (h.mem_iff a).mp ha
    have hpa' := (h.mem_iff a').mp ha'
    exact hdisj a a' b hpa hpa' (((hg a hpa).mem_iff b).mp hb) (((hg a' hpa').mem_iff b).mp hb')
  mem_iff b := by
    rw [List.mem_flatMap]
    constructor
    · rintro ⟨a, ha, hb⟩
      have hpa := (h.mem_iff a).mp ha
      exact ⟨a, hpa, ((hg a hpa).mem_iff b).mp hb⟩
    · rintro ⟨a, hpa, hb⟩
      exact ⟨a, (h.mem_iff a).mpr hpa, ((hg a hpa).mem_iff b).mpr hb⟩

/-- What calls for every member led to, told of what it was made from. -/
theorem flatten_of_mapM {f : α → Except ε (List γ)} {k : β → γ} {parts : List (List γ)}
    (hparts : l.mapM f = .ok parts)
    (hf : ∀ a part, p a → f a = .ok part → ∃ bs, Lists bs (q a) ∧ part = bs.map k) :
    ∃ bs, Lists bs (fun b => ∃ a, p a ∧ q a b) ∧ parts.flatten = bs.map k := by
  have hall : ∀ a, ∃ bs, p a → Lists bs (q a) ∧ f a = .ok (bs.map k) := fun a => by
    by_cases ha : p a
    · obtain ⟨part, hpart⟩ := exists_of_mapM_eq_ok hparts a ((h.mem_iff a).mpr ha)
      obtain ⟨bs, hbs, rfl⟩ := hf a part ha hpart
      exact ⟨bs, fun _ => ⟨hbs, hpart⟩⟩
    · exact ⟨[], fun hp => absurd hp ha⟩
  choose g hg using hall
  refine ⟨l.flatMap g, h.flatMap hdisj fun a ha => (hg a ha).1, ?_⟩
  have hmap := mapM_eq_ok fun a ha => (hg a ((h.mem_iff a).mp ha)).2
  rw [hparts] at hmap
  cases hmap
  rw [List.map_flatMap, List.flatMap_def]

/-- What calls for every member led to, if it led to something, told of what it was made from. -/
theorem reduceOption_of_mapM {f : α → Except ε (Option γ)} {k : β → γ} {os : List (Option γ)}
    (hos : l.mapM f = .ok os)
    (hf : ∀ a o, p a → f a = .ok o → ∃ o' : Option β, (∀ b, o' = some b ↔ q a b) ∧ o = o'.map k) :
    ∃ bs, Lists bs (fun b => ∃ a, p a ∧ q a b) ∧ os.reduceOption = bs.map k := by
  have hall : ∀ a, ∃ o' : Option β, p a → (∀ b, o' = some b ↔ q a b) ∧ f a = .ok (o'.map k) :=
    fun a => by
      by_cases ha : p a
      · obtain ⟨o, ho⟩ := exists_of_mapM_eq_ok hos a ((h.mem_iff a).mpr ha)
        obtain ⟨o', ho', rfl⟩ := hf a o ha ho
        exact ⟨o', fun _ => ⟨ho', ho⟩⟩
      · exact ⟨none, fun hp => absurd hp ha⟩
  choose g hg using hall
  refine ⟨l.filterMap g, (h.filterMap fun a a' b ha ha' hb hb' => ?_).congr fun b => ?_, ?_⟩
  · exact hdisj a a' b ha ha' (((hg a ha).1 b).mp hb) (((hg a' ha').1 b).mp hb')
  · exact exists_congr fun a => and_congr_right fun ha => (hg a ha).1 b
  · have hmap := mapM_eq_ok fun a ha => (hg a ((h.mem_iff a).mp ha)).2
    rw [hos] at hmap
    cases hmap
    rw [List.reduceOption, List.filterMap_map, List.map_filterMap]
    rfl

end Lists

end TileStream
