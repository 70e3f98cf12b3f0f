import TileStream.Geo.Culling
import TileStream.Proofs.Fault
import TileStream.Proofs.Geo.Extent

/-! # Refinement from the root

Let a test say which tiles are too coarse. Going down from the root wherever it says so finds exactly the
tiles that exist, are not the root, and have no ancestor that the test refuses (`Coverage.Wanted`,
`Coverage.mem_below_root`). So a tile can be judged from its ancestors alone, although nobody asks
whether they exist: those of an existing tile do.

`Search` is the search as a loop with a stack. One turn takes a tile off the stack and puts its children
on it when it is too coarse. The loop ends, because no tile lies deeper than the tree, and it has found
the same tiles then (`Search.exists_turns_below`).

`Coverage.reached_exact` says all of this of the tiles that a camera needs. -/

namespace TileStream

namespace Coverage

variable {c : Coverage} {p : TileId → Bool} {t q a : TileId} {depth : ℕ}

/-- A tile that exists, is not the root, and has no ancestor that the test refuses. -/
structure Wanted (c : Coverage) (p : TileId → Bool) (t : TileId) : Prop where
  covers : c.covers t = true
  ne_root : t ≠ TileId.root
  refined : ∀ a ∈ t.ancestors, p a = true

/-- The children of a quad that exist, where going down does not fault. -/
def existing (c : Coverage) (q : QuadId) : List TileId :=
  if c.maxZoom ≤ q.zoom then [] else q.childList.filter c.covers

theorem children_eq_existing (hq : q.IsQuad) : c.children q = .ok (c.existing q) := children_eq hq

theorem mem_existing (hq : q.IsQuad) : t ∈ c.existing q ↔ c.covers t = true ∧ t.parent? = some q :=
  mem_children hq (children_eq_existing hq)

/-- The existing tiles within some levels below a tile, reached by going down where the test says so. -/
def below (c : Coverage) (p : TileId → Bool) : ℕ → TileId → List TileId
  | 0, _ => []
  | depth + 1, t =>
    if p t then c.existing t ++ ((c.existing t).map (c.below p depth)).flatten else []

theorem mem_below_succ : t ∈ c.below p (depth + 1) q ↔
    p q = true ∧ (t ∈ c.existing q ∨ ∃ k ∈ c.existing q, t ∈ c.below p depth k) := by
  rw [below]
  by_cases hp : p q = true <;> simp [hp]

theorem isQuad_of_mem_existing (hq : q.IsQuad) (h : t ∈ c.existing q) : t.IsQuad :=
  TileId.isQuad_of_isValid (isValid_of_covers ((mem_existing hq).mp h).1)

/-- A search that asks a test that never faults does not fault. -/
theorem reachedFrom_eq {refine : TileId → Checked Bool} (hp : ∀ t, refine t = .ok (p t))
    (hq : q.IsQuad) : c.reachedFrom refine depth q = .ok (c.below p depth q) := by
  induction depth generalizing q with
  | zero => rfl
  | succ depth ih =>
    have hkids : (c.existing q).mapM (c.reachedFrom refine depth) =
        .ok ((c.existing q).map (c.below p depth)) :=
      mapM_eq_ok fun k hk => ih (isQuad_of_mem_existing hq hk)
    rw [reachedFrom, hp, children_eq_existing hq, below]
    cases hpq : p q with
    | false => rfl
    | true =>
      show (do
        let deeper ← (c.existing q).mapM (c.reachedFrom refine depth)
        pure (c.existing q ++ deeper.flatten) : Checked _) = _
      rw [hkids]
      rfl

/-! ### What is found is wanted, and what is wanted is found -/

theorem ne_root_of_parent? (h : t.parent? = some q) : t ≠ TileId.root := by
  rintro rfl
  cases h

theorem wanted_of_mem_below (hq : q.IsQuad) (hup : ∀ a ∈ q.ancestors, p a = true)
    (h : t ∈ c.below p depth q) : c.Wanted p t := by
  induction depth generalizing q with
  | zero => cases h
  | succ depth ih =>
    obtain ⟨hpq, h⟩ := mem_below_succ.mp h
    have hkid : ∀ k ∈ c.existing q, c.Wanted p k := fun k hk => by
      obtain ⟨hcov, hpar⟩ := (mem_existing hq).mp hk
      refine ⟨hcov, ne_root_of_parent? hpar, fun a ha => ?_⟩
      rw [TileId.ancestors_of_parent? hpar] at ha
      rcases List.mem_cons.mp ha with rfl | ha
      · exact hpq
      · exact hup a ha
    rcases h with h | ⟨k, hk, h⟩
    · exact hkid t h
    · exact ih (isQuad_of_mem_existing hq hk) (hkid k hk).refined h

theorem mem_below_of_wanted (hc : c.Nested) (ht : c.Wanted p t) (hq : q ∈ t.ancestors)
    (hdepth : t.zoom.toNat ≤ q.zoom.toNat + depth) : t ∈ c.below p depth q := by
  induction depth generalizing q with
  | zero =>
    have := TileId.zoom_lt_of_mem_ancestors hq
    omega
  | succ depth ih =>
    obtain ⟨k, hk, hpar⟩ := TileId.exists_child_of_mem_ancestors hq
    have hlevel := (TileId.parent?_eq_some_iff.mp hpar).1
    have hkid : k ∈ c.existing q := (mem_existing (TileId.isQuad_of_parent? hpar)).mpr
      ⟨covers_of_mem_lineage hc hk ht.covers, hpar⟩
    refine mem_below_succ.mpr ⟨ht.refined q hq, ?_⟩
    rcases TileId.mem_lineage.mp hk with rfl | hk
    · exact .inl hkid
    · exact .inr ⟨k, hkid, ih hk (by omega)⟩

theorem root_mem_ancestors (hcov : c.covers t = true) (hne : t ≠ TileId.root) :
    TileId.root ∈ t.ancestors := by
  rcases TileId.mem_lineage.mp (TileId.root_mem_lineage (isValid_of_covers hcov)) with he | h
  · exact absurd he.symm hne
  · exact h

/-- **Going down from the root finds exactly the wanted tiles.** -/
theorem mem_below_root (hc : c.Nested) :
    t ∈ c.below p c.maxZoom.toNat TileId.root ↔ c.Wanted p t := by
  constructor
  · exact wanted_of_mem_below TileId.isQuad_root fun a ha => by cases ha
  · intro ht
    refine mem_below_of_wanted hc ht (root_mem_ancestors ht.covers ht.ne_root) ?_
    have := zoom_le_of_covers ht.covers
    omega

/-! ### Families of wanted tiles -/

/-- The ancestors of a wanted tile below the root are wanted. -/
theorem Wanted.of_mem_ancestors (hc : c.Nested) (ht : c.Wanted p t) (ha : a ∈ t.ancestors)
    (hne : a ≠ TileId.root) : c.Wanted p a := by
  have hline := TileId.mem_lineage.mpr (.inr ha)
  exact ⟨covers_of_mem_lineage hc hline ht.covers, hne,
    fun b hb => ht.refined b (TileId.mem_ancestors_trans hb hline)⟩

/-- **The existing children of one parent are wanted together.** -/
theorem Wanted.of_parent? (ht : c.Wanted p t) (hpar : t.parent? = some q)
    (hcov : c.covers a = true) (hpar' : a.parent? = some q) : c.Wanted p a := by
  refine ⟨hcov, ne_root_of_parent? hpar', fun b hb => ?_⟩
  rw [TileId.ancestors_of_parent? hpar', ← TileId.ancestors_of_parent? hpar] at hb
  exact ht.refined b hb

theorem Wanted.exists_parent (ht : c.Wanted p t) : ∃ q, t.parent? = some q :=
  exists_parent_of_covers ht.covers ht.ne_root

/-! ### A tile judged from its ancestors -/

theorem allRefined_eq {refine : TileId → Checked Bool} (hp : ∀ t, refine t = .ok (p t))
    (ts : List TileId) : allRefined refine ts = .ok (ts.all p) := by
  induction ts with
  | nil => rfl
  | cons t rest ih =>
    rw [allRefined, hp, List.all_cons]
    cases p t with
    | false => rfl
    | true => exact ih

theorem reaches_eq_ok {refine : TileId → Checked Bool} (hp : ∀ t, refine t = .ok (p t)) {b : Bool}
    (hb : b = true ↔ c.Wanted p t) : c.reaches refine t = .ok b := by
  unfold reaches
  split
  · next h =>
    rw [Except.ok.injEq, eq_comm, Bool.eq_false_iff, Ne, hb]
    intro ht
    rw [Bool.or_eq_true, decide_eq_true_eq, ht.covers] at h
    rcases h with h | h
    · exact ht.ne_root (TileId.eq_root_of_isValid (isValid_of_covers ht.covers) h)
    · cases h
  · next h =>
    rw [Bool.or_eq_true, decide_eq_true_eq, not_or, Bool.not_eq_true', Bool.not_eq_false] at h
    obtain ⟨hz, hcov⟩ := h
    have hne : t ≠ TileId.root := by
      rintro rfl
      exact hz rfl
    rw [allRefined_eq hp, Except.ok.injEq, Bool.eq_iff_iff, hb, List.all_eq_true]
    exact ⟨fun hup => ⟨hcov, hne, hup⟩, fun ht => ht.refined⟩

end Coverage

/-! ### The loop with a stack -/

/-- A search in progress: the tiles still to be looked at, the next one first, and the tiles found. -/
structure Search where
  pending : List TileId
  found : List TileId

namespace Search

/-- One turn: the next tile is looked at, and if it is too coarse, its existing children are found and
looked at before all else, the last one first. -/
def turn (c : Coverage) (refine : TileId → Checked Bool) (s : Search) : Checked Search :=
  match s.pending with
  | [] => .ok s
  | t :: rest => do
    if ← refine t then
      let kids ← c.children t
      return ⟨kids.reverse ++ rest, s.found ++ kids⟩
    else return ⟨rest, s.found⟩

/-- Some turns, one after the other. -/
def turns (c : Coverage) (refine : TileId → Checked Bool) : ℕ → Search → Checked Search
  | 0, s => .ok s
  | n + 1, s => do turns c refine n (← s.turn c refine)

variable {c : Coverage} {refine : TileId → Checked Bool} {p : TileId → Bool} {t : TileId}

theorem turns_trans {m n : ℕ} {s s' s'' : Search} (h : s.turns c refine m = .ok s')
    (h' : s'.turns c refine n = .ok s'') : s.turns c refine (m + n) = .ok s'' := by
  induction m generalizing s with
  | zero =>
    cases h
    rwa [Nat.zero_add]
  | succ m ih =>
    rw [Nat.succ_add, turns]
    rw [turns] at h
    cases hs : s.turn c refine with
    | error e =>
      rw [hs] at h
      cases h
    | ok s₁ =>
      rw [hs] at h
      exact ih h

theorem turn_coarse (hp : ∀ t, refine t = .ok (p t)) (ht : t.IsQuad) (h : p t = true)
    (rest found : List TileId) : turn c refine ⟨t :: rest, found⟩ =
      .ok ⟨(c.existing t).reverse ++ rest, found ++ c.existing t⟩ := by
  unfold turn
  dsimp only
  rw [hp, h, Coverage.children_eq_existing ht]
  rfl

theorem turn_fine (hp : ∀ t, refine t = .ok (p t)) (h : p t = false) (rest found : List TileId) :
    turn c refine ⟨t :: rest, found⟩ = .ok ⟨rest, found⟩ := by
  unfold turn
  dsimp only
  rw [hp, h]
  rfl

/-- Tiles that are each done after some turns are all done after some turns. -/
theorem exists_turns_all {adds : TileId → List TileId} {ks : List TileId}
    (h : ∀ k ∈ ks, ∀ rest found, ∃ n found', turns c refine n ⟨k :: rest, found⟩ = .ok ⟨rest, found'⟩ ∧
      ∀ a, a ∈ found' ↔ a ∈ found ∨ a ∈ adds k) (rest found : List TileId) :
    ∃ n found', turns c refine n ⟨ks ++ rest, found⟩ = .ok ⟨rest, found'⟩ ∧
      ∀ a, a ∈ found' ↔ a ∈ found ∨ ∃ k ∈ ks, a ∈ adds k := by
  induction ks generalizing found with
  | nil => exact ⟨0, found, rfl, by simp⟩
  | cons k ks ih =>
    obtain ⟨m, found₁, hm, hfound₁⟩ := h k List.mem_cons_self (ks ++ rest) found
    obtain ⟨n, found₂, hn, hfound₂⟩ := ih (fun k' hk' => h k' (List.mem_cons_of_mem _ hk')) found₁
    refine ⟨m + n, found₂, turns_trans hm hn, fun a => ?_⟩
    rw [hfound₂, hfound₁, or_assoc]
    simp

/-- **A tile is done after some turns,** and what lies below it is found then. The induction is on the
levels that the tree has below the tile. -/
theorem exists_turns_below (hp : ∀ t, refine t = .ok (p t)) {depth : ℕ} (ht : t.IsQuad)
    (hdepth : c.maxZoom.toNat ≤ t.zoom.toNat + depth) (rest found : List TileId) :
    ∃ n found', turns c refine n ⟨t :: rest, found⟩ = .ok ⟨rest, found'⟩ ∧
      ∀ a, a ∈ found' ↔ a ∈ found ∨ a ∈ c.below p depth t := by
  induction depth generalizing t rest found with
  | zero =>
    have hnone : c.existing t = [] := if_pos (UInt8.le_iff_toNat_le.mpr hdepth)
    refine ⟨1, found, ?_, by simp [Coverage.below]⟩
    cases h : p t with
    | false => rw [turns, turn_fine hp h]; rfl
    | true =>
      rw [turns, turn_coarse hp ht h, hnone, List.append_nil]
      rfl
  | succ depth ih =>
    cases h : p t with
    | false =>
      refine ⟨1, found, ?_, by simp [Coverage.below, h]⟩
      rw [turns, turn_fine hp h]
      rfl
    | true =>
      have hkids : ∀ k ∈ (c.existing t).reverse, ∀ rest found, ∃ n found',
          turns c refine n ⟨k :: rest, found⟩ = .ok ⟨rest, found'⟩ ∧
            ∀ a, a ∈ found' ↔ a ∈ found ∨ a ∈ c.below p depth k := by
        intro k hk rest found
        have hk := List.mem_reverse.mp hk
        have hlevel := (TileId.parent?_eq_some_iff.mp ((Coverage.mem_existing ht).mp hk).2).1
        exact ih (Coverage.isQuad_of_mem_existing ht hk) (by omega) rest found
      obtain ⟨n, found', hn, hfound'⟩ := exists_turns_all hkids rest (found ++ c.existing t)
      refine ⟨1 + n, found', turns_trans ?_ hn, fun a => ?_⟩
      · rw [turns, turn_coarse hp ht h]
        rfl
      · rw [hfound', Coverage.mem_below_succ, List.mem_append, or_assoc]
        simp [h]

end Search

/-! ### The tiles that a camera needs -/

namespace Coverage

variable {κ : Type} {c : Coverage} {p : TileId → Bool}

/-- The culling that goes down from the root of a coverage where a test says so. -/
def culling (c : Coverage) (refine : κ → TileId → Checked Bool) : Culling κ :=
  fun camera => c.reached (refine camera)

theorem exists_needed (hc : c.Nested) : ∃ needed,
    (∀ refine : TileId → Checked Bool, (∀ t, refine t = .ok (p t)) → c.reached refine = .ok needed) ∧
      ∀ t, t ∈ needed ↔ c.Wanted p t :=
  ⟨_, fun _ hp => reachedFrom_eq hp TileId.isQuad_root, fun _ => mem_below_root hc⟩

/-- **The tiles that a camera needs.** Let the test never fault, and let boxes of children lie within
those of their parents as far as the coverage has an extent. Then the search does not fault and finds
exactly the existing tiles below the root all of whose ancestors are refined; judging a tile from its
ancestors agrees with looking it up among the tiles found; and the search as a loop with a stack ends and
has found the same tiles. So the tiles found are the existing children of the parents of tiles found, and
with a tile all its ancestors below the root are found. The culling used in flight is a case of this,
wherever its own test does not fault. -/
theorem reached_exact (c : Coverage) (hc : c.Nested) (refine : κ → TileId → Checked Bool) (camera : κ)
    (p : TileId → Bool) (hp : ∀ t, refine camera t = .ok (p t)) :
    ∃ needed, c.culling refine camera = .ok needed ∧
      (∀ t, t ∈ needed ↔ c.covers t = true ∧ t ≠ TileId.root ∧ ∀ a ∈ t.ancestors, p a = true) ∧
      (∀ t, c.reaches (refine camera) t = .ok (decide (t ∈ needed)) ∧
        c.reaches (refine camera) t = (c.culling refine).needs camera t) ∧
      (∃ n found, Search.turns c (refine camera) n ⟨[TileId.root], []⟩ = .ok ⟨[], found⟩ ∧
        ∀ t, t ∈ found ↔ t ∈ needed) ∧
      (∀ t, t ∈ needed ↔ ∃ m ∈ needed, ∃ q kids, m.parent? = some q ∧ c.children q = .ok kids ∧
        t ∈ kids) ∧
      (∀ t ∈ needed, ∀ a ∈ t.ancestors, a ≠ TileId.root → a ∈ needed) ∧
      ∀ (e : ScreenSpaceError) (view : Camera), e.coverage = c → (∀ t, e.refines view t = .ok (p t)) →
        e.culling view = .ok needed ∧ ∀ t, e.needs view t = .ok (decide (t ∈ needed)) := by
  obtain ⟨needed, hneeded, hmem⟩ := exists_needed (p := p) hc
  have hculling : c.culling refine camera = .ok needed := hneeded _ hp
  have hreaches : ∀ refine : TileId → Checked Bool, (∀ t, refine t = .ok (p t)) → ∀ t,
      c.reaches refine t = .ok (decide (t ∈ needed)) := fun refine hp t =>
    reaches_eq_ok hp (by rw [decide_eq_true_eq, hmem])
  refine ⟨needed, hculling, fun t => ?_, fun t => ⟨hreaches _ hp t, ?_⟩, ?_, fun t => ?_,
    fun t ht a ha hne => ?_, ?_⟩
  · rw [hmem]
    exact ⟨fun ⟨hcov, hne, hup⟩ => ⟨hcov, hne, hup⟩, fun ⟨hcov, hne, hup⟩ => ⟨hcov, hne, hup⟩⟩
  · rw [hreaches _ hp, Culling.needs, hculling, ← List.contains_eq_mem]
    rfl
  · obtain ⟨n, found, hn, hfound⟩ := Search.exists_turns_below hp TileId.isQuad_root
      (Nat.le_add_left c.maxZoom.toNat _) [] []
    exact ⟨n, found, hn, fun t => by rw [hfound, mem_below_root hc, hmem]; simp⟩
  · constructor
    · intro ht
      have hw := (hmem t).mp ht
      obtain ⟨q, hq⟩ := hw.exists_parent
      have hquad := TileId.isQuad_of_parent? hq
      exact ⟨t, ht, q, _, hq, children_eq_existing hquad, (mem_existing hquad).mpr ⟨hw.covers, hq⟩⟩
    · rintro ⟨m, hm, q, kids, hq, hkids, ht⟩
      obtain ⟨hcov, hpar⟩ := (mem_children (TileId.isQuad_of_parent? hq) hkids).mp ht
      exact (hmem t).mpr (((hmem m).mp hm).of_parent? hq hcov hpar)
  · exact (hmem a).mpr (((hmem t).mp ht).of_mem_ancestors hc ha hne)
  · rintro e view rfl he
    exact ⟨hneeded _ he, hreaches _ he⟩

/-- A tree declared deeper than the levels supported, of which two levels are needed. -/
theorem reached_exact_two_levels :
    let c : Coverage := ⟨200, none⟩
    let refine : Unit → TileId → Checked Bool := fun _ t => .ok (decide (t.zoom < 2))
    c.Nested ∧ (∀ t, refine () t = .ok (decide (t.zoom < 2))) ∧
      ∃ needed, c.culling refine () = .ok needed ∧
        ⟨2, 3, 1⟩ ∈ needed ∧ ⟨3, 6, 2⟩ ∉ needed ∧ ⟨2, 4, 1⟩ ∉ needed ∧
        c.reaches (refine ()) ⟨2, 3, 1⟩ = .ok true ∧
        ∃ n found, Search.turns c (refine ()) n ⟨[TileId.root], []⟩ = .ok ⟨[], found⟩ ∧
          ⟨2, 3, 1⟩ ∈ found := by
  intro c refine
  have hc : c.Nested := nested_of_extent_eq_none rfl
  obtain ⟨needed, hneeded, hmem, hreaches, ⟨n, found, hn, hfound⟩, -⟩ :=
    reached_exact c hc refine () (fun t => decide (t.zoom < 2)) fun _ => rfl
  have hin : ⟨2, 3, 1⟩ ∈ needed := (hmem _).mpr (by decide)
  refine ⟨hc, fun _ => rfl, needed, hneeded, hin, ?_, ?_, ?_, n, found, hn, (hfound _).mpr hin⟩
  · rw [hmem]
    decide
  · rw [hmem]
    decide
  · rw [(hreaches _).1, decide_eq_true hin]

end Coverage

end TileStream
