import TileStream.Proofs.Store.Disk

/-!
# Puts that are cut off

A put makes the directories of its column, one after the other, writes the bytes to a draft, and moves the
draft into place. It may be cut off at any point before the draft is moved, and then leaves some of the
directories, or all of them and a draft with some of the first bytes (`CutOff`); so does a put that fails
(`cutOff_of_write`). None of this is stored (`Arranged.cutOff`). So a store that was reached by puts of
which some were cut off (`Reached`) holds what was put last by those that were not (`Reached.arranged`), and
answers as if only these had been made (`cut_off_unseen`).

The first put goes into an empty root (`Bare`), as it is after opening (`exists_bare_of_openAt`). How long
the path of the root is does not matter. When it is long, the paths of some files are refused, and a put of
them fails.
-/

namespace TileStream.DiskStore

open FileTree

variable {s s' s₀ : DiskStore} {here here' : Place} {m : TileMap} {p : Put} {puts : List Put}

/-! ### Stores that answer alike -/

/-- **Stores that answer alike:** every key is read to the same answer, and reading everything fails in the
same way or gives the same entries, in whatever order the directories list them. -/
structure AnswersLike (s s' : DiskStore) : Prop where
  read : ∀ tile layer, s.read tile layer = s'.read tile layer
  readAll : ∀ maxAge now,
    (∃ all all', s.readAll maxAge now = .ok all ∧ s'.readAll maxAge now = .ok all' ∧ all.Perm all') ∨
    ∃ e, s.readAll maxAge now = .error e ∧ s'.readAll maxAge now = .error e

/-- **What is stored is all that is answered from,** besides the path of the root. -/
theorem Arranged.answersLike (h : s.Arranged here m) (h' : s'.Arranged here' m)
    (hroot : s.root = s'.root) : s.AnswersLike s' where
  read tile layer := by
    rw [h.read_eq, h'.read_eq, tilePath_of_root hroot]
  readAll maxAge now := by
    by_cases hallowed : ∀ layer : Layer, Path.Allowed (s.root.below [layer.name])
    · obtain ⟨all, hall, hnodup, hmem⟩ := h.exists_readAll hallowed maxAge now
      obtain ⟨all', hall', hnodup', hmem'⟩ := h'.exists_readAll (hroot ▸ hallowed) maxAge now
      refine .inl ⟨all, all', hall, hall', ?_⟩
      rw [List.perm_ext_iff_of_nodup (List.Nodup.of_map _ hnodup) (List.Nodup.of_map _ hnodup')]
      exact fun e => (hmem e).trans (hmem' e).symm
    · rw [not_forall] at hallowed
      exact .inr ⟨_, h.readAll_of_not_allowed hallowed maxAge now,
        h'.readAll_of_not_allowed (hroot ▸ hallowed) maxAge now⟩

/-! ### One put -/

/-- **What a put leaves that is cut off** before its draft is moved: some of the directories that it makes,
or all of them and a draft with the first bytes, none or some or all. -/
inductive CutOff (s : DiskStore) (p : Put) : DiskStore → Prop where
  | making {t : FileTree} (h : s.tree.Passes p.now
      (s.columnPath p.tile p.layer :: (s.columnPath p.tile p.layer).passed) t) :
    CutOff s p { s with tree := t }
  | drafting {made drafted : FileTree} (n : ℕ)
    (hmade : s.tree.createAll (s.columnPath p.tile p.layer) p.now = (made, .ok ()))
    (hdrafted : made.write (s.draftPath p.tile p.layer) (p.bytes.take n) p.now = .ok drafted) :
    CutOff s p { s with tree := drafted }

/-- **What a put leaves whose draft was moved.** -/
inductive Moved (s : DiskStore) (p : Put) : DiskStore → Prop where
  | intro {made drafted done : FileTree}
    (hmade : s.tree.createAll (s.columnPath p.tile p.layer) p.now = (made, .ok ()))
    (hdrafted : made.write (s.draftPath p.tile p.layer) p.bytes p.now = .ok drafted)
    (hdone : drafted.rename (s.columnPath p.tile p.layer) (rowName p.tile draftExtension)
      (rowName p.tile tileExtension) p.now = .ok done) :
    Moved s p { s with tree := done }

/-- A put may be cut off when it has made its directories, or could not. -/
theorem cutOff_createAll (s : DiskStore) (p : Put) :
    s.CutOff p { s with tree := (s.tree.createAll (s.columnPath p.tile p.layer) p.now).1 } :=
  .making (passes_createFirst s.tree p.now _)

/-- A put that fails leaves what one leaves that is cut off; else its draft was moved. -/
theorem cutOff_or_moved (s : DiskStore) (p : Put) :
    (∃ s' e, s.write p.tile p.layer p.bytes p.now = (s', .error e) ∧ s.CutOff p s') ∨
    ∃ s', s.write p.tile p.layer p.bytes p.now = (s', .ok ()) ∧ s.Moved p s' := by
  have hcut := cutOff_createAll s p
  unfold DiskStore.write
  split
  · next hmade =>
    rw [hmade] at hcut
    exact .inl ⟨_, _, rfl, hcut⟩
  · next made hmade =>
    rw [hmade] at hcut
    split
    · exact .inl ⟨_, _, rfl, hcut⟩
    · next drafted hdrafted =>
      split
      · refine .inl ⟨_, _, rfl, .drafting p.bytes.length hmade ?_⟩
        rw [List.take_length]
        exact hdrafted
      · next hdone => exact .inr ⟨_, rfl, .intro hmade hdrafted hdone⟩

theorem cutOff_of_write {e : StoreFailure}
    (h : s.write p.tile p.layer p.bytes p.now = (s', .error e)) : s.CutOff p s' := by
  rcases cutOff_or_moved s p with ⟨_, _, hwrite, hcut⟩ | ⟨_, hwrite, -⟩
  · rw [h] at hwrite
    cases hwrite
    exact hcut
  · rw [h] at hwrite
    cases hwrite

theorem moved_iff : s.Moved p s' ↔ s.write p.tile p.layer p.bytes p.now = (s', .ok ()) := by
  constructor
  · rintro ⟨hmade, hdrafted, hdone⟩
    unfold DiskStore.write
    rw [hmade]
    dsimp only
    rw [hdrafted]
    dsimp only
    rw [hdone]
  · intro h
    rcases cutOff_or_moved s p with ⟨_, _, hwrite, -⟩ | ⟨_, hwrite, hmoved⟩
    · rw [h] at hwrite
      cases hwrite
    · rw [h] at hwrite
      cases hwrite
      exact hmoved

/-- The path of a draft that was written was not refused. -/
theorem allowed_of_write {t t' : FileTree} {path : Path} {bytes : Bytes} {now : CalendarTime}
    (h : t.write path bytes now = .ok t') : Path.Allowed path :=
  (Checked.bind_eq_ok h).elim fun _ hcheck => allowed_of_check hcheck.1

theorem Moved.allowed (h : s.Moved p s') : Path.Allowed (s.draftPath p.tile p.layer) := by
  obtain ⟨-, hdrafted, -⟩ := h
  exact allowed_of_write hdrafted

/-- **A put that was cut off has stored nothing.** -/
theorem Arranged.cutOff (h : s.Arranged here m) (hcut : s.CutOff p s') :
    s'.Arranged here m ∧ s'.root = s.root := by
  cases hcut with
  | making hpass =>
    refine ⟨?_, rfl⟩
    by_cases hallowed : Path.Allowed (s.columnPath p.tile p.layer)
    · obtain ⟨made, hmade, hopens⟩ := h.exists_made hallowed p.now
      obtain ⟨hgrows, hwithin⟩ := hpass.between
      unfold createAll at hmade
      rw [hmade] at hwithin
      exact h.made hopens hgrows hwithin hallowed
    · -- the first directory is refused, and none of the others is tried
      have hcheck : check (s.columnPath p.tile p.layer) = .error .nameTooLong := by
        rw [columnPath_eq] at hallowed ⊢
        exact h.check_columnNames (List.append_nil _).symm hallowed
      have hrefused : s.tree.ensureDirectory (s.columnPath p.tile p.layer) p.now =
          .error .nameTooLong := ensureDirectory_of_check hcheck
      cases hpass with
      | start => exact h
      | made hmade => rw [hrefused] at hmade; cases hmade
      | above hmissing => rw [hrefused] at hmissing; cases hmissing
      | after hmissing => rw [hrefused] at hmissing; cases hmissing
  | drafting n hmade hdrafted =>
    have hallowed := allowed_of_write hdrafted
    have hcolumn := allowed_columnPath hallowed
    obtain ⟨made, hmade', hopens⟩ := h.exists_made hcolumn p.now
    rw [hmade] at hmade'
    cases hmade'
    have hs := h.made hopens hopens.kept (Grows.refl _) hcolumn
    obtain ⟨drafted, hdrafted', -, -, hs'⟩ :=
      hs.exists_drafted hallowed hopens.paved (p.bytes.take n) p.now
    obtain rfl := Except.ok.inj (hdrafted.symm.trans hdrafted')
    exact ⟨hs', rfl⟩

/-- **A put whose draft was moved has stored its bytes.** -/
theorem Arranged.put (h : s.Arranged here m) (hmoved : s.Moved p s') :
    s'.Arranged here (m.store p.tile p.layer p.bytes p.now) ∧ s'.root = s.root := by
  obtain ⟨s₁, hwrite, hroot, hs₁⟩ := h.exists_write hmoved.allowed p.bytes p.now
  rw [moved_iff.mp hmoved] at hwrite
  cases hwrite
  exact ⟨hs₁, hroot⟩

/-! ### Puts one after the other -/

/-- **The states that puts lead to** of which some may be cut off, with those that are not. -/
inductive Reached (s₀ : DiskStore) : List Put → DiskStore → Prop where
  | start : Reached s₀ [] s₀
  | put {puts : List Put} {s s' : DiskStore} {p : Put} (h : Reached s₀ puts s) (hmoved : s.Moved p s') :
    Reached s₀ (puts ++ [p]) s'
  | cutOff {puts : List Put} {s s' : DiskStore} {p : Put} (h : Reached s₀ puts s)
    (hcut : s.CutOff p s') : Reached s₀ puts s'

theorem lastPut?_concat (puts : List Put) (p : Put) (k : TileKey) :
    lastPut? (puts ++ [p]) k = if p.entry.key = k then some p else lastPut? puts k := by
  unfold lastPut?
  rw [List.reverse_concat, List.find?_cons]
  split <;> simp_all

/-- **What is stored is what was put last** by the puts that were not cut off. -/
theorem Reached.arranged (h₀ : s₀.Bare here) (h : s₀.Reached puts s) :
    (s.Arranged here fun k => (lastPut? puts k).map Put.entry) ∧ s.root = s₀.root ∧
      ∀ p ∈ puts, Path.Allowed (s₀.draftPath p.tile p.layer) := by
  induction h with
  | start => exact ⟨h₀.arranged, rfl, fun p hp => by cases hp⟩
  | @put puts s s' p _ hmoved ih =>
    obtain ⟨hs, hroot, hallowed⟩ := ih
    obtain ⟨hs', hroot'⟩ := hs.put hmoved
    refine ⟨?_, hroot'.trans hroot, fun p' hp' => ?_⟩
    · have hmap : (fun k => (lastPut? (puts ++ [p]) k).map Put.entry) =
          TileMap.store (fun k => (lastPut? puts k).map Put.entry) p.tile p.layer p.bytes p.now := by
        funext k
        rw [lastPut?_concat, TileMap.store]
        by_cases hk : p.entry.key = k
        · rw [if_pos hk, if_pos (show k = (p.tile, p.layer) from hk.symm)]
          rfl
        · rw [if_neg hk, if_neg (fun hkey : k = (p.tile, p.layer) => hk hkey.symm)]
      rw [hmap]
      exact hs'
    · rcases List.mem_append.mp hp' with hold | hnew
      · exact hallowed p' hold
      · rw [List.mem_singleton.mp hnew, ← draftPath_of_root hroot]
        exact hmoved.allowed
  | cutOff _ hcut ih =>
    obtain ⟨hs, hroot, hallowed⟩ := ih
    obtain ⟨hs', hroot'⟩ := hs.cutOff hcut
    exact ⟨hs', hroot'.trans hroot, hallowed⟩

/-- **Puts that were cut off do not show.** -/
theorem Reached.exists_clean (h₀ : s₀.Bare here) (h : s₀.Reached puts s) : ∃ clean,
    s₀.writeAll puts = .ok clean ∧ s.AnswersLike clean := by
  obtain ⟨hs, hroot, hallowed⟩ := h.arranged h₀
  obtain ⟨clean, hputs, hroot', hclean⟩ := h₀.arranged.exists_writeAll puts hallowed
  simp only [Option.or_none] at hclean
  exact ⟨clean, hputs, hs.answersLike hclean (hroot.trans hroot'.symm)⟩

/-- **A put that is cut off is not seen.** In every state that puts into an empty root lead to, complete or
cut off, the store answers as after the complete ones alone. A put that fails or is cut off before its draft
is moved leaves all answers as they were. One whose draft was moved is complete: then the store answers as
after the complete puts and this one, and reads its bytes under its key and what it read before under
every other key. -/
theorem cut_off_unseen (h₀ : s₀.Bare here) (h : s₀.Reached puts s) (p : Put) :
    (∃ clean, s₀.writeAll puts = .ok clean ∧ s.AnswersLike clean) ∧
    (∀ s', s.CutOff p s' → s'.AnswersLike s) ∧
    (∀ s' e, s.write p.tile p.layer p.bytes p.now = (s', .error e) → s'.AnswersLike s) ∧
    ∀ s', s.Moved p s' → s.write p.tile p.layer p.bytes p.now = (s', .ok ()) ∧
      (∃ clean, s₀.writeAll (puts ++ [p]) = .ok clean ∧ s'.AnswersLike clean) ∧
      ∀ tile layer, s'.read tile layer =
        if (tile, layer) = p.entry.key then .ok (some p.entry) else s.read tile layer := by
  obtain ⟨hs, -, -⟩ := h.arranged h₀
  have hunseen : ∀ s', s.CutOff p s' → s'.AnswersLike s := fun s' hcut => by
    obtain ⟨hs', hroot⟩ := hs.cutOff hcut
    exact hs'.answersLike hs hroot
  refine ⟨h.exists_clean h₀, hunseen, fun s' e hwrite => hunseen s' (cutOff_of_write hwrite),
    fun s' hmoved => ⟨moved_iff.mp hmoved, (h.put hmoved).exists_clean h₀, fun tile layer => ?_⟩⟩
  obtain ⟨hs', hroot⟩ := hs.put hmoved
  rw [hs'.read_eq, hs.read_eq, tilePath_of_root hroot]
  by_cases hkey : (tile, layer) = (p.tile, p.layer)
  · rw [TileMap.store, if_pos hkey, if_pos (show (tile, layer) = p.entry.key from hkey)]
    obtain ⟨rfl, rfl⟩ := Prod.mk.inj hkey
    rw [check_eq_ok (allowed_tilePath hmoved.allowed)]
    rfl
  · rw [TileMap.store, if_neg hkey, if_neg (show ¬ (tile, layer) = p.entry.key from hkey)]

/-- A store in the directory `data`. -/
def dataStore : DiskStore := ⟨(FileTree.standard.createAll ["data"] ⟨0⟩).1, ["data"]⟩

/-- A put of a tile. -/
def firstPut : Put := ⟨⟨1, 1, 0⟩, .ortho, [1, 2], ⟨5000000⟩⟩

/-- A later put of the same tile. -/
def laterPut : Put := ⟨⟨1, 1, 0⟩, .ortho, [3, 4], ⟨6000000⟩⟩

/-- The store after the first put. -/
def storedData : DiskStore :=
  (dataStore.write firstPut.tile firstPut.layer firstPut.bytes firstPut.now).1

/-- The store after the later put was cut off when one byte was written. -/
def draftedData : DiskStore :=
  { storedData with
    tree := (storedData.tree.write (storedData.draftPath laterPut.tile laterPut.layer) [3]
      laterPut.now).toOption.getD storedData.tree }

theorem cut_off_unseen_data : openAt FileTree.standard ["data"] ⟨0⟩ = (dataStore.tree, .ok dataStore) ∧
    dataStore.Bare ["data"] ∧ dataStore.Reached [firstPut] storedData ∧
    storedData.CutOff laterPut draftedData ∧
    draftedData.tree.read ["data", "ortho", "1", "1", "0.partial"] = .ok ([3], ⟨6000000⟩) ∧
    draftedData.AnswersLike storedData := by
  have hbare : dataStore.Bare ["data"] := ⟨by decide, rfl, fun _ _ => rfl⟩
  have hreached : dataStore.Reached [firstPut] storedData :=
    .put .start (moved_iff.mpr (by decide +kernel))
  have hcut : storedData.CutOff laterPut draftedData :=
    @CutOff.drafting _ _ storedData.tree _ 1 (by decide +kernel) (by decide +kernel)
  exact ⟨by decide +kernel, hbare, hreached, hcut, by decide +kernel,
    (cut_off_unseen hbare hreached laterPut).2.1 draftedData hcut⟩

end TileStream.DiskStore
