import Mathlib.Data.List.Induction
import TileStream.Proofs.Store.Walk

/-!
# Making a way

Plain names lead on from the directory `here`, and none of them leads to a file. Then all directories on
the way can be made (`exists_createAll`): those that are missing are made, the others stay, and nothing
else changes (`Opens`). Of the trees that are passed on the way (`Passes`), each has what there was before
and nothing that there is not at the end (`Passes.between`). In any tree, what was to be made is there at
the end, when nothing was refused (`isDirectory_of_createAll`).

The directories are made in the order of need: the last one is tried first, and only where its own
directory is missing that one is made before it. So the recursion goes up the way, and the induction takes
names off its end.
-/

namespace TileStream.FileTree

open TileStream.Path (Plain)

variable {t made : FileTree} {here : Place} {base p : Path} {names : List String} {name : String}
  (now : CalendarTime)

/-- **The way was made:** every name leads to a directory, what there was is there, and what is new is a
directory on the way. -/
structure Opens (t made : FileTree) (here : Place) (names : List String) : Prop where
  paved : made.Paved here names
  kept : ∀ q e, t.entries.get? q = some e → made.entries.get? q = some e
  new : ∀ q e, made.entries.get? q = some e → t.entries.get? q = some e ∨
    e = .directory ∧ ∃ front rest, front ≠ [] ∧ names = front ++ rest ∧ q = here ++ front

theorem Opens.refl (h : t.Paved here names) : t.Opens t here names :=
  ⟨h, fun _ _ hq => hq, fun _ _ hq => .inl hq⟩

theorem Opens.keepsDirectories (h : t.Opens made here names) : t.KeepsDirectories made :=
  fun q hq => h.kept q _ hq

/-- A way on which a last directory is made. -/
theorem Opens.concat {done : FileTree} (h : t.Opens made here names)
    (hdone : ∀ q, done.entries.get? q =
      if q = here ++ names ++ [name] then some .directory else made.entries.get? q)
    (hfree : ∀ e, made.entries.get? (here ++ names ++ [name]) = some e → e = .directory) :
    t.Opens done here (names ++ [name]) where
  paved := by
    have hkeep : made.KeepsDirectories done := fun q hq => by
      rw [hdone]
      split
      · rfl
      · exact hq
    exact paved_concat.mpr ⟨hkeep.paved h.paved, by rw [hdone, if_pos rfl]⟩
  kept := fun q e hq => by
    rw [hdone]
    split
    · next hplace =>
      subst hplace
      rw [hfree e (h.kept _ _ hq)]
    · exact h.kept q e hq
  new := fun q e hq => by
    rw [hdone] at hq
    split at hq
    · next hplace =>
      cases hq
      exact .inr ⟨rfl, names ++ [name], [], by simp, by simp, by rw [hplace, List.append_assoc]⟩
    · rcases h.new q e hq with hold | ⟨he, front, rest, hfront, hnames, hplace⟩
      · exact .inl hold
      · exact .inr ⟨he, front, rest ++ [name], hfront, by rw [hnames, List.append_assoc], hplace⟩

/-! ### One directory -/

section Inside

variable (hname : Plain name) (hallowed : Path.Allowed (p ++ [name]))
include hname hallowed

theorem makeDirectory_concat (hdir : t.directory p = .ok here) : t.makeDirectory (p ++ [name]) now =
    if t.entries.contains (here ++ [name]) then .error .fileExists
    else .ok { t.add (here ++ [name]) .directory now with
      changes := (t.add (here ++ [name]) .directory now).changes.set (here ++ [name]) now } := by
  unfold makeDirectory
  rw [check_eq_ok hallowed, Path.split?_concat p hname.nonempty]
  dsimp only [bind, Except.bind]
  rw [hdir]
  dsimp only
  rw [hname.not_points, if_neg Bool.false_ne_true, absence_of_plain hname, if_pos rfl]
  unfold Table.contains
  cases t.entries.get? (here ++ [name]) <;> rfl

/-- **A directory is made** in another one, unless it is there. -/
theorem exists_ensureDirectory (hdir : t.directory p = .ok here)
    (hfree : ∀ e, t.entries.get? (here ++ [name]) = some e → e = .directory) : ∃ made : FileTree,
    t.ensureDirectory (p ++ [name]) now = .ok made ∧ ∀ q, made.entries.get? q =
      if q = here ++ [name] then some .directory else t.entries.get? q := by
  unfold ensureDirectory
  rw [makeDirectory_concat now hname hallowed hdir]
  unfold Table.contains
  cases hentry : t.entries.get? (here ++ [name]) with
  | none =>
    refine ⟨_, rfl, fun q => ?_⟩
    show (t.entries.set (here ++ [name]) .directory).get? q = _
    rw [Table.get?_set]
  | some e =>
    have hthere : t.isDirectory (p ++ [name]) = true := by
      unfold isDirectory
      rw [entry_concat hdir hname hallowed, hentry, hfree e hentry]
    refine ⟨t, by simp only [Option.isSome_some, if_true, hthere], fun q => ?_⟩
    split
    · next hq => rw [hq, hentry, hfree e hentry]
    · rfl

/-- A directory is not made in one that is not found. -/
theorem ensureDirectory_of_notFound (hdir : t.directory p = .error .notFound)
    (hthere : t.walk (p ++ [name]) = .error .notFound) :
    t.ensureDirectory (p ++ [name]) now = .error .notFound := by
  have hmake : t.makeDirectory (p ++ [name]) now = .error .notFound := by
    unfold makeDirectory
    rw [check_eq_ok hallowed, Path.split?_concat p hname.nonempty]
    dsimp only [bind, Except.bind]
    rw [hdir]
  have hno : t.isDirectory (p ++ [name]) = false := by
    unfold isDirectory entry
    rw [place_eq_walk hallowed, hthere]
    rfl
  unfold ensureDirectory
  rw [hmake]
  dsimp only
  rw [hno, if_neg Bool.false_ne_true]

end Inside

/-! ### All directories -/

/-- **A clear way can be made.** -/
theorem exists_createAll (hbase : t.directory base = .ok here) (hnames : ∀ n ∈ names, Plain n)
    (hn : names ≠ []) (hclear : t.Clear here names) (hallowed : Path.Allowed (base ++ names)) :
    ∃ made, t.createAll (base ++ names) now = (made, .ok ()) ∧ t.Opens made here names := by
  -- The induction takes the last name off. The paths above it are those of another path to `here`.
  induction names using List.reverseRecOn generalizing base with
  | nil => exact absurd rfl hn
  | append_singleton init name ih =>
    have hinit : ∀ n ∈ init, Plain n := fun n hm => hnames n (List.mem_append_left _ hm)
    have hname := hnames name (List.mem_append_right _ List.mem_cons_self)
    have hfree : ∀ e, t.entries.get? (here ++ init ++ [name]) = some e → e = .directory :=
      fun e he => by
        cases e with
        | directory => rfl
        | file bytes modified => exact absurd he ((clear_append.mp hclear).2.1 bytes modified)
    rw [← List.append_assoc] at hallowed ⊢
    by_cases hpaved : t.Paved here init
    · obtain ⟨made, hmade, hentries⟩ := exists_ensureDirectory now hname hallowed
        (directory_paved hbase hinit hpaved) hfree
      refine ⟨made, ?_, (Opens.refl hpaved).concat hentries hfree⟩
      unfold createAll
      rw [createFirst, hmade]
    · have hne : init ≠ [] := fun h => hpaved (by rw [h]; trivial)
      have hclear' := (clear_append.mp hclear).1
      have hmissing := ensureDirectory_of_notFound now hname hallowed
        (directory_of_clear hbase hinit hclear' hpaved) (by
          rw [List.append_assoc, walk_below hbase hnames (by simp),
            placeFrom_of_clear hinit hclear' hpaved])
      have hsub : (base.tidy ++ init).Sublist (base ++ init ++ [name]) :=
        (base.tidy_sublist.append_right init).trans (List.sublist_append_left _ _)
      obtain ⟨made, hmade, hopens⟩ := ih ((t.directory_tidy base).trans hbase) hinit hne hclear'
        (hallowed.sublist hsub)
      have hfree' : ∀ e, made.entries.get? (here ++ init ++ [name]) = some e → e = .directory :=
        fun e he => (hopens.new _ e he).elim (hfree e) And.left
      obtain ⟨done, hdone, hentries⟩ := exists_ensureDirectory now hname hallowed
        (directory_paved (hopens.keepsDirectories.directory hbase) hinit hopens.paved) hfree'
      refine ⟨done, ?_, hopens.concat hentries hfree'⟩
      unfold createAll at hmade ⊢
      rw [createFirst, hmissing, List.append_assoc, Path.passed_concat base hinit hne hname]
      dsimp only
      rw [hmade]
      dsimp only
      rw [← List.append_assoc, hdone]

/-! ### The trees on the way -/

/-- Whether what there is stays as it is. -/
def Grows (t t' : FileTree) : Prop :=
  ∀ q e, t.entries.get? q = some e → t'.entries.get? q = some e

theorem Grows.refl (t : FileTree) : t.Grows t := fun _ _ h => h

theorem Grows.trans {t' t'' : FileTree} (h : t.Grows t') (h' : t'.Grows t'') : t.Grows t'' :=
  fun q e hq => h' q e (h q e hq)

theorem Grows.keepsDirectories {t' : FileTree} (h : t.Grows t') : t.KeepsDirectories t' :=
  fun q hq => h q _ hq

variable {now}

theorem grows_of_makeDirectory (h : t.makeDirectory p now = .ok made) : t.Grows made := by
  obtain ⟨_, _, h⟩ := Checked.bind_eq_ok h
  split at h
  · cases h
  · obtain ⟨here, _, h⟩ := Checked.bind_eq_ok h
    split at h
    · cases h
    · split at h
      · cases h
      · next hfree =>
        split at h
        · cases h
          intro q e hq
          refine (Table.get?_set _ _ _ _).trans ?_
          rw [if_neg, hq]
          rintro rfl
          rw [hfree] at hq
          cases hq
        · cases h

theorem grows_of_ensureDirectory (h : t.ensureDirectory p now = .ok made) : t.Grows made := by
  unfold ensureDirectory at h
  split at h
  · next hmade =>
    cases h
    exact grows_of_makeDirectory hmade
  · split at h
    · cases h
      exact Grows.refl t
    · cases h

/-- A directory that was made is there. -/
theorem isDirectory_of_makeDirectory (h : t.makeDirectory p now = .ok made) :
    made.isDirectory p = true := by
  have hgrows := grows_of_makeDirectory h
  obtain ⟨_, hcheck, h⟩ := Checked.bind_eq_ok h
  split at h
  · cases h
  · next parents name hsplit =>
    obtain ⟨here, hdir, h⟩ := Checked.bind_eq_ok h
    obtain ⟨hne, slashes, hp, hslashes⟩ := Path.exists_of_split?_eq_some hsplit
    split at h
    · cases h
    · next hpoints =>
      split at h
      · cases h
      · split at h
        · cases h
          have hsought : Path.Sought name :=
            ⟨by simp_all [Path.isIdle], fun hup => hpoints (by simp [hup])⟩
          have hentry : (t.entries.set (here ++ [name]) .directory).get? (here ++ [name]) =
              some .directory := (Table.get?_set _ _ _ _).trans (if_pos rfl)
          have hhead : (name :: slashes).head? ≠ some "" := fun hhead => hne (Option.some.inj hhead)
          refine isDirectory_iff.mpr ⟨here ++ [name], ?_, ?_⟩
          · unfold place
            rw [hcheck]
            show FileTree.walk _ p = _
            rw [hp, hgrows.keepsDirectories.walk_append hdir (List.cons_ne_nil _ _) (.inr hhead),
              placeFrom_sought hsought]
            dsimp only [add, touchAbove]
            rw [hentry]
            exact placeFrom_slashes hslashes _
          · dsimp only [entryAt, add, touchAbove]
            rw [hentry, Option.getD_some]
        · cases h

theorem isDirectory_of_ensureDirectory (h : t.ensureDirectory p now = .ok made) :
    made.isDirectory p = true := by
  unfold ensureDirectory at h
  split at h
  · next hmade =>
    cases h
    exact isDirectory_of_makeDirectory hmade
  · split at h
    · next hthere =>
      cases h
      exact hthere
    · cases h

/-- **What was to be made is there,** whether or not it was made. -/
theorem isDirectory_of_createAll (h : t.createAll p now = (made, .ok ())) :
    made.isDirectory p = true := by
  unfold createAll createFirst at h
  split at h
  · next hmade =>
    cases h
    exact isDirectory_of_ensureDirectory hmade
  · split at h
    · cases h
    · split at h
      · next hmade =>
        cases h
        exact isDirectory_of_ensureDirectory hmade
      · cases h
  · cases h

/-- What is refused is refused before a directory is made. -/
theorem ensureDirectory_of_check {e : SystemError} (hcheck : check p = .error e) :
    t.ensureDirectory p now = .error e := by
  have hmake : t.makeDirectory p now = .error e := by
    unfold makeDirectory
    rw [hcheck]
    rfl
  have hno : t.isDirectory p = false := by
    unfold isDirectory entry place
    rw [hcheck]
    rfl
  unfold ensureDirectory
  rw [hmake]
  dsimp only
  rw [hno, if_neg Bool.false_ne_true]

/-- The trees that are passed while the first of some directories is made. -/
inductive Passes (now : CalendarTime) (t : FileTree) : List Path → FileTree → Prop where
  | start (ps : List Path) : Passes now t ps t
  | made {p above made} (h : t.ensureDirectory p now = .ok made) : Passes now t (p :: above) made
  | above {p above t'} (h : t.ensureDirectory p now = .error .notFound)
    (hpass : Passes now t above t') : Passes now t (p :: above) t'
  | after {p above t' made} (h : t.ensureDirectory p now = .error .notFound)
    (habove : t.createFirst now above = (t', .ok ())) (hmade : t'.ensureDirectory p now = .ok made) :
    Passes now t (p :: above) made

/-- The last tree is one of those that are passed, also when a directory cannot be made. -/
theorem passes_createFirst (t : FileTree) (now : CalendarTime) (ps : List Path) :
    t.Passes now ps (t.createFirst now ps).1 := by
  induction ps with
  | nil => exact .start []
  | cons p above ih =>
    unfold createFirst
    split
    · next hmade => exact .made hmade
    · next hmissing =>
      split
      · next habove =>
        rw [habove] at ih
        exact .above hmissing ih
      · next habove =>
        rw [habove] at ih
        split
        · next hmade => exact .after hmissing habove hmade
        · exact .above hmissing ih
    · exact .start _

theorem grows_createFirst (t : FileTree) (now : CalendarTime) (ps : List Path) :
    t.Grows (t.createFirst now ps).1 := by
  induction ps with
  | nil => exact Grows.refl t
  | cons p above ih =>
    unfold createFirst
    split
    · next hmade => exact grows_of_ensureDirectory hmade
    · split
      · next habove => rwa [habove] at ih
      · next habove =>
        rw [habove] at ih
        split
        · next hmade => exact ih.trans (grows_of_ensureDirectory hmade)
        · exact ih
    · exact Grows.refl t

/-- **Every tree on the way is between the first one and the last one.** -/
theorem Passes.between {ps : List Path} {t' : FileTree} (h : t.Passes now ps t') :
    t.Grows t' ∧ t'.Grows (t.createFirst now ps).1 := by
  induction h with
  | start ps => exact ⟨Grows.refl t, grows_createFirst t now ps⟩
  | made h =>
    refine ⟨grows_of_ensureDirectory h, ?_⟩
    unfold createFirst
    rw [h]
    exact Grows.refl _
  | above h _ ih =>
    refine ⟨ih.1, ih.2.trans ?_⟩
    rw [createFirst, h]
    dsimp only
    split
    · next habove =>
      rw [habove]
      exact Grows.refl _
    · next habove =>
      rw [habove]
      split
      · next hmade => exact grows_of_ensureDirectory hmade
      · exact Grows.refl _
  | @after p above t' made h habove hmade =>
    have hgrows := grows_createFirst t now above
    rw [habove] at hgrows
    refine ⟨hgrows.trans (grows_of_ensureDirectory hmade), ?_⟩
    rw [createFirst, h]
    dsimp only
    rw [habove]
    dsimp only
    rw [hmade]
    exact Grows.refl _

end TileStream.FileTree
