import TileStream.Proofs.Store.Path
import TileStream.Proofs.Table
import TileStream.Store.FileTree

/-!
# Working below a directory

A path `base` leads to the directory `here`, and plain names lead on from there. What an operation on
such a path does is told by the entries at and on the way to `here ++ names`.

* `Paved`: every name leads to a directory; `Clear`: none leads to a file.
* `placeFrom_paved`, `placeFrom_of_clear`: a paved way is walked to its end, and on a clear way that is
  not paved something is not found.
* `directory_paved`, `directory_of_clear`: so is the path that leads on from `base`.
* `read_concat`, `write_concat`, `rename_concat`: what a file in a directory is read, written and moved
  as; `exists_contents`: what the directory lists.
-/

namespace TileStream.FileTree

open TileStream.Path (Plain)

variable {t t' : FileTree} {here : Place} {base p : Path} {names : List String} {name : String}
  (now : CalendarTime)

theorem absence_of_plain (h : Plain name) : absence name = .notFound := by
  have hshort := h.short
  unfold absence
  rw [if_neg (by omega)]

theorem check_eq_ok (h : Path.Allowed p) : check p = .ok () := by
  have hany : (p.any fun name => name.toList.contains (Char.ofNat 0)) = false := by
    rw [List.any_eq_false]
    intro name hname hcontains
    exact h.noNul name hname (by simpa using hcontains)
  have hshort := h.short
  unfold check
  rw [hany, if_neg Bool.false_ne_true, if_neg (by omega)]

theorem allowed_of_check (h : check p = .ok ()) : Path.Allowed p := by
  unfold check at h
  split at h
  · cases h
  · next hany =>
    rw [Bool.not_eq_true, List.any_eq_false] at hany
    split at h
    · cases h
    · next hshort => exact ⟨fun name hname hnul => hany name hname (by simpa using hnul), by omega⟩

theorem check_of_not_allowed (hnul : ∀ name ∈ p, Char.ofNat 0 ∉ name.toList)
    (h : ¬ Path.Allowed p) : check p = .error .nameTooLong := by
  have hany : (p.any fun name => name.toList.contains (Char.ofNat 0)) = false := by
    rw [List.any_eq_false]
    intro name hname hcontains
    exact hnul name hname (by simpa using hcontains)
  have hlong : 4095 < p.size := Nat.lt_of_not_le fun hshort => h ⟨hnul, hshort⟩
  unfold check
  rw [hany, if_neg Bool.false_ne_true, if_pos hlong]

theorem check_ne_notFound (p : Path) : check p ≠ .error .notFound := by
  unfold check
  split
  · exact fun h => by cases h
  · split <;> exact fun h => by cases h

theorem place_eq_walk (h : Path.Allowed p) : t.place p = t.walk p := by
  unfold place
  rw [check_eq_ok h]
  rfl

/-! ### Walking -/

/-- Every name leads to a directory. -/
def Paved (t : FileTree) (here : Place) : List String → Prop
  | [] => True
  | name :: rest => t.entries.get? (here ++ [name]) = some .directory ∧ t.Paved (here ++ [name]) rest

/-- No name leads to a file. -/
def Clear (t : FileTree) (here : Place) : List String → Prop
  | [] => True
  | name :: rest => (∀ bytes modified, t.entries.get? (here ++ [name]) ≠ some (.file bytes modified)) ∧
      t.Clear (here ++ [name]) rest

theorem paved_append {more : List String} :
    t.Paved here (names ++ more) ↔ t.Paved here names ∧ t.Paved (here ++ names) more := by
  induction names generalizing here with
  | nil => simp [Paved]
  | cons first rest ih =>
    simp only [List.cons_append, Paved, ih, List.append_assoc, List.nil_append, and_assoc]

theorem clear_append {more : List String} :
    t.Clear here (names ++ more) ↔ t.Clear here names ∧ t.Clear (here ++ names) more := by
  induction names generalizing here with
  | nil => simp [Clear]
  | cons first rest ih =>
    simp only [List.cons_append, Clear, ih, List.append_assoc, List.nil_append, and_assoc]

theorem paved_concat : t.Paved here (names ++ [name]) ↔
    t.Paved here names ∧ t.entries.get? (here ++ names ++ [name]) = some .directory := by
  simp only [paved_append, Paved, and_true]

theorem placeFrom_idle (h : Path.isIdle name = true) (here : Place) (p : Path) :
    t.placeFrom here (name :: p) = t.placeFrom here p := by
  rw [placeFrom, if_pos h]

theorem placeFrom_plain (h : Plain name) (here : Place) (p : Path) :
    t.placeFrom here (name :: p) =
      match t.entries.get? (here ++ [name]) with
      | none => .error .notFound
      | some .directory => t.placeFrom (here ++ [name]) p
      | some (.file _ _) => if p.isEmpty then .ok (here ++ [name]) else .error .notDirectory := by
  cases hentry : t.entries.get? (here ++ [name]) with
  | none => simp [placeFrom, h.not_isIdle, h.points, hentry, absence_of_plain h]
  | some e => cases e <;> simp [placeFrom, h.not_isIdle, h.points, hentry]

/-- **A paved way is walked to its end.** -/
theorem placeFrom_paved (hnames : ∀ n ∈ names, Plain n) (h : t.Paved here names) (p : Path) :
    t.placeFrom here (names ++ p) = t.placeFrom (here ++ names) p := by
  induction names generalizing here with
  | nil => rw [List.nil_append, List.append_nil]
  | cons first rest ih =>
    have hrest := ih (fun n hn => hnames n (List.mem_cons_of_mem _ hn)) h.2
    rw [List.cons_append, placeFrom_plain (hnames first List.mem_cons_self), h.1]
    dsimp only
    rw [hrest, List.append_assoc, List.singleton_append]

/-- **Something is not found** on a clear way that is not paved. -/
theorem placeFrom_of_clear (hnames : ∀ n ∈ names, Plain n) (hclear : t.Clear here names)
    (h : ¬ t.Paved here names) (p : Path) : t.placeFrom here (names ++ p) = .error .notFound := by
  induction names generalizing here with
  | nil => exact absurd trivial h
  | cons first rest ih =>
    rw [List.cons_append, placeFrom_plain (hnames first List.mem_cons_self)]
    cases hfirst : t.entries.get? (here ++ [first]) with
    | none => rfl
    | some e =>
      cases e with
      | file bytes modified => exact absurd hfirst (hclear.1 bytes modified)
      | directory =>
        exact ih (fun n hn => hnames n (List.mem_cons_of_mem _ hn)) hclear.2
          fun hpaved => h ⟨hfirst, hpaved⟩

/-- Whether directories stay directories. -/
def KeepsDirectories (t t' : FileTree) : Prop :=
  ∀ q, t.entries.get? q = some .directory → t'.entries.get? q = some .directory

theorem KeepsDirectories.refl (t : FileTree) : t.KeepsDirectories t := fun _ h => h

theorem KeepsDirectories.paved (h : t.KeepsDirectories t') (hpaved : t.Paved here names) :
    t'.Paved here names := by
  induction names generalizing here with
  | nil => trivial
  | cons first rest ih => exact ⟨h _ hpaved.1, ih hpaved.2⟩

/-- **A walk that ends in a directory goes on from there,** also when directories were added. -/
theorem KeepsDirectories.placeFrom_append (hkeep : t.KeepsDirectories t') {start : Place}
    (h : t.placeFrom start (p ++ [""]) = .ok here) (q : Path) :
    t'.placeFrom start (p ++ q) = t'.placeFrom here q := by
  induction p generalizing start with
  | nil =>
    rw [List.nil_append, placeFrom_idle rfl, placeFrom] at h
    cases h
    rfl
  | cons name rest ih =>
    have hmore : (rest ++ [""]).isEmpty = false := by simp
    rw [List.cons_append, placeFrom] at h ⊢
    split
    · next hidle => exact ih (by rwa [if_pos hidle] at h)
    · next hidle =>
      rw [if_neg hidle] at h
      split
      · next hup => exact ih (by rwa [if_pos hup] at h)
      · next hup =>
        rw [if_neg hup] at h
        -- a file on the way, or a missing name, would have ended the first walk
        cases hentry : t.entries.get? (start ++ [name]) with
        | none => rw [hentry] at h; cases h
        | some e =>
          rw [hentry] at h
          cases e with
          | directory =>
            rw [hkeep _ hentry]
            exact ih h
          | file bytes modified =>
            dsimp only at h
            rw [hmore] at h
            cases h

/-- Names that lead nowhere can be left out of a walk that ends in a directory. -/
theorem placeFrom_filter {start : Place} (p : Path) :
    t.placeFrom start ((p.filter fun name => !Path.isIdle name) ++ [""]) =
      t.placeFrom start (p ++ [""]) := by
  induction p generalizing start with
  | nil => rfl
  | cons name rest ih =>
    by_cases hidle : Path.isIdle name = true
    · rw [List.filter_cons_of_neg (by simp [hidle]), List.cons_append, placeFrom_idle hidle]
      exact ih
    · have hmore : ∀ p' : Path, (p' ++ [""]).isEmpty = false := fun p' => by simp
      rw [List.filter_cons_of_pos (by simp [hidle]), List.cons_append, List.cons_append, placeFrom,
        placeFrom, hmore, hmore]
      simp only [ih]

/-! ### The directory that a path leads to -/

theorem directory_tidy (t : FileTree) (base : Path) : t.directory base.tidy = t.directory base := by
  unfold directory walk Path.tidy
  by_cases habs : base.head? = some ""
  · obtain ⟨rest, rfl⟩ := List.head?_eq_some_iff.mp habs
    have hfilter : ("" :: rest).filter (fun name => !Path.isIdle name) =
        rest.filter fun name => !Path.isIdle name := List.filter_cons_of_neg (by simp [Path.isIdle])
    rw [if_pos habs, hfilter]
    simp [Path.isAbsolute, placeFrom_filter]
  · have hhead : (base.filter fun name => !Path.isIdle name).head? ≠ some "" := fun h =>
      absurd (List.mem_filter.mp (List.mem_of_mem_head? h)).2 (by decide)
    have hrel : ∀ q : Path, q.head? ≠ some "" → (q ++ [""]).isAbsolute = false := fun q hq => by
      cases q with
      | nil => rfl
      | cons name rest => simpa [Path.isAbsolute] using hq
    rw [if_neg habs, List.nil_append, hrel _ hhead, hrel _ habs, placeFrom_filter]
    rfl

/-- **What is below a directory is walked to from there.** -/
theorem KeepsDirectories.walk_append (hkeep : t.KeepsDirectories t')
    (h : t.directory base = .ok here) {q : Path} (hq : q ≠ []) (hhead : q = [""] ∨ q.head? ≠ some "") :
    t'.walk (base ++ q) = t'.placeFrom here q := by
  have habs : (base ++ q).isAbsolute = (base ++ [""]).isAbsolute := by
    rcases hhead with rfl | hhead
    · rfl
    · rw [Path.isAbsolute_append base hq hhead]
      cases base <;> simp [Path.isAbsolute]
  unfold directory walk at h
  unfold walk
  rw [habs]
  by_cases hslash : (base ++ [""]).isAbsolute = true
  · rw [if_pos hslash] at h ⊢
    cases base with
    | nil => cases hslash
    | cons name rest => exact hkeep.placeFrom_append h q
  · rw [if_neg hslash] at h ⊢
    exact hkeep.placeFrom_append h q

section Below

variable (hbase : t.directory base = .ok here) (hnames : ∀ n ∈ names, Plain n)
include hbase hnames

theorem walk_below (hn : names ≠ []) : t.walk (base ++ names) = t.placeFrom here names :=
  (KeepsDirectories.refl t).walk_append hbase hn <| .inr fun h =>
    (hnames "" (List.mem_of_mem_head? h)).nonempty rfl

theorem directory_below : t.directory (base ++ names) = t.placeFrom here (names ++ [""]) := by
  unfold directory
  rw [List.append_assoc]
  cases names with
  | nil => exact (KeepsDirectories.refl t).walk_append hbase (List.cons_ne_nil _ _) (.inl rfl)
  | cons first rest =>
    refine (KeepsDirectories.refl t).walk_append hbase (List.cons_ne_nil _ _) (.inr fun h => ?_)
    exact (hnames first List.mem_cons_self).nonempty (Option.some.inj h)

theorem directory_paved (h : t.Paved here names) :
    t.directory (base ++ names) = .ok (here ++ names) := by
  rw [directory_below hbase hnames, placeFrom_paved hnames h, placeFrom_idle rfl, placeFrom]

theorem directory_of_clear (hclear : t.Clear here names) (h : ¬ t.Paved here names) :
    t.directory (base ++ names) = .error .notFound := by
  rw [directory_below hbase hnames, placeFrom_of_clear hnames hclear h]

end Below

theorem KeepsDirectories.directory (hkeep : t.KeepsDirectories t')
    (h : t.directory base = .ok here) : t'.directory base = .ok here :=
  (hkeep.walk_append h (List.cons_ne_nil _ _) (.inl rfl)).trans (placeFrom_idle rfl _ _)

/-! ### What is in a directory -/

section Inside

variable (hdir : t.directory p = .ok here) (hname : Plain name) (hallowed : Path.Allowed (p ++ [name]))
include hdir hname hallowed

theorem place_concat : t.place (p ++ [name]) =
    match t.entries.get? (here ++ [name]) with
    | none => .error .notFound
    | some _ => .ok (here ++ [name]) := by
  have hhead : [name].head? ≠ some "" := fun h => hname.nonempty (Option.some.inj h)
  rw [place_eq_walk hallowed,
    (KeepsDirectories.refl t).walk_append hdir (List.cons_ne_nil _ _) (.inr hhead),
    placeFrom_plain hname]
  cases t.entries.get? (here ++ [name]) with
  | none => rfl
  | some e => cases e <;> rfl

theorem entry_concat : t.entry (p ++ [name]) =
    match t.entries.get? (here ++ [name]) with
    | none => .error .notFound
    | some e => .ok e := by
  unfold entry
  rw [place_concat hdir hname hallowed]
  cases hentry : t.entries.get? (here ++ [name]) with
  | none => rfl
  | some e =>
    show Except.ok (t.entryAt (here ++ [name])) = .ok e
    rw [entryAt, hentry, Option.getD_some]

/-- **What is read** is what the entry of the file says. -/
theorem read_concat : t.read (p ++ [name]) =
    match t.entries.get? (here ++ [name]) with
    | none => .error .notFound
    | some .directory => .error .isDirectory
    | some (.file bytes modified) => .ok (bytes, modified) := by
  unfold read
  rw [entry_concat hdir hname hallowed]
  cases t.entries.get? (here ++ [name]) with
  | none => rfl
  | some e => cases e <;> rfl

/-- **A file is written** where there is no directory, and nothing else changes. -/
theorem write_concat (bytes : Bytes)
    (hentry : t.entries.get? (here ++ [name]) ≠ some .directory) : ∃ written : FileTree,
    t.write (p ++ [name]) bytes now = .ok written ∧
      written.entries = t.entries.set (here ++ [name]) (.file bytes now) := by
  unfold write
  rw [check_eq_ok hallowed, Path.split?_concat p hname.nonempty]
  dsimp only [bind, Except.bind]
  rw [hdir]
  dsimp only
  rw [hname.not_points, if_neg Bool.false_ne_true, absence_of_plain hname, if_pos rfl]
  cases hold : t.entries.get? (here ++ [name]) with
  | none => exact ⟨_, rfl, rfl⟩
  | some e =>
    cases e with
    | directory => exact absurd hold hentry
    | file old modified => exact ⟨_, rfl, rfl⟩

end Inside

/-- **A file is moved** to another name in its directory where there is no directory. -/
theorem rename_concat {source target : String} {bytes : Bytes} {modified : CalendarTime}
    (hlast : p.below [] = p) (hdir : t.directory p = .ok here) (hsource : Plain source)
    (hallowed : Path.Allowed (p ++ [source])) (hallowed' : Path.Allowed (p ++ [target]))
    (hfile : t.entries.get? (here ++ [source]) = some (.file bytes modified))
    (hentry : t.entries.get? (here ++ [target]) ≠ some .directory) : ∃ moved : FileTree,
    t.rename p source target now = .ok moved ∧ moved.entries =
      (t.entries.erase (here ++ [source])).set (here ++ [target]) (.file bytes modified) := by
  have hread := read_concat hdir hsource hallowed
  rw [hfile] at hread
  unfold rename
  rw [Path.below_eq p [source], Path.below_eq p [target], hlast, check_eq_ok hallowed,
    check_eq_ok hallowed', hread]
  dsimp only [bind, Except.bind]
  rw [hdir]
  dsimp only
  cases hold : t.entries.get? (here ++ [target]) with
  | none => exact ⟨_, rfl, rfl⟩
  | some e =>
    cases e with
    | directory => exact absurd hold hentry
    | file old last => exact ⟨_, rfl, rfl⟩

/-- **A directory lists** what has a place right below it, each thing once. -/
theorem exists_contents (hplace : t.place p = .ok here) (hdir : t.entryAt here = .directory) :
    ∃ found, t.contents p = .ok found ∧ found.Nodup ∧ ∀ name q,
      (name, q) ∈ found ↔ q = here ++ [name] ∧ t.entries.contains q = true := by
  refine ⟨_, by unfold contents; rw [hplace]; dsimp only [bind, Except.bind]; rw [hdir]; rfl,
    t.entries.distinct.filterMap fun q q' f hq hq' => ?_, fun name q => ?_⟩
  · simp only [Option.mem_def, Option.ite_none_right_eq_some, Option.map_eq_some_iff] at hq hq'
    obtain ⟨_, _, _, rfl⟩ := hq
    obtain ⟨_, _, _, hpair⟩ := hq'
    exact (Prod.mk.inj hpair).2.symm
  · simp only [List.mem_filterMap, Option.ite_none_right_eq_some,
      Option.map_eq_some_iff, Prod.mk.injEq]
    constructor
    · rintro ⟨q, hq, hhere, last, hlast, rfl, rfl⟩
      refine ⟨?_, t.entries.mem_keys.mp hq⟩
      rw [← hhere]
      exact (List.dropLast_append_getLast? _ hlast).symm
    · rintro ⟨rfl, hq⟩
      exact ⟨_, t.entries.mem_keys.mpr hq, List.dropLast_concat, name, List.getLast?_concat, rfl, rfl⟩

/-- Nothing is listed at the end of a clear way that is not paved. -/
theorem contents_of_clear (hbase : t.directory base = .ok here) (hnames : ∀ n ∈ names, Plain n)
    (hallowed : Path.Allowed (base ++ names)) (hn : names ≠ []) (hclear : t.Clear here names)
    (hpaved : ¬ t.Paved here names) : t.contents (base ++ names) = .error .notFound := by
  have hwalk := placeFrom_of_clear hnames hclear hpaved []
  rw [List.append_nil] at hwalk
  unfold contents
  rw [place_eq_walk hallowed, walk_below hbase hnames hn, hwalk]
  rfl

end TileStream.FileTree
