import TileStream.Proofs.Fault
import TileStream.Proofs.Store.FileTree

/-!
# Walks that came to an end

Of a tree nothing need be known when an operation on a path has been answered: the answer says what there
is. A path that leads on from another one by a name that is looked up (`Path.Sought`) leads to a directory
when the one before it does and there is a directory of that name in it (`directory_sought_iff`), and a file
that was read is there (`exists_of_read`). What was listed has a place right below the directory
(`exists_of_contents`), and a directory is listed unless its path is refused
(`exists_contents_of_directory`). A path to a directory leads on from there, whether or not it ends in a
slash (`exists_directory_of_isDirectory`).
-/

namespace TileStream

/-- The names that are looked up in a directory. -/
structure Path.Sought (name : String) : Prop where
  not_isIdle : Path.isIdle name = false
  not_up : name ≠ ".."

theorem Path.Sought.ne_empty {name : String} (h : Path.Sought name) : name ≠ "" := by
  rintro rfl
  exact absurd h.not_isIdle (by decide)

/-- Nothing is cut off a path whose last name is looked up. -/
theorem Path.Sought.below {name : String} (h : Path.Sought name) (p : Path) (names : List String) :
    (p ++ [name]).below names = p ++ [name] ++ names := by
  have hlast : (p ++ [name]).getLast? ≠ some "" := by
    rw [List.getLast?_concat]
    exact fun h' => h.ne_empty (Option.some.inj h')
  unfold Path.below
  rw [if_neg hlast]

namespace FileTree

open TileStream.Path (Sought)

variable {t : FileTree} {here there : Place} {p q : Path} {name : String}

/-! ### Walking on -/

theorem placeFrom_sought (hname : Sought name) (here : Place) (p : Path) :
    t.placeFrom here (name :: p) =
      match t.entries.get? (here ++ [name]) with
      | none => .error (absence name)
      | some .directory => t.placeFrom (here ++ [name]) p
      | some (.file _ _) => if p.isEmpty then .ok (here ++ [name]) else .error .notDirectory := by
  cases hentry : t.entries.get? (here ++ [name]) with
  | none => simp [placeFrom, hname.not_isIdle, hname.not_up, hentry]
  | some e => cases e <;> simp [placeFrom, hname.not_isIdle, hname.not_up, hentry]

/-- **A walk that goes on came to a directory before.** -/
theorem placeFrom_append_eq_ok {start : Place} (hq : q ≠ [])
    (h : t.placeFrom start (p ++ q) = .ok there) : ∃ here,
    t.placeFrom start (p ++ [""]) = .ok here ∧ t.placeFrom here q = .ok there := by
  induction p generalizing start with
  | nil => exact ⟨start, placeFrom_idle rfl start [], h⟩
  | cons name rest ih =>
    have hmore : ∀ q : Path, q ≠ [] → (rest ++ q).isEmpty = false := fun q hq => by simp [hq]
    rw [List.cons_append, placeFrom] at h ⊢
    split
    · next hidle => exact ih (by rwa [if_pos hidle] at h)
    · next hidle =>
      rw [if_neg hidle] at h
      split
      · next hup => exact ih (by rwa [if_pos hup] at h)
      · next hup =>
        rw [if_neg hup, hmore q hq] at h
        rw [hmore [""] (List.cons_ne_nil _ _)]
        cases hentry : t.entries.get? (start ++ [name]) with
        | none => rw [hentry] at h; cases h
        | some e =>
          rw [hentry] at h
          cases e with
          | directory => exact ih h
          | file bytes modified => cases h

/-- **What is walked to behind a path** is walked to from the directory that the path leads to. -/
theorem walk_append_iff (hq : q ≠ []) (hhead : q.head? ≠ some "") :
    t.walk (p ++ q) = .ok there ↔ ∃ here, t.directory p = .ok here ∧ t.placeFrom here q = .ok there := by
  constructor
  · intro h
    have habs : (p ++ q).isAbsolute = (p ++ [""]).isAbsolute := by
      rw [Path.isAbsolute_append p hq hhead]
      cases p <;> simp [Path.isAbsolute]
    unfold directory walk
    unfold walk at h
    rw [habs] at h
    by_cases hslash : (p ++ [""]).isAbsolute = true
    · rw [if_pos hslash] at h ⊢
      cases p with
      | nil => cases hslash
      | cons name rest => exact placeFrom_append_eq_ok hq h
    · rw [if_neg hslash] at h ⊢
      exact placeFrom_append_eq_ok hq h
  · rintro ⟨here, hdir, h⟩
    rw [(KeepsDirectories.refl t).walk_append hdir hq (.inr hhead)]
    exact h

section Sought

variable (hname : Sought name)
include hname

theorem head?_sought (q : Path) : (name :: q).head? ≠ some "" :=
  fun h => hname.ne_empty (Option.some.inj h)

theorem placeFrom_name_iff : t.placeFrom here [name] = .ok there ↔
    there = here ++ [name] ∧ t.entries.contains there = true := by
  rw [placeFrom_sought hname, t.entries.contains_iff]
  constructor
  · intro h
    cases hentry : t.entries.get? (here ++ [name]) with
    | none => rw [hentry] at h; cases h
    | some e =>
      rw [hentry] at h
      cases e <;> cases h <;> exact ⟨rfl, _, hentry⟩
  · rintro ⟨rfl, e, hentry⟩
    rw [hentry]
    cases e <;> rfl

theorem placeFrom_directory_iff : t.placeFrom here [name, ""] = .ok there ↔
    there = here ++ [name] ∧ t.entries.get? there = some .directory := by
  rw [placeFrom_sought hname]
  constructor
  · intro h
    cases hentry : t.entries.get? (here ++ [name]) with
    | none => rw [hentry] at h; cases h
    | some e =>
      rw [hentry] at h
      cases e with
      | file bytes modified => cases h
      | directory =>
        dsimp only at h
        rw [placeFrom_idle rfl, placeFrom] at h
        cases h
        exact ⟨rfl, hentry⟩
  · rintro ⟨rfl, hentry⟩
    rw [hentry]
    exact placeFrom_idle rfl _ []

/-- **A name leads to a directory** when there is a directory of that name where it is looked up. -/
theorem directory_sought_iff : t.directory (p ++ [name]) = .ok there ↔ ∃ here,
    t.directory p = .ok here ∧ there = here ++ [name] ∧ t.entries.get? there = some .directory := by
  have hsplit : t.directory (p ++ [name]) = t.walk (p ++ [name, ""]) := by
    unfold directory
    rw [List.append_assoc, List.singleton_append]
  rw [hsplit, walk_append_iff (List.cons_ne_nil _ _) (head?_sought hname _)]
  exact exists_congr fun here => and_congr_right fun _ => placeFrom_directory_iff hname

variable (hcheck : check (p ++ [name]) = .ok ())
include hcheck

/-- **A name leads to what there is** of that name where it is looked up. -/
theorem place_sought_iff : t.place (p ++ [name]) = .ok there ↔ ∃ here,
    t.directory p = .ok here ∧ there = here ++ [name] ∧ t.entries.contains there = true := by
  unfold place
  rw [hcheck]
  show t.walk (p ++ [name]) = .ok there ↔ _
  rw [walk_append_iff (List.cons_ne_nil _ _) (head?_sought hname _)]
  exact exists_congr fun here => and_congr_right fun _ => placeFrom_name_iff hname

/-- A path leads to a directory when there is a directory where it leads. -/
theorem directory_iff_place : t.directory (p ++ [name]) = .ok there ↔
    t.place (p ++ [name]) = .ok there ∧ t.entryAt there = .directory := by
  rw [directory_sought_iff hname, place_sought_iff hname hcheck]
  unfold entryAt
  constructor
  · rintro ⟨here, hdir, hthere, hentry⟩
    exact ⟨⟨here, hdir, hthere, t.entries.contains_iff.mpr ⟨_, hentry⟩⟩, by rw [hentry, Option.getD_some]⟩
  · rintro ⟨⟨here, hdir, hthere, hin⟩, hentry⟩
    obtain ⟨e, he⟩ := t.entries.contains_iff.mp hin
    rw [he, Option.getD_some] at hentry
    exact ⟨here, hdir, hthere, by rw [he, hentry]⟩

end Sought

/-! ### What was read and listed -/

theorem check_of_place (h : t.place p = .ok there) : check p = .ok () :=
  (Checked.bind_eq_ok h).elim fun _ h => h.1

theorem read_eq_ok_iff {bytes : Bytes} {modified : CalendarTime} : t.read p = .ok (bytes, modified) ↔
    ∃ there, t.place p = .ok there ∧ t.entries.get? there = some (.file bytes modified) := by
  have hfile : ∀ there, t.entries.get? there = some (.file bytes modified) ↔
      t.entryAt there = .file bytes modified := fun there => by
    unfold entryAt
    cases t.entries.get? there <;> simp
  simp only [hfile]
  unfold read entry
  constructor
  · intro h
    obtain ⟨e, he, h⟩ := Checked.bind_eq_ok h
    obtain ⟨there, hthere, hentry⟩ := Checked.bind_eq_ok he
    cases hentry
    cases hat : t.entryAt there with
    | directory => rw [hat] at h; cases h
    | file bytes' modified' =>
      rw [hat] at h
      cases h
      exact ⟨there, hthere, hat⟩
  · rintro ⟨there, hthere, hat⟩
    rw [hthere]
    dsimp only [bind, Except.bind, pure, Except.pure]
    rw [hat]

/-- **What was read** is a file where its name is looked up. -/
theorem exists_of_read (hname : Sought name) {bytes : Bytes} {modified : CalendarTime}
    (h : t.read (p ++ [name]) = .ok (bytes, modified)) : ∃ here, t.directory p = .ok here ∧
      t.place (p ++ [name]) = .ok (here ++ [name]) ∧
      t.entries.get? (here ++ [name]) = some (.file bytes modified) := by
  obtain ⟨there, hplace, hentry⟩ := read_eq_ok_iff.mp h
  obtain ⟨here, hdir, rfl, -⟩ := (place_sought_iff hname (check_of_place hplace)).mp hplace
  exact ⟨here, hdir, hplace, hentry⟩

/-- **What was listed** is what has a place right below the directory, each thing once. -/
theorem exists_of_contents (hname : Sought name) {found : List (String × Place)}
    (h : t.contents (p ++ [name]) = .ok found) : ∃ here, t.directory (p ++ [name]) = .ok here ∧
      Lists found fun file => file.2 = here ++ [file.1] ∧ t.entries.contains file.2 = true := by
  obtain ⟨here, hplace, hlist⟩ := Checked.bind_eq_ok h
  cases hat : t.entryAt here with
  | file bytes modified => rw [hat] at hlist; cases hlist
  | directory =>
    refine ⟨here, (directory_iff_place hname (check_of_place hplace)).mpr ⟨hplace, hat⟩, ?_⟩
    obtain ⟨listed, hlisted, hnodup, hmem⟩ := exists_contents hplace hat
    rw [h] at hlisted
    cases hlisted
    exact ⟨hnodup, fun file => hmem file.1 file.2⟩

/-- **A directory is listed** unless its path is refused. -/
theorem exists_contents_of_directory (hname : Sought name) (hcheck : check (p ++ [name]) = .ok ())
    (hdir : t.directory (p ++ [name]) = .ok here) : ∃ found, t.contents (p ++ [name]) = .ok found := by
  obtain ⟨hplace, hat⟩ := (directory_iff_place hname hcheck).mp hdir
  obtain ⟨found, hfound, -⟩ := exists_contents hplace hat
  exact ⟨found, hfound⟩

theorem contents_of_check {e : SystemError} (h : check p = .error e) : t.contents p = .error e := by
  unfold contents place
  rw [h]
  rfl

/-- A directory that is not found by its path is none. -/
theorem not_directory_of_contents (hname : Sought name)
    (h : t.contents (p ++ [name]) = .error .notFound) (here : Place) :
    t.directory (p ++ [name]) ≠ .ok here := by
  intro hdir
  cases hcheck : check (p ++ [name]) with
  | error e =>
    rw [contents_of_check hcheck] at h
    cases h
    exact check_ne_notFound _ hcheck
  | ok _ =>
    obtain ⟨found, hfound⟩ := exists_contents_of_directory hname hcheck hdir
    rw [h] at hfound
    cases hfound

/-! ### A directory, with and without a slash behind its path -/

theorem placeFrom_slashes (h : ∀ name ∈ p, name = "") (here : Place) :
    t.placeFrom here p = .ok here := by
  induction p with
  | nil => rfl
  | cons name rest ih =>
    rw [h name List.mem_cons_self, placeFrom_idle rfl]
    exact ih fun n hn => h n (List.mem_cons_of_mem _ hn)

theorem placeFrom_slash {start : Place} (h : t.placeFrom start p = .ok here)
    (hat : t.entryAt here = .directory) : t.placeFrom start (p ++ [""]) = .ok here := by
  induction p generalizing start with
  | nil =>
    rw [placeFrom] at h
    rw [List.nil_append, placeFrom_idle rfl, placeFrom, h]
  | cons name rest ih =>
    rw [List.cons_append, placeFrom]
    rw [placeFrom] at h
    split
    · next hidle => exact ih (by rwa [if_pos hidle] at h)
    · next hidle =>
      rw [if_neg hidle] at h
      split
      · next hup => exact ih (by rwa [if_pos hup] at h)
      · next hup =>
        rw [if_neg hup] at h
        cases hentry : t.entries.get? (start ++ [name]) with
        | none => rw [hentry] at h; cases h
        | some e =>
          rw [hentry] at h
          cases e with
          | directory => exact ih h
          | file bytes modified =>
            -- a file that the path ends at is no directory
            dsimp only at h
            split at h
            · cases h
              rw [entryAt, hentry] at hat
              cases hat
            · cases h

/-- **A path to a directory leads on from there,** without the slash at its end. -/
theorem directory_of_walk (h : t.walk p = .ok here) (hat : t.entryAt here = .directory) :
    t.directory (p.below []) = .ok here := by
  unfold directory
  by_cases hlast : p.getLast? = some ""
  · obtain ⟨front, rfl⟩ := List.getLast?_eq_some_iff.mp hlast
    have hbelow : Path.below (front ++ [""]) [] = front := by simp [Path.below]
    rw [hbelow]
    exact h
  · have hbelow : p.below [] = p := by simp [Path.below, hlast]
    rw [hbelow]
    cases p with
    | nil => exact placeFrom_slash h hat
    | cons name rest =>
      have habs : Path.isAbsolute (name :: rest ++ [""]) = Path.isAbsolute (name :: rest) := by
        cases rest with
        | nil =>
          have hname : name ≠ "" := fun hname => hlast (by rw [hname]; rfl)
          simp [Path.isAbsolute, hname]
        | cons next more => simp [Path.isAbsolute]
      unfold walk at h ⊢
      rw [habs]
      split
      · next hslash =>
        rw [if_pos hslash] at h
        exact placeFrom_slash h hat
      · next hslash =>
        rw [if_neg hslash] at h
        exact placeFrom_slash h hat

theorem isDirectory_iff : t.isDirectory p = true ↔
    ∃ here, t.place p = .ok here ∧ t.entryAt here = .directory := by
  unfold isDirectory entry
  cases hplace : t.place p with
  | error e => simp [bind, Except.bind]
  | ok here =>
    cases hat : t.entryAt here <;> simp [bind, Except.bind, pure, Except.pure, hat]

theorem exists_directory_of_isDirectory (h : t.isDirectory p = true) : ∃ here,
    t.directory (p.below []) = .ok here := by
  obtain ⟨here, hplace, hat⟩ := isDirectory_iff.mp h
  obtain ⟨_, _, hwalk⟩ := Checked.bind_eq_ok hplace
  exact ⟨here, directory_of_walk hwalk hat⟩

end FileTree

end TileStream
