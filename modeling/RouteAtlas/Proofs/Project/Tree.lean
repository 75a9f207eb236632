/-
  Paths that are followed, and files that are written.

  ==== Problem ====

  A path is followed name by name, each from a directory, and it may go up.  Writing makes the
  directories that the path passes, so a path that led nowhere before leads somewhere afterwards, and
  other paths may, too.  What was written has to be found again, and other files must be as before.

  ==== Program ====

  1. **Following** - a path is followed in parts (`follow?_append`), and names that do not go up lead to
     the place that they are the names of (`eq_under_of_follow?`).

  2. **Plain paths** - without `..` a path leads to a file just when there is a file under that path
     (`file?_of_plain`): where a file is, every place on the way to it is a directory.

  3. **Writing** - makes directories, which touches no file (`files_makeDir`), and puts the text at the
     place that is reached (`write_eq_ok_iff`).  So that file has the new text, and every other one is
     as it was (`wrote_of_plain`).

  ==== The crux ====

  What is read at a plain path does not depend on the directories, only on the files.  So it does not
  matter to one document that directories were made for another one.
-/
import RouteAtlas.Project.Tree
import RouteAtlas.Proofs.Json.Dictionary
import RouteAtlas.Proofs.Persisted.Success

namespace RouteAtlas.Project

open Source (Location)

/-! ## Names below a path -/

/-- The path with further names below it. -/
def under (path : Location) (names : List String) : Location := ⟨path.root, path.names ++ names⟩

theorem under_nil (path : Location) : under path [] = path := by
  rw [under, List.append_nil]

/-- One name, and then the others. -/
theorem under_cons (path : Location) (n : String) (names : List String) :
    under path (n :: names) = under (path.child n) names := by
  simp [under, Location.child]

/-- Names below names are names. -/
theorem under_under (path : Location) (names others : List String) :
    under (under path names) others = under path (names ++ others) := by
  simp [under]

/-- Below one path different names are different paths. -/
theorem under_inj {path : Location} {names others : List String}
    (h : under path names = under path others) : names = others :=
  List.append_cancel_left (congrArg Location.names h)

namespace Tree

variable {t : Tree}

/-! ## Following a path

A path is followed name by name from the directory at hand, and where it ends a file or a directory
stands. -/

/-- Names are followed one part after the other. -/
theorem follow?_append (place : Location) (names others : List String) :
    t.follow? place (names ++ others) = (t.follow? place names).bind (t.follow? · others) := by
  induction names generalizing place with
  | nil => rfl
  | cons n names ih =>
    rw [List.cons_append, follow?, follow?]
    split
    · exact ih _
    · rfl

/-- Names that do not lead up lead to the place that they are the names of. -/
theorem eq_under_of_follow? {place found : Location} {names : List String}
    (hup : ".." ∉ names) (h : t.follow? place names = some found) : found = under place names := by
  induction names generalizing place with
  | nil => exact (Option.some.inj h).symm.trans (under_nil place).symm
  | cons n names ih =>
    rw [List.mem_cons, not_or] at hup
    rw [follow?] at h
    split at h
    · have hn : ¬(n == "..") = true := fun heq => hup.1 (eq_of_beq heq).symm
      rw [if_neg hn] at h
      rw [under_cons]
      exact ih hup.2 h
    · exact absurd h (by simp)

/-- A path below another one leads to a place below the one that leads to. -/
theorem exists_of_place?_under {path found : Location} {names : List String} (hup : ".." ∉ names)
    (h : t.place? (under path names) = some found) :
    ∃ place, t.place? path = some place ∧ found = under place names := by
  have hsplit : t.place? (under path names) = (t.place? path).bind (t.follow? · names) :=
    follow?_append _ _ _
  rw [hsplit] at h
  obtain ⟨place, hplace, hfollow⟩ := Option.bind_eq_some_iff.mp h
  exact ⟨place, hplace, eq_under_of_follow? hup hfollow⟩

/-! ## Plain paths

A path that is below another one by names of files has nothing to take back, and is followed as it
is written. -/

/-- A place that something is below is a directory. -/
theorem dirAt_of_mem_under {place : Location} {n : String} {names : List String}
    (h : under place (n :: names) ∈ t.files.map (·.1) ++ t.directories) : t.dirAt place = true := by
  have hbelow : (under place (n :: names)).below? place = some (n :: names) := by
    simp [under, Location.below?]
  have hthere : t.hasBelow place = true := by
    refine List.any_eq_true.mpr ⟨_, h, ?_⟩
    rw [hbelow]
    rfl
  rw [dirAt, hthere, Bool.or_true]

/-- Where a file is, the names of its path are followed to it. -/
theorem follow?_of_mem {place : Location} {names : List String} (hup : ".." ∉ names)
    (h : under place names ∈ t.files.map (·.1)) : t.follow? place names = some (under place names) := by
  induction names generalizing place with
  | nil => rw [follow?, under_nil]
  | cons n names ih =>
    rw [List.mem_cons, not_or] at hup
    have hdir : t.dirAt place = true := dirAt_of_mem_under (List.mem_append_left _ h)
    have hn : ¬(n == "..") = true := fun heq => hup.1 (eq_of_beq heq).symm
    rw [follow?, if_pos hdir, if_neg hn, under_cons]
    exact ih hup.2 (under_cons place n names ▸ h)

/-- **A path that does not go up leads to the file under it**, if there is one. -/
theorem file?_of_plain {path : Location} (hup : ".." ∉ path.names) : t.file? path = t.fileAt? path := by
  have hself : under ⟨path.root, []⟩ path.names = path := rfl
  rw [file?]
  cases hplace : t.place? path with
  | some place =>
    obtain rfl := (eq_under_of_follow? hup hplace).trans hself
    rfl
  | none =>
    -- a file there would have been reached
    cases hfile : t.fileAt? path with
    | none => rfl
    | some entry =>
      have hmem : path ∈ t.files.map (·.1) := Dict.mem_keys_of_get? hfile
      have hreached : t.place? path = some path := follow?_of_mem hup (hself ▸ hmem)
      rw [hplace] at hreached
      cases hreached

/-! ## Writing

Writing makes the directories that are missing and then puts the text under the place of the path. -/

/-- Making the directories on a way touches no file. -/
theorem files_makeDir_go {path place : Location} {names : List String} {made : Tree}
    (h : makeDir.go path t place names = .ok made) : made.files = t.files := by
  induction names generalizing t place with
  | nil =>
    obtain rfl := Except.ok.inj h
    rfl
  | cons n names ih =>
    rw [makeDir.go] at h
    generalize (if n == ".." then place.parent else place.child n) = next at h
    split at h
    · exact ih h
    · split at h
      · cases h
      · -- the tree with one directory more has the same files
        have hfiles := ih h
        exact hfiles

theorem files_makeDir {path : Location} {made : Tree} (h : t.makeDir path = .ok made) :
    made.files = t.files := files_makeDir_go h

/-- **What writing does**: the directories around are made, and the text is put at the place that is
    reached then. -/
theorem write_eq_ok_iff {path : Location} {text : String} {after : Tree} :
    t.write path text = .ok after ↔ ∃ made place, t.makeDir path.parent = .ok made ∧
      made.place? path = some place ∧ made.dirAt place = false ∧
      after = made.putAt place { text := .ok text } := by
  rw [write, Persisted.bind_eq_ok_iff]
  refine exists_congr fun made => ?_
  constructor
  · rintro ⟨hmade, h⟩
    split at h
    · cases h
    · rename_i place hplace
      split at h
      · cases h
      · rename_i hdir
        exact ⟨place, hmade, hplace, Bool.eq_false_iff.mpr hdir, (Except.ok.inj h).symm⟩
  · rintro ⟨place, hmade, hplace, hdir, rfl⟩
    refine ⟨hmade, ?_⟩
    rw [hplace]
    show (if made.dirAt place then _ else _) = _
    rw [if_neg (by rw [hdir]; exact Bool.false_ne_true)]
    rfl

/-- A file was written: it has the text, and every other file is as before. -/
structure Wrote (t : Tree) (path : Location) (text : String) (after : Tree) : Prop where
  there : after.fileAt? path = some { text := .ok text }
  kept : ∀ other, other ≠ path → after.fileAt? other = t.fileAt? other

/-- **Writing at a path that does not go up** writes the file under it, and no other. -/
theorem wrote_of_plain {path : Location} (hup : ".." ∉ path.names) {text : String} {after : Tree}
    (h : t.write path text = .ok after) : t.Wrote path text after := by
  obtain ⟨made, place, hmade, hplace, -, rfl⟩ := write_eq_ok_iff.mp h
  obtain rfl : place = path := eq_under_of_follow? hup hplace
  constructor
  case there => exact Dict.get?_put_self made.files place _
  case kept =>
    intro other hother
    have hput : (made.putAt place { text := .ok text }).fileAt? other = made.fileAt? other :=
      Dict.get?_put_of_ne hother made.files _
    rw [hput, fileAt?, files_makeDir hmade, fileAt?]

end Tree

end RouteAtlas.Project
