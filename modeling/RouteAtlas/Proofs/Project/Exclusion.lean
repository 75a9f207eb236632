/-
  Directories that are left out.

  ==== Problem ====

  An entry of the settings may be a directory, and then nothing below it is a source, whichever of
  the three ways found it.

  ==== Program ====

  1. **Texts** - the entry is known for a directory by the file system, but compared with paths as a
     text.  A path that begins with a text and a slash has the parts of that text as its first names,
     empty ones included (`startsWith_joinWith_iff`).

  2. **The pattern** - what is made of the entry leaves out just the paths that begin so
     (`leavesOut_directory`), though patterns are matched in three ways.

  3. **Searching** - what a pattern finds is written by names of files, and by no others as long as
     the pattern does not lead up (`select_under`); so the path found is the place it leads to.  A
     search finds what is wanted of what its patterns match (`mem_search_iff`).

  4. **Discovery** - each way is a search that leaves out by the same patterns: what holds of every
     file a search finds holds of what is discovered (`mem_files_of_discover`), and where two lists
     want the same, they discover the same (`search_congr`, `discover_congr`).

  5. **Entries** - a plain entry leaves out what is inside the directory (`isWanted_directory_iff`),
     any other one nothing (`isWanted_directory_eq`).

  ==== Crux ====

  Names of files are not empty and no points.  If the entry is spelled by such names, its text is the
  path of the directory; if it is spelled in any other way, no path begins with it.  So an entry
  leaves out everything or nothing at all.
-/
import Mathlib.Data.List.DropRight
import RouteAtlas.Proofs.Persisted.Success
import RouteAtlas.Proofs.Project.Brace
import RouteAtlas.Proofs.Project.Tree
import RouteAtlas.Proofs.Source.Location
import RouteAtlas.Proofs.Text.Scan
import RouteAtlas.Project.Discovery

namespace RouteAtlas

open Source (Location)

/-! ## Texts -/

namespace Text

/-- A text begins with another one if its characters do. -/
theorem startsWith_iff {head s : String} : startsWith head s = true ↔ head.toList <+: s.toList :=
  List.isPrefixOf_iff_prefix

/-- **A path that begins with a text** and a slash has the parts of the text as its first names.

    No name has a slash in it, so splitting the joined names gives them back, and a text with a
    slash behind it ends where one of them does. -/
theorem startsWith_joinWith_iff {names : List String} (hslash : ∀ n ∈ names, '/' ∉ n.toList)
    (text : String) : startsWith (text ++ "/") (joinWith "/" names) = true ↔
      ∃ rest, rest ≠ [] ∧ names = splitOn '/' text ++ rest := by
  have hjoin : (joinWith "/" names).toList = ['/'].intercalate (names.map String.toList) := by
    rw [joinWith, String.toList_intercalate]
    rfl
  have hhead : (text ++ "/").toList = text.toList ++ ['/'] := String.toList_append
  rw [startsWith_iff, hjoin, hhead]
  constructor
  · rintro ⟨tail, htail⟩
    rw [List.append_assoc, List.singleton_append] at htail
    have hsome : names.map String.toList ≠ [] := by
      intro hnil
      rw [hnil] at htail
      exact absurd htail (by simp [List.intercalate])
    have hparts : names.map String.toList
        = splitAt (· == '/') text.toList ++ splitAt (· == '/') tail := by
      rw [← splitAt_intercalate hsome, ← htail]
      · exact Route.parts_append_slash _ _
      · exact List.forall_mem_map.mpr hslash
    refine ⟨(splitAt (· == '/') tail).map String.ofList, ?_, ?_⟩
    · exact fun hnil => splitAt_ne_nil _ _ (List.map_eq_nil_iff.mp hnil)
    · rw [splitOn, ← List.map_append, ← hparts, map_ofList_toList]
  · rintro ⟨rest, hrest, rfl⟩
    obtain ⟨n, rest, rfl⟩ := List.exists_cons_of_ne_nil hrest
    refine ⟨['/'].intercalate ((n :: rest).map String.toList), ?_⟩
    have hsplit : splitAt (· == '/') text.toList ≠ [] := splitAt_ne_nil _ _
    have hrest' : (n :: rest).map String.toList ≠ [] := List.cons_ne_nil _ _
    -- with a slash in front of everything, joining is appending
    have hslashed :
        '/' :: (text.toList ++ ['/'] ++ ['/'].intercalate ((n :: rest).map String.toList))
        = '/' :: ['/'].intercalate ((splitOn '/' text ++ n :: rest).map String.toList) := by
      rw [splitOn, List.map_append, map_toList_ofList,
        Location.cons_intercalate (List.append_ne_nil_of_left_ne_nil hsplit _), Route.joined,
        List.flatMap_append, List.append_assoc, List.singleton_append,
        Location.cons_intercalate hrest', ← List.cons_append, ← Route.joined_splitAt]
      rfl
    exact (List.cons.inj hslashed).2

end Text

/-! ## Names and places

Paths are compared by names; `..` is followed up, so that different paths can lead to one place. -/

namespace Project

/-- What a file or a directory may be called. -/
structure IsFileName (n : String) : Prop where
  ne_empty : n ≠ ""
  ne_dot : n ≠ "."
  ne_up : n ≠ ".."
  no_slash : '/' ∉ n.toList

instance (n : String) : Decidable (IsFileName n) :=
  decidable_of_iff (n ≠ "" ∧ n ≠ "." ∧ n ≠ ".." ∧ '/' ∉ n.toList)
    ⟨fun ⟨hempty, hdot, hup, hslash⟩ => ⟨hempty, hdot, hup, hslash⟩,
      fun h => ⟨h.ne_empty, h.ne_dot, h.ne_up, h.no_slash⟩⟩

/-- Every file and every directory of the project has names of files. -/
def Tree.IsSound (t : Tree) : Prop :=
  ∀ p ∈ t.files.map (·.1) ++ t.directories, ∀ n ∈ p.names, IsFileName n

instance (t : Tree) : Decidable t.IsSound :=
  inferInstanceAs (Decidable (∀ p ∈ t.files.map (·.1) ++ t.directories, ∀ n ∈ p.names, IsFileName n))

theorem join_relative (root : Location) (names : List String) :
    root.join ⟨"", names⟩ = under root names := rfl

/-- The names below a path are what is below it. -/
theorem pathBelow_under (root : Location) (names : List String) :
    pathBelow root (under root names) = names := by
  simp [pathBelow, Location.below?, under]

namespace Tree

variable {t : Tree}

/-- The path leads to a place below the one that the directory's path leads to. -/
def IsInside (t : Tree) (dir path : Location) : Prop :=
  ∃ place names, t.place? dir = some place ∧ names ≠ [] ∧ t.place? path = some (under place names)

/-- Without `..`, the names of what is inside begin with those of the directory. -/
theorem IsInside.exists_rest {root : Location} {dir names : List String}
    (h : t.IsInside (under root dir) (under root names)) (hdir : ".." ∉ dir) (hnames : ".." ∉ names) :
    ∃ rest, rest ≠ [] ∧ names = dir ++ rest := by
  obtain ⟨place, rest, hplace, hrest, hpath⟩ := h
  obtain ⟨start, hstart, rfl⟩ := exists_of_place?_under hdir hplace
  obtain ⟨start', hstart', heq⟩ := exists_of_place?_under hnames hpath
  obtain rfl : start = start' := Option.some.inj (hstart.symm.trans hstart')
  rw [under_under] at heq
  exact ⟨rest, hrest, (under_inj heq).symm⟩

/-- The names in a directory are names of files. -/
theorem IsSound.of_mem_namesIn (h : t.IsSound) {path : Location} {n : String}
    (hn : n ∈ t.namesIn path) : IsFileName n := by
  rw [namesIn] at hn
  split at hn
  · exact absurd hn List.not_mem_nil
  · obtain ⟨p, hp, hfound⟩ := List.mem_filterMap.mp (List.mem_eraseDups.mp hn)
    obtain ⟨names, hbelow, hhead⟩ := Option.bind_eq_some_iff.mp hfound
    refine h p hp n ?_
    rw [Location.below?] at hbelow
    split at hbelow
    · obtain rfl := Option.some.inj hbelow
      exact List.mem_of_mem_drop (List.mem_of_mem_head? hhead)
    · exact absurd hbelow (by simp)

end Tree

/-! ## The pattern of a directory

An entry for a directory is read as a pattern that ends in two stars.  What the pattern matches is
computed here, for names of files. -/

/-- A character without a meaning of its own begins no token. -/
theorem tokenRule_of_not_mem {c : Char} (h : c ∉ patternChars) (before : Option Char)
    (rest : List Char) : tokenRule before (c :: rest) = none := by
  unfold tokenRule
  split
  · rename_i heq
    exact absurd ((List.cons.inj heq).1 ▸ h) (by decide)
  · rename_i heq
    exact absurd ((List.cons.inj heq).1 ▸ h) (by decide)
  · rename_i heq
    exact absurd ((List.cons.inj heq).1 ▸ h) (by decide)
  · rfl

/-- Characters stand for themselves. -/
theorem accepts_chars (cs : List Char) (rest : List Token) (text : List Char) :
    accepts (cs.map Token.char ++ rest) text = true ↔
      ∃ tail, text = cs ++ tail ∧ accepts rest tail = true := by
  induction cs generalizing text with
  | nil => exact ⟨fun h => ⟨text, rfl, h⟩, fun ⟨tail, htext, h⟩ => htext ▸ h⟩
  | cons c cs ih =>
    cases text with
    | nil =>
      refine iff_of_false (by simp [accepts]) ?_
      rintro ⟨tail, htext, -⟩
      exact absurd htext (by simp)
    | cons d text =>
      show (c == d && accepts (cs.map Token.char ++ rest) text) = true ↔ _
      rw [Bool.and_eq_true, beq_iff_eq, ih]
      simp only [List.cons_append, List.cons.injEq]
      constructor
      · rintro ⟨rfl, tail, htext, h⟩
        exact ⟨tail, ⟨rfl, htext⟩, h⟩
      · rintro ⟨tail, ⟨rfl, htext⟩, h⟩
        exact ⟨rfl, tail, htext, h⟩

/-- A rest that accepts the end accepts some end of any text. -/
theorem someEnd_of_nil {rest : List Char → Bool} (h : rest [] = true) (cs : List Char) :
    someEnd rest cs = true := by
  induction cs with
  | nil => exact h
  | cons c cs ih => rw [someEnd, ih, Bool.or_true]

/-- Two stars at the end stand for anything. -/
theorem accepts_runs (cs : List Char) : accepts [.run, .run] cs = true :=
  someEnd_of_nil (someEnd_of_nil rfl []) cs

section

variable {dir : String} (hdir : ∀ c ∈ dir.toList, c ∉ patternChars)
include hdir

/-- As a pattern of names, it stands for whatever begins with the directory and a slash.  None of
    its characters means anything in a pattern, and the two stars match whatever follows. -/
theorem isMatch_directory (text : String) :
    isMatch (dir ++ "/**") text = Text.startsWith (dir ++ "/") text := by
  have hchars : (dir ++ "/**").toList = (dir ++ "/").toList ++ ['*', '*'] := by simp
  have hplain : ∀ c ∈ (dir ++ "/").toList, c ∉ patternChars := by
    intro c hc
    rw [String.toList_append] at hc
    rcases List.mem_append.mp hc with hc | hc
    · exact hdir c hc
    · obtain rfl := List.mem_singleton.mp hc
      decide
  have htokens : tokens (dir ++ "/**") = (dir ++ "/").toList.map Token.char ++ [.run, .run] := by
    rw [tokens, Text.scan, hchars,
      Text.scanFrom_plain fun c hc before rest => tokenRule_of_not_mem (hplain c hc) before rest,
      List.map_append, List.map_map]
    rfl
  rw [Bool.eq_iff_iff, isMatch, htokens, accepts_chars, Text.startsWith_iff]
  constructor
  · rintro ⟨tail, htext, -⟩
    exact ⟨tail, htext.symm⟩
  · rintro ⟨tail, htext⟩
    exact ⟨tail, htext.symm, accepts_runs tail⟩

/-- **What the pattern of a directory leaves out**, matched in whichever way: the paths that begin
    with the directory, as it is spelled, and a slash. -/
theorem leavesOut_directory (text : String) :
    leavesOut text (dir ++ "/**") = Text.startsWith (dir ++ "/") text := by
  have hstars : Text.startsWith "**/" (dir ++ "/**") = false := by
    rw [Bool.eq_false_iff, ne_eq, Text.startsWith_iff, String.toList_append]
    cases hchars : dir.toList with
    | nil => decide
    | cons c cs =>
      rintro ⟨tail, htail⟩
      have hc : '*' = c := (List.cons.inj htail).1
      exact hdir c (hchars ▸ List.mem_cons_self ..) (hc ▸ by decide)
  have hlength : (dir ++ "/**").toList.length - 3 = dir.toList.length := by simp
  have hfront :
      String.ofList ((dir ++ "/**").toList.take ((dir ++ "/**").toList.length - 3)) = dir := by
    rw [hlength, String.toList_append, List.take_left, String.ofList_toList]
  rw [leavesOut, hstars, hfront, isMatch_directory hdir]
  cases Text.startsWith (dir ++ "/") text
  · rw [Bool.and_false]
    rfl
  · rfl

/-- There are no braces to write out. -/
theorem expandBraces_directory : expandBraces (dir ++ "/**") = [dir ++ "/**"] := by
  have hnone : firstGroup? (dir ++ "/**").toList = none := by
    refine Option.eq_none_iff_forall_ne_some.mpr fun ⟨head, body, tail⟩ hgroup => ?_
    have hopen : '\x7b' ∈ (dir ++ "/**").toList := by
      rw [(firstGroup?_eq_some hgroup).1]
      simp
    rw [String.toList_append] at hopen
    rcases List.mem_append.mp hopen with hopen | hopen
    · exact hdir _ hopen (by decide)
    · exact absurd hopen (by decide)
  rw [expandBraces, expandChars_of_none hnone, List.map_singleton, String.ofList_toList]

end

/-! ## What a pattern finds

Searching follows the parts of a pattern from directory to directory.  What it finds is below the
project by names of files, unless a part goes up. -/

/-- A part that is a name is this name. -/
theorem partOf_eq_name {name n : String} (h : partOf name = .ok (.name n)) : n = name := by
  unfold partOf at h
  split at h
  · exact absurd (Except.ok.inj h) (by simp)
  · split at h
    · exact absurd h (by simp)
    · split at h
      · exact absurd (Except.ok.inj h) (by simp)
      · exact (Part.name.inj (Except.ok.inj h)).symm

/-- Behind a test that throws, a value that was given is what the run gives. -/
theorem eq_of_guarded {ε α : Type} {c : Prop} [Decidable c] {e : ε} {x y : α}
    (h : (if c then (throw e : Except ε PUnit) >>= fun _ => pure x else pure x) = .ok y) : x = y := by
  split at h
  · exact absurd h (by simp [throw, throwThe, MonadExceptOf.throw, bind, Except.bind])
  · exact Persisted.pure_eq_ok_iff.mp h

/-- The names that a pattern asks for are names of files, unless one of them leads up. -/
theorem isFileName_of_mem_partsOf {pattern : String} (hup : ".." ∉ (Location.ofText pattern).names)
    {parts : List Part} (h : partsOf pattern = .ok parts) {n : String} (hn : Part.name n ∈ parts) :
    IsFileName n := by
  have hmem : n ∈ (Location.ofText pattern).names := by
    rw [partsOf] at h
    split at h
    · exact absurd h (by simp [throw, throwThe, MonadExceptOf.throw, bind, Except.bind])
    obtain ⟨named, hnamed, h⟩ := Persisted.bind_eq_ok_iff.mp h
    have hpart : Part.name n ∈ named := by
      obtain rfl := eq_of_guarded h
      split at hn
      · exact (List.mem_append.mp hn).resolve_right (by simp)
      · exact hn
    obtain ⟨name, hname, hpart⟩ := Persisted.exists_of_mem_of_mapM hnamed hpart
    exact partOf_eq_name hpart ▸ hname
  have hformed := Location.wellFormed_ofText pattern
  exact ⟨hformed.ne_empty n hmem, hformed.ne_dot n hmem, fun heq => hup (heq ▸ hmem),
    hformed.no_slash n hmem⟩

section

variable {t : Tree} (hsound : t.IsSound)
include hsound

/-- The directories below one are below it, by names of files. -/
theorem directoriesFrom_under {depth : Nat} {dir path : Location}
    (h : path ∈ directoriesFrom t depth dir) :
    ∃ names, path = under dir names ∧ ∀ n ∈ names, IsFileName n := by
  induction depth generalizing dir with
  | zero =>
    obtain rfl := List.mem_singleton.mp h
    exact ⟨[], (under_nil path).symm, fun n hn => absurd hn List.not_mem_nil⟩
  | succ depth ih =>
    rcases List.mem_cons.mp h with rfl | h
    · exact ⟨[], (under_nil path).symm, fun n hn => absurd hn List.not_mem_nil⟩
    · obtain ⟨child, hchild, hpath⟩ := List.mem_flatMap.mp h
      obtain ⟨n, hn, rfl⟩ := List.mem_map.mp (List.mem_filter.mp hchild).1
      obtain ⟨names, rfl, hnames⟩ := ih hpath
      exact ⟨n :: names, (under_cons dir n names).symm,
        List.forall_mem_cons.mpr ⟨hsound.of_mem_namesIn hn, hnames⟩⟩

/-- **What parts lead to** is below the directory, by names of files, if the parts have no others.

    Only a name in the parts could lead elsewhere, namely up; whatever a wild part finds is the name
    of a file. -/
theorem select_under {parts : List Part} (hparts : ∀ n, Part.name n ∈ parts → IsFileName n)
    {dir path : Location} (h : path ∈ select t parts dir) :
    ∃ names, path = under dir names ∧ ∀ n ∈ names, IsFileName n := by
  have hself : path = dir → ∃ names, path = under dir names ∧ ∀ n ∈ names, IsFileName n :=
    fun heq => ⟨[], heq.trans (under_nil dir).symm, fun n hn => absurd hn List.not_mem_nil⟩
  induction parts generalizing dir with
  | nil => exact hself (List.mem_singleton.mp h)
  | cons part rest ih =>
    have ih : ∀ {dir : Location}, path ∈ select t rest dir →
        ∃ names, path = under dir names ∧ ∀ n ∈ names, IsFileName n := fun {dir} hrest =>
      ih (fun n hn => hparts n (List.mem_cons_of_mem _ hn)) hrest fun heq =>
        ⟨[], heq.trans (under_nil dir).symm, fun n hn => absurd hn List.not_mem_nil⟩
    -- a name before what the rest leads to
    have hcons : ∀ {n : String}, IsFileName n → path ∈ select t rest (dir.child n) →
        ∃ names, path = under dir names ∧ ∀ n ∈ names, IsFileName n := by
      intro n hn hrest
      obtain ⟨names, rfl, hnames⟩ := ih hrest
      exact ⟨n :: names, (under_cons dir n names).symm, List.forall_mem_cons.mpr ⟨hn, hnames⟩⟩
    cases part with
    | ending => exact hself (List.mem_singleton.mp h)
    | name n =>
      rw [select] at h
      exact hcons (hparts n (List.mem_cons_self ..)) (List.mem_ite_nil_right.mp h).2
    | wild tokens =>
      obtain ⟨child, hchild, hrest⟩ := List.mem_flatMap.mp h
      obtain ⟨n, hn, rfl⟩ := List.mem_map.mp (List.mem_filter.mp hchild).1
      exact hcons (hsound.of_mem_namesIn (List.mem_filter.mp hn).1) hrest
    | deep =>
      obtain ⟨between, hbetween, hrest⟩ := List.mem_flatMap.mp h
      obtain ⟨names, rfl, hnames⟩ := directoriesFrom_under hsound hbetween
      obtain ⟨others, rfl, hothers⟩ := ih hrest
      exact ⟨names ++ others, under_under dir names others,
        List.forall_mem_append.mpr ⟨hnames, hothers⟩⟩

/-- What a pattern that does not lead up finds is below the project, by names of files. -/
theorem glob_under {root : Location} {pattern : String}
    (hup : ".." ∉ (Location.ofText pattern).names) {paths : List Location}
    (h : glob t root pattern = .ok paths) {path : Location} (hpath : path ∈ paths) :
    ∃ names, path = under root names ∧ ∀ n ∈ names, IsFileName n := by
  obtain ⟨parts, hparts, h⟩ := Persisted.bind_eq_ok_iff.mp h
  obtain rfl := Persisted.pure_eq_ok_iff.mp h
  split at hpath
  · exact select_under hsound (fun n hn => isFileName_of_mem_partsOf hup hparts hn) hpath
  · exact absurd hpath List.not_mem_nil

end

/-! ## What a search finds

A search looks for files in three ways and leaves out what some patterns match.  Paths that are left
out are compared as texts, with the path from the project down. -/

/-- The patterns of what is read, written out. -/
def includePatterns (t : Tree) (root : Location) (includes : List String) : List String :=
  (includes.flatMap (patternsOf t root .include)).flatMap expandBraces

/-- The patterns of what is left out, written out. -/
def excludePatterns (t : Tree) (root : Location) (excludes : List String) : List String :=
  (excludes.flatMap (patternsOf t root .exclude)).flatMap expandBraces

/-- Nothing that is read is found by going up: no pattern, written out, has a name `..`. -/
def GoesDown (t : Tree) (root : Location) (includes : List String) : Prop :=
  ∀ pattern ∈ includePatterns t root includes, ".." ∉ (Location.ofText pattern).names

instance (t : Tree) (root : Location) (includes : List String) :
    Decidable (GoesDown t root includes) :=
  inferInstanceAs (Decidable (∀ pattern ∈ includePatterns t root includes, _))

/-- What is read, on each of the three ways. -/
def ways (includes : List String) : List (List String) :=
  [includes, ({} : SourceSettings).includes, ["**/" ++ anySuffix]]

/-- An entry with a character of patterns is taken as it is. -/
theorem patternsOf_pattern {entry : String}
    (h : (Text.trim entry).toList.any patternChars.contains = true) (t : Tree) (root : Location)
    (use : EntryUse) : patternsOf t root use entry = [Text.trim entry] := by
  have hne : ¬(Text.trim entry == "") = true := by
    intro heq
    rw [eq_of_beq heq] at h
    exact absurd h (by decide)
  rw [patternsOf.eq_def]
  exact (if_neg hne).trans (if_pos h)

/-- A part of a text stands in it. -/
theorem infix_of_mem_parts {cs part : List Char} (h : part ∈ Route.parts cs) : part <:+: cs := by
  obtain ⟨before, after, hsplit⟩ := List.append_of_mem h
  have hjoined := Route.joined_splitAt cs
  rw [hsplit, Route.joined, List.flatMap_append, List.flatMap_cons] at hjoined
  cases before with
  | nil => exact ⟨[], Route.joined after, (List.cons.inj hjoined).2⟩
  | cons first before =>
    refine ⟨first ++ Route.joined before ++ ['/'], Route.joined after, ?_⟩
    have hrest := (List.cons.inj hjoined).2
    simpa [Route.joined, List.flatMap_def] using hrest

/-- A text without two points in a row has no name that leads up. -/
theorem not_up_of_no_points {cs : List Char} (h : ¬['.', '.'] <:+: cs) :
    ".." ∉ (Location.ofText (String.ofList cs)).names := by
  intro hmem
  obtain ⟨part, hpart, heq⟩ := List.mem_map.mp (List.mem_filter.mp hmem).1
  have hpoints : part = ['.', '.'] := by
    rw [← String.toList_ofList (l := part), heq]
    rfl
  rw [String.toList_ofList] at hpart
  exact h (hpoints ▸ infix_of_mem_parts hpart)

/-- The usual places and names are not found by going up.  They are fixed, so going through them by
    computation is enough. -/
theorem goesDown_of_mem_ways {t : Tree} {root : Location} {includes : List String}
    (h : GoesDown t root includes) {way : List String} (hway : way ∈ ways includes) :
    GoesDown t root way := by
  have husual : ∀ entry ∈ ({} : SourceSettings).includes ++ ["**/" ++ anySuffix],
      (Text.trimChars entry.toList).any patternChars.contains = true ∧
      ∀ pattern ∈ expandChars (Text.trimChars entry.toList), ¬['.', '.'] <:+: pattern := by
    decide +kernel
  have hall : ∀ entries, entries ⊆ ({} : SourceSettings).includes ++ ["**/" ++ anySuffix] →
      GoesDown t root entries := by
    intro entries hsubset pattern hpattern
    obtain ⟨value, hvalue, hpattern⟩ := List.mem_flatMap.mp hpattern
    obtain ⟨entry, hentry, hvalue⟩ := List.mem_flatMap.mp hvalue
    obtain ⟨hchars, hdown⟩ := husual entry (hsubset hentry)
    rw [← String.toList_ofList (l := Text.trimChars entry.toList)] at hchars hdown
    rw [patternsOf_pattern hchars, List.mem_singleton] at hvalue
    rw [hvalue] at hpattern
    obtain ⟨cs, hcs, rfl⟩ := List.mem_map.mp hpattern
    exact not_up_of_no_points (hdown cs hcs)
  simp only [ways, List.mem_cons, List.not_mem_nil, or_false] at hway
  rcases hway with rfl | rfl | rfl
  · exact h
  · exact hall _ (List.subset_append_left _ _)
  · exact hall _ (List.subset_append_right _ _)

section

variable {t : Tree} {root : Location} {includes excludes excludes' : List String}

/-- A pattern of what is read matches the path. -/
def Matched (t : Tree) (root : Location) (includes : List String) (path : Location) : Prop :=
  ∃ pattern ∈ includePatterns t root includes, (Location.ofText pattern).isAbsolute = false ∧
    ∃ paths, glob t root pattern = .ok paths ∧ path ∈ paths

/-- What one pattern finds: nothing if it starts at a root, else what is wanted of what it matches. -/
theorem found_eq_ok_iff {pattern : String} {list : List Location} :
    found t root excludes pattern = .ok list ↔
      ((Location.ofText pattern).isAbsolute = true ∧ list = []) ∨
      ((Location.ofText pattern).isAbsolute = false ∧ ∃ paths, glob t root pattern = .ok paths ∧
        list = paths.filter (isWanted t root excludes)) := by
  rw [found]
  cases (Location.ofText pattern).isAbsolute with
  | true =>
    rw [if_pos rfl, Persisted.pure_eq_ok_iff]
    simp [eq_comm]
  | false =>
    rw [if_neg Bool.false_ne_true, Persisted.bind_eq_ok_iff]
    simp only [Persisted.pure_eq_ok_iff, Bool.false_eq_true, false_and, false_or, true_and]
    exact exists_congr fun paths => and_congr_right fun _ => eq_comm

/-- Whether a search succeeds does not depend on what is left out.  Globbing is what can fail.  What
    is left out is filtered from its outcome. -/
theorem search_succeeds_iff : (∃ files, search t root includes excludes = .ok files) ↔
    ∀ pattern ∈ includePatterns t root includes, (Location.ofText pattern).isAbsolute = false →
      ∃ paths, glob t root pattern = .ok paths := by
  have hlists : (∃ files, search t root includes excludes = .ok files) ↔
      ∃ lists, (includePatterns t root includes).mapM (found t root excludes) = .ok lists := by
    constructor
    · rintro ⟨files, h⟩
      obtain ⟨lists, hlists, -⟩ := Persisted.bind_eq_ok_iff.mp h
      exact ⟨lists, hlists⟩
    · rintro ⟨lists, h⟩
      exact ⟨_, Persisted.bind_eq_ok_iff.mpr ⟨lists, h, rfl⟩⟩
  rw [hlists, Persisted.exists_mapM_ok_iff]
  refine forall₂_congr fun pattern _ => ?_
  simp only [found_eq_ok_iff]
  constructor
  · rintro ⟨list, ⟨habsolute, -⟩ | ⟨-, paths, hpaths, -⟩⟩ hrelative
    · exact absurd (habsolute.symm.trans hrelative) (by decide)
    · exact ⟨paths, hpaths⟩
  · intro h
    cases habsolute : (Location.ofText pattern).isAbsolute with
    | true => exact ⟨[], .inl ⟨rfl, rfl⟩⟩
    | false =>
      obtain ⟨paths, hpaths⟩ := h habsolute
      exact ⟨_, .inr ⟨rfl, paths, hpaths, rfl⟩⟩

/-- **What a search finds** is what is wanted of what its patterns match.

    Absolute patterns find nothing, and sorting and dropping what was found twice keeps what there
    is. -/
theorem mem_search_iff {files : List Location} (h : search t root includes excludes = .ok files)
    (path : Location) :
    path ∈ files ↔ Matched t root includes path ∧ isWanted t root excludes path = true := by
  obtain ⟨lists, hlists, h⟩ := Persisted.bind_eq_ok_iff.mp h
  obtain rfl := Persisted.pure_eq_ok_iff.mp h
  rw [Location.sort, List.mem_mergeSort, List.mem_eraseDups, List.mem_flatten]
  constructor
  · rintro ⟨list, hlist, hpath⟩
    obtain ⟨pattern, hpattern, hfound⟩ := Persisted.exists_of_mem_of_mapM hlists hlist
    rcases found_eq_ok_iff.mp hfound with ⟨-, rfl⟩ | ⟨hrelative, paths, hpaths, rfl⟩
    · exact absurd hpath List.not_mem_nil
    · obtain ⟨hpath, hwanted⟩ := List.mem_filter.mp hpath
      exact ⟨⟨pattern, hpattern, hrelative, paths, hpaths, hpath⟩, hwanted⟩
  · rintro ⟨⟨pattern, hpattern, hrelative, paths, hpaths, hpath⟩, hwanted⟩
    obtain ⟨list, hlist, hfound⟩ := Persisted.exists_of_mem_mapM hlists hpattern
    refine ⟨list, hlist, ?_⟩
    rcases found_eq_ok_iff.mp hfound with ⟨habsolute, -⟩ | ⟨-, paths', hpaths', rfl⟩
    · exact absurd (habsolute.symm.trans hrelative) (by decide)
    · obtain rfl := Except.ok.inj (hpaths.symm.trans hpaths')
      exact List.mem_filter.mpr ⟨hpath, hwanted⟩

variable (hsound : t.IsSound) (hdown : GoesDown t root includes)
include hsound hdown

/-- What is matched lies below the project, by names of files. -/
theorem Matched.under {path : Location} (h : Matched t root includes path) :
    ∃ names, path = under root names ∧ ∀ n ∈ names, IsFileName n := by
  obtain ⟨pattern, hpattern, -, paths, hglob, hpath⟩ := h
  exact glob_under hsound (hdown pattern hpattern) hglob hpath

/-- Of what is found, one list may leave out more than another. -/
theorem search_without {kept : Location → Prop} (h : ∀ names, (∀ n ∈ names, IsFileName n) →
      (isWanted t root excludes (under root names) = true ↔
        isWanted t root excludes' (under root names) = true ∧ kept (under root names)))
    {files : List Location} (hfiles : search t root includes excludes' = .ok files) :
    ∃ rest, search t root includes excludes = .ok rest ∧
      ∀ path, path ∈ rest ↔ path ∈ files ∧ kept path := by
  obtain ⟨rest, hrest⟩ := search_succeeds_iff.mpr (search_succeeds_iff.mp ⟨files, hfiles⟩)
  refine ⟨rest, hrest, fun path => ?_⟩
  rw [mem_search_iff hrest, mem_search_iff hfiles, and_assoc]
  refine and_congr_right fun hmatched => ?_
  obtain ⟨names, rfl, hnames⟩ := hmatched.under hsound hdown
  exact h names hnames

/-- Lists that want the same files lead to the same search. -/
theorem search_congr (h : ∀ names, (∀ n ∈ names, IsFileName n) →
      isWanted t root excludes (under root names) = isWanted t root excludes' (under root names)) :
    search t root includes excludes = search t root includes excludes' := by
  have hfound : ∀ pattern ∈ includePatterns t root includes,
      found t root excludes pattern = found t root excludes' pattern := by
    intro pattern hpattern
    rw [found, found]
    split
    · rfl
    · cases hglob : glob t root pattern with
      | error fault => rfl
      | ok paths =>
        refine congrArg Except.ok (List.filter_congr fun path hpath => ?_)
        obtain ⟨names, rfl, hnames⟩ := glob_under hsound (hdown pattern hpattern) hglob hpath
        exact h names hnames
  have hmap := Persisted.mapM_congr_of_mem hfound
  exact congrArg (· >>= fun lists => pure (Location.sort lists.flatten.eraseDups)) hmap

end

/-! ## What is discovered

The ways of looking for files are tried in turn, so what is found was found by a search, and
searches that agree discover the same. -/

section

variable {t : Tree} {root : Location} {includes excludes excludes' : List String}

/-- **Whatever is discovered** was found by a search on one of the three ways. -/
theorem mem_files_of_discover {result : Found} (h : discover t root includes excludes = .ok result)
    {path : Location} (hpath : path ∈ result.files) : ∃ way ∈ ways includes, ∃ files,
      search t root way (excludePatterns t root excludes) = .ok files ∧ path ∈ files := by
  obtain ⟨configured, hconfigured, h⟩ := Persisted.bind_eq_ok_iff.mp h
  split at h
  · obtain rfl := Persisted.pure_eq_ok_iff.mp h
    exact ⟨includes, by simp [ways], configured, hconfigured, hpath⟩
  obtain ⟨preset, hpreset, h⟩ := Persisted.bind_eq_ok_iff.mp h
  split at h
  · obtain rfl := Persisted.pure_eq_ok_iff.mp h
    exact ⟨({} : SourceSettings).includes, by simp [ways], preset, hpreset, hpath⟩
  obtain ⟨byName, hbyName, h⟩ := Persisted.bind_eq_ok_iff.mp h
  split at h
  · obtain rfl := Persisted.pure_eq_ok_iff.mp h
    obtain ⟨files, hfiles, hfilter⟩ := Persisted.bind_eq_ok_iff.mp hbyName
    obtain rfl := Persisted.pure_eq_ok_iff.mp hfilter
    exact ⟨["**/" ++ anySuffix], by simp [ways], files, hfiles, (List.mem_filter.mp hpath).1⟩
  · obtain rfl := Persisted.pure_eq_ok_iff.mp h
    exact absurd hpath List.not_mem_nil

/-- Where each search gives the same, the same is discovered. -/
theorem discover_congr (h : ∀ way ∈ ways includes, search t root way (excludePatterns t root excludes)
      = search t root way (excludePatterns t root excludes')) :
    discover t root includes excludes = discover t root includes excludes' := by
  have hconfigured := h includes (by simp [ways])
  have hpreset := h ({} : SourceSettings).includes (by simp [ways])
  have hbyName := h ["**/" ++ anySuffix] (by simp [ways])
  rw [excludePatterns, excludePatterns] at hconfigured hpreset hbyName
  rw [discover, discover, searchByName, searchByName, hconfigured, hpreset, hbyName]

end

/-! ## Entries for directories

An entry can be spelt in many ways.  In its plain spelling it leaves out what is in the directory;
with a point in front, say, its pattern matches no path at all. -/

/-- The entry names a directory by its path below the project, with no character of a pattern. -/
structure NamesDirectory (t : Tree) (root : Location) (entry : String) : Prop where
  some : Text.trim entry ≠ ""
  no_pattern : ∀ c ∈ (Text.trim entry).toList, c ∉ patternChars
  isDir : t.isDir (root.join (Location.ofText (Text.trim entry))) = true

/-- The text has nothing but names of files between its slashes; at its end there may be more of
    them. -/
def IsPlain (text : String) : Prop :=
  ∀ n ∈ Text.splitOn '/' (withoutSlashes text), n ≠ "" ∧ n ≠ "." ∧ n ≠ ".."

instance (text : String) : Decidable (IsPlain text) :=
  inferInstanceAs (Decidable (∀ n ∈ Text.splitOn '/' (withoutSlashes text), _))

/-- A text is what is left without its last slashes, and these slashes. -/
theorem exists_slashes (text : String) :
    ∃ n, text.toList = (withoutSlashes text).toList ++ List.replicate n '/' := by
  have hslashes := List.eq_replicate_of_mem (l := text.toList.reverse.takeWhile (· == '/'))
    fun c hc => beq_iff_eq.mp (List.mem_takeWhile_imp (p := (· == '/')) hc)
  refine ⟨(text.toList.reverse.takeWhile (· == '/')).length, ?_⟩
  calc text.toList = text.toList.reverse.reverse := (List.reverse_reverse _).symm
    _ = (text.toList.reverse.takeWhile (· == '/')
          ++ text.toList.reverse.dropWhile (· == '/')).reverse := by
        rw [List.takeWhile_append_dropWhile]
    _ = (withoutSlashes text).toList
          ++ List.replicate (text.toList.reverse.takeWhile (· == '/')).length '/' := by
        rw [List.reverse_append, withoutSlashes, String.toList_ofList, ← List.reverse_replicate,
          ← hslashes]

/-- Dropping slashes adds no character. -/
theorem mem_of_mem_withoutSlashes {text : String} {c : Char} (h : c ∈ (withoutSlashes text).toList) :
    c ∈ text.toList := by
  obtain ⟨n, hn⟩ := exists_slashes text
  rw [hn]
  exact List.mem_append_left _ h

/-- Slashes at the end add no part. -/
theorem solidParts_append_slashes (cs : List Char) (n : Nat) :
    Route.solidParts (cs ++ List.replicate n '/') = Route.solidParts cs := by
  induction n generalizing cs with
  | zero => rw [List.replicate_zero, List.append_nil]
  | succ n ih =>
    have hsplit : cs ++ List.replicate (n + 1) '/' = (cs ++ ['/']) ++ List.replicate n '/' := by
      rw [List.append_assoc, List.replicate_succ, List.singleton_append]
    rw [hsplit, ih, Route.solidParts, Route.solidParts, Route.parts_append_slash, List.filter_append]
    exact List.append_nil _

/-- A plain text is the path of its names.  It has no empty part and no part of one dot, which are
    all that reading a path drops. -/
theorem ofText_of_isPlain {text : String} (h : IsPlain text) :
    Location.ofText text = ⟨"", Text.splitOn '/' (withoutSlashes text)⟩ := by
  obtain ⟨n, hn⟩ := exists_slashes text
  have hne : ∀ s ∈ Route.parts (withoutSlashes text).toList, s ≠ [] := by
    rintro s hs rfl
    have hmem : String.ofList [] ∈ Text.splitOn '/' (withoutSlashes text) := List.mem_map_of_mem hs
    exact (h _ hmem).1 rfl
  have hsolid : Route.solidParts text.toList = Route.parts (withoutSlashes text).toList := by
    rw [hn, solidParts_append_slashes]
    refine List.filter_eq_self.mpr fun s hs => ?_
    rw [List.isEmpty_eq_false_iff.mpr (hne s hs)]
    rfl
  have hnames : (Location.ofText text).names = Text.splitOn '/' (withoutSlashes text) := by
    rw [Location.names_ofText, hsolid]
    exact List.filter_eq_self.mpr fun n hn => bne_iff_ne.mpr (h n hn).2.1
  have hhead : text.toList.head? ≠ some '/' := by
    rw [hn]
    cases hchars : (withoutSlashes text).toList with
    | nil => exact absurd rfl (hne [] (by rw [hchars]; exact List.mem_singleton_self _))
    | cons c cs =>
      intro heq
      obtain rfl : c = '/' := Option.some.inj heq
      exact hne [] (by rw [hchars, Route.parts_cons_slash]; exact List.mem_cons_self ..) rfl
  have hroot : Location.rootOf ("".toList ++ text.toList) = "" :=
    Location.rootOf_append (by decide) hhead
  calc Location.ofText text = ⟨(Location.ofText text).root, (Location.ofText text).names⟩ := rfl
    _ = ⟨Location.rootOf ("".toList ++ text.toList), (Location.ofText text).names⟩ := rfl
    _ = ⟨"", Text.splitOn '/' (withoutSlashes text)⟩ := by rw [hroot, hnames]

section

variable {t : Tree} {root : Location} {entry : String} (hentry : NamesDirectory t root entry)
include hentry

/-- The entry stands for one pattern: everything below its text. -/
theorem excludePatterns_directory : excludePatterns t root [entry]
    = [withoutSlashes (Text.trim entry) ++ "/**"] := by
  have hnone : ¬(Text.trim entry).toList.any patternChars.contains = true := by
    rw [List.any_eq_true]
    rintro ⟨c, hc, hpattern⟩
    exact hentry.no_pattern c hc (List.contains_iff_mem.mp hpattern)
  have hpatterns : patternsOf t root .exclude entry = [withoutSlashes (Text.trim entry) ++ "/**"] := by
    rw [patternsOf.eq_def]
    exact (if_neg fun heq => hentry.some (eq_of_beq heq)).trans
      ((if_neg hnone).trans (if_pos hentry.isDir))
  rw [excludePatterns, List.flatMap_singleton, hpatterns, List.flatMap_singleton]
  exact expandBraces_directory fun c hc => hentry.no_pattern c (mem_of_mem_withoutSlashes hc)

/-- What the entry adds to what is left out: the paths that begin with its parts. -/
theorem isLeftOut_directory (before after : List String) {names : List String}
    (hnames : ∀ n ∈ names, IsFileName n) :
    isLeftOut (Text.joinWith "/" names) (excludePatterns t root (before ++ entry :: after)) = true ↔
      isLeftOut (Text.joinWith "/" names) (excludePatterns t root (before ++ after)) = true ∨
      ∃ rest, rest ≠ [] ∧
        names = Text.splitOn '/' (withoutSlashes (Text.trim entry)) ++ rest := by
  have hsplit : excludePatterns t root (before ++ entry :: after) = excludePatterns t root before
      ++ (excludePatterns t root [entry] ++ excludePatterns t root after) := by
    simp [excludePatterns]
  have hboth : excludePatterns t root (before ++ after)
      = excludePatterns t root before ++ excludePatterns t root after := by
    simp [excludePatterns]
  have hplain : ∀ c ∈ (withoutSlashes (Text.trim entry)).toList, c ∉ patternChars :=
    fun c hc => hentry.no_pattern c (mem_of_mem_withoutSlashes hc)
  rw [hsplit, hboth, excludePatterns_directory hentry, isLeftOut, isLeftOut]
  simp only [List.any_append, List.any_cons, List.any_nil, Bool.or_false, Bool.or_eq_true,
    leavesOut_directory hplain,
    Text.startsWith_joinWith_iff fun n hn => (hnames n hn).no_slash]
  rw [or_left_comm, or_comm]

end

/-- What is wanted of a path below the project: a source file, not among what is never read, and not
    left out. -/
theorem isWanted_under (t : Tree) (root : Location) (excludes : List String) (names : List String) :
    isWanted t root excludes (under root names) = (t.isFile (under root names)
      && Source.isSourceSuffix (under root names).suffix && !isNeverSource names
      && !isLeftOut (Text.joinWith "/" names) excludes) := by
  rw [isWanted, pathBelow_under]

/-- The place of a plain entry is that of its names. -/
theorem directory_of_isPlain {root : Location} {entry : String} (hplain : IsPlain (Text.trim entry)) :
    root.join (Location.ofText (Text.trim entry))
      = under root (Text.splitOn '/' (withoutSlashes (Text.trim entry))) := by
  rw [ofText_of_isPlain hplain, join_relative]

/-- What begins with the names of a plain entry is what is inside the directory. -/
theorem isInside_directory_iff {t : Tree} {root : Location} {entry : String}
    (hplain : IsPlain (Text.trim entry)) {names : List String} (hnames : ∀ n ∈ names, IsFileName n)
    (hfile : t.isFile (under root names) = true) :
    t.IsInside (root.join (Location.ofText (Text.trim entry))) (under root names) ↔
      ∃ rest, rest ≠ [] ∧
        names = Text.splitOn '/' (withoutSlashes (Text.trim entry)) ++ rest := by
  rw [directory_of_isPlain hplain]
  refine ⟨fun h => ?_, ?_⟩
  · exact h.exists_rest (fun hup => (hplain _ hup).2.2 rfl) fun hup => (hnames _ hup).ne_up rfl
  rintro ⟨rest, hrest, heq⟩
  have hup : ".." ∉ rest := fun hup =>
    (hnames _ (heq ▸ List.mem_append_right _ hup)).ne_up rfl
  obtain ⟨file, hfound⟩ := Option.isSome_iff_exists.mp hfile
  obtain ⟨place, hplace, -⟩ := Option.bind_eq_some_iff.mp hfound
  rw [heq, ← under_under] at hplace
  obtain ⟨dir, hdir, rfl⟩ := Tree.exists_of_place?_under hup hplace
  refine ⟨dir, rest, hdir, hrest, ?_⟩
  rw [heq, ← under_under]
  exact hplace

section

variable {t : Tree} {root : Location} {entry : String} (hentry : NamesDirectory t root entry)
include hentry

/-- **What a plain entry leaves out** is what is inside the directory. -/
theorem isWanted_directory_iff (before after : List String) (hplain : IsPlain (Text.trim entry))
    {names : List String} (hnames : ∀ n ∈ names, IsFileName n) :
    isWanted t root (excludePatterns t root (before ++ entry :: after)) (under root names) = true ↔
      isWanted t root (excludePatterns t root (before ++ after)) (under root names) = true ∧
      ¬t.IsInside (root.join (Location.ofText (Text.trim entry))) (under root names) := by
  rw [isWanted_under, isWanted_under]
  simp only [Bool.and_eq_true, Bool.not_eq_true', ← Bool.not_eq_true,
    isLeftOut_directory hentry before after hnames]
  constructor
  · rintro ⟨hrest, hleft⟩
    refine ⟨⟨hrest, fun h => hleft (.inl h)⟩, fun h => hleft (.inr ?_)⟩
    exact (isInside_directory_iff hplain hnames hrest.1.1).mp h
  · rintro ⟨⟨hrest, hleft⟩, houtside⟩
    refine ⟨hrest, fun h => h.elim hleft fun h => houtside ?_⟩
    exact (isInside_directory_iff hplain hnames hrest.1.1).mpr h

/-- In any other spelling it leaves out nothing: no names of files begin with a part that is none. -/
theorem isWanted_directory_eq (before after : List String) (hplain : ¬IsPlain (Text.trim entry))
    {names : List String} (hnames : ∀ n ∈ names, IsFileName n) :
    isWanted t root (excludePatterns t root (before ++ entry :: after)) (under root names)
      = isWanted t root (excludePatterns t root (before ++ after)) (under root names) := by
  have hnone : ¬∃ rest, rest ≠ [] ∧
      names = Text.splitOn '/' (withoutSlashes (Text.trim entry)) ++ rest := by
    rintro ⟨rest, -, heq⟩
    rw [heq] at hnames
    refine hplain fun n hn => ?_
    have hname := hnames n (List.mem_append_left rest hn)
    exact ⟨hname.ne_empty, hname.ne_dot, hname.ne_up⟩
  have hsame : isLeftOut (Text.joinWith "/" names) (excludePatterns t root (before ++ entry :: after))
      = isLeftOut (Text.joinWith "/" names) (excludePatterns t root (before ++ after)) := by
    rw [Bool.eq_iff_iff, isLeftOut_directory hentry before after hnames]
    exact or_iff_left hnone
  rw [isWanted_under, isWanted_under, hsame]

end

/-- **An entry for a directory leaves out everything in it, or nothing at all.**  Let nothing be read
    that is found by going up.  If there are only names of files between the slashes of the entry, no
    file inside the directory is discovered, and on each of the three ways it is just these files
    that are missing.  If there is an empty name, `.` or `..` among them, everything is discovered as
    if the entry were not there. -/
theorem directory_entry_all_or_nothing (t : Tree) (root : Location)
    (includes before after : List String) (entry : String) (hsound : t.IsSound)
    (hdown : GoesDown t root includes) (hentry : NamesDirectory t root entry) :
    (IsPlain (Text.trim entry) →
      (∀ result, discover t root includes (before ++ entry :: after) = .ok result →
        ∀ path ∈ result.files,
          ¬t.IsInside (root.join (Location.ofText (Text.trim entry))) path) ∧
      ∀ way ∈ ways includes, ∀ files,
        search t root way (excludePatterns t root (before ++ after)) = .ok files →
        ∃ rest, search t root way (excludePatterns t root (before ++ entry :: after)) = .ok rest ∧
          ∀ path, path ∈ rest ↔
            path ∈ files ∧ ¬t.IsInside (root.join (Location.ofText (Text.trim entry))) path) ∧
    (¬IsPlain (Text.trim entry) → discover t root includes (before ++ entry :: after)
      = discover t root includes (before ++ after)) := by
  have hways : ∀ way ∈ ways includes, GoesDown t root way := fun way => goesDown_of_mem_ways hdown
  refine ⟨fun hplain => ⟨fun result hresult path hpath => ?_, fun way hway files hfiles => ?_⟩,
    fun hplain => discover_congr fun way hway => ?_⟩
  · obtain ⟨way, hway, files, hfiles, hpath⟩ := mem_files_of_discover hresult hpath
    obtain ⟨hmatched, hwanted⟩ := (mem_search_iff hfiles path).mp hpath
    obtain ⟨names, rfl, hnames⟩ := hmatched.under hsound (hways way hway)
    exact ((isWanted_directory_iff hentry before after hplain hnames).mp hwanted).2
  · exact search_without hsound (hways way hway)
      (fun names hnames => isWanted_directory_iff hentry before after hplain hnames) hfiles
  · exact search_congr hsound (hways way hway) fun names hnames =>
      isWanted_directory_eq hentry before after hplain hnames

/-- A project with generated files beside its sources. -/
def generatedProject : Tree where
  files :=
    [(⟨"/", ["p", "gen", "a.ts"]⟩, { text := .ok "" }),
     (⟨"/", ["p", "src", "b.ts"]⟩, { text := .ok "" })]
  directories := []

/-- The directory of the project. -/
def generatedRoot : Location := ⟨"/", ["p"]⟩

/-- Where one file is found, it needs no sorting. -/
theorem discover_of_one {t : Tree} {root path : Location} {includes excludes : List String}
    (lists : List (List Location))
    (hfound : (includePatterns t root includes).mapM (found t root (excludePatterns t root excludes))
      = .ok lists) (hone : lists.flatten.eraseDups = [path]) :
    discover t root includes excludes = .ok (.configured [path]) := by
  have hsearch : search t root includes (excludePatterns t root excludes) = .ok [path] := by
    refine Persisted.bind_eq_ok_iff.mpr ⟨lists, hfound, ?_⟩
    rw [hone]
    exact congrArg Except.ok (List.mergeSort_singleton path)
  exact Persisted.bind_eq_ok_iff.mpr ⟨[path], hsearch, rfl⟩

/-- Everything generated is left out, in each of the three ways.  The first spelling of the entry is
    plain, although there are blanks and slashes around it; the second one has a dot. -/
theorem directory_entry_generated :
    let path : Location := ⟨"/", ["p", "src", "b.ts"]⟩
    generatedProject.IsSound ∧ GoesDown generatedProject generatedRoot ["**/*.ts"] ∧
    NamesDirectory generatedProject generatedRoot " gen//" ∧ IsPlain (Text.trim " gen//") ∧
    discover generatedProject generatedRoot ["**/*.ts"] ["dist", " gen//"] = .ok (.configured [path]) ∧
    ¬generatedProject.IsInside (generatedRoot.join (Location.ofText (Text.trim " gen//"))) path ∧
    NamesDirectory generatedProject generatedRoot "./gen" ∧ ¬IsPlain (Text.trim "./gen") ∧
    discover generatedProject generatedRoot ["**/*.ts"] ["dist", "./gen"]
      = discover generatedProject generatedRoot ["**/*.ts"] ["dist"] := by
  intro path
  have hsound : generatedProject.IsSound := by decide +kernel
  have hdown : GoesDown generatedProject generatedRoot ["**/*.ts"] := by decide +kernel
  have hplain : NamesDirectory generatedProject generatedRoot " gen//" :=
    ⟨by decide +kernel, by decide +kernel, by decide +kernel⟩
  have hdotted : NamesDirectory generatedProject generatedRoot "./gen" :=
    ⟨by decide +kernel, by decide +kernel, by decide +kernel⟩
  have hisPlain : IsPlain (Text.trim " gen//") := by decide +kernel
  have hnotPlain : ¬IsPlain (Text.trim "./gen") := by decide +kernel
  have hdiscover : discover generatedProject generatedRoot ["**/*.ts"] ["dist", " gen//"]
      = .ok (.configured [path]) := discover_of_one [[path]] (by decide +kernel) (by decide +kernel)
  have hresult := directory_entry_all_or_nothing generatedProject generatedRoot ["**/*.ts"] ["dist"] []
  refine ⟨hsound, hdown, hplain, hisPlain, hdiscover, ?_, hdotted, hnotPlain, ?_⟩
  · have hnone := ((hresult " gen//" hsound hdown hplain).1 hisPlain).1
    exact hnone _ hdiscover path (List.mem_singleton_self _)
  · exact (hresult "./gen" hsound hdown hdotted).2 hnotPlain

/-- With a point in front of the directory, or a file that is found by going up, the file is read all
    the same. -/
theorem directory_entry_without_effect :
    let path : Location := ⟨"/", ["p", "gen", "a.ts"]⟩
    let upward : Location := ⟨"/", ["p", "src", "..", "gen", "a.ts"]⟩
    generatedProject.IsSound ∧
    NamesDirectory generatedProject generatedRoot "./gen" ∧
    discover generatedProject generatedRoot ["gen/*.ts"] ["./gen"] = .ok (.configured [path]) ∧
    generatedProject.IsInside (generatedRoot.join (Location.ofText "./gen")) path ∧
    NamesDirectory generatedProject generatedRoot "gen" ∧
    discover generatedProject generatedRoot ["src/../gen/*.ts"] ["gen"] = .ok (.configured [upward]) ∧
    generatedProject.IsInside (generatedRoot.join (Location.ofText "gen")) upward := by
  intro path upward
  have hdotted : NamesDirectory generatedProject generatedRoot "./gen" :=
    ⟨by decide +kernel, by decide +kernel, by decide +kernel⟩
  have hplain : NamesDirectory generatedProject generatedRoot "gen" :=
    ⟨by decide +kernel, by decide +kernel, by decide +kernel⟩
  have hinside : ∀ dir ∈ ["./gen", "gen"], ∀ file ∈ [path, upward],
      generatedProject.IsInside (generatedRoot.join (Location.ofText dir)) file := by
    intro dir hdir file hfile
    refine ⟨⟨"/", ["p", "gen"]⟩, ["a.ts"], ?_, List.cons_ne_nil _ _, ?_⟩
    · revert dir
      decide +kernel
    · revert file
      decide +kernel
  exact ⟨by decide +kernel, hdotted, discover_of_one [[path]] (by decide +kernel) (by decide +kernel),
    hinside _ (by simp) _ (by simp), hplain,
    discover_of_one [[upward]] (by decide +kernel) (by decide +kernel),
    hinside _ (by simp) _ (by simp)⟩

end Project

end RouteAtlas
