/-
  One path in three notations.

  ==== Problem ====

  A route is declared with its placeholders in whatever notation the framework has, and read by
  formats that each have their own.  All of them have to mean one route.

  ==== Program ====

  1. **Paths as rows** - with every slash a literal text of its own, a path is one row of pieces
     (`rowOf`), so the rules see nothing but pieces from its beginning to its end.

  2. **Rewriting** - display brings every placeholder to the common spelling, the other two
     rewritings go on from there; each respells all placeholders and leaves the rest
     (`rewrite_pathOf`).  Everything said of a path by its displayed form follows.

  3. **Names** - the names found in a displayed path are those of its placeholders, and repetitions are
     dropped (`placeholders_pathOf`).
-/
import Mathlib.Data.List.Basic
import RouteAtlas.Proofs.Route.Piece
import RouteAtlas.Proofs.Text.Distinct

namespace RouteAtlas.Route

/-! ## Rows

A segment is a row of pieces, and is known from its characters when the row is legible.  A literal
text must have no slash, or it would be two segments, and no white space, which may be trimmed. -/

/-- A literal text has no slash and no white space. -/
def Piece.Literal : Piece → Prop
  | .text cs => ∀ c ∈ cs, c ≠ '/' ∧ Text.isBlank c = false
  | .hole _ _ => True

instance : (p : Piece) → Decidable p.Literal
  | .text cs => inferInstanceAs (Decidable (∀ c ∈ cs, c ≠ '/' ∧ Text.isBlank c = false))
  | .hole _ _ => .isTrue trivial

/-- The pieces of one segment. -/
structure IsRow (ps : List Piece) : Prop where
  legible : Legible ps
  literal : ∀ p ∈ ps, p.Literal

/-- Both parts of it are decided on the pieces. -/
instance (ps : List Piece) : Decidable (IsRow ps) :=
  decidable_of_iff (Legible ps ∧ ∀ p ∈ ps, p.Literal)
    ⟨fun h => ⟨h.1, h.2⟩, fun h => ⟨h.legible, h.literal⟩⟩

/-- Whether pieces make a segment does not depend on the spelling of placeholders. -/
theorem isRow_respell {f : Spelling → Spelling} {ps : List Piece} :
    IsRow (ps.map (Piece.respell f)) ↔ IsRow ps := by
  have hliteral : (∀ p ∈ ps.map (Piece.respell f), p.Literal) ↔ ∀ p ∈ ps, p.Literal := by
    rw [List.forall_mem_map]
    refine forall₂_congr fun p _ => ?_
    cases p <;> exact Iff.rfl
  exact ⟨fun h => ⟨legible_respell.mp h.legible, hliteral.mp h.literal⟩,
    fun h => ⟨legible_respell.mpr h.legible, hliteral.mpr h.literal⟩⟩

/-- A row that looks like nothing looks so in every spelling: a placeholder is never empty. -/
theorem charsOf_respell_eq_nil {f : Spelling → Spelling} {ps : List Piece} :
    charsOf (ps.map (Piece.respell f)) = [] ↔ charsOf ps = [] := by
  induction ps with
  | nil => exact Iff.rfl
  | cons p ps ih =>
    cases p with
    | text cs =>
      rw [List.map_cons, Piece.respell, charsOf_text, charsOf_text, List.append_eq_nil_iff,
        List.append_eq_nil_iff, ih]
    | hole spelling name =>
      rw [List.map_cons, Piece.respell, charsOf_hole, charsOf_hole]
      exact iff_of_false (List.append_ne_nil_of_left_ne_nil (Spelling.write_ne_nil _ _) _)
        (List.append_ne_nil_of_left_ne_nil (Spelling.write_ne_nil _ _) _)

/-- The characters of a name lie in a narrow range, which holds no white space. -/
theorem range_of_isNameChar {c : Char} (h : Text.isNameChar c = true) :
    33 ≤ c.toNat ∧ c.toNat ≤ 122 := by
  have hclasses : (((decide (65 ≤ c.val ∧ c.val ≤ 90) || (decide (97 ≤ c.val) && decide (c.val ≤ 122)))
      || (decide (48 ≤ c.val) && decide (c.val ≤ 57))) || c == '_') = true := h
  simp only [Bool.or_eq_true, Bool.and_eq_true, decide_eq_true_eq, beq_iff_eq,
    UInt32.le_iff_toNat_le] at hclasses
  have hval : c.val.toNat = c.toNat := rfl
  rcases hclasses with hrange | rfl
  · simp at hrange
    omega
  · decide

/-- A character of a name is a visible one. -/
theorem isBlank_of_isNameChar {c : Char} (h : Text.isNameChar c = true) : Text.isBlank c = false := by
  obtain ⟨hlow, hhigh⟩ := range_of_isNameChar h
  rw [Text.isBlank, Text.inBlocks, List.any_eq_false]
  intro block hblock
  have hbounds : block.2 ≤ 32 ∨ 122 < block.1 := by
    revert block
    decide
  simp only [Bool.and_eq_true, decide_eq_true_eq]
  omega

/-- The placeholders of a legible row have names. -/
theorem isName_of_mem {ps : List Piece} (h : Legible ps) {spelling : Spelling} {name : List Char}
    (hp : Piece.hole spelling name ∈ ps) : IsName name := by
  induction ps with
  | nil => exact absurd hp (List.not_mem_nil)
  | cons p ps ih =>
    cases p with
    | text cs => exact ih h.2 ((List.mem_cons.mp hp).resolve_left (by simp))
    | hole spelling' name' =>
      rcases List.mem_cons.mp hp with heq | hp
      · obtain ⟨rfl, rfl⟩ := Piece.hole.inj heq
        exact h.1
      · exact ih h.2.2 hp

/-- No slash and no white space stands in a row. -/
theorem IsRow.chars {ps : List Piece} (h : IsRow ps) :
    ∀ c ∈ charsOf ps, c ≠ '/' ∧ Text.isBlank c = false := by
  intro c hc
  obtain ⟨p, hp, hc⟩ := List.mem_flatMap.mp hc
  cases p with
  | text cs => exact h.literal _ hp c hc
  | hole spelling name =>
    have hname := isName_of_mem h.legible hp
    rcases mem_of_mem_writtenName spelling.isNotation hc with hmem | rfl | rfl | rfl
    · refine ⟨?_, isBlank_of_isNameChar (hname.chars c hmem)⟩
      rintro rfl
      exact not_mem_name hname (by decide) hmem
    · decide
    · decide
    · decide

/-! ## Paths

The rules read a path from its beginning to its end, over all its slashes.  So the segments are made
one row again, in which a slash is a text of its own; since no name has a slash, the row is as
legible as its segments are. -/

/-- Segments as one row: the slash before each is a literal text of its own. -/
def slashed (segments : List (List Piece)) : List Piece := segments.flatMap (.text ['/'] :: ·)

/-- A path as one row. -/
def rowOf (segments : List (List Piece)) : List Piece :=
  match segments with
  | [] => [.text ['/']]
  | _ :: _ => slashed segments

/-- The row looks like the segments, joined. -/
theorem charsOf_slashed (segments : List (List Piece)) :
    charsOf (slashed segments) = joined (segments.map charsOf) := by
  rw [charsOf, slashed, joined, List.flatMap_assoc, List.flatMap_map]
  rfl

theorem charsOf_rowOf (segments : List (List Piece)) :
    charsOf (rowOf segments) = written (segments.map charsOf) := by
  cases segments with
  | nil => rfl
  | cons ps segments => exact charsOf_slashed (ps :: segments)

/-- Respelling the segments respells the row. -/
theorem rowOf_respell (f : Spelling → Spelling) (segments : List (List Piece)) :
    rowOf (segments.map (List.map (Piece.respell f))) = (rowOf segments).map (Piece.respell f) := by
  cases segments with
  | nil => rfl
  | cons ps segments =>
    rw [List.map_cons, rowOf, rowOf, ← List.map_cons (f := List.map (Piece.respell f)), slashed,
      slashed, List.flatMap_map, List.map_flatMap]
    rfl

/-- The slashes of a row have no names. -/
theorem namesOf_rowOf (segments : List (List Piece)) :
    namesOf (rowOf segments) = segments.flatMap namesOf := by
  cases segments with
  | nil => rfl
  | cons ps segments =>
    rw [rowOf, namesOf, slashed, List.filterMap_flatMap]
    rfl

/-- No name goes on with two rows when none goes on with either. -/
theorem endsName_append {ps qs : List Piece} (hps : EndsName ps) (hqs : EndsName qs) :
    EndsName (ps ++ qs) := by
  fun_induction EndsName ps with
  | case1 => exact hqs
  | case2 ps ih => exact ih hps
  | case3 c cs ps => exact hps
  | case4 spelling name ps => trivial

/-- Two legible rows are legible together, if no name at the end of the first goes on with the
    second. -/
theorem legible_append {ps qs : List Piece} (hps : Legible ps) (hqs : Legible qs)
    (hends : EndsName qs) : Legible (ps ++ qs) := by
  induction ps with
  | nil => exact hqs
  | cons p ps ih =>
    cases p with
    | text cs => exact ⟨hps.1, ih hps.2⟩
    | hole spelling name => exact ⟨hps.1, endsName_append hps.2.1 hends, ih hps.2.2⟩

/-- A slash keeps two segments apart. -/
theorem legible_slashed {segments : List (List Piece)} (h : ∀ ps ∈ segments, Legible ps) :
    Legible (slashed segments) ∧ EndsName (slashed segments) := by
  induction segments with
  | nil => exact ⟨trivial, trivial⟩
  | cons ps segments ih =>
    obtain ⟨hrest, hends⟩ := ih fun qs hqs => h qs (List.mem_cons_of_mem _ hqs)
    refine ⟨⟨by decide, legible_append (h ps (List.mem_cons_self ..)) hrest hends⟩, ?_⟩
    show Text.isNameChar '/' = false
    decide

/-- The row of a path is legible when its segments are. -/
theorem legible_rowOf {segments : List (List Piece)} (h : ∀ ps ∈ segments, Legible ps) :
    Legible (rowOf segments) := by
  cases segments with
  | nil => decide
  | cons ps segments => exact (legible_slashed h).1

/-! ## Rewriting

There are three rewritings: `display` brings every placeholder to single braces, and `coloned` and
`doubleBraced` go on from there.  Each is a rule or two applied to all of the path, after it was
made normal. -/

/-- The rewriting of paths that leads to a spelling. -/
def Spelling.rewrite : Spelling → String → String
  | .colon => coloned
  | .single => display
  | .double => doubleBraced

/-- A path with all its placeholders spelled one way. -/
def spelled (s : Spelling) (segments : List (List Piece)) : List (List Piece) :=
  segments.map (List.map (Piece.respell fun _ => s))

/-- The path whose segments are made of the given pieces. -/
def pathOf (segments : List (List Piece)) : String := String.ofList (written (segments.map charsOf))

/-- The characters of a path are those of its row. -/
theorem toList_pathOf (segments : List (List Piece)) :
    (pathOf segments).toList = charsOf (rowOf segments) := by
  rw [pathOf, String.toList_ofList, charsOf_rowOf]

/-- Only the last spelling counts. -/
theorem spelled_spelled (s t : Spelling) (segments : List (List Piece)) :
    spelled s (spelled t segments) = spelled s segments := by
  rw [spelled, spelled, List.map_map]
  exact congrArg (List.map · segments) (funext fun ps => map_respell_respell (fun _ => s) (fun _ => t) ps)

section

variable {segments : List (List Piece)} (h : ∀ ps ∈ segments, IsRow ps)
include h

theorem legible_row : Legible (rowOf segments) := legible_rowOf fun ps hps => (h ps hps).legible

/-- No slash stands in what a row looks like. -/
theorem no_slash_row : ∀ s ∈ segments.map charsOf, '/' ∉ s := by
  intro s hs hslash
  obtain ⟨ps, hps, rfl⟩ := List.mem_map.mp hs
  exact ((h ps hps).chars '/' hslash).1 rfl

/-- No white space stands in it, either. -/
theorem no_blank_row : ∀ s ∈ segments.map charsOf, ∀ c ∈ s, Text.isBlank c = false := by
  intro s hs c hc
  obtain ⟨ps, hps, rfl⟩ := List.mem_map.mp hs
  exact ((h ps hps).chars c hc).2

variable (hne : ∀ ps ∈ segments, charsOf ps ≠ [])
include hne

/-- A path of solid segments is normal as it stands. -/
theorem normalChars_rowOf : normalChars (charsOf (rowOf segments)) = charsOf (rowOf segments) := by
  rw [charsOf_rowOf]
  refine normalChars_written (fun s hs => ⟨?_, no_slash_row h s hs⟩) (no_blank_row h)
  obtain ⟨ps, hps, rfl⟩ := List.mem_map.mp hs
  exact hne ps hps

/-- Displaying a path brings each placeholder to the common spelling. -/
theorem displayChars_rowOf : displayChars (charsOf (rowOf segments))
    = charsOf ((rowOf segments).map (Piece.respell fun _ => .single)) := by
  have hlegible := legible_row h
  have hdouble := replaceMatches_charsOf .double .single hlegible
  have hcolon := replaceMatches_charsOf .colon .single
    (legible_respell (f := Spelling.swap .double .single).mpr hlegible)
  have hboth : Spelling.swap .colon .single ∘ Spelling.swap .double .single = fun _ => .single := by
    funext s
    cases s <;> rfl
  rw [map_respell_respell, hboth] at hcolon
  rw [displayChars, normalChars_rowOf h hne]
  exact (congrArg _ hdouble).trans hcolon

/-- **Writing a path** in the notation of a format respells all its placeholders. -/
theorem writtenChars_rowOf (s : Spelling) : writtenChars s.write (charsOf (rowOf segments))
    = charsOf ((rowOf segments).map (Piece.respell fun _ => s)) := by
  have hsingle := replaceMatches_charsOf .single s
    (legible_respell (f := fun _ => .single).mpr (legible_row h))
  rw [map_respell_respell] at hsingle
  rw [writtenChars, displayChars_rowOf h hne]
  exact hsingle

/-- **Rewriting a path** respells its placeholders, and nothing else. -/
theorem rewrite_pathOf (s : Spelling) : s.rewrite (pathOf segments) = pathOf (spelled s segments) := by
  have hpath : pathOf (spelled s segments)
      = String.ofList (charsOf ((rowOf segments).map (Piece.respell fun _ => s))) := by
    rw [pathOf, ← charsOf_rowOf, spelled, rowOf_respell]
  have hchars := toList_pathOf segments
  rw [hpath]
  cases s with
  | single => rw [Spelling.rewrite, display, hchars, displayChars_rowOf h hne]
  | colon =>
    have hwritten := writtenChars_rowOf h hne .colon
    rw [Spelling.rewrite, coloned, hchars]
    exact congrArg String.ofList hwritten
  | double =>
    have hwritten := writtenChars_rowOf h hne .double
    rw [Spelling.rewrite, doubleBraced, hchars]
    exact congrArg String.ofList hwritten

end

/-! ## Paths with empty segments

A path may be declared with slashes repeated and with one at its end.  Making it normal drops the
empty segments before any placeholder is looked for. -/

/-- The segments that have characters. -/
def solid (segments : List (List Piece)) : List (List Piece) :=
  segments.filter fun ps => !(charsOf ps).isEmpty

/-- What is solid is not empty. -/
theorem ne_nil_of_mem_solid {segments : List (List Piece)} {ps : List Piece}
    (hps : ps ∈ solid segments) : charsOf ps ≠ [] := by
  obtain ⟨-, hsolid⟩ := List.mem_filter.mp hps
  intro hnil
  rw [hnil] at hsolid
  exact absurd hsolid (by decide)

section

variable {segments : List (List Piece)} (h : ∀ ps ∈ segments, IsRow ps)
include h

/-- The solid segments are rows, as all of them are. -/
theorem isRow_solid : ∀ ps ∈ solid segments, IsRow ps :=
  fun ps hps => h ps (List.mem_filter.mp hps).1

/-- In normal form the empty segments are dropped, and the others are as they were. -/
theorem normalChars_slashed :
    normalChars (charsOf (slashed segments)) = charsOf (rowOf (solid segments)) := by
  rw [charsOf_slashed, normalChars_joined (no_slash_row h) (no_blank_row h), charsOf_rowOf,
    List.filter_map]
  rfl

/-- Empty segments make no difference to the displayed path. -/
theorem displayChars_slashed :
    displayChars (charsOf (slashed segments)) = displayChars (charsOf (rowOf (solid segments))) := by
  have hnormal := normalChars_rowOf (isRow_solid h) fun ps => ne_nil_of_mem_solid
  rw [displayChars, normalChars_slashed h, displayChars, hnormal]

/-- **Rewriting a path with empty segments** drops them, and respells its placeholders. -/
theorem rewrite_slashed (s : Spelling) : s.rewrite (String.ofList (charsOf (slashed segments)))
    = pathOf (spelled s (solid segments)) := by
  rw [← rewrite_pathOf (isRow_solid h) fun ps => ne_nil_of_mem_solid, pathOf, ← charsOf_rowOf]
  have hdisplay := displayChars_slashed h
  cases s with
  | single =>
    simp only [Spelling.rewrite, display, String.toList_ofList, hdisplay]
  | colon =>
    simp only [Spelling.rewrite, coloned, writtenChars, String.toList_ofList, hdisplay]
  | double =>
    simp only [Spelling.rewrite, doubleBraced, writtenChars, String.toList_ofList, hdisplay]

end

/-! ## Names

The placeholders of a path are found in its displayed form, where all of them are spelled one way. -/

/-- The names of a path's placeholders, in order, as often as they appear. -/
def names (segments : List (List Piece)) : List String := (segments.flatMap namesOf).map String.ofList

/-- **The placeholders of a path** are the names of its pieces, each at its first place. -/
theorem placeholders_pathOf {segments : List (List Piece)} (h : ∀ ps ∈ segments, IsRow ps)
    (hne : ∀ ps ∈ segments, charsOf ps ≠ []) :
    placeholders (pathOf segments) = (names segments).eraseDups := by
  have hfound := findMatches_charsOf .single (legible_row h)
  rw [placeholders, toList_pathOf, displayChars_rowOf h hne, names, ← namesOf_rowOf]
  exact congrArg (fun found => (found.map String.ofList).eraseDups) hfound

/-! ## One identity

Alike are paths that a reader would call one path: the same texts and the same names, in spellings
that may be mixed. -/

/-- Two paths of the same pieces but for the spelling of placeholders. -/
def Alike (segments others : List (List Piece)) : Prop := spelled .single others = spelled .single segments

/-- What holds of segments in whatever spelling holds of those that are alike. -/
theorem Alike.forall {segments others : List (List Piece)} (halike : Alike segments others)
    {p : List Piece → Prop} (hp : ∀ ps, p (ps.map (Piece.respell fun _ => .single)) ↔ p ps)
    (h : ∀ ps ∈ segments, p ps) : ∀ ps ∈ others, p ps := by
  intro ps hps
  have hmem : ps.map (Piece.respell fun _ => .single) ∈ spelled .single segments :=
    halike ▸ List.mem_map_of_mem hps
  obtain ⟨qs, hqs, heq⟩ := List.mem_map.mp hmem
  exact (hp ps).mp (heq ▸ (hp qs).mpr (h qs hqs))

/-- The names are the same in every spelling. -/
theorem names_spelled (s : Spelling) (segments : List (List Piece)) :
    names (spelled s segments) = names segments := by
  rw [names, spelled, List.flatMap_map, names]
  refine congrArg (fun found => (List.flatMap found segments).map String.ofList) (funext fun ps => ?_)
  exact namesOf_respell

/-- **The three notations are one identity.**  On a path made of literal texts and placeholders in
    any notation, each rewriting brings every placeholder to its own spelling and leaves the texts.
    What is made of a path by rewriting, its key and its placeholders depend on the spelling of none,
    so a rewriting comes out the same after any other; and the placeholders are the names in order of
    first appearance. -/
theorem notations_identify {segments : List (List Piece)} (h : ∀ ps ∈ segments, IsRow ps)
    (hne : ∀ ps ∈ segments, charsOf ps ≠ []) :
    (∀ s : Spelling, s.rewrite (pathOf segments) = pathOf (spelled s segments)) ∧
    (∀ others, Alike segments others →
      (∀ s : Spelling, s.rewrite (pathOf others) = s.rewrite (pathOf segments)) ∧
      (∀ method, key method (pathOf others) = key method (pathOf segments)) ∧
      placeholders (pathOf others) = placeholders (pathOf segments)) ∧
    (∀ s t : Spelling, s.rewrite (t.rewrite (pathOf segments)) = s.rewrite (pathOf segments)) ∧
    (placeholders (pathOf segments)).Nodup ∧
    (∀ n, n ∈ placeholders (pathOf segments) ↔ n ∈ names segments) ∧
    (placeholders (pathOf segments)).Pairwise
      (fun a b => (names segments).idxOf a < (names segments).idxOf b) := by
  have hplaceholders := placeholders_pathOf h hne
  have hcollected := collected_eraseDups (names segments)
  rw [hplaceholders]
  refine ⟨rewrite_pathOf h hne, fun others halike => ?_, fun s t => ?_, hcollected.nodup,
    hcollected.mem_iff, hcollected.ordered⟩
  · have hothers := halike.forall (fun _ => isRow_respell) h
    have hfull := halike.forall (fun _ => not_congr charsOf_respell_eq_nil) hne
    have hrewrite : ∀ s : Spelling, s.rewrite (pathOf others) = s.rewrite (pathOf segments) := by
      intro s
      rw [rewrite_pathOf hothers hfull, rewrite_pathOf h hne, ← spelled_spelled s .single others,
        halike, spelled_spelled]
    refine ⟨hrewrite, fun method => ?_, ?_⟩
    · have hdisplay : display (pathOf others) = display (pathOf segments) := hrewrite .single
      rw [key, key, hdisplay]
    · rw [placeholders_pathOf hothers hfull, ← names_spelled .single others, halike, names_spelled]
  · -- what was rewritten is made of the same pieces
    have hagain : ∀ ps ∈ spelled t segments, IsRow ps ∧ charsOf ps ≠ [] := by
      intro ps hps
      obtain ⟨qs, hqs, rfl⟩ := List.mem_map.mp hps
      exact ⟨isRow_respell.mpr (h qs hqs), fun hnil => hne qs hqs (charsOf_respell_eq_nil.mp hnil)⟩
    rw [rewrite_pathOf h hne t, rewrite_pathOf (fun ps hps => (hagain ps hps).1)
      (fun ps hps => (hagain ps hps).2) s, spelled_spelled, rewrite_pathOf h hne s]

/-- Placeholders in all notations, one right behind the other, and a name that comes twice. -/
def mixedRows : List (List Piece) :=
  [[.text ['v'], .hole .colon ['a'], .hole .single ['b'], .hole .double ['a'], .text ['-', 'x']],
    [.hole .double ['i', 'd'], .text ['.', 'j'], .hole .colon ['_', '1']]]

/-- Three placeholders side by side, each in a spelling of its own, and the same name twice: what
    the rewritings make of them, written out. -/
theorem notations_identify_mixedRows :
    (∀ ps ∈ mixedRows, IsRow ps) ∧ (∀ ps ∈ mixedRows, charsOf ps ≠ []) ∧
    pathOf mixedRows = "/v:a\x7bb\x7d\x7b\x7ba\x7d\x7d-x/\x7b\x7bid\x7d\x7d.j:_1" ∧
    display (pathOf mixedRows) = "/v\x7ba\x7d\x7bb\x7d\x7ba\x7d-x/\x7bid\x7d.j\x7b_1\x7d" ∧
    coloned (pathOf mixedRows) = "/v:a:b:a-x/:id.j:_1" ∧
    display (coloned (pathOf mixedRows)) = display (pathOf mixedRows) ∧
    (placeholders (pathOf mixedRows)).Nodup := by
  have hrow : ∀ ps ∈ mixedRows, IsRow ps := by decide
  have hne : ∀ ps ∈ mixedRows, charsOf ps ≠ [] := by decide
  obtain ⟨hrewrite, -, hagain, hnodup, -⟩ := notations_identify hrow hne
  refine ⟨hrow, hne, by decide, ?_, ?_, hagain .single .colon, hnodup⟩
  · exact (hrewrite .single).trans (by decide)
  · exact (hrewrite .colon).trans (by decide)

end RouteAtlas.Route
