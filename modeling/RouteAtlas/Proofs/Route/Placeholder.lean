/-
  Placeholders that are whole segments.

  ==== Problem ====

  A placeholder is written in three notations, and `display` brings all of them to one.  Where every
  placeholder is a whole segment, whichever way it is written does not matter: the displayed path
  is the same.

  ==== Program ====

  1. **Names** - a name ends at the first character that is none of a name's (`nameAt?_append`).

  2. **Rules** - so none of the three rules looks beyond a slash (`Segmental`), and what they do to a
     path they do to each segment (`replaceMatches_written`).

  3. **Segments** - a segment is a placeholder or there is none in it (`WholeSegment`); the first is
     displayed in braces, the second as it is, and both are displayed so again after having been
     written in another notation (`displaySegment_rewritten`).
-/
import Mathlib.Data.List.TakeWhile
import RouteAtlas.Proofs.Route.Segment
import RouteAtlas.Proofs.Text.Scan

namespace RouteAtlas.Route

open Text (Rule isNameChar replaceFrom replaceMatches findMatches Fits StopsAt)

/-! ## Names

A name is read as far as its characters go.  What stands behind the first other character has no
part in it, so a name may be read with anything behind it. -/

/-- What a placeholder may be called. -/
structure IsName (name : List Char) : Prop where
  ne_nil : name ≠ []
  chars : ∀ c ∈ name, isNameChar c = true

/-- What is taken ends at a character that is not taken, whatever follows it. -/
theorem takeWhile_append_stop {p : Char → Bool} {stop : Char} (h : p stop = false)
    (cs rest : List Char) : (cs ++ stop :: rest).takeWhile p = cs.takeWhile p := by
  induction cs with
  | nil =>
    rw [List.nil_append, List.takeWhile_cons, h]
    rfl
  | cons c cs ih => rw [List.cons_append, List.takeWhile_cons, List.takeWhile_cons, ih]

/-- What is left begins at that character, or before it. -/
theorem dropWhile_append_stop {p : Char → Bool} {stop : Char} (h : p stop = false)
    (cs rest : List Char) : (cs ++ stop :: rest).dropWhile p = cs.dropWhile p ++ stop :: rest := by
  induction cs with
  | nil =>
    rw [List.nil_append, List.dropWhile_cons, h]
    rfl
  | cons c cs ih =>
    rw [List.cons_append, List.dropWhile_cons, List.dropWhile_cons, ih]
    split <;> rfl

/-- A name ends at a character that is none of a name's. -/
theorem nameAt?_append {stop : Char} (h : isNameChar stop = false) (cs rest : List Char) :
    nameAt? (cs ++ stop :: rest) = (nameAt? cs).map fun e => (e.1, e.2 ++ stop :: rest) := by
  rw [nameAt?, nameAt?, takeWhile_append_stop h, dropWhile_append_stop h]
  cases cs.takeWhile isNameChar <;> rfl

/-- A name alone is read as itself, and nothing is left. -/
theorem nameAt?_of_isName {name : List Char} (h : IsName name) : nameAt? name = some (name, []) := by
  have htake : name.takeWhile isNameChar = name := List.takeWhile_eq_self_iff.mpr h.chars
  have hdrop : name.dropWhile isNameChar = [] := List.dropWhile_eq_nil_iff.mpr h.chars
  rw [nameAt?, htake, hdrop]
  obtain ⟨c, name, rfl⟩ := List.exists_cons_of_ne_nil h.ne_nil
  rfl

/-- A name is read up to a character that is none of a name's. -/
theorem nameAt?_name_append {name : List Char} (h : IsName name) {stop : Char}
    (hstop : isNameChar stop = false) (rest : List Char) :
    nameAt? (name ++ stop :: rest) = some (name, stop :: rest) := by
  rw [nameAt?_append hstop, nameAt?_of_isName h]
  rfl

/-- What is read as a name, and what follows, is the text. -/
theorem nameAt?_eq_some {cs name rest : List Char} (h : nameAt? cs = some (name, rest)) :
    cs = name ++ rest := by
  rw [nameAt?] at h
  split at h
  · exact absurd h (by simp)
  · rename_i c name' htake
    obtain ⟨rfl, rfl⟩ := Prod.mk.inj (Option.some.inj h)
    rw [← htake, List.takeWhile_append_dropWhile]

/-! ## The three rules

A rule looks at a text and the character before it, and says whether a placeholder of its notation
begins there.  Of each rule three things are needed: what a match looks like, that it is no longer
than the text, and that no match goes over a slash. -/

/-- A placeholder in double braces begins with a brace. -/
theorem doubleRule_of_ne (before : Option Char) (c : Char) (cs : List Char) (h : c ≠ opening) :
    doubleRule before (c :: cs) = none := by
  cases cs with
  | nil => rfl
  | cons d cs => exact if_neg fun hc => h hc.1

/-- A placeholder behind a colon begins with the colon. -/
theorem colonRule_of_ne (before : Option Char) (c : Char) (cs : List Char) (h : c ≠ ':') :
    colonRule before (c :: cs) = none := by
  unfold colonRule
  split
  · rename_i heq
    exact absurd (List.cons.inj heq).1 h
  · rfl

/-- A placeholder in single braces begins with a brace, too, which is why double braces are looked
    for first. -/
theorem singleRule_of_ne (before : Option Char) (c : Char) (cs : List Char) (h : c ≠ opening) :
    singleRule before (c :: cs) = none := if_neg fun hc => h hc.1

/-- A character at which all three rules stop. -/
structure IsStop (c : Char) : Prop where
  no_name : isNameChar c = false
  no_colon : c ≠ ':'
  no_opening : c ≠ opening
  no_closing : c ≠ closing

/-- A slash is no character of a name and marks no placeholder. -/
theorem isStop_slash : IsStop '/' := ⟨by decide, by decide, by decide, by decide⟩

/-- A match of `doubleRule`: a name between double braces.  The length is that of the name and the
    four braces. -/
theorem doubleRule_eq_some {before : Option Char} {cs name : List Char} {length : Nat}
    (h : doubleRule before cs = some (length, name)) :
    length = name.length + 4 ∧ ∃ rest, cs = inDoubleBraces name ++ rest := by
  unfold doubleRule at h
  split at h
  · rename_i a b rest
    split at h
    · rename_i hopen
      split at h
      · rename_i name' x y tail hname
        split at h
        · rename_i hclose
          obtain ⟨rfl, rfl⟩ := Prod.mk.inj (Option.some.inj h)
          refine ⟨rfl, tail, ?_⟩
          rw [hopen.1, hopen.2, nameAt?_eq_some hname, hclose.1, hclose.2]
          simp [inDoubleBraces]
        · exact absurd h (by simp)
      · exact absurd h (by simp)
    · exact absurd h (by simp)
  · exact absurd h (by simp)

/-- A match of `colonRule`: a name behind a colon. -/
theorem colonRule_eq_some {before : Option Char} {cs name : List Char} {length : Nat}
    (h : colonRule before cs = some (length, name)) :
    length = name.length + 1 ∧ ∃ rest, cs = behindColon name ++ rest := by
  unfold colonRule at h
  split at h
  · rename_i rest
    obtain ⟨e, he, heq⟩ := Option.map_eq_some_iff.mp h
    obtain ⟨rfl, rfl⟩ := Prod.mk.inj heq
    exact ⟨rfl, e.2, congrArg (':' :: ·) (nameAt?_eq_some he)⟩
  · exact absurd h (by simp)

/-- A match of `singleRule`: a name between braces.  The length is that of the name and the two
    braces. -/
theorem singleRule_eq_some {before : Option Char} {cs name : List Char} {length : Nat}
    (h : singleRule before cs = some (length, name)) :
    length = name.length + 2 ∧ ∃ rest, cs = inBraces name ++ rest := by
  unfold singleRule at h
  split at h
  · rename_i a rest
    split at h
    · rename_i hopen
      split at h
      · rename_i name' x after hname
        split at h
        · rename_i hclose
          obtain ⟨rfl, rfl⟩ := Prod.mk.inj (Option.some.inj h)
          refine ⟨rfl, after, ?_⟩
          rw [hopen.1, nameAt?_eq_some hname, hclose.1]
          simp [inBraces]
        · exact absurd h (by simp)
      · exact absurd h (by simp)
    · exact absurd h (by simp)
  · exact absurd h (by simp)

/-- What is matched in double braces lies within the text. -/
theorem fits_doubleRule : Fits doubleRule := by
  intro before cs length name h
  obtain ⟨rfl, rest, rfl⟩ := doubleRule_eq_some h
  simp [inDoubleBraces]

/-- What is matched behind a colon lies within the text. -/
theorem fits_colonRule : Fits colonRule := by
  intro before cs length name h
  obtain ⟨rfl, rest, rfl⟩ := colonRule_eq_some h
  simp [behindColon]

/-- What is matched in single braces lies within the text. -/
theorem fits_singleRule : Fits singleRule := by
  intro before cs length name h
  obtain ⟨rfl, rest, rfl⟩ := singleRule_eq_some h
  simp [inBraces]

/-- A name behind a colon ends at a stop or before it, and none begins there. -/
theorem stopsAt_colonRule {stop : Char} (h : IsStop stop) : StopsAt colonRule stop := by
  refine ⟨fun before rest => colonRule_of_ne before stop rest h.no_colon, ?_⟩
  intro before cs rest hne
  obtain ⟨c, cs, rfl⟩ := List.exists_cons_of_ne_nil hne
  by_cases hc : c = ':'
  · subst hc
    show (nameAt? (cs ++ stop :: rest)).map _ = (nameAt? cs).map _
    rw [nameAt?_append h.no_name, Option.map_map]
    rfl
  · rw [List.cons_append, colonRule_of_ne _ _ _ hc, colonRule_of_ne _ _ _ hc]

/-- Double braces close before a stop or do not close: what follows the stop makes no placeholder of
    them, and unmakes none. -/
theorem stopsAt_doubleRule {stop : Char} (h : IsStop stop) : StopsAt doubleRule stop := by
  refine ⟨fun before rest => doubleRule_of_ne before stop rest h.no_opening, ?_⟩
  intro before cs rest hne
  obtain ⟨a, cs, rfl⟩ := List.exists_cons_of_ne_nil hne
  cases cs with
  | nil => exact if_neg fun hopen => h.no_opening hopen.2
  | cons b cs =>
    by_cases hopen : a = opening ∧ b = opening
    · simp only [List.cons_append, doubleRule, if_pos hopen, nameAt?_append h.no_name]
      cases nameAt? cs with
      | none => rfl
      | some found =>
        obtain ⟨name, after⟩ := found
        -- the closing braces are found before the stop or not at all
        cases after with
        | nil =>
          cases rest with
          | nil => rfl
          | cons c rest => exact if_neg fun hclose => h.no_closing hclose.1
        | cons x after =>
          cases after with
          | nil => exact if_neg fun hclose => h.no_closing hclose.2
          | cons y after => rfl
    · simp only [List.cons_append, doubleRule, if_neg hopen]

/-- Single braces close before a stop or do not close.  Here the character before decides as well:
    behind another brace none begins. -/
theorem stopsAt_singleRule {stop : Char} (h : IsStop stop) : StopsAt singleRule stop := by
  refine ⟨fun before rest => singleRule_of_ne before stop rest h.no_opening, ?_⟩
  intro before cs rest hne
  obtain ⟨a, cs, rfl⟩ := List.exists_cons_of_ne_nil hne
  by_cases hopen : a = opening ∧ before ≠ some opening
  · simp only [List.cons_append, singleRule, if_pos hopen, nameAt?_append h.no_name]
    cases nameAt? cs with
    | none => rfl
    | some found =>
      obtain ⟨name, after⟩ := found
      cases after with
      | nil => exact if_neg fun hclose => h.no_closing hclose.1
      | cons x after =>
        cases after with
        | nil =>
          have hother : some stop ≠ some closing := fun heq => h.no_closing (Option.some.inj heq)
          have hnone : none ≠ some closing := by simp
          simp [hother, hnone]
        | cons y after => rfl
  · simp only [List.cons_append, singleRule, if_neg hopen]

/-! ## Segment by segment

Paths are rewritten as whole texts.  A rule that stops at a slash, and treats the beginning of a
segment like the beginning of a text, rewrites every segment as if it stood alone. -/

/-- A rule that does to a path what it does to each segment. -/
structure Segmental (rule : Rule (List Char)) : Prop where
  fits : Fits rule
  stops : StopsAt rule '/'
  begins : ∀ cs, rule (some '/') cs = rule none cs

/-- What is written for a match does not matter to where the matches are. -/
theorem segmental_replacing {rule : Rule (List Char)} (h : Segmental rule)
    (write : List Char → List Char) : Segmental (replacing rule write) := by
  refine ⟨fun {before cs length value} hfound => ?_, ⟨fun before rest => ?_, fun before cs rest hne => ?_⟩,
    fun cs => congrArg (Option.map _) (h.begins cs)⟩
  · obtain ⟨found, hrule, heq⟩ := Option.map_eq_some_iff.mp hfound
    obtain ⟨rfl, -⟩ := Prod.mk.inj heq
    exact h.fits hrule
  · show (rule before ('/' :: rest)).map _ = none
    rw [h.stops.here]
    rfl
  · show (rule before (cs ++ '/' :: rest)).map _ = (rule before cs).map _
    rw [h.stops.behind before cs rest hne]

/-- Double braces are looked for in each segment on its own, -/
theorem segmental_doubleRule : Segmental doubleRule :=
  ⟨fits_doubleRule, stopsAt_doubleRule isStop_slash, fun _ => rfl⟩

/-- Names behind colons are looked for in each segment on its own. -/
theorem segmental_colonRule : Segmental colonRule :=
  ⟨fits_colonRule, stopsAt_colonRule isStop_slash, fun _ => rfl⟩

/-- Single braces are looked for in each segment on its own: a slash is not the brace that would
    keep one from beginning behind it. -/
theorem segmental_singleRule : Segmental singleRule := by
  refine ⟨fits_singleRule, stopsAt_singleRule isStop_slash, fun cs => ?_⟩
  cases cs with
  | nil => rfl
  | cons a cs =>
    have hslash : some '/' ≠ some opening := by decide
    have hnone : none ≠ some opening := by simp
    by_cases ha : a = opening
    · simp only [singleRule, if_pos (And.intro ha hslash), if_pos (And.intro ha hnone)]
    · rw [singleRule_of_ne _ _ _ ha, singleRule_of_ne _ _ _ ha]

/-- A segment behind a slash is rewritten as if it stood at the beginning. -/
theorem replaceFrom_slash {rule : Rule (List Char)} (h : Segmental rule) (s : List Char) :
    replaceFrom rule (some '/') s = replaceMatches rule s := by
  cases s with
  | nil => rfl
  | cons c s =>
    rw [Text.replaceMatches_eq, replaceFrom, replaceFrom, Text.scanFrom, Text.scanFrom, h.begins]

/-- **What a rule does to a path, it does to each segment.** A slash takes part in no match, so each
    segment is rewritten as if it stood behind a slash alone. -/
theorem replaceMatches_written {rule : Rule (List Char)} (h : Segmental rule)
    (segments : List (List Char)) :
    replaceMatches rule (written segments) = written (segments.map (replaceMatches rule)) := by
  have hall : ∀ (segments : List (List Char)) (s : List Char),
      replaceFrom rule (some '/') (s ++ joined segments)
        = replaceMatches rule s ++ joined (segments.map (replaceMatches rule)) := by
    intro segments
    induction segments with
    | nil =>
      intro s
      rw [joined_nil, List.append_nil, List.map_nil, joined_nil, List.append_nil]
      exact replaceFrom_slash h s
    | cons t segments ih =>
      intro s
      rw [joined_cons, Text.replaceFrom_append h.fits h.stops, replaceFrom_slash h, ih]
      rfl
  cases segments with
  | nil => exact Text.replaceFrom_cons_of_none (h.stops.here none [])
  | cons s segments =>
    have hfirst := Text.replaceFrom_cons_of_none (h.stops.here none (s ++ joined segments))
    rw [hall] at hfirst
    exact hfirst

/-! ## Whole segments

A path is displayed with every placeholder in single braces; from there it is written in the
notation of a format.  Each of these is done to the segments one by one (`displayChars_eq`,
`writtenChars_eq`), so it is enough to know what becomes of a segment. -/

/-- How a segment is displayed. -/
def displaySegment (s : List Char) : List Char :=
  replaceMatches (replacing colonRule inBraces) (replaceMatches (replacing doubleRule inBraces) s)

/-- How a segment is written. -/
def writeSegment (write : List Char → List Char) (s : List Char) : List Char :=
  replaceMatches (replacing singleRule write) (displaySegment s)

/-- **A path is displayed segment by segment.** -/
theorem displayChars_eq (cs : List Char) :
    displayChars cs = written ((segmentChars cs).map displaySegment) := by
  rw [displayChars, normalChars_eq, replaceMatches_written (segmental_replacing segmental_doubleRule _),
    replaceMatches_written (segmental_replacing segmental_colonRule _), List.map_map]
  rfl

/-- **A path is written segment by segment**, whatever the notation. -/
theorem writtenChars_eq (write : List Char → List Char) (cs : List Char) :
    writtenChars write cs = written ((segmentChars cs).map (writeSegment write)) := by
  rw [writtenChars, displayChars_eq,
    replaceMatches_written (segmental_replacing segmental_singleRule _), List.map_map]
  rfl

/-- No placeholder is found in the text. -/
structure NoPlaceholder (s : List Char) : Prop where
  double : findMatches doubleRule s = []
  colon : findMatches colonRule s = []
  single : findMatches singleRule s = []

/-- A segment is a placeholder, in one of the three notations, or there is none in it. -/
inductive WholeSegment : List Char → Prop
  | text {s} (h : NoPlaceholder s) : WholeSegment s
  | colon {name} (h : IsName name) : WholeSegment (behindColon name)
  | single {name} (h : IsName name) : WholeSegment (inBraces name)
  | double {name} (h : IsName name) : WholeSegment (inDoubleBraces name)

/-- Rewriting looks for the same matches as finding them does; it only puts something in their
    place. -/
theorem scanFrom_replacing (rule : Rule (List Char)) (write : List Char → List Char) (skip : Nat)
    (before : Option Char) (cs : List Char) : Text.scanFrom (replacing rule write) skip before cs
      = (Text.scanFrom rule skip before cs).map (Sum.map id write) := by
  induction cs generalizing skip before with
  | nil => cases skip <;> rfl
  | cons c cs ih =>
    cases skip with
    | succ skip => exact ih skip (some c)
    | zero =>
      rw [Text.scanFrom, Text.scanFrom, replacing]
      cases rule before (c :: cs) with
      | none => exact congrArg (Sum.inl c :: ·) (ih 0 (some c))
      | some found => exact congrArg (Sum.inr (write found.2) :: ·) (ih (found.1 - 1) (some c))

/-- Where nothing is found, nothing is replaced. -/
theorem replaceMatches_of_not_found {rule : Rule (List Char)} {cs : List Char}
    (h : findMatches rule cs = []) (write : List Char → List Char) :
    replaceMatches (replacing rule write) cs = cs := by
  refine Text.replaceMatches_of_findMatches ?_
  rw [Text.findMatches_eq, scanFrom_replacing, List.filterMap_map]
  rw [Text.findMatches_eq, List.filterMap_eq_nil_iff] at h
  refine List.filterMap_eq_nil_iff.mpr fun piece hpiece => ?_
  have hnone := h piece hpiece
  cases piece with
  | inl c => rfl
  | inr value => exact absurd hnone (by simp [Text.foundPiece?])

section

variable {name : List Char} (h : IsName name)
include h

/-- What is no character of a name does not stand in one. -/
theorem not_mem_name {c : Char} (hc : isNameChar c = false) : c ∉ name := by
  intro hmem
  exact absurd ((h.chars c hmem).symm.trans hc) (by decide)

/-- A placeholder in braces has no character in it but those of its name and its braces. -/
theorem not_mem_inBraces {c : Char} (hc : IsStop c ∨ c = ':') : c ∉ inBraces name := by
  have hfacts : isNameChar c = false ∧ c ≠ opening ∧ c ≠ closing := by
    rcases hc with hc | rfl
    · exact ⟨hc.no_name, hc.no_opening, hc.no_closing⟩
    · exact ⟨by decide, by decide, by decide⟩
  obtain ⟨hname, hopening, hclosing⟩ := hfacts
  intro hmem
  rcases List.mem_append.mp hmem with hmem | hmem
  · rcases List.mem_cons.mp hmem with heq | hmem
    · exact hopening heq
    · exact not_mem_name h hname hmem
  · exact hclosing (List.mem_singleton.mp hmem)

/-- No name begins with a brace. -/
theorem doubleRule_inBraces (before : Option Char) : doubleRule before (inBraces name) = none := by
  obtain ⟨c, tail, rfl⟩ := List.exists_cons_of_ne_nil h.ne_nil
  refine if_neg fun hopen => ?_
  have hc : isNameChar c = true := h.chars c (List.mem_cons_self ..)
  rw [hopen.2] at hc
  exact absurd hc (by decide)

/-- A placeholder that is in braces already is displayed as it is: neither of the other rules finds
    anything in it. -/
theorem displaySegment_inBraces : displaySegment (inBraces name) = inBraces name := by
  have hdouble : replaceMatches (replacing doubleRule inBraces) (inBraces name) = inBraces name := by
    have hfirst : replacing doubleRule inBraces none (opening :: (name ++ [closing])) = none :=
      congrArg (Option.map _) (doubleRule_inBraces h none)
    have hopening : opening ∉ name ++ [closing] := by
      intro hmem
      rcases List.mem_append.mp hmem with hmem | hmem
      · exact not_mem_name h (by decide) hmem
      · exact absurd (List.mem_singleton.mp hmem) (by decide)
    have hrest : Text.replaceFrom (replacing doubleRule inBraces) (some opening) (name ++ [closing])
        = name ++ [closing] :=
      Text.replaceFrom_of_not_mem (some opening)
        (fun before c rest hc => congrArg (Option.map _) (doubleRule_of_ne before c rest hc)) hopening
    refine (Text.replaceFrom_cons_of_none hfirst).trans ?_
    rw [hrest]
    rfl
  rw [displaySegment, hdouble]
  exact Text.replaceFrom_of_not_mem none
    (fun before c rest hc => congrArg (Option.map _) (colonRule_of_ne before c rest hc))
    (not_mem_inBraces h (.inr rfl))

/-- There is no brace in a placeholder behind a colon. -/
theorem opening_not_mem_behindColon : opening ∉ behindColon name := by
  intro hmem
  rcases List.mem_cons.mp hmem with heq | hmem
  · exact absurd heq (by decide)
  · exact not_mem_name h (by decide) hmem

/-- A placeholder behind a colon is displayed in braces, -/
theorem displaySegment_behindColon : displaySegment (behindColon name) = inBraces name := by
  have hopening := opening_not_mem_behindColon h
  have hdouble : replaceMatches (replacing doubleRule inBraces) (behindColon name)
      = behindColon name := Text.replaceFrom_of_not_mem none
    (fun before c rest hc => congrArg (Option.map _) (doubleRule_of_ne before c rest hc)) hopening
  have hcolon : replacing colonRule inBraces none (behindColon name)
      = some ((behindColon name).length, inBraces name) := by
    show ((nameAt? name).map _).map _ = _
    rw [nameAt?_of_isName h]
    rfl
  rw [displaySegment, hdouble]
  exact Text.replaceFrom_of_whole (List.cons_ne_nil _ _) hcolon

/-- A placeholder in double braces is displayed in single ones. -/
theorem displaySegment_inDoubleBraces : displaySegment (inDoubleBraces name) = inBraces name := by
  have hfound : doubleRule none (opening :: opening :: (name ++ [closing, closing]))
      = some (name.length + 4, name) := by
    simp only [doubleRule, nameAt?_name_append h (show isNameChar closing = false by decide)]
    rfl
  have hdouble : replacing doubleRule inBraces none (inDoubleBraces name)
      = some ((inDoubleBraces name).length, inBraces name) := by
    have hlength : (inDoubleBraces name).length = name.length + 4 := by simp [inDoubleBraces]
    rw [hlength]
    exact congrArg (Option.map _) hfound
  have hwhole : replaceMatches (replacing doubleRule inBraces) (inDoubleBraces name) = inBraces name :=
    Text.replaceFrom_of_whole (List.cons_ne_nil _ _) hdouble
  rw [displaySegment, hwhole]
  exact Text.replaceFrom_of_not_mem none
    (fun before c rest hc => congrArg (Option.map _) (colonRule_of_ne before c rest hc))
    (not_mem_inBraces h (.inr rfl))

/-- The name between braces is found and written. -/
theorem replaceMatches_inBraces (write : List Char → List Char) :
    replaceMatches (replacing singleRule write) (inBraces name) = write name := by
  have hfound : singleRule none (opening :: (name ++ [closing])) = some (name.length + 2, name) := by
    simp only [singleRule, nameAt?_name_append h (show isNameChar closing = false by decide)]
    rfl
  have hsingle : replacing singleRule write none (inBraces name)
      = some ((inBraces name).length, write name) := by
    have hlength : (inBraces name).length = name.length + 2 := by simp [inBraces]
    rw [hlength]
    exact congrArg (Option.map _) hfound
  exact Text.replaceFrom_of_whole (List.cons_ne_nil _ _) hsingle

end

/-! ## Notations

What holds of the three notations alike is said for `IsNotation`, and proved by cases only here. -/

/-- The three notations of a placeholder. -/
inductive IsNotation : (List Char → List Char) → Prop
  | colon : IsNotation behindColon
  | single : IsNotation inBraces
  | double : IsNotation inDoubleBraces

/-- Whatever the notation, a placeholder is displayed in braces. -/
theorem displaySegment_notation {write : List Char → List Char} (hwrite : IsNotation write)
    {name : List Char} (h : IsName name) : displaySegment (write name) = inBraces name := by
  cases hwrite with
  | colon => exact displaySegment_behindColon h
  | single => exact displaySegment_inBraces h
  | double => exact displaySegment_inDoubleBraces h

/-- A whole segment is a text without placeholder, which stays as it is, or a placeholder, which is
    written anew. -/
theorem WholeSegment.cases_written {s : List Char} (h : WholeSegment s) :
    (NoPlaceholder s ∧ displaySegment s = s ∧ ∀ write, writeSegment write s = s) ∨
    ∃ name, IsName name ∧ (∀ c ∈ name, c ∈ s) ∧ displaySegment s = inBraces name ∧
      ∀ write, writeSegment write s = write name := by
  have hplaceholder : ∀ {write₀ : List Char → List Char} {name : List Char}, IsNotation write₀ →
      IsName name → (∀ c ∈ name, c ∈ write₀ name) → ∃ name', IsName name' ∧
        (∀ c ∈ name', c ∈ write₀ name) ∧ displaySegment (write₀ name) = inBraces name' ∧
        ∀ write, writeSegment write (write₀ name) = write name' := by
    intro write₀ name hwrite hname hmem
    have hdisplay := displaySegment_notation hwrite hname
    refine ⟨name, hname, hmem, hdisplay, fun write => ?_⟩
    rw [writeSegment, hdisplay, replaceMatches_inBraces hname]
  cases h with
  | text h =>
    have hdisplay : displaySegment s = s := by
      rw [displaySegment, replaceMatches_of_not_found h.double, replaceMatches_of_not_found h.colon]
    refine .inl ⟨h, hdisplay, fun write => ?_⟩
    rw [writeSegment, hdisplay, replaceMatches_of_not_found h.single]
  | colon hname => exact .inr (hplaceholder .colon hname fun c hc => List.mem_cons_of_mem _ hc)
  | single hname =>
    exact .inr (hplaceholder .single hname fun c hc =>
      List.mem_append_left _ (List.mem_cons_of_mem _ hc))
  | double hname =>
    exact .inr (hplaceholder .double hname fun c hc =>
      List.mem_append_left _ (List.mem_cons_of_mem _ (List.mem_cons_of_mem _ hc)))

/-- **A whole segment is displayed the same** in whichever notation it was written. -/
theorem displaySegment_writeSegment {s : List Char} (h : WholeSegment s)
    {write : List Char → List Char} (hwrite : IsNotation write) :
    displaySegment (writeSegment write s) = displaySegment s := by
  rcases h.cases_written with ⟨-, hdisplay, hsame⟩ | ⟨name, hname, -, hdisplay, hwritten⟩
  · rw [hsame]
  · rw [hwritten, hdisplay, displaySegment_notation hwrite hname]

/-! ## Clean paths

The paths that a claim about written URLs is about.  A question mark or a number sign would end the
path of a URL early, and white space would be trimmed; a placeholder that is a part of a segment may
not be found again. -/

/-- A path whose placeholders are whole segments, with no query, no fragment and no white space. -/
structure CleanPath (path : String) : Prop where
  whole : ∀ s ∈ segmentChars path.toList, WholeSegment s
  no_query : '?' ∉ path.toList
  no_fragment : '#' ∉ path.toList
  no_blank : ∀ c ∈ path.toList, Text.isBlank c = false

/-- What stands in a written placeholder. -/
theorem mem_of_mem_writtenName {write : List Char → List Char} (hwrite : IsNotation write)
    {name : List Char} {c : Char} (hc : c ∈ write name) :
    c ∈ name ∨ c = ':' ∨ c = opening ∨ c = closing := by
  cases hwrite with
  | colon =>
    rcases List.mem_cons.mp hc with rfl | hc
    · exact .inr (.inl rfl)
    · exact .inl hc
  | single =>
    simp only [inBraces, List.mem_append, List.mem_cons, List.not_mem_nil, or_false] at hc
    tauto
  | double =>
    simp only [inDoubleBraces, List.mem_append, List.mem_cons, List.not_mem_nil, or_false] at hc
    tauto

section

variable {write : List Char → List Char} (hwrite : IsNotation write)
include hwrite

/-- Writing a segment adds nothing but what marks a placeholder. -/
theorem mem_of_mem_writeSegment {s : List Char} (h : WholeSegment s) {c : Char}
    (hc : c ∈ writeSegment write s) : c ∈ s ∨ c = ':' ∨ c = opening ∨ c = closing := by
  rcases h.cases_written with ⟨-, -, hsame⟩ | ⟨name, -, hmem, -, hwritten⟩
  · rw [hsame] at hc
    exact .inl hc
  · rw [hwritten] at hc
    exact (mem_of_mem_writtenName hwrite hc).imp_left (hmem c)

/-- A segment that is written is a segment again: it is not empty and has no slash. -/
theorem isSegment_writeSegment {s : List Char} (h : WholeSegment s) (hs : IsSegment s) :
    IsSegment (writeSegment write s) := by
  refine ⟨?_, fun hslash => ?_⟩
  · rcases h.cases_written with ⟨-, -, hsame⟩ | ⟨name, -, -, -, hwritten⟩
    · rw [hsame]
      exact hs.ne_nil
    · rw [hwritten]
      cases hwrite <;> exact List.cons_ne_nil _ _
  · rcases mem_of_mem_writeSegment hwrite h hslash with hmem | heq | heq | heq
    · exact hs.no_slash hmem
    · exact absurd heq (by decide)
    · exact absurd heq (by decide)
    · exact absurd heq (by decide)

variable {path : String} (h : CleanPath path)
include h

/-- So the segments of the written path are segments. -/
theorem isSegment_of_mem_written {t : List Char}
    (ht : t ∈ (segmentChars path.toList).map (writeSegment write)) : IsSegment t := by
  obtain ⟨s, hs, rfl⟩ := List.mem_map.mp ht
  exact isSegment_writeSegment hwrite (h.whole s hs) (isSegment_of_mem hs)

/-- What stands in a written segment stands in the path, or marks a placeholder. -/
theorem mem_of_mem_written {t : List Char}
    (ht : t ∈ (segmentChars path.toList).map (writeSegment write)) {c : Char} (hc : c ∈ t) :
    c ∈ path.toList ∨ c = ':' ∨ c = opening ∨ c = closing := by
  obtain ⟨s, hs, rfl⟩ := List.mem_map.mp ht
  exact (mem_of_mem_writeSegment hwrite (h.whole s hs) hc).imp_left (mem_of_mem_segmentChars hs)

/-- A character that is not in the path, and marks no placeholder, is not in the written path
    either. -/
theorem not_mem_writtenChars {c : Char} (hc : c ∉ path.toList) (hstop : IsStop c) (hslash : c ≠ '/') :
    c ∉ writtenChars write path.toList := by
  rw [writtenChars_eq]
  intro hmem
  cases hsegments : (segmentChars path.toList).map (writeSegment write) with
  | nil =>
    rw [hsegments] at hmem
    exact hslash (List.mem_singleton.mp hmem)
  | cons t rest =>
    rw [hsegments, written_of_ne_nil (List.cons_ne_nil _ _), ← hsegments] at hmem
    obtain ⟨s, hs, hcs⟩ := List.mem_flatMap.mp hmem
    rcases List.mem_cons.mp hcs with heq | hcs
    · exact hslash heq
    · rcases mem_of_mem_written hwrite h hs hcs with hmem | heq | heq | heq
      · exact hc hmem
      · exact hstop.no_colon heq
      · exact hstop.no_opening heq
      · exact hstop.no_closing heq

/-- **A clean path is displayed the same** in whichever notation it was written. -/
theorem displayChars_writtenChars :
    displayChars (writtenChars write path.toList) = displayChars path.toList := by
  have hblank : ∀ t ∈ (segmentChars path.toList).map (writeSegment write), ∀ c ∈ t,
      Text.isBlank c = false := by
    intro t ht c hc
    rcases mem_of_mem_written hwrite h ht hc with hmem | rfl | rfl | rfl
    · exact h.no_blank c hmem
    · decide
    · decide
    · decide
  have hsegment : ∀ t ∈ (segmentChars path.toList).map (writeSegment write), IsSegment t :=
    fun t ht => isSegment_of_mem_written hwrite h ht
  rw [writtenChars_eq, displayChars_eq, segmentChars_written hsegment hblank, List.map_map,
    displayChars_eq path.toList]
  refine congrArg written (List.map_congr_left fun s hs => ?_)
  exact displaySegment_writeSegment (h.whole s hs) hwrite

end

end RouteAtlas.Route
