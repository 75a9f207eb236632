/-
  Patterns with alternatives in braces stand for the texts of their grammar.

  ==== Problem ====

  A pattern is a text, two patterns one behind the other, or a group of alternatives, each of which is
  a pattern again.  It denotes a list of texts.  The program knows nothing of this grammar: it takes
  the first group without braces inside, puts each of its alternatives in its place, and goes on with
  the whole texts that come out.

  ==== Program ====

  1. **Specification** - `Braced` is the grammar, `chars` how a pattern is written, and `language` what
     it denotes: a product over concatenation, alternatives one after the other.

  2. **Any text** - the recursion needs no more levels than there are opening braces, and ends with
     texts in which no brace is closed behind one that is opened (`expands_expandChars`,
     `Expands.unclosed`).

  3. **One step** - a pattern is a text without braces, or a group of such texts in a context, and what
     stands before this group closes no brace (`plain_or_filled`); so it is the group that the program
     takes (`firstGroup?_fill`).

  4. **All steps** - filling the place of the group by its alternatives, one after the other, does not
     change what is denoted (`mem_language_fill`).  When no group is in another one it does not even
     change the order (`language_fill`).

  ==== The crux ====

  The program goes on with the whole text and not with a part of the pattern, so the induction is on
  the opening braces that are left, and what it says of a pattern it says of it in any context.  Inside
  of a group an alternative may come out more than once, as the ones beside it are written out with
  each alternative of the inner group; therefore in general it is the set of texts that is the same.
-/
import Mathlib.Data.List.Basic
import Mathlib.Data.List.TakeWhile
import RouteAtlas.Project.Pattern
import RouteAtlas.Proofs.Text.Split

namespace RouteAtlas

namespace Project

/-! ## The grammar

A pattern with braces, as a tree; how it is written, and which texts it denotes. -/

/-- A pattern with alternatives in braces. -/
inductive Braced where
  | text (cs : List Char)
  | seq (first second : Braced)
  | group (alternatives : List Braced)

namespace Braced

mutual
/-- How a pattern is written. -/
def chars : Braced → List Char
  | .text cs => cs
  | .seq p q => p.chars ++ q.chars
  | .group ps => '\x7b' :: (charsAmong ps ++ ['\x7d'])
/-- Alternatives with commas between. -/
def charsAmong : List Braced → List Char
  | [] => []
  | [p] => p.chars
  | p :: q :: ps => p.chars ++ ',' :: charsAmong (q :: ps)
end

mutual
/-- The texts that a pattern denotes, in the order of its alternatives. -/
def language : Braced → List (List Char)
  | .text cs => [cs]
  | .seq p q => p.language.flatMap fun s => q.language.map (s ++ ·)
  | .group ps => languageAmong ps
/-- The texts that alternatives denote, one after the other. -/
def languageAmong : List Braced → List (List Char)
  | [] => []
  | p :: ps => p.language ++ languageAmong ps
end

/-- The pattern can be read: texts have no brace, within a group they have no comma, and a group has an
    alternative, if only the empty text. -/
inductive Legible : (inside : Bool) → Braced → Prop
  | text {inside cs} (h : ∀ c ∈ cs, noBrace c = true ∧ (inside = true → c ≠ ',')) :
    Legible inside (.text cs)
  | seq {inside p q} (hp : Legible inside p) (hq : Legible inside q) : Legible inside (.seq p q)
  | group {inside ps} (hne : ps ≠ []) (h : ∀ p ∈ ps, Legible true p) : Legible inside (.group ps)

/-- At most `n` groups are one inside the other. -/
inductive Nested : (n : Nat) → Braced → Prop
  | text {n cs} : Nested n (.text cs)
  | seq {n p q} (hp : Nested n p) (hq : Nested n q) : Nested n (.seq p q)
  | group {n ps} (h : ∀ p ∈ ps, Nested n p) : Nested (n + 1) (.group ps)

/-- Alternatives are written with commas between. -/
theorem charsAmong_eq (ps : List Braced) : charsAmong ps = [','].intercalate (ps.map chars) := by
  induction ps with
  | nil => rfl
  | cons p ps ih =>
    cases ps with
    | nil => simp [charsAmong, List.intercalate]
    | cons q ps =>
      rw [charsAmong, ih, List.map_cons, List.map_cons, List.map_cons, List.intercalate_cons_cons]
      simp

/-- Alternatives denote what each of them does. -/
theorem languageAmong_eq (ps : List Braced) : languageAmong ps = ps.flatMap language := by
  induction ps with
  | nil => rfl
  | cons p ps ih => rw [languageAmong, ih, List.flatMap_cons]

/-- A group is written in braces. -/
theorem chars_group (ps : List Braced) :
    (group ps).chars = '\x7b' :: ([','].intercalate (ps.map chars) ++ ['\x7d']) := by
  rw [chars, charsAmong_eq]

theorem language_group (ps : List Braced) : (group ps).language = ps.flatMap language := by
  rw [language, languageAmong_eq]

/-- What can be read in a group can be read outside. -/
theorem Legible.outside {p : Braced} (h : Legible true p) (inside : Bool) : Legible inside p := by
  generalize htrue : true = at_ at h
  induction h with
  | text h => exact .text fun c hc => ⟨(h c hc).1, fun _ => (h c hc).2 htrue.symm⟩
  | seq _ _ ihp ihq => exact .seq (ihp htrue) (ihq htrue)
  | group hne h => exact .group hne h

/-- More may be nested than is. -/
theorem Nested.mono {n : Nat} {p : Braced} (h : Nested 0 p) : Nested n p := by
  generalize hzero : 0 = depth at h
  induction h with
  | text => exact .text
  | seq _ _ ihp ihq => exact .seq (ihp hzero) (ihq hzero)
  | group => exact absurd hzero (Nat.succ_ne_zero _).symm

/-- Without a group, a pattern is one text. -/
theorem language_of_plain {p : Braced} (h : Nested 0 p) : p.language = [p.chars] := by
  generalize hzero : 0 = depth at h
  induction h with
  | text => rfl
  | seq _ _ ihp ihq => simp [language, chars, ihp hzero, ihq hzero]
  | group => exact absurd hzero (Nat.succ_ne_zero _).symm

/-- Without a group, a pattern has no braces, and within a group it has no commas. -/
theorem Legible.chars_of_plain {inside : Bool} {p : Braced} (h : Legible inside p)
    (hplain : Nested 0 p) : ∀ c ∈ p.chars, noBrace c = true ∧ (inside = true → c ≠ ',') := by
  induction h with
  | text h => exact h
  | seq _ _ ihp ihq =>
    cases hplain with
    | seq hp hq =>
      intro c hc
      exact (List.mem_append.mp hc).elim (ihp hp c) (ihq hq c)
  | group => nomatch hplain

end Braced

/-! ## Any text

The program takes any text, whether its braces match or not.  Every step removes an opening brace,
so the recursion ends. -/

/-- Behind no opening brace is a closing one. -/
def Unclosed (cs : List Char) : Prop := ∀ head tail, cs = head ++ '\x7b' :: tail → '\x7d' ∉ tail

/-- Where no group is found, there is none.  Behind an opening brace the next brace would have to be
    another opening one, and from there on the search did not find anything either. -/
theorem unclosed_of_firstGroup? {cs : List Char} (h : firstGroup? cs = none) : Unclosed cs := by
  induction cs with
  | nil => exact fun head tail heq => absurd heq (by simp)
  | cons c cs ih =>
    rw [firstGroup?] at h
    split at h
    · exact absurd h (by simp)
    · rename_i hopen
      have ih := ih (Option.map_eq_none_iff.mp h)
      intro head tail heq
      cases head with
      | cons d head => exact ih head tail (List.cons.inj heq).2
      | nil =>
        obtain ⟨rfl, rfl⟩ := List.cons.inj heq
        intro hclose
        rw [if_pos rfl] at hopen
        -- the next brace is another opening one, behind which nothing is closed
        have hsplit := List.takeWhile_append_dropWhile (p := noBrace) (l := cs)
        cases hrest : cs.dropWhile noBrace with
        | nil =>
          have hbrace := List.dropWhile_eq_nil_iff.mp hrest _ hclose
          exact absurd hbrace (by decide)
        | cons d rest =>
          have hd : noBrace d = false := by
            have hhead := List.head?_dropWhile_not noBrace cs
            rw [hrest] at hhead
            simpa using hhead
          rw [hrest] at hsplit hopen
          by_cases hdclose : d = '\x7d'
          · exact hopen rest (by rw [hdclose])
          · have hdopen : d = '\x7b' := by simpa [noBrace, hdclose] using hd
            rw [hdopen] at hsplit
            rw [← hsplit] at hclose
            rcases List.mem_append.mp hclose with hmem | hmem
            · exact absurd (List.mem_takeWhile_imp hmem) (by decide)
            · rcases List.mem_cons.mp hmem with heq | hmem
              · exact absurd heq (by decide)
              · exact ih _ _ hsplit.symm hmem

/-- A text without a group is left as it is. -/
theorem expandChars_of_none {cs : List Char} (h : firstGroup? cs = none) : expandChars cs = [cs] := by
  rw [expandChars]
  split
  · rfl
  · rename_i heq
    rw [h] at heq
    exact absurd heq (by simp)

/-- Every alternative of the first group is put in its place and written out. -/
theorem expandChars_of_some {cs head body tail : List Char}
    (h : firstGroup? cs = some (head, body, tail)) : expandChars cs
      = (Text.splitAt (· == ',') body).flatMap fun a => expandChars (head ++ a ++ tail) := by
  rw [expandChars]
  split
  · rename_i heq
    rw [h] at heq
    exact absurd heq (by simp)
  · rename_i head' body' tail' heq
    rw [h] at heq
    obtain ⟨rfl, rfl, rfl⟩ : head = head' ∧ body = body' ∧ tail = tail' := by simpa using heq
    simp

/-- The program's recursion on a text comes to an end within `n` levels, and gives these texts. -/
inductive Expands : (n : Nat) → (cs : List Char) → (written : List (List Char)) → Prop
  | done {n cs} (h : firstGroup? cs = none) : Expands n cs [cs]
  | step {n cs head body tail} (h : firstGroup? cs = some (head, body, tail))
    {written : List Char → List (List Char)}
    (each : ∀ a ∈ Text.splitAt (· == ',') body, Expands n (head ++ a ++ tail) (written a)) :
    Expands (n + 1) cs ((Text.splitAt (· == ',') body).flatMap written)

/-- **Writing out ends** after no more levels than there are opening braces.

    Each alternative has one opening brace less than the text, since the group is taken out and the
    alternative has none. -/
theorem expands_expandChars {n : Nat} {cs : List Char} (h : cs.count '\x7b' ≤ n) :
    Expands n cs (expandChars cs) := by
  induction n generalizing cs with
  | zero =>
    cases hgroup : firstGroup? cs with
    | none =>
      rw [expandChars_of_none hgroup]
      exact .done hgroup
    | some found =>
      obtain ⟨head, body, tail⟩ := found
      have hopen := (firstGroup?_eq_some hgroup).1
      rw [hopen] at h
      simp at h
  | succ n ih =>
    cases hgroup : firstGroup? cs with
    | none =>
      rw [expandChars_of_none hgroup]
      exact .done hgroup
    | some found =>
      obtain ⟨head, body, tail⟩ := found
      rw [expandChars_of_some hgroup]
      refine .step hgroup fun a ha => ih ?_
      have hless := count_alternative_lt hgroup ha
      omega

/-- What a recursion ends with has no group. -/
theorem Expands.unclosed {n : Nat} {cs : List Char} {written : List (List Char)}
    (h : Expands n cs written) : ∀ t ∈ written, Unclosed t := by
  induction h with
  | done h =>
    intro t ht
    obtain rfl := List.mem_singleton.mp ht
    exact unclosed_of_firstGroup? h
  | step _ _ ih =>
    intro t ht
    obtain ⟨a, ha, ht⟩ := List.mem_flatMap.mp ht
    exact ih a ha t ht

/-! ## The first group

The program looks for the first closing brace and goes back to the opening one before it: a group
with no group inside. -/

/-- Where no brace is closed before one is opened, the opening one is met first. -/
theorem exists_dropWhile_noBrace {head : List Char} (h : '\x7d' ∉ head) (rest : List Char) :
    ∃ after, (head ++ '\x7b' :: rest).dropWhile noBrace = '\x7b' :: after := by
  induction head with
  | nil => exact ⟨rest, rfl⟩
  | cons c head ih =>
    rw [List.mem_cons, not_or] at h
    by_cases hc : c = '\x7b'
    · subst hc
      exact ⟨head ++ '\x7b' :: rest, rfl⟩
    · have hplain : noBrace c = true := by simp [noBrace, hc, Ne.symm h.1]
      rw [List.cons_append, List.dropWhile_cons, if_pos hplain]
      exact ih h.2

/-- A group without braces inside is the first if no brace is closed before it.  An opening brace
    further to the left is followed by another one before anything is closed. -/
theorem firstGroup?_of_no_close {head body : List Char} (hhead : '\x7d' ∉ head)
    (hbody : ∀ c ∈ body, noBrace c = true) (tail : List Char) :
    firstGroup? (head ++ '\x7b' :: (body ++ '\x7d' :: tail)) = some (head, body, tail) := by
  have hclose : noBrace '\x7d' = false := by decide
  induction head with
  | nil =>
    rw [List.nil_append, firstGroup?, if_pos rfl, List.dropWhile_append_of_pos hbody,
      List.takeWhile_append_of_pos hbody, List.dropWhile_cons_of_neg (by simp [hclose]),
      List.takeWhile_cons_of_neg (by simp [hclose]), List.append_nil]
    rfl
  | cons c head ih =>
    rw [List.mem_cons, not_or] at hhead
    obtain ⟨after, hafter⟩ :=
      exists_dropWhile_noBrace hhead.2 (body ++ '\x7d' :: tail)
    rw [List.cons_append, firstGroup?, hafter, ih hhead.2]
    split
    · rename_i heq
      split at heq
      · exact absurd (List.cons.inj heq).1 (by decide)
      · exact absurd heq (by simp)
    · rfl

/-! ## Contexts

A pattern with a hole says where the group stands.  Putting an alternative in its place is filling
the hole, on the text as on the language. -/

/-- A pattern with a place left open. -/
inductive Context where
  | hole
  | left (c : Context) (second : Braced)
  | right (first : Braced) (c : Context)
  | among (before : List Braced) (c : Context) (after : List Braced)

namespace Context

open Braced (Legible Nested)

/-- The pattern with the place filled. -/
def fill : Context → Braced → Braced
  | hole, p => p
  | left c q, p => .seq (c.fill p) q
  | right q c, p => .seq q (c.fill p)
  | among before c after, p => .group (before ++ c.fill p :: after)

/-- What stands before the place. -/
def head : Context → List Char
  | hole => []
  | left c _ => c.head
  | right p c => p.chars ++ c.head
  | among before c _ => '\x7b' :: (before.flatMap (fun p => p.chars ++ [',']) ++ c.head)

/-- What stands behind the place. -/
def tail : Context → List Char
  | hole => []
  | left c q => c.tail ++ q.chars
  | right _ c => c.tail
  | among _ c after => c.tail ++ (after.flatMap (fun p => ',' :: p.chars) ++ ['\x7d'])

/-- No group stands before the place. -/
inductive Leftmost : Context → Prop
  | hole : Leftmost hole
  | left {c q} (h : Leftmost c) : Leftmost (left c q)
  | right {p c} (hp : Nested 0 p) (h : Leftmost c) : Leftmost (right p c)
  | among {before c after} (hbefore : ∀ p ∈ before, Nested 0 p) (h : Leftmost c) :
    Leftmost (among before c after)

/-- Texts with commas between, split at one of them.  Each text before the place is followed by a
    comma, and each text behind it is preceded by one. -/
theorem intercalate_around (before : List (List Char)) (s : List Char) (after : List (List Char)) :
    [','].intercalate (before ++ s :: after)
      = before.flatMap (· ++ [',']) ++ (s ++ after.flatMap (',' :: ·)) := by
  have hafter : ∀ s, [','].intercalate (s :: after) = s ++ after.flatMap (',' :: ·) := by
    induction after with
    | nil => simp [List.intercalate]
    | cons t after ih =>
      intro s
      rw [List.intercalate_cons_cons, ih t]
      simp
  induction before with
  | nil => exact hafter s
  | cons t before ih =>
    cases before with
    | nil =>
      rw [List.cons_append, List.nil_append, List.intercalate_cons_cons, hafter]
      simp
    | cons u before =>
      rw [List.cons_append, List.cons_append, List.intercalate_cons_cons, ← List.cons_append, ih]
      simp

/-- What fills the place stands between the rest of the text. -/
theorem chars_fill (c : Context) (p : Braced) : (c.fill p).chars = c.head ++ p.chars ++ c.tail := by
  induction c with
  | hole => simp [fill, head, tail]
  | left c q ih => simp [fill, head, tail, Braced.chars, ih]
  | right q c ih => simp [fill, head, tail, Braced.chars, ih]
  | among before c after ih =>
    rw [fill, Braced.chars_group, List.map_append, List.map_cons, intercalate_around, ih]
    simp [head, tail, List.flatMap_map]

/-- The group is the first of the text if no brace is closed before it. -/
theorem firstGroup?_fill {c : Context} (hhead : '\x7d' ∉ c.head) {ps : List Braced}
    (hps : ∀ p ∈ ps, Legible true p ∧ Nested 0 p) : firstGroup? (c.fill (.group ps)).chars
      = some (c.head, [','].intercalate (ps.map Braced.chars), c.tail) := by
  have hbody : ∀ x ∈ [','].intercalate (ps.map Braced.chars), noBrace x = true := by
    intro x hx
    rcases Text.mem_intercalate hx with rfl | ⟨s, hs, hxs⟩
    · decide
    · obtain ⟨p, hp, rfl⟩ := List.mem_map.mp hs
      exact ((hps p hp).1.chars_of_plain (hps p hp).2 x hxs).1
  rw [chars_fill, Braced.chars_group]
  simpa using firstGroup?_of_no_close hhead hbody c.tail

section

variable (c : Context) {ps : List Braced}

/-- **Alternatives distribute over what is around them.** The induction goes from the place
    outwards.  In a group the alternatives besides come with any of the choices, so there has to be
    one. -/
theorem mem_language_fill (hne : ps ≠ []) (s : List Char) :
    s ∈ (c.fill (.group ps)).language ↔ ∃ p ∈ ps, s ∈ (c.fill p).language := by
  induction c generalizing s with
  | hole =>
    rw [fill, Braced.language_group, List.mem_flatMap]
    rfl
  | left c q ih =>
    simp only [fill, Braced.language, List.mem_flatMap, ih]
    constructor
    · rintro ⟨a, ⟨p, hp, ha⟩, hs⟩
      exact ⟨p, hp, a, ha, hs⟩
    · rintro ⟨p, hp, a, ha, hs⟩
      exact ⟨a, ⟨p, hp, ha⟩, hs⟩
  | right q c ih =>
    simp only [fill, Braced.language, List.mem_flatMap, List.mem_map, ih]
    constructor
    · rintro ⟨a, ha, b, ⟨p, hp, hb⟩, hs⟩
      exact ⟨p, hp, a, ha, b, hb, hs⟩
    · rintro ⟨p, hp, a, ha, b, hb, hs⟩
      exact ⟨a, ha, b, ⟨p, hp, hb⟩, hs⟩
  | among before c after ih =>
    obtain ⟨first, hfirst⟩ := List.exists_mem_of_ne_nil ps hne
    simp only [fill, Braced.language_group, List.flatMap_append, List.flatMap_cons, List.mem_append,
      ih]
    constructor
    · -- what stands beside the place comes with each of the alternatives
      rintro (hs | ⟨p, hp, hs⟩ | hs)
      · exact ⟨first, hfirst, .inl hs⟩
      · exact ⟨p, hp, .inr (.inl hs)⟩
      · exact ⟨first, hfirst, .inr (.inr hs)⟩
    · rintro ⟨p, hp, hs | hs | hs⟩
      · exact .inl hs
      · exact .inr (.inl ⟨p, hp, hs⟩)
      · exact .inr (.inr hs)

/-- A pattern with a group in it is not without groups. -/
theorem not_plain_fill : ¬Nested 0 (c.fill (.group ps)) := by
  induction c with
  | hole => exact fun h => nomatch h
  | left c q ih => exact fun h => match h with | .seq hp _ => ih hp
  | right q c ih => exact fun h => match h with | .seq _ hq => ih hq
  | among before c after ih => exact fun h => nomatch h

variable {c}

/-- **Where no group is in another one, not even the order changes.** -/
theorem language_fill (hleft : c.Leftmost) (hflat : Nested 1 (c.fill (.group ps))) :
    (c.fill (.group ps)).language = ps.flatMap fun p => (c.fill p).language := by
  induction hleft with
  | hole => exact Braced.language_group ps
  | left _ ih =>
    cases hflat with
    | seq hp _ => simp only [fill, Braced.language, ih hp, List.flatMap_assoc]
  | right hplain _ ih =>
    cases hflat with
    | seq _ hq =>
      simp only [fill, Braced.language, Braced.language_of_plain hplain, ih hq,
        List.flatMap_singleton, List.map_flatMap]
  | @among before c after _ _ _ =>
    cases hflat with
    | group h => exact absurd (h (c.fill (.group ps)) (by simp)) (not_plain_fill c)

/-- An alternative in the place of its group adds no nesting. -/
theorem nested_fill {n : Nat} (h : Nested n (c.fill (.group ps))) {p : Braced} (hp : Nested 0 p) :
    Nested n (c.fill p) := by
  induction c generalizing n with
  | hole => exact hp.mono
  | left c q ih =>
    cases h with
    | seq hfirst hsecond => exact .seq (ih hfirst) hsecond
  | right q c ih =>
    cases h with
    | seq hfirst hsecond => exact .seq hfirst (ih hsecond)
  | among before c after ih =>
    cases h with
    | group h =>
      refine .group fun q hq => ?_
      rw [List.mem_append, List.mem_cons] at hq
      rcases hq with hq | rfl | hq
      · exact h q (by simp [hq])
      · exact ih (h _ (by simp))
      · exact h q (by simp [hq])

end

end Context

/-! ## One step

In a pattern that is no text the program finds a group whose alternatives are texts.  What it does
with it keeps the language. -/

open Braced (Legible Nested)

/-- The group of these alternatives, in this context, is the first one without a group in it. -/
structure IsFirst (inside : Bool) (c : Context) (ps : List Braced) : Prop where
  leftmost : c.Leftmost
  no_close : '\x7d' ∉ c.head
  some : ps ≠ []
  plain : ∀ p ∈ ps, Legible true p ∧ Nested 0 p
  legible : ∀ p, Legible true p → Legible inside (c.fill p)

/-- All elements of a list have a property, or there is a first one that has not. -/
theorem all_or_first {α : Type} (P : α → Prop) (l : List α) :
    (∀ x ∈ l, P x) ∨ ∃ before x after, l = before ++ x :: after ∧ (∀ y ∈ before, P y) ∧ ¬P x := by
  induction l with
  | nil => exact .inl fun x hx => absurd hx List.not_mem_nil
  | cons a l ih =>
    by_cases ha : P a
    · rcases ih with hall | ⟨before, x, after, rfl, hbefore, hx⟩
      · exact .inl (List.forall_mem_cons.mpr ⟨ha, hall⟩)
      · exact .inr ⟨a :: before, x, after, rfl, List.forall_mem_cons.mpr ⟨ha, hbefore⟩, hx⟩
    · exact .inr ⟨[], a, l, rfl, fun y hy => absurd hy List.not_mem_nil, ha⟩

/-- A text closes no brace. -/
theorem no_close_of_plain {inside : Bool} {p : Braced} (h : Legible inside p) (hplain : Nested 0 p) :
    '\x7d' ∉ p.chars :=
  fun hmem => absurd (h.chars_of_plain hplain _ hmem).1 (by decide)

namespace IsFirst

variable {inside : Bool} {c : Context} {ps : List Braced}

/-- A group of texts is its own first group. -/
theorem hole (hne : ps ≠ []) (hps : ∀ p ∈ ps, Legible true p) (hplain : ∀ p ∈ ps, Nested 0 p) :
    IsFirst inside .hole ps where
  leftmost := .hole
  no_close := List.not_mem_nil
  some := hne
  plain p hp := ⟨hps p hp, hplain p hp⟩
  legible _ hr := hr.outside inside

/-- What follows does not matter. -/
theorem left (h : IsFirst inside c ps) {q : Braced} (hq : Legible inside q) :
    IsFirst inside (.left c q) ps where
  leftmost := .left h.leftmost
  no_close := h.no_close
  some := h.some
  plain := h.plain
  legible r hr := .seq (h.legible r hr) hq

/-- A text may stand before it. -/
theorem right (h : IsFirst inside c ps) {p : Braced} (hp : Legible inside p) (hplain : Nested 0 p) :
    IsFirst inside (.right p c) ps where
  leftmost := .right hplain h.leftmost
  no_close := by
    intro hmem
    rcases List.mem_append.mp hmem with hmem | hmem
    · exact no_close_of_plain hp hplain hmem
    · exact h.no_close hmem
  some := h.some
  plain := h.plain
  legible r hr := .seq hp (h.legible r hr)

/-- It may stand in a group, behind alternatives that are texts.  What is written before it are the
    alternatives that are texts and the braces and commas around them, and nothing of that closes a
    group. -/
theorem among (h : IsFirst true c ps) {before after : List Braced}
    (hbefore : ∀ p ∈ before, Legible true p) (hplain : ∀ p ∈ before, Nested 0 p)
    (hafter : ∀ p ∈ after, Legible true p) : IsFirst inside (.among before c after) ps where
  leftmost := .among hplain h.leftmost
  no_close := by
    intro hmem
    rw [Context.head, List.mem_cons, List.mem_append, List.mem_flatMap] at hmem
    rcases hmem with heq | ⟨q, hq, hmem⟩ | hmem
    · exact absurd heq (by decide)
    · rcases List.mem_append.mp hmem with hmem | hmem
      · exact no_close_of_plain (hbefore q hq) (hplain q hq) hmem
      · exact absurd (List.mem_singleton.mp hmem) (by decide)
    · exact h.no_close hmem
  some := h.some
  plain := h.plain
  legible := by
    intro r hr
    refine .group (by simp) fun q hq => ?_
    rw [List.mem_append, List.mem_cons] at hq
    rcases hq with hq | rfl | hq
    · exact hbefore q hq
    · exact h.legible r hr
    · exact hafter q hq

end IsFirst

/-- **A pattern is a text, or its first group stands in a context.** -/
theorem plain_or_filled {inside : Bool} {p : Braced} (h : Legible inside p) :
    Nested 0 p ∨ ∃ c ps, p = c.fill (.group ps) ∧ IsFirst inside c ps := by
  induction h with
  | text => exact .inl .text
  | @seq inside p q hp hq ihp ihq =>
    rcases ihp with hplain | ⟨c, ps, rfl, hc⟩
    · rcases ihq with hplain' | ⟨c, ps, rfl, hc⟩
      · exact .inl (.seq hplain hplain')
      · exact .inr ⟨.right p c, ps, rfl, hc.right hp hplain⟩
    · exact .inr ⟨.left c q, ps, rfl, hc.left hq⟩
  | @group inside ps hne hps ih =>
    -- a group is the first one unless one of its alternatives has a group
    rcases all_or_first (Nested 0) ps with hplain | ⟨before, p, after, rfl, hbefore, hp⟩
    · exact .inr ⟨.hole, ps, rfl, .hole hne hps hplain⟩
    · obtain ⟨c, qs, rfl, hc⟩ := (ih p (by simp)).resolve_left hp
      refine .inr ⟨.among before c after, qs, rfl, hc.among ?_ hbefore ?_⟩
      · exact fun q hq => hps q (by simp [hq])
      · exact fun q hq => hps q (by simp [hq])

/-- The program puts the alternatives of the first group in its place, one after the other. -/
theorem IsFirst.expandChars_fill {inside : Bool} {c : Context} {ps : List Braced}
    (h : IsFirst inside c ps) : expandChars (c.fill (.group ps)).chars
      = ps.flatMap fun p => expandChars (c.fill p).chars := by
  have hcommas : ∀ s ∈ ps.map Braced.chars, ',' ∉ s := by
    intro s hs
    obtain ⟨p, hp, rfl⟩ := List.mem_map.mp hs
    exact fun hmem => ((h.plain p hp).1.chars_of_plain (h.plain p hp).2 _ hmem).2 rfl rfl
  have hsome : ps.map Braced.chars ≠ [] := fun hnil => h.some (List.map_eq_nil_iff.mp hnil)
  rw [expandChars_of_some (Context.firstGroup?_fill h.no_close h.plain),
    Text.splitAt_intercalate hsome hcommas, List.flatMap_map]
  simp only [Context.chars_fill]

/-- An alternative is shorter of the group's opening brace. -/
theorem IsFirst.count_lt {inside : Bool} {c : Context} {ps : List Braced} (h : IsFirst inside c ps)
    {p : Braced} (hp : p ∈ ps) :
    (c.fill p).chars.count '\x7b' < (c.fill (.group ps)).chars.count '\x7b' := by
  have hplain : p.chars.count '\x7b' = 0 := by
    refine List.count_eq_zero.mpr fun hmem => ?_
    exact absurd ((h.plain p hp).1.chars_of_plain (h.plain p hp).2 _ hmem).1 (by decide)
  rw [Context.chars_fill, Context.chars_fill, Braced.chars_group]
  simp only [List.count_append, List.count_cons_self, hplain]
  omega

/-- A pattern without a group is written out as it is. -/
theorem expandChars_of_plain {inside : Bool} {p : Braced} (h : Legible inside p)
    (hplain : Nested 0 p) : expandChars p.chars = [p.chars] := by
  refine expandChars_of_none (Option.eq_none_iff_forall_ne_some.mpr fun ⟨head, body, tail⟩ hgroup => ?_)
  have hopen : '\x7b' ∈ p.chars := by
    rw [(firstGroup?_eq_some hgroup).1]
    simp
  exact absurd (h.chars_of_plain hplain _ hopen).1 (by decide)

/-! ## All steps

By induction on the opening braces: what holds of a pattern if it holds of all that come from it in
one step. -/

/-- What is shown of patterns without groups, and of a pattern from all that come out of it by one
    step, holds of every pattern. -/
theorem step_induction {inside : Bool} {motive : Braced → Prop}
    (plain : ∀ p, Legible inside p → Nested 0 p → motive p)
    (step : ∀ c ps, IsFirst inside c ps → (∀ p ∈ ps, motive (c.fill p)) → motive (c.fill (.group ps)))
    {p : Braced} (h : Legible inside p) : motive p := by
  generalize hcount : p.chars.count '\x7b' = n
  induction n using Nat.strongRecOn generalizing p with
  | ind n ih =>
    rcases plain_or_filled h with hplain | ⟨c, ps, rfl, hfirst⟩
    · exact plain p h hplain
    · refine step c ps hfirst fun p hp => ?_
      have hless := hfirst.count_lt hp
      exact ih _ (hcount ▸ hless) (hfirst.legible p (hfirst.plain p hp).1) rfl

/-- **What a pattern is written out to is what it denotes.** -/
theorem mem_expandChars_iff {inside : Bool} {p : Braced} (h : Legible inside p) (s : List Char) :
    s ∈ expandChars p.chars ↔ s ∈ p.language := by
  refine step_induction (motive := fun p => s ∈ expandChars p.chars ↔ s ∈ p.language)
    (fun p h hplain => ?_) (fun c ps hfirst ih => ?_) h
  · rw [expandChars_of_plain h hplain, Braced.language_of_plain hplain]
  · rw [hfirst.expandChars_fill, List.mem_flatMap, Context.mem_language_fill c hfirst.some]
    exact exists_congr fun p => and_congr_right fun hp => ih p hp

/-- **With no group in another one, it is that in the same order.** -/
theorem expandChars_eq {inside : Bool} {p : Braced} (h : Legible inside p) :
    Nested 1 p → expandChars p.chars = p.language := by
  refine step_induction (motive := fun p => Nested 1 p → expandChars p.chars = p.language)
    (fun p h hplain _ => ?_) (fun c ps hfirst ih hflat => ?_) h
  · rw [expandChars_of_plain h hplain, Braced.language_of_plain hplain]
  · rw [hfirst.expandChars_fill, Context.language_fill hfirst.leftmost hflat]
    refine List.flatMap_congr fun p hp => ?_
    exact ih p hp (Context.nested_fill hflat (hfirst.plain p hp).2)

/-- The pattern as a text. -/
def Braced.written (p : Braced) : String := String.ofList p.chars

/-- The texts that a pattern denotes. -/
def Braced.texts (p : Braced) : List String := p.language.map String.ofList

/-- **Writing out braces computes the language of a pattern.**  On any text it ends, after no more
    levels than there are opening braces, and leaves no group.  From a pattern of the grammar come
    exactly the texts it denotes, and where no group is nested they come in the order of the pattern,
    each as often as it is denoted. -/
theorem expandBraces_language (text : String) {p : Braced} (h : Legible false p) :
    Expands (text.toList.count '\x7b') text.toList ((expandBraces text).map String.toList) ∧
    (∀ t ∈ expandBraces text, Unclosed t.toList) ∧
    (∀ t, t ∈ expandBraces p.written ↔ t ∈ p.texts) ∧
    (Nested 1 p → expandBraces p.written = p.texts) := by
  have hends := expands_expandChars (Nat.le_refl (text.toList.count '\x7b'))
  have hchars : (expandBraces text).map String.toList = expandChars text.toList :=
    Text.map_toList_ofList _
  have hwritten : p.written.toList = p.chars := String.toList_ofList
  refine ⟨hchars ▸ hends, fun t ht => ?_, fun t => ?_, fun hflat => ?_⟩
  · exact hends.unclosed t.toList (hchars ▸ List.mem_map_of_mem ht)
  · rw [expandBraces, Braced.texts, hwritten, List.mem_map, List.mem_map]
    simp only [mem_expandChars_iff h]
  · rw [expandBraces, Braced.texts, hwritten, expandChars_eq h hflat]

/-- Program files below two directories. -/
def flatPattern : Braced :=
  .seq (.group [.text ['a'], .text ['b']])
    (.seq (.text ['/', 'x', '.']) (.group [.text ['j', 's'], .text ['t', 's']]))

/-- A name that goes on in one of two ways, one of which may go on further. -/
def nestedPattern : Braced :=
  .group [.text ['a'], .seq (.text ['b']) (.group [.text ['c'], .group [.text [], .text ['d']]])]

/-- Groups in groups, groups side by side, and braces that do not match.  Only the flat pattern is
    said to come in order, as nested groups are written out from the inside. -/
theorem expandBraces_language_nested :
    Legible false nestedPattern ∧ Legible false flatPattern ∧ Nested 1 flatPattern ∧
    Expands 1 "\x7d\x7ba,\x7d\x7d".toList ((expandBraces "\x7d\x7ba,\x7d\x7d").map String.toList) ∧
    nestedPattern.written = "\x7ba,b\x7bc,\x7b,d\x7d\x7d\x7d" ∧
    (∀ t, t ∈ expandBraces nestedPattern.written ↔ t ∈ ["a", "bc", "b", "bd"]) ∧
    flatPattern.written = "\x7ba,b\x7d/x.\x7bjs,ts\x7d" ∧
    expandBraces flatPattern.written = ["a/x.js", "a/x.ts", "b/x.js", "b/x.ts"] := by
  have htext : ∀ {inside cs}, (∀ c ∈ cs, noBrace c = true ∧ (inside = true → c ≠ ',')) →
      Legible inside (.text cs) := .text
  have hpair : ∀ {inside : Bool} {p q : Braced}, Legible true p → Legible true q →
      Legible inside (.group [p, q]) := fun hp hq =>
    .group (List.cons_ne_nil _ _) (List.forall_mem_cons.mpr ⟨hp, List.forall_mem_singleton.mpr hq⟩)
  have hnested : Legible false nestedPattern :=
    hpair (htext (by decide)) (.seq (htext (by decide))
      (hpair (htext (by decide)) (hpair (htext (by decide)) (htext (by decide)))))
  have hlegible : Legible false flatPattern :=
    .seq (hpair (htext (by decide)) (htext (by decide)))
      (.seq (htext (by decide)) (hpair (htext (by decide)) (htext (by decide))))
  have hgroup : ∀ {cs ds : List Char}, Nested 1 (.group [.text cs, .text ds]) := fun {cs ds} =>
    .group (List.forall_mem_cons.mpr ⟨.text, List.forall_mem_singleton.mpr .text⟩)
  have hflat : Nested 1 flatPattern := .seq hgroup (.seq .text hgroup)
  obtain ⟨hends, -, hlanguage, -⟩ :=
    expandBraces_language "\x7d\x7ba,\x7d\x7d" hnested
  obtain ⟨-, -, -, horder⟩ := expandBraces_language "" hlegible
  exact ⟨hnested, hlegible, hflat, hends, by decide, hlanguage, by decide, horder hflat⟩

end Project

end RouteAtlas
