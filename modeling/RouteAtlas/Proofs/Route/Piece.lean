/-
  Paths made of pieces.

  ==== Problem ====

  A segment need not be a placeholder or free of them: it may be a row of literal texts and
  placeholders, each in a spelling of its own, one right behind the other.  The path is rewritten by
  one rule after the other, each of which reads the outcome of those before it, and a rule reads
  names as far as they go and looks at what stands around a brace.

  ==== Program ====

  1. **Spellings** - the three notations, each with the rule that finds it (`Spelling`).

  2. **Pieces** - a text or a placeholder.  A row of them is `Legible` when texts hold no mark of a
     placeholder and none goes on with a name that a placeholder in front of it would take in.

  3. **Scanning** - the rule of a spelling finds the placeholders spelled that way, and reports all
     else character by character (`scanFrom_charsOf`).

  ==== The crux ====

  No rule finds anything in what another rule finds, and what it finds itself does not depend on
  the pieces around.  The induction is on the row of pieces, and carries that the character in
  front is no opening brace: every piece ends with a character that is none.
-/
import RouteAtlas.Proofs.Route.Placeholder

namespace RouteAtlas.Route

open Text (Rule isNameChar scanFrom scanFrom_match scanFrom_plain scanFrom_cons_of_none lastBefore
  lastBefore_cons)

/-! ## Spellings

A spelling stands for two things at once: how a placeholder is written, and the rule that looks for
placeholders written so. -/

/-- The ways to spell a placeholder. -/
inductive Spelling where
  | colon
  | single
  | double
  deriving DecidableEq, Repr

namespace Spelling

/-- The placeholder of a name. -/
def write : Spelling → List Char → List Char
  | .colon => behindColon
  | .single => inBraces
  | .double => inDoubleBraces

/-- Finds placeholders of this spelling. -/
def rule : Spelling → Rule (List Char)
  | .colon => colonRule
  | .single => singleRule
  | .double => doubleRule

/-- A spelling writes in one of the three notations. -/
theorem isNotation (s : Spelling) : IsNotation s.write := by
  cases s with
  | colon => exact .colon
  | single => exact .single
  | double => exact .double

theorem write_ne_nil (s : Spelling) (name : List Char) : s.write name ≠ [] := by
  cases s <;> exact List.cons_ne_nil _ _

/-- A placeholder begins with a colon or a brace. -/
theorem head?_write (s : Spelling) (name rest : List Char) :
    (s.write name ++ rest).head? = some ':' ∨ (s.write name ++ rest).head? = some opening := by
  cases s with
  | colon => exact .inl rfl
  | single => exact .inr rfl
  | double => exact .inr rfl

/-- A placeholder does not end with an opening brace. -/
theorem lastBefore_write (s : Spelling) {name : List Char} (h : IsName name) (before : Option Char) :
    lastBefore before (s.write name) ≠ some opening := by
  have hbraces : ∀ front : List Char, lastBefore before (front ++ [closing]) ≠ some opening := by
    intro front
    rw [lastBefore, List.getLast?_append]
    exact fun heq => absurd (Option.some.inj heq) (by decide)
  cases s with
  | single => exact hbraces (opening :: name)
  | double =>
    have hsplit : inDoubleBraces name = opening :: opening :: (name ++ [closing]) ++ [closing] := by
      simp [inDoubleBraces]
    rw [Spelling.write, hsplit]
    exact hbraces (opening :: opening :: (name ++ [closing]))
  | colon =>
    show lastBefore before (':' :: name) ≠ some opening
    rw [lastBefore, List.getLast?_cons_of_ne_nil h.ne_nil, List.getLast?_eq_some_getLast h.ne_nil]
    intro heq
    have hmem : opening ∈ name := Option.some.inj heq ▸ List.getLast_mem h.ne_nil
    exact not_mem_name h (by decide) hmem

end Spelling

/-! ## Finding a placeholder

The rule of a spelling finds what was written in it, name and length, if what follows does not go on
with the name. -/

/-- A name is read as far as it goes. -/
theorem nameAt?_name {name rest : List Char} (h : IsName name)
    (hrest : ∀ c ∈ rest.head?, isNameChar c = false) : nameAt? (name ++ rest) = some (name, rest) := by
  cases rest with
  | nil => rw [List.append_nil, nameAt?_of_isName h]
  | cons c rest => exact nameAt?_name_append h (hrest c rfl) rest

/-- **A placeholder is found by the rule of its spelling**, if no brace stands around it and its name
    does not go on. -/
theorem rule_write {s : Spelling} {name : List Char} (h : IsName name) {before : Option Char}
    (hbefore : before ≠ some opening) {rest : List Char}
    (hname : ∀ c ∈ rest.head?, isNameChar c = false) (hclosing : rest.head? ≠ some closing) :
    s.rule before (s.write name ++ rest) = some ((s.write name).length, name) := by
  have hstop : isNameChar closing = false := by decide
  cases s with
  | colon =>
    show (nameAt? (name ++ rest)).map _ = _
    rw [nameAt?_name h hname]
    rfl
  | single =>
    have hwritten : inBraces name ++ rest = opening :: (name ++ closing :: rest) := by
      simp [inBraces]
    have hlength : (inBraces name).length = name.length + 2 := by simp [inBraces]
    show singleRule before (inBraces name ++ rest) = some ((inBraces name).length, name)
    rw [hwritten, hlength, singleRule, if_pos ⟨rfl, hbefore⟩, nameAt?_name_append h hstop]
    exact if_pos ⟨rfl, hclosing⟩
  | double =>
    have hwritten : inDoubleBraces name ++ rest
        = opening :: opening :: (name ++ closing :: closing :: rest) := by simp [inDoubleBraces]
    have hlength : (inDoubleBraces name).length = name.length + 4 := by simp [inDoubleBraces]
    show doubleRule before (inDoubleBraces name ++ rest) = some ((inDoubleBraces name).length, name)
    rw [hwritten, hlength, doubleRule, if_pos ⟨rfl, rfl⟩, nameAt?_name_append h hstop]
    exact if_pos ⟨rfl, rfl⟩

/-! ## Passing over a placeholder

A rule goes over the placeholders of other spellings character by character.  The two rules for
braces are alike in this, but for the placeholder in double braces: the rule for single ones might
begin at the second brace, and must not. -/

/-- Every match of the rule begins with an opening brace. -/
def BeginsInBrace {α : Type} (rule : Rule α) : Prop :=
  ∀ before c rest, c ≠ opening → rule before (c :: rest) = none

/-- What is in double braces begins with a brace. -/
theorem beginsInBrace_doubleRule : BeginsInBrace doubleRule := doubleRule_of_ne

/-- What is in single braces begins with a brace. -/
theorem beginsInBrace_singleRule : BeginsInBrace singleRule := singleRule_of_ne

section

variable {α : Type} {rule : Rule α} (hrule : BeginsInBrace rule) {name : List Char} (h : IsName name)
  (before : Option Char) (rest : List Char)
include hrule h

/-- Behind a colon there is no brace, so neither of these rules finds anything there. -/
theorem scanFrom_behindColon : scanFrom rule 0 before (behindColon name ++ rest)
    = (behindColon name).map .inl ++ scanFrom rule 0 (lastBefore before (behindColon name)) rest := by
  refine scanFrom_plain (fun c hc before rest => hrule before c rest ?_) before rest
  rintro rfl
  exact opening_not_mem_behindColon h hc

/-- Behind its opening braces, a placeholder has none. -/
theorem scanFrom_name_append {close : List Char} (hclose : ∀ c ∈ close, c = closing) :
    scanFrom rule 0 before (name ++ close ++ rest)
      = (name ++ close).map .inl ++ scanFrom rule 0 (lastBefore before (name ++ close)) rest := by
  refine scanFrom_plain (fun c hc before rest => hrule before c rest ?_) before rest
  rintro rfl
  rcases List.mem_append.mp hc with hc | hc
  · exact not_mem_name h (by decide) hc
  · exact absurd (hclose _ hc) (by decide)

/-- In single braces a rule can begin at the one opening brace only; if it does not, it finds
    nothing. -/
theorem scanFrom_inBraces
    (hnone : rule before (opening :: (name ++ [closing] ++ rest)) = none) :
    scanFrom rule 0 before (inBraces name ++ rest)
      = (inBraces name).map .inl ++ scanFrom rule 0 (lastBefore before (inBraces name)) rest := by
  show scanFrom rule 0 before (opening :: (name ++ [closing] ++ rest)) = _
  have hclose : ∀ c ∈ [closing], c = closing := fun c hc => List.mem_singleton.mp hc
  rw [scanFrom_cons_of_none hnone, scanFrom_name_append hrule h _ rest hclose]
  show _ = _ ++ scanFrom rule 0 (lastBefore before (opening :: (name ++ [closing]))) rest
  rw [lastBefore_cons]
  rfl

/-- In double braces a rule can begin at either of the two opening braces. -/
theorem scanFrom_inDoubleBraces
    (hfirst : rule before (opening :: opening :: (name ++ [closing, closing] ++ rest)) = none)
    (hsecond : rule (some opening) (opening :: (name ++ [closing, closing] ++ rest)) = none) :
    scanFrom rule 0 before (inDoubleBraces name ++ rest)
      = (inDoubleBraces name).map .inl
        ++ scanFrom rule 0 (lastBefore before (inDoubleBraces name)) rest := by
  show scanFrom rule 0 before (opening :: opening :: (name ++ [closing, closing] ++ rest)) = _
  have hclose : ∀ c ∈ [closing, closing], c = closing := by simp
  rw [scanFrom_cons_of_none hfirst, scanFrom_cons_of_none hsecond,
    scanFrom_name_append hrule h _ rest hclose]
  show _ = _ ++ scanFrom rule 0
    (lastBefore before (opening :: opening :: (name ++ [closing, closing]))) rest
  rw [lastBefore_cons, lastBefore_cons]
  rfl

end

/-- No name begins with an opening brace. -/
theorem nameAt?_opening (rest : List Char) : nameAt? (opening :: rest) = none := rfl

/-- A name begins with a character of its own, which is no brace. -/
theorem exists_cons_of_isName {name : List Char} (h : IsName name) :
    ∃ c tail, name = c :: tail ∧ c ≠ opening := by
  obtain ⟨c, tail, rfl⟩ := List.exists_cons_of_ne_nil h.ne_nil
  refine ⟨c, tail, rfl, ?_⟩
  rintro rfl
  exact not_mem_name h (by decide) (List.mem_cons_self ..)

/-- **A placeholder of another spelling is passed over**: the rule finds nothing in it.  The six
    pairs of different spellings come down to this: a colon is in no notation with braces, and
    double braces are told from single ones by the brace next to them. -/
theorem scanFrom_write {s t : Spelling} (hne : t ≠ s) {name : List Char} (h : IsName name)
    (before : Option Char) (rest : List Char) :
    scanFrom s.rule 0 before (t.write name ++ rest)
      = (t.write name).map .inl ++ scanFrom s.rule 0 (lastBefore before (t.write name)) rest := by
  cases s with
  | colon =>
    -- the notations in braces have no colon
    have hcolon : ∀ c ∈ t.write name, c ≠ ':' := by
      rintro c hc rfl
      cases t with
      | colon => exact hne rfl
      | single => exact not_mem_inBraces h (.inr rfl) hc
      | double =>
        simp only [Spelling.write, inDoubleBraces, List.cons_append, List.mem_cons,
          List.mem_append, List.not_mem_nil, or_false] at hc
        rcases hc with heq | heq | hmem | heq | heq
        · exact absurd heq (by decide)
        · exact absurd heq (by decide)
        · exact not_mem_name h (by decide) hmem
        · exact absurd heq (by decide)
        · exact absurd heq (by decide)
    exact scanFrom_plain (fun c hc before rest => colonRule_of_ne before c rest (hcolon c hc)) before
      rest
  | single =>
    cases t with
    | colon => exact scanFrom_behindColon beginsInBrace_singleRule h before rest
    | single => exact absurd rfl hne
    | double =>
      refine scanFrom_inDoubleBraces beginsInBrace_singleRule h before rest ?_ ?_
      · -- a second brace is no name
        rw [singleRule, nameAt?_opening]
        exact ite_self none
      · rw [singleRule, if_neg]
        exact fun hc => hc.2 rfl
  | double =>
    cases t with
    | colon => exact scanFrom_behindColon beginsInBrace_doubleRule h before rest
    | single =>
      obtain ⟨c, tail, rfl, hc⟩ := exists_cons_of_isName h
      exact scanFrom_inBraces beginsInBrace_doubleRule h before rest (if_neg fun heq => hc heq.2)
    | double => exact absurd rfl hne

/-! ## Pieces

A row of pieces is what a reader sees in a path.  It is given by its characters only if these can be
read in one way: `Legible` asks that no text has a mark of a placeholder in it, and that no
placeholder takes in the beginning of what follows. -/

/-- A part of a path: a literal text, or a placeholder. -/
inductive Piece where
  | text (cs : List Char)
  | hole (spelling : Spelling) (name : List Char)
  deriving DecidableEq, Repr

namespace Piece

/-- What the piece looks like. -/
def chars : Piece → List Char
  | .text cs => cs
  | .hole spelling name => spelling.write name

/-- The piece with its placeholder in another spelling. -/
def respell (f : Spelling → Spelling) : Piece → Piece
  | .text cs => .text cs
  | .hole spelling name => .hole (f spelling) name

/-- The name of a placeholder. -/
def name? : Piece → Option (List Char)
  | .text _ => none
  | .hole _ name => some name

/-- What the rule of a spelling reports of the piece. -/
def scanned (s : Spelling) : Piece → List (Char ⊕ List Char)
  | .text cs => cs.map .inl
  | .hole spelling name => if spelling = s then [.inr name] else (spelling.write name).map .inl

end Piece

/-- What a row of pieces looks like. -/
def charsOf (ps : List Piece) : List Char := ps.flatMap Piece.chars

/-- The names of the placeholders, in order. -/
def namesOf (ps : List Piece) : List (List Char) := ps.filterMap Piece.name?

/-- No pieces look like nothing. -/
@[simp] theorem charsOf_nil : charsOf [] = [] := rfl

/-- A text looks like itself. -/
@[simp] theorem charsOf_text (cs : List Char) (ps : List Piece) :
    charsOf (.text cs :: ps) = cs ++ charsOf ps := rfl

/-- A placeholder looks like its name, written in its spelling. -/
@[simp] theorem charsOf_hole (spelling : Spelling) (name : List Char) (ps : List Piece) :
    charsOf (.hole spelling name :: ps) = spelling.write name ++ charsOf ps := rfl

/-- What is said of the characters of a text is decided on these, and not on all characters. -/
instance (priority := high) instDecidableForallMemText (p : Char → Prop) [DecidablePred p]
    (cs : List Char) : Decidable (∀ c ∈ cs, p c) :=
  List.decidableBAll p cs

/-- A character that marks no placeholder. -/
structure IsPlain (c : Char) : Prop where
  no_colon : c ≠ ':'
  no_opening : c ≠ opening
  no_closing : c ≠ closing

instance (c : Char) : Decidable (IsPlain c) :=
  decidable_of_iff (c ≠ ':' ∧ c ≠ opening ∧ c ≠ closing)
    ⟨fun h => ⟨h.1, h.2.1, h.2.2⟩, fun h => ⟨h.no_colon, h.no_opening, h.no_closing⟩⟩

instance (name : List Char) : Decidable (IsName name) :=
  decidable_of_iff (name ≠ [] ∧ ∀ c ∈ name, isNameChar c = true)
    ⟨fun h => ⟨h.1, h.2⟩, fun h => ⟨h.ne_nil, h.chars⟩⟩

/-- No name goes on with these pieces: the first text that has characters begins with none of a
    name's, or a placeholder stands in front of it. -/
def EndsName : List Piece → Prop
  | [] => True
  | .text [] :: ps => EndsName ps
  | .text (c :: _) :: _ => isNameChar c = false
  | .hole _ _ :: _ => True

/-- The pieces can be told from their characters: texts have no mark of a placeholder, and none goes
    on with the name of the placeholder before it. -/
def Legible : List Piece → Prop
  | [] => True
  | .text cs :: ps => (∀ c ∈ cs, IsPlain c) ∧ Legible ps
  | .hole _ name :: ps => IsName name ∧ EndsName ps ∧ Legible ps

instance instDecidableEndsName : (ps : List Piece) → Decidable (EndsName ps)
  | [] => .isTrue trivial
  | .text [] :: ps => instDecidableEndsName ps
  | .text (c :: _) :: _ => inferInstanceAs (Decidable (isNameChar c = false))
  | .hole _ _ :: _ => .isTrue trivial

instance instDecidableLegible : (ps : List Piece) → Decidable (Legible ps)
  | [] => .isTrue trivial
  | .text cs :: ps =>
    have := instDecidableLegible ps
    inferInstanceAs (Decidable ((∀ c ∈ cs, IsPlain c) ∧ Legible ps))
  | .hole _ name :: ps =>
    have := instDecidableLegible ps
    inferInstanceAs (Decidable (IsName name ∧ EndsName ps ∧ Legible ps))

/-- What follows a placeholder does not go on with its name. -/
theorem head?_of_endsName {ps : List Piece} (h : EndsName ps) :
    ∀ c ∈ (charsOf ps).head?, isNameChar c = false := by
  fun_induction EndsName ps with
  | case1 => exact fun c hc => absurd hc (by simp)
  | case2 ps ih => exact ih h
  | case3 c cs ps =>
    intro d hd
    obtain rfl : c = d := Option.some.inj hd
    exact h
  | case4 spelling name ps =>
    intro c hc
    rw [charsOf_hole] at hc
    rcases spelling.head?_write name (charsOf ps) with heq | heq
    · rw [heq] at hc
      exact Option.some.inj hc ▸ by decide
    · rw [heq] at hc
      exact Option.some.inj hc ▸ by decide

/-- No row of pieces begins with a closing brace. -/
theorem head?_ne_closing {ps : List Piece} (h : Legible ps) :
    (charsOf ps).head? ≠ some closing := by
  induction ps with
  | nil => exact fun heq => absurd heq (by simp)
  | cons p ps ih =>
    cases p with
    | text cs =>
      cases cs with
      | nil => exact ih h.2
      | cons c cs => exact fun heq => (h.1 c (List.mem_cons_self ..)).no_closing (Option.some.inj heq)
    | hole spelling name =>
      rw [charsOf_hole]
      rcases spelling.head?_write name (charsOf ps) with heq | heq
      · rw [heq]
        decide
      · rw [heq]
        decide

/-! ## The same pieces in other spellings

Spellings may be changed at will: neither what is legible nor the names depend on them. -/

section

variable {f : Spelling → Spelling} {ps : List Piece}

/-- Whether a name goes on with the pieces does not depend on their spelling. -/
theorem endsName_respell : EndsName (ps.map (Piece.respell f)) ↔ EndsName ps := by
  fun_induction EndsName ps with
  | case1 => exact Iff.rfl
  | case2 ps ih => exact ih
  | case3 c cs ps => exact Iff.rfl
  | case4 spelling name ps => exact Iff.rfl

theorem legible_respell : Legible (ps.map (Piece.respell f)) ↔ Legible ps := by
  induction ps with
  | nil => exact Iff.rfl
  | cons p ps ih =>
    cases p with
    | text cs => exact and_congr_right fun _ => ih
    | hole spelling name => exact and_congr_right fun _ => and_congr endsName_respell ih

/-- The names are the same in every spelling. -/
theorem namesOf_respell : namesOf (ps.map (Piece.respell f)) = namesOf ps := by
  rw [namesOf, namesOf, List.filterMap_map]
  refine congrArg (List.filterMap · ps) (funext fun p => ?_)
  cases p <;> rfl

end

/-- Respelling twice is respelling once. -/
theorem map_respell_respell (f g : Spelling → Spelling) (ps : List Piece) :
    (ps.map (Piece.respell g)).map (Piece.respell f) = ps.map (Piece.respell (f ∘ g)) := by
  rw [List.map_map]
  refine congrArg (List.map · ps) (funext fun p => ?_)
  cases p <;> rfl

/-! ## Scanning pieces

A text of pieces is scanned piece by piece, as each piece ends where the rules stop. -/

/-- **The rule of a spelling finds its placeholders and nothing else.** What comes before a piece
    decides whether a brace is the second of two, so it is carried along the induction. -/
theorem scanFrom_charsOf (s : Spelling) {ps : List Piece} (h : Legible ps) {before : Option Char}
    (hbefore : before ≠ some opening) :
    scanFrom s.rule 0 before (charsOf ps) = ps.flatMap (Piece.scanned s) := by
  induction ps generalizing before with
  | nil => rfl
  | cons p ps ih =>
    cases p with
    | text cs =>
      obtain ⟨hplain, hps⟩ := h
      have hnone : ∀ c ∈ cs, ∀ before rest, s.rule before (c :: rest) = none := by
        intro c hc before rest
        cases s with
        | colon => exact colonRule_of_ne before c rest (hplain c hc).no_colon
        | single => exact singleRule_of_ne before c rest (hplain c hc).no_opening
        | double => exact doubleRule_of_ne before c rest (hplain c hc).no_opening
      -- a text has no opening brace, so none stands before the next piece; an empty one leaves the
      -- character before it where it is
      have hlast : lastBefore before cs ≠ some opening := by
        rw [lastBefore]
        cases hend : cs.getLast? with
        | none => exact hbefore
        | some c =>
          have hmem := List.mem_of_getLast? hend
          exact fun heq => (hplain c hmem).no_opening (Option.some.inj heq)
      rw [charsOf_text, scanFrom_plain hnone, ih hps hlast]
      rfl
    | hole spelling name =>
      obtain ⟨hname, hends, hps⟩ := h
      have hlast := spelling.lastBefore_write hname before
      rw [charsOf_hole, List.flatMap_cons, Piece.scanned]
      by_cases heq : spelling = s
      · subst heq
        have hfound : spelling.rule before (spelling.write name ++ charsOf ps) = _ :=
          rule_write hname hbefore (head?_of_endsName hends) (head?_ne_closing hps)
        rw [if_pos rfl, scanFrom_match (spelling.write_ne_nil name) hfound, ih hps hlast]
        rfl
      · rw [if_neg heq, scanFrom_write heq hname, ih hps hlast]

/-- The spelling `s` replaced by `t`. -/
def Spelling.swap (s t : Spelling) (spelling : Spelling) : Spelling :=
  if spelling = s then t else spelling

/-- **Rewriting one spelling by another** respells the placeholders that have it, and nothing else.

    Scanning with the rule that writes is scanning with the one that finds, and writing what was
    found. -/
theorem replaceMatches_charsOf (s t : Spelling) {ps : List Piece} (h : Legible ps) :
    Text.replaceMatches (replacing s.rule t.write) (charsOf ps)
      = charsOf (ps.map (Piece.respell (s.swap t))) := by
  have hbefore : (none : Option Char) ≠ some opening := by simp
  rw [Text.replaceMatches_eq, Text.replaceFrom, scanFrom_replacing, scanFrom_charsOf s h hbefore,
    List.flatMap_map, charsOf, List.flatMap_map, List.flatMap_assoc]
  refine congrArg (List.flatMap · ps) (funext fun p => ?_)
  have hchars : ∀ cs : List Char, (cs.map .inl).flatMap
      (fun found : Char ⊕ List Char => Text.writtenPiece (Sum.map id t.write found)) = cs := by
    intro cs
    rw [List.flatMap_map]
    exact List.flatMap_singleton' cs
  cases p with
  | text cs => exact hchars cs
  | hole spelling name =>
    rw [Piece.scanned, Piece.respell, Spelling.swap]
    by_cases heq : spelling = s
    · rw [if_pos heq, if_pos heq]
      exact List.append_nil _
    · rw [if_neg heq, if_neg heq]
      exact hchars _

/-- **The names that are found** are those of the placeholders, where all are spelled one way. -/
theorem findMatches_charsOf (s : Spelling) {ps : List Piece} (h : Legible ps) :
    Text.findMatches s.rule (charsOf (ps.map (Piece.respell fun _ => s))) = namesOf ps := by
  have hbefore : (none : Option Char) ≠ some opening := by simp
  rw [Text.findMatches_eq, scanFrom_charsOf s (legible_respell.mpr h) hbefore, List.flatMap_map,
    List.filterMap_flatMap, namesOf, List.filterMap_eq_flatMap_toList]
  refine congrArg (List.flatMap · ps) (funext fun p => ?_)
  cases p with
  | text cs =>
    show (cs.map .inl).filterMap Text.foundPiece? = []
    rw [List.filterMap_map]
    exact List.filterMap_eq_nil_iff.mpr fun c _ => rfl
  | hole spelling name =>
    show (if s = s then [.inr name] else (s.write name).map .inl).filterMap Text.foundPiece? = [name]
    rw [if_pos rfl]
    rfl

end RouteAtlas.Route
