/-
  Base URLs in front of a path, and what stands behind it.

  ==== Problem ====

  The URL of a persisted request was written by a format, or by hand.  In front of its path there is
  nothing, a variable written one of several ways, or a scheme and a host; behind it a query or a
  fragment with anything in it.  The path has to come out as it was put in.

  ==== Program ====

  1. **Variables** - a reference is read with blanks around the name and `_.` in front of it or not
     (`afterBaseVariable?_isVariable`).

  2. **Placeholders** - a placeholder in double braces is read as a reference only if it is named like
     a base variable, in any case (`afterBaseVariable?_hole`); so nothing is dropped from a path whose
     placeholders are named otherwise (`replaceFrom_pieces`).

  3. **Three parts** - a slash, a question mark and a number sign end the reading of a reference, so
     what is dropped from a URL is dropped from its three parts one by one (`replaceMatches_apart`).
     What is left in front of the path is nothing or an origin, and goes; what is left behind it still
     begins with its mark, and goes too (`urlPathChars_base`).
-/
import RouteAtlas.Proofs.Persisted.Url
import RouteAtlas.Proofs.Route.Notation

namespace RouteAtlas.Persisted

open Text (replaceFrom replaceMatches isBlank isNameChar isNameCharAnyCase sameLetter)
open Route (opening closing Piece IsName charsOf)

/-! ## What stands in front of a path

A URL in a document begins with a reference to a variable, in whatever spelling, or with a scheme
and a host; its path follows. -/

/-- A reference to a base-URL variable: blanks around its name, and `_.` in front of it or not. -/
inductive IsVariable : List Char → Prop
  | mk {front mark name back : List Char} (hfront : ∀ c ∈ front, isBlank c = true)
      (hmark : mark = [] ∨ mark = ['_', '.']) (hname : IsBaseName name)
      (hback : ∀ c ∈ back, isBlank c = true) :
      IsVariable (opening :: opening :: (front ++ (mark ++ (name ++ (back ++ [closing, closing])))))

/-- A scheme and a host, or nothing. -/
inductive IsOrigin : List Char → Prop
  | nothing : IsOrigin []
  | host {first : Char} {scheme host : List Char} (hfirst : Text.isLatinAnyCase first = true)
      (hscheme : ∀ c ∈ scheme, isSchemeChar c = true)
      (hhost : ∀ c ∈ host, c ≠ '/' ∧ c ≠ '?' ∧ c ≠ '#') :
      IsOrigin (first :: (scheme ++ ':' :: '/' :: '/' :: host))

/-- What may stand in front of a path. -/
inductive IsBase : List Char → Prop
  | origin {base} (h : IsOrigin base) : IsBase base
  | variable {base} (h : IsVariable base) : IsBase base

/-! ## Reading a variable

The rule that drops references reads one character by character: braces, blanks, a mark, the name. -/

/-- White space is in no name, letters in any case included. -/
theorem isNameCharAnyCase_of_isBlank {c : Char} (h : isBlank c = true) :
    isNameCharAnyCase c = false := by
  cases hname : isNameCharAnyCase c with
  | false => rfl
  | true =>
    rw [isNameCharAnyCase, Bool.or_eq_true, Bool.or_eq_true, Bool.or_eq_true, Bool.or_eq_true] at hname
    have hblank : isBlank c = false := by
      rcases hname with (((hname | heq) | heq) | heq) | heq
      · exact Route.isBlank_of_isNameChar hname
      · exact beq_iff_eq.mp heq ▸ by decide
      · exact beq_iff_eq.mp heq ▸ by decide
      · exact beq_iff_eq.mp heq ▸ by decide
      · exact beq_iff_eq.mp heq ▸ by decide
    exact absurd (h.symm.trans hblank) (by decide)

/-- Blanks in front of something else are skipped. -/
theorem dropWhile_isBlank {front : List Char} (h : ∀ c ∈ front, isBlank c = true) {c : Char}
    (hc : isBlank c = false) (rest : List Char) :
    (front ++ c :: rest).dropWhile isBlank = c :: rest := by
  rw [Route.dropWhile_append_stop hc, List.dropWhile_eq_nil_iff.mpr h, List.nil_append]

/-- The name of a base variable is read with all that is in front of it. -/
theorem name_behind_mark {front mark name : List Char} (hfront : ∀ c ∈ front, isBlank c = true)
    (hmark : mark = [] ∨ mark = ['_', '.']) (hname : IsBaseName name) (rest : List Char) :
    (afterPair? '_' '.' ((front ++ (mark ++ (name ++ rest))).dropWhile isBlank)).getD
      ((front ++ (mark ++ (name ++ rest))).dropWhile isBlank) = name ++ rest := by
  have hfirst : ∃ tail, name = 'b' :: 'a' :: tail := by
    cases hname with
    | common => exact ⟨_, rfl⟩
    | service _ _ => exact ⟨_, rfl⟩
  obtain ⟨tail, rfl⟩ := hfirst
  rcases hmark with rfl | rfl
  · rw [List.nil_append, List.cons_append, dropWhile_isBlank hfront (by decide)]
    rfl
  · rw [List.cons_append, dropWhile_isBlank hfront (by decide)]
    rfl

/-- **A reference to a base-URL variable is read as one**, whichever way it is written.  The reading
    goes through the braces, the mark, the name and the braces behind it, and the name ends where a
    blank or a brace stands. -/
theorem afterBaseVariable?_isVariable {base : List Char} (h : IsVariable base) (rest : List Char) :
    afterBaseVariable? (base ++ rest) = some rest := by
  obtain @⟨front, mark, name, back, hfront, hmark, hname, hback⟩ := h
  -- behind the name there is a blank or a brace, and neither goes on with it
  have hend : ∃ stop tail, back ++ closing :: closing :: rest = stop :: tail ∧
      isNameCharAnyCase stop = false := by
    cases back with
    | nil => exact ⟨closing, closing :: rest, rfl, by decide⟩
    | cons c back =>
      exact ⟨c, _, rfl, isNameCharAnyCase_of_isBlank (hback c (List.mem_cons_self ..))⟩
  obtain ⟨stop, tail, htail, hstop⟩ := hend
  have hunder : stop ≠ '_' := by
    rintro rfl
    exact absurd hstop (by decide)
  obtain ⟨left, hword, hleft⟩ := afterServiceName_baseName hname hstop hunder tail
  have hopen : afterPair? opening opening
      (opening :: opening :: (front ++ (mark ++ (name ++ (back ++ [closing, closing])))) ++ rest)
      = some (front ++ (mark ++ (name ++ stop :: tail))) := by
    rw [← htail]
    simp [afterPair?]
  unfold afterBaseVariable?
  rw [hopen]
  show (Text.afterWord? "baseUrl".toList ((afterPair? '_' '.'
    ((front ++ (mark ++ (name ++ stop :: tail))).dropWhile isBlank)).getD
      ((front ++ (mark ++ (name ++ stop :: tail))).dropWhile isBlank)) >>= _) = _
  rw [name_behind_mark hfront hmark hname, hword]
  show afterPair? closing closing ((afterServiceName left).dropWhile isBlank) = some rest
  rw [hleft, ← htail, dropWhile_isBlank hback (by decide)]
  rfl

/-! ## Placeholders named otherwise

A placeholder in double braces looks like a reference.  It is read as one exactly if its name is
that of a base variable, in any case. -/

/-- A name of a base-URL variable in any case: the common one, or one with a suffix. -/
def NamesBase (name : List Char) : Prop :=
  name.map Char.toLower = "baseurl".toList ∨
    ("baseurl_".toList <+: name.map Char.toLower ∧ "baseurl_".length < name.length)

instance (name : List Char) : Decidable (NamesBase name) :=
  inferInstanceAs (Decidable (_ ∨ (_ ∧ _)))

/-- The class of an ASCII character is its small letter. -/
theorem letterClass_of_ascii {c : Char} (h : c.toNat < 128) : Text.letterClass c = c.toLower.toNat := by
  have hall : ∀ n, n < 128 → Text.letterClass (Char.ofNat n) = (Char.ofNat n).toLower.toNat := by
    decide
  have hc := hall c.toNat h
  rwa [Char.ofNat_toNat] at hc

/-- What is read as a word is the word in some case. -/
theorem afterWord?_eq_some {word : List Char} (hword : ∀ c ∈ word, c.toNat < 128) {cs left : List Char}
    (hcs : ∀ c ∈ cs, c.toNat < 128) (h : Text.afterWord? word cs = some left) :
    ∃ read, cs = read ++ left ∧ read.map Char.toLower = word.map Char.toLower := by
  induction word generalizing cs with
  | nil => exact ⟨[], Option.some.inj h, rfl⟩
  | cons w word ih =>
    cases cs with
    | nil => exact absurd h (by simp [Text.afterWord?])
    | cons c cs =>
      rw [Text.afterWord?] at h
      split at h
      · rename_i hsame
        obtain ⟨read, rfl, hread⟩ := ih (fun d hd => hword d (List.mem_cons_of_mem _ hd))
          (fun d hd => hcs d (List.mem_cons_of_mem _ hd)) h
        rw [sameLetter, beq_iff_eq, letterClass_of_ascii (hword w (List.mem_cons_self ..)),
          letterClass_of_ascii (hcs c (List.mem_cons_self ..))] at hsame
        refine ⟨c :: read, rfl, ?_⟩
        rw [List.map_cons, List.map_cons, hread, Char.toNat_inj.mp hsame]
      · exact absurd h (by simp)

section

variable {name : List Char} (h : IsName name)
include h

/-- No blank is in front of a name. -/
theorem dropWhile_isBlank_name (rest : List Char) :
    (name ++ rest).dropWhile isBlank = name ++ rest := by
  obtain ⟨c, tail, rfl⟩ := List.exists_cons_of_ne_nil h.ne_nil
  have hc := Route.isBlank_of_isNameChar (h.chars c (List.mem_cons_self ..))
  rw [List.cons_append, List.dropWhile_cons, hc]
  rfl

/-- No brace, either. -/
theorem afterPair?_closing_name (rest : List Char) : afterPair? closing closing (name ++ rest) = none := by
  obtain ⟨c, tail, rfl⟩ := List.exists_cons_of_ne_nil h.ne_nil
  have hc : (c == closing) = false := by
    refine beq_false_of_ne ?_
    rintro rfl
    exact absurd (h.chars closing (List.mem_cons_self ..)) (by decide)
  rw [List.cons_append]
  cases tail ++ rest with
  | nil => rfl
  | cons d rest =>
    rw [afterPair?, hc]
    rfl

/-- No name has a mark in front: it has no point. -/
theorem afterPair?_mark_name (rest : List Char) :
    afterPair? '_' '.' (name ++ closing :: rest) = none := by
  have hsecond : ∀ (c d : Char) (rest : List Char), (d == '.') = false →
      afterPair? '_' '.' (c :: d :: rest) = none := by
    intro c d rest hd
    rw [afterPair?, hd, Bool.and_false]
    rfl
  obtain ⟨c, tail, rfl⟩ := List.exists_cons_of_ne_nil h.ne_nil
  cases tail with
  | nil => exact hsecond c closing rest (by decide)
  | cons d tail =>
    refine hsecond c d _ (beq_false_of_ne ?_)
    rintro rfl
    exact Route.not_mem_name h (by decide) (List.mem_cons_of_mem _ (List.mem_cons_self ..))

/-- What is left of a name that begins like a base variable's, and is none.  Only an underscore with
    something behind it would be read on, and that would be the name of a service's variable. -/
theorem afterServiceName_of_not_namesBase (hother : ¬NamesBase name) {left : List Char}
    (hword : Text.afterWord? "baseUrl".toList name = some left) :
    afterServiceName left = left ∧ IsName left := by
  have hascii : ∀ c ∈ name, c.toNat < 128 := by
    intro c hc
    have := (Route.range_of_isNameChar (h.chars c hc)).2
    omega
  obtain ⟨read, rfl, hread⟩ := afterWord?_eq_some (by decide) hascii hword
  have hread : read.map Char.toLower = "baseurl".toList := hread.trans (by decide)
  have hlength : read.length = "baseurl".length := by
    rw [← List.length_map (f := Char.toLower), hread]
    rfl
  refine ⟨?_, ?_, fun c hc => h.chars c (List.mem_append_right _ hc)⟩
  · unfold afterServiceName
    split
    · rename_i c rest
      -- an underscore and something behind it would make it a base variable's name
      refine absurd (Or.inr ⟨⟨(c :: rest).map Char.toLower, ?_⟩, ?_⟩) hother
      · rw [List.map_append, hread]
        rfl
      · rw [List.length_append, hlength, List.length_cons, List.length_cons]
        show 8 < 7 + (rest.length + 1 + 1)
        omega
    · rfl
  · rintro rfl
    refine hother (Or.inl ?_)
    rw [List.append_nil, hread]

/-- **A placeholder named otherwise is no reference.** -/
theorem afterBaseVariable?_hole (hother : ¬NamesBase name) (rest : List Char) :
    afterBaseVariable? (opening :: opening :: (name ++ closing :: closing :: rest)) = none := by
  unfold afterBaseVariable?
  show (Text.afterWord? "baseUrl".toList ((afterPair? '_' '.'
    ((name ++ closing :: closing :: rest).dropWhile isBlank)).getD
      ((name ++ closing :: closing :: rest).dropWhile isBlank)) >>= _) = _
  have hstop : ∀ c ∈ "baseUrl".toList, sameLetter c closing = false := by decide
  rw [dropWhile_isBlank_name h, afterPair?_mark_name h, Option.getD_none, afterWord?_append hstop]
  cases hword : Text.afterWord? "baseUrl".toList name with
  | none => rfl
  | some left =>
    obtain ⟨hservice, hleft⟩ := afterServiceName_of_not_namesBase h hother hword
    show afterPair? closing closing
      ((afterServiceName (left ++ closing :: closing :: rest)).dropWhile isBlank) = none
    rw [afterServiceName_append (by decide) (by decide), hservice, dropWhile_isBlank_name hleft,
      afterPair?_closing_name hleft]

end

/-! ## Nothing is dropped from a path

So where no placeholder is named like a base variable, the rule leaves the path alone. -/

/-- The rule finds nothing but what begins in a brace. -/
theorem beginsInBrace_baseVariableRule : Route.BeginsInBrace baseVariableRule := baseVariableRule_of_ne

/-- A piece of a URL's path: a text without query and fragment marks, or a placeholder that is not
    named like a base variable. -/
def InUrl : Piece → Prop
  | .text cs => ∀ c ∈ cs, c ≠ '?' ∧ c ≠ '#'
  | .hole _ name => ¬NamesBase name

instance : (p : Piece) → Decidable (InUrl p)
  | .text cs => inferInstanceAs (Decidable (∀ c ∈ cs, c ≠ '?' ∧ c ≠ '#'))
  | .hole _ name => inferInstanceAs (Decidable ¬NamesBase name)

/-- The rule finds nothing where no reference is read. -/
theorem baseVariableRule_of_none {before : Option Char} {cs : List Char}
    (h : afterBaseVariable? cs = none) : baseVariableRule before cs = none := by
  rw [baseVariableRule, h]
  rfl

/-- A single opening brace begins no reference. -/
theorem afterBaseVariable?_name {name : List Char} (h : IsName name) (rest : List Char) :
    afterBaseVariable? (opening :: (name ++ rest)) = none := by
  obtain ⟨c, tail, rfl, hc⟩ := Route.exists_cons_of_isName h
  have hpair : afterPair? opening opening (opening :: (c :: tail ++ rest)) = none := by
    rw [List.cons_append, afterPair?, beq_false_of_ne hc, Bool.and_false]
    rfl
  unfold afterBaseVariable?
  rw [hpair]
  rfl

/-- **Nothing is dropped from the pieces of a URL's path.** No other text holds an opening brace,
    and a placeholder is not read as a base variable unless it is called like one, in any of the
    spellings. -/
theorem scanFrom_pieces {ps : List Piece} (h : Route.Legible ps) (hurl : ∀ p ∈ ps, InUrl p)
    (before : Option Char) :
    Text.scanFrom baseVariableRule 0 before (charsOf ps) = (charsOf ps).map .inl := by
  induction ps generalizing before with
  | nil => rfl
  | cons p ps ih =>
    have hrest : ∀ p ∈ ps, InUrl p := fun q hq => hurl q (List.mem_cons_of_mem _ hq)
    cases p with
    | text cs =>
      obtain ⟨hplain, hps⟩ := h
      rw [Route.charsOf_text, Text.scanFrom_plain (fun c hc before rest =>
        baseVariableRule_of_ne before c rest (hplain c hc).no_opening), ih hps hrest, List.map_append]
    | hole spelling name =>
      obtain ⟨hname, -, hps⟩ := h
      have hother : ¬NamesBase name := hurl _ (List.mem_cons_self ..)
      rw [Route.charsOf_hole, List.map_append,
        ← ih hps hrest (Text.lastBefore before (spelling.write name))]
      cases spelling with
      | colon => exact Route.scanFrom_behindColon beginsInBrace_baseVariableRule hname before _
      | single =>
        refine Route.scanFrom_inBraces beginsInBrace_baseVariableRule hname before _
          (baseVariableRule_of_none ?_)
        rw [List.append_assoc]
        exact afterBaseVariable?_name hname _
      | double =>
        refine Route.scanFrom_inDoubleBraces beginsInBrace_baseVariableRule hname before _
          (baseVariableRule_of_none ?_) (baseVariableRule_of_none ?_)
        · rw [List.append_assoc]
          exact afterBaseVariable?_hole hname hother _
        · rw [List.append_assoc]
          exact afterBaseVariable?_name hname _

/-- So the pieces stay as they are. -/
theorem replaceFrom_pieces {ps : List Piece} (h : Route.Legible ps) (hurl : ∀ p ∈ ps, InUrl p) :
    replaceMatches baseVariableRule (charsOf ps) = charsOf ps := by
  rw [Text.replaceMatches_eq, replaceFrom, scanFrom_pieces h hurl, List.flatMap_map]
  exact List.flatMap_singleton' _

/-- No query and no fragment begins in the pieces of a URL's path. -/
theorem chars_of_inUrl {ps : List Piece} (h : Route.Legible ps) (hurl : ∀ p ∈ ps, InUrl p) :
    ∀ c ∈ charsOf ps, c ≠ '?' ∧ c ≠ '#' := by
  intro c hc
  obtain ⟨p, hp, hc⟩ := List.mem_flatMap.mp hc
  cases p with
  | text cs => exact hurl _ hp c hc
  | hole spelling name =>
    have hname := Route.isName_of_mem h hp
    rcases Route.mem_of_mem_writtenName spelling.isNotation hc with hmem | rfl | rfl | rfl
    · have hall : ∀ d, isNameChar d = false → c ≠ d := by
        rintro d hd rfl
        exact Route.not_mem_name hname hd hmem
      exact ⟨hall '?' (by decide), hall '#' (by decide)⟩
    · decide
    · decide
    · decide

/-! ## The three parts of a URL

Base, path and suffix are apart: a reference in one of them does not reach into the next. -/

/-- A part that a reference in front of it does not reach into: it is empty, or begins with a mark
    that ends every reference. -/
def Apart (cs : List Char) : Prop := ∀ c ∈ cs.head?, EndsVariable c

theorem endsVariable_fragment : EndsVariable '#' := ⟨by decide, by decide, by decide, by decide⟩

/-- What is dropped in front of such a part and what is dropped in it do not depend on each other. -/
theorem replaceMatches_apart {cs rest : List Char} (h : Apart rest) :
    replaceMatches baseVariableRule (cs ++ rest)
      = replaceMatches baseVariableRule cs ++ replaceMatches baseVariableRule rest := by
  cases rest with
  | nil =>
    rw [List.append_nil]
    exact (List.append_nil _).symm
  | cons stop rest =>
    have hstops := stopsAt_baseVariableRule (h stop rfl)
    have hhere := Text.replaceFrom_cons_of_none (hstops.here none rest)
    rw [Text.replaceMatches_eq, Text.replaceFrom_append fits_baseVariableRule hstops,
      Text.replaceMatches_eq, Text.replaceMatches_eq, hhere]

/-- Such a part keeps its mark. -/
theorem head?_replaceMatches {cs : List Char} (h : Apart cs) :
    (replaceMatches baseVariableRule cs).head? = cs.head? := by
  cases cs with
  | nil => rfl
  | cons stop rest =>
    have hhere := Text.replaceFrom_cons_of_none ((stopsAt_baseVariableRule (h stop rfl)).here none rest)
    rw [Text.replaceMatches_eq, hhere]
    rfl

/-- Without an opening brace nothing is dropped. -/
theorem replaceMatches_plain_append {s : List Char} (h : opening ∉ s) (rest : List Char) :
    replaceMatches baseVariableRule (s ++ rest) = s ++ replaceMatches baseVariableRule rest := by
  have hplain : ∀ c ∈ s, ∀ before rest, baseVariableRule before (c :: rest) = none := by
    intro c hc before rest
    refine baseVariableRule_of_ne before c rest ?_
    rintro rfl
    exact h hc
  rw [← replaceFrom_baseVariableRule (Text.lastBefore none s) rest, Text.replaceMatches_eq,
    replaceFrom, Text.scanFrom_plain hplain, List.flatMap_append, List.flatMap_map, replaceFrom]
  exact congrArg (· ++ _) (List.flatMap_singleton' s)

/-- Dropping adds no character. -/
theorem mem_of_mem_replaceMatches {cs : List Char} {c : Char}
    (h : c ∈ replaceMatches baseVariableRule cs) : c ∈ cs := by
  refine Text.mem_of_mem_replaceFrom (fun {before cs length put} hfound => ?_) h
  obtain ⟨left, -, heq⟩ := Option.map_eq_some_iff.mp hfound
  exact (Prod.mk.inj heq).2.symm

/-- **What is left in front of a path** is an origin or nothing: a variable is dropped, and so are
    those in the name of a host. -/
theorem isOrigin_replaceMatches {base : List Char} (h : IsBase base) :
    IsOrigin (replaceMatches baseVariableRule base) := by
  cases h with
  | «variable» h =>
    have hmatch : baseVariableRule none base = some (base.length, []) := by
      have hafter := afterBaseVariable?_isVariable h []
      rw [List.append_nil] at hafter
      rw [baseVariableRule, hafter]
      rfl
    have hne : base ≠ [] := by
      cases h
      exact List.cons_ne_nil _ _
    -- a variable is dropped as a whole
    rw [Text.replaceMatches_eq, Text.replaceFrom_of_whole hne hmatch]
    exact .nothing
  | origin h =>
    cases h with
    | nothing => exact .nothing
    | @host first scheme host hfirst hscheme hhost =>
      have hplain : opening ∉ first :: (scheme ++ [':', '/', '/']) := by
        intro hmem
        rcases List.mem_cons.mp hmem with rfl | hmem
        · exact absurd hfirst (by decide)
        · rcases List.mem_append.mp hmem with hmem | hmem
          · exact absurd (hscheme _ hmem) (by decide)
          · exact absurd hmem (by decide)
      have hsplit : first :: (scheme ++ ':' :: '/' :: '/' :: host)
          = first :: (scheme ++ [':', '/', '/']) ++ host := by simp
      have hleft : first :: (scheme ++ [':', '/', '/']) ++ replaceMatches baseVariableRule host
          = first :: (scheme ++ ':' :: '/' :: '/' :: replaceMatches baseVariableRule host) := by simp
      rw [hsplit, replaceMatches_plain_append hplain, hleft]
      exact .host hfirst hscheme fun c hc => hhost c (mem_of_mem_replaceMatches hc)

/-- An origin has neither a query nor a fragment. -/
theorem chars_of_isOrigin {base : List Char} (h : IsOrigin base) : ∀ c ∈ base, c ≠ '?' ∧ c ≠ '#' := by
  cases h with
  | nothing => exact fun c hc => absurd hc (List.not_mem_nil)
  | @host first scheme host hfirst hscheme hhost =>
    intro c hc
    rcases List.mem_cons.mp hc with rfl | hc
    · exact ⟨fun heq => absurd (heq ▸ hfirst) (by decide), fun heq => absurd (heq ▸ hfirst) (by decide)⟩
    · rcases List.mem_append.mp hc with hc | hc
      · have hscheme := hscheme c hc
        exact ⟨fun heq => absurd (heq ▸ hscheme) (by decide),
          fun heq => absurd (heq ▸ hscheme) (by decide)⟩
      · rcases List.mem_cons.mp hc with rfl | hc
        · decide
        · rcases List.mem_cons.mp hc with rfl | hc
          · decide
          · rcases List.mem_cons.mp hc with rfl | hc
            · decide
            · exact (hhost c hc).2

/-- The origin in front of a path goes, and the path stays.  The path begins with a slash, and there
    is none in the host. -/
theorem withoutHost_origin {base path : List Char} (h : IsOrigin base)
    (hpath : ∀ c ∈ path.head?, c = '/') : withoutHost (base ++ path) = path := by
  cases h with
  | nothing =>
    cases path with
    | nil => rfl
    | cons c path =>
      obtain rfl := hpath c rfl
      rfl
  | @host first scheme host hfirst hscheme hhost =>
    have hcolon : isSchemeChar ':' = false := by decide
    have hsplit : first :: (scheme ++ ':' :: '/' :: '/' :: host) ++ path
        = first :: (scheme ++ ':' :: '/' :: '/' :: (host ++ path)) := by simp
    have hnoSlash : ∀ c ∈ host, (c != '/') = true := fun c hc => bne_iff_ne.mpr (hhost c hc).1
    have hslash : path.dropWhile (· != '/') = path := by
      cases path with
      | nil => rfl
      | cons c path =>
        obtain rfl := hpath c rfl
        rfl
    rw [hsplit, withoutHost, if_pos hfirst, Route.dropWhile_append_stop hcolon,
      List.dropWhile_eq_nil_iff.mpr hscheme]
    show (host ++ path).dropWhile (· != '/') = path
    rw [List.dropWhile_append_of_pos hnoSlash, hslash]

/-- **The path of a URL** is what stands between what may stand in front of it and the query or
    fragment behind it. -/
theorem urlPathChars_base {base suffix : List Char} {ps : List Piece} (hbase : IsBase base)
    (hlegible : Route.Legible ps) (hurl : ∀ p ∈ ps, InUrl p)
    (hrooted : ∀ c ∈ (charsOf ps).head?, c = '/') (hsuffix : ∀ c ∈ suffix.head?, c = '?' ∨ c = '#') :
    urlPathChars (base ++ (charsOf ps ++ suffix)) = charsOf ps := by
  have hbehind : Apart suffix := by
    intro c hc
    rcases hsuffix c hc with rfl | rfl
    · exact endsVariable_query
    · exact endsVariable_fragment
  have hpath : Apart (charsOf ps ++ suffix) := by
    cases hps : charsOf ps with
    | nil => exact hbehind
    | cons c cs =>
      intro d hd
      rw [hps] at hrooted
      obtain rfl : c = d := Option.some.inj hd
      exact hrooted c rfl ▸ endsVariable_slash
  have hdropped : replaceMatches baseVariableRule (base ++ (charsOf ps ++ suffix))
      = replaceMatches baseVariableRule base ++ charsOf ps
        ++ replaceMatches baseVariableRule suffix := by
    rw [replaceMatches_apart hpath, replaceMatches_apart hbehind, replaceFrom_pieces hlegible hurl,
      List.append_assoc]
  have horigin := isOrigin_replaceMatches hbase
  have hkept : ∀ c ∈ replaceMatches baseVariableRule base ++ charsOf ps, c ≠ '?' ∧ c ≠ '#' := by
    intro c hc
    rcases List.mem_append.mp hc with hc | hc
    · exact chars_of_isOrigin horigin c hc
    · exact chars_of_inUrl hlegible hurl c hc
  -- what is left of the suffix begins with its mark, so both cuts leave nothing of it
  have hcut : ((replaceMatches baseVariableRule suffix).takeWhile (· != '?')).takeWhile (· != '#')
      = [] := by
    have hhead := head?_replaceMatches hbehind
    cases hleft : replaceMatches baseVariableRule suffix with
    | nil => rfl
    | cons c left =>
      rw [hleft] at hhead
      rcases hsuffix c hhead.symm with rfl | rfl <;> rfl
  rw [urlPathChars, hdropped, List.takeWhile_append_of_pos fun c hc => bne_iff_ne.mpr (hkept c hc).1,
    List.takeWhile_append_of_pos fun c hc => bne_iff_ne.mpr (hkept c hc).2, hcut, List.append_nil]
  exact withoutHost_origin horigin hrooted

end RouteAtlas.Persisted
