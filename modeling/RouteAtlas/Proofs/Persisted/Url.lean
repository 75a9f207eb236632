/-
  The path of a request's URL.

  ==== Problem ====

  A request is found again by the path in its URL.  In front of the path stands a reference to a
  base-URL variable, behind it the query; and the path is written in the notation of the format, so
  it must come out as the path of the endpoint whichever that is.

  ==== Program ====

  1. **The reference** - is read at the beginning of the URL and dropped (`afterBaseVariable?_host`).

  2. **The rest** - the reading of a variable stops at a question mark (`stopsAt_baseVariableRule`), so
     the query does not matter; the path stays as it is unless a variable is read in it
     (`BaseFree`).

  3. **The key** - what is left is the written path, and a clean one is displayed as it was
     (`keyOf_url`).

  A placeholder called like the variable is taken for it: the condition `BaseFree` is needed.
-/
import Mathlib.Data.List.Infix
import RouteAtlas.Persisted.Key
import RouteAtlas.Proofs.Route.Placeholder

namespace RouteAtlas.Persisted

open Text (StopsAt Fits replaceFrom replaceMatches)
open Route (opening closing)

/-! ## Reading up to a character

No reference has a slash, a question mark or a fragment mark.  So a text can be read up to such a
character without regard to what follows. -/

/-- A character that no part of a variable's reference has. -/
structure EndsVariable (stop : Char) : Prop where
  no_name : Text.isNameCharAnyCase stop = false
  no_blank : Text.isBlank stop = false
  no_letter : ("baseUrl".toList.any fun c => Text.sameLetter c stop) = false
  no_mark : stop ≠ '_' ∧ stop ≠ '.' ∧ stop ≠ opening ∧ stop ≠ closing

/-- No reference goes on behind a question mark. -/
theorem endsVariable_query : EndsVariable '?' := ⟨by decide, by decide, by decide, by decide⟩

theorem endsVariable_slash : EndsVariable '/' := ⟨by decide, by decide, by decide, by decide⟩

/-- A pair of characters is read without regard to what follows.  Neither of the two is the
    character that follows, so a pair cannot reach over it. -/
theorem afterPair?_append {a b stop : Char} (ha : stop ≠ a) (hb : stop ≠ b) (cs rest : List Char) :
    afterPair? a b (cs ++ stop :: rest) = (afterPair? a b cs).map (· ++ stop :: rest) := by
  have hneA : (stop == a) = false := beq_false_of_ne ha
  have hneB : (stop == b) = false := beq_false_of_ne hb
  cases cs with
  | nil =>
    cases rest with
    | nil => rfl
    | cons c rest =>
      show (if stop == a && c == b then some rest else none) = none
      rw [hneA, Bool.false_and]
      rfl
  | cons x cs =>
    cases cs with
    | nil =>
      show (if x == a && stop == b then some rest else none) = none
      rw [hneB, Bool.and_false]
      rfl
    | cons y cs =>
      show (if x == a && y == b then some (cs ++ stop :: rest) else none)
        = (if x == a && y == b then some cs else none).map _
      split <;> rfl

theorem afterWord?_append {stop : Char} {word : List Char}
    (h : ∀ c ∈ word, Text.sameLetter c stop = false) (cs rest : List Char) :
    Text.afterWord? word (cs ++ stop :: rest) = (Text.afterWord? word cs).map (· ++ stop :: rest) := by
  induction word generalizing cs with
  | nil => rfl
  | cons w word ih =>
    have ih := ih fun c hc => h c (List.mem_cons_of_mem _ hc)
    cases cs with
    | nil =>
      show (if Text.sameLetter w stop then Text.afterWord? word rest else none) = none
      rw [h w (List.mem_cons_self ..)]
      rfl
    | cons c cs =>
      rw [List.cons_append, Text.afterWord?, Text.afterWord?]
      split
      · exact ih cs
      · rfl

theorem afterServiceName_append {stop : Char} (hname : Text.isNameCharAnyCase stop = false)
    (hmark : stop ≠ '_') (cs rest : List Char) :
    afterServiceName (cs ++ stop :: rest) = afterServiceName cs ++ stop :: rest := by
  have hother : ∀ {c : Char} (cs : List Char), c ≠ '_' → afterServiceName (c :: cs) = c :: cs := by
    intro c cs hc
    unfold afterServiceName
    split
    · rename_i heq
      exact absurd (List.cons.inj heq).1 hc
    · rfl
  cases cs with
  | nil => exact hother rest hmark
  | cons c cs =>
    by_cases hc : c = '_'
    · subst hc
      cases cs with
      | nil =>
        show (if Text.isNameCharAnyCase stop then _ else _) = _
        rw [hname]
        rfl
      | cons d cs =>
        show (if Text.isNameCharAnyCase d then _ else _) = (if Text.isNameCharAnyCase d then _ else _) ++ _
        split
        · exact Route.dropWhile_append_stop hname cs rest
        · rfl
    · rw [List.cons_append, hother _ hc, hother _ hc]
      rfl

/-- Reading a reference looks no further than such a character.  The stop is no blank, no brace, no
    mark and no character of a name, so each part of the reading ends before it. -/
theorem afterBaseVariable?_append {stop : Char} (h : EndsVariable stop) (cs rest : List Char) :
    afterBaseVariable? (cs ++ stop :: rest) = (afterBaseVariable? cs).map (· ++ stop :: rest) := by
  obtain ⟨hunder, hdot, hopening, hclosing⟩ := h.no_mark
  have hopen := afterPair?_append hopening hopening cs rest
  unfold afterBaseVariable?
  rw [hopen]
  cases afterPair? opening opening cs with
  | none => rfl
  | some inner =>
    have hblank := Route.dropWhile_append_stop h.no_blank inner rest
    have hmark := afterPair?_append hunder hdot (inner.dropWhile Text.isBlank) rest
    -- the mark in front of the name may be there or not
    have hinner : ((afterPair? '_' '.' ((inner ++ stop :: rest).dropWhile Text.isBlank)).getD
        ((inner ++ stop :: rest).dropWhile Text.isBlank))
        = ((afterPair? '_' '.' (inner.dropWhile Text.isBlank)).getD (inner.dropWhile Text.isBlank))
          ++ stop :: rest := by
      rw [hblank, hmark]
      cases afterPair? '_' '.' (inner.dropWhile Text.isBlank) <;> rfl
    show (Text.afterWord? "baseUrl".toList ((afterPair? '_' '.' ((inner ++ stop :: rest).dropWhile
      Text.isBlank)).getD ((inner ++ stop :: rest).dropWhile Text.isBlank)) >>= _) = _
    have hletter : ∀ c ∈ "baseUrl".toList, Text.sameLetter c stop = false := fun c hc =>
      Bool.eq_false_iff.mpr (List.any_eq_false.mp h.no_letter c hc)
    rw [hinner, afterWord?_append hletter]
    show _ = (Text.afterWord? "baseUrl".toList _ >>= _).map _
    cases Text.afterWord? "baseUrl".toList ((afterPair? '_' '.' (inner.dropWhile Text.isBlank)).getD
      (inner.dropWhile Text.isBlank)) with
    | none => rfl
    | some name =>
      show afterPair? closing closing
        ((afterServiceName (name ++ stop :: rest)).dropWhile Text.isBlank) = _
      rw [afterServiceName_append h.no_name hunder, Route.dropWhile_append_stop h.no_blank,
        afterPair?_append hclosing hclosing]
      rfl

/-- A reference begins with an opening brace. -/
theorem afterBaseVariable?_of_ne {c : Char} (h : c ≠ opening) (cs : List Char) :
    afterBaseVariable? (c :: cs) = none := by
  have hne : (c == opening) = false := beq_false_of_ne h
  have hpair : afterPair? opening opening (c :: cs) = none := by
    cases cs with
    | nil => rfl
    | cons d cs =>
      show (if c == opening && d == opening then some cs else none) = none
      rw [hne, Bool.false_and]
      rfl
  unfold afterBaseVariable?
  rw [hpair]
  rfl

/-- The rule finds nothing but what begins in a brace. -/
theorem baseVariableRule_of_ne (before : Option Char) (c : Char) (cs : List Char) (h : c ≠ opening) :
    baseVariableRule before (c :: cs) = none := by
  show (afterBaseVariable? (c :: cs)).map _ = none
  rw [afterBaseVariable?_of_ne h]
  rfl

/-- The rule that drops references stops at such a character. -/
theorem stopsAt_baseVariableRule {stop : Char} (h : EndsVariable stop) :
    StopsAt baseVariableRule stop := by
  refine ⟨fun before rest => ?_, fun before cs rest _ => ?_⟩
  · have hnone := afterBaseVariable?_append h [] rest
    show (afterBaseVariable? ([] ++ stop :: rest)).map _ = none
    rw [hnone]
    rfl
  · show (afterBaseVariable? (cs ++ stop :: rest)).map _ = (afterBaseVariable? cs).map _
    rw [afterBaseVariable?_append h, Option.map_map]
    refine congrArg (Option.map · _) (funext fun left => ?_)
    have hlength : (cs ++ stop :: rest).length - (left ++ stop :: rest).length
        = cs.length - left.length := by
      rw [List.length_append, List.length_append]
      omega
    exact congrArg (·, _) hlength

/-- What the rule finds lies within the text. -/
theorem fits_baseVariableRule : Fits baseVariableRule := by
  intro before cs length value h
  obtain ⟨left, -, heq⟩ := Option.map_eq_some_iff.mp h
  obtain ⟨rfl, -⟩ := Prod.mk.inj heq
  exact Nat.sub_le _ _

/-! ## The reference in front

Both formats begin a URL with a reference to a base variable.  It is read as one and dropped. -/

/-- A name of a base-URL variable: the common one, or one with a suffix. -/
inductive IsBaseName : List Char → Prop
  | common : IsBaseName "baseUrl".toList
  | service {suffix} (hne : suffix ≠ []) (h : ∀ c ∈ suffix, Text.isNameCharAnyCase c = true) :
      IsBaseName ("baseUrl".toList ++ '_' :: suffix)

/-- A word is read from a text that begins with it. -/
theorem afterWord?_self (word cs : List Char) : Text.afterWord? word (word ++ cs) = some cs := by
  induction word with
  | nil => rfl
  | cons w word ih =>
    have hsame : Text.sameLetter w w = true := beq_self_eq_true _
    rw [List.cons_append, Text.afterWord?, if_pos hsame, ih]

/-- A base name is read up to a character that no name has. -/
theorem afterServiceName_baseName {name : List Char} (h : IsBaseName name) {stop : Char}
    (hname : Text.isNameCharAnyCase stop = false) (hmark : stop ≠ '_') (rest : List Char) :
    ∃ left, Text.afterWord? "baseUrl".toList (name ++ stop :: rest) = some left ∧
      afterServiceName left = stop :: rest := by
  cases h with
  | common =>
    refine ⟨stop :: rest, afterWord?_self _ _, ?_⟩
    exact afterServiceName_append hname hmark [] rest
  | @service suffix hne h =>
    obtain ⟨c, suffix, rfl⟩ := List.exists_cons_of_ne_nil hne
    refine ⟨'_' :: c :: (suffix ++ stop :: rest), ?_, ?_⟩
    · rw [List.append_assoc]
      exact afterWord?_self _ _
    · show (if Text.isNameCharAnyCase c then _ else _) = _
      rw [if_pos (h c (List.mem_cons_self ..)), Route.dropWhile_append_stop hname]
      have hall : suffix.dropWhile Text.isNameCharAnyCase = [] :=
        List.dropWhile_eq_nil_iff.mpr fun c hc => h c (List.mem_cons_of_mem _ hc)
      rw [hall]
      rfl

/-- A base name is read up to the braces that close its reference. -/
theorem afterWord?_baseName {name : List Char} (h : IsBaseName name) {stop : Char}
    (hname : Text.isNameCharAnyCase stop = false) (hmark : stop ≠ '_') {tail rest : List Char}
    (hclose : afterPair? closing closing ((stop :: tail).dropWhile Text.isBlank) = some rest) :
    (Text.afterWord? "baseUrl".toList (name ++ stop :: tail) >>= fun left =>
      afterPair? closing closing ((afterServiceName left).dropWhile Text.isBlank)) = some rest := by
  obtain ⟨left, hword, hleft⟩ := afterServiceName_baseName h hname hmark tail
  rw [hword]
  show afterPair? closing closing ((afterServiceName left).dropWhile Text.isBlank) = some rest
  rw [hleft, hclose]

/-- Nothing is skipped in front of a base name. -/
theorem skipped_baseName {name : List Char} (h : IsBaseName name) (rest : List Char) :
    (afterPair? '_' '.' ((name ++ rest).dropWhile Text.isBlank)).getD
      ((name ++ rest).dropWhile Text.isBlank) = name ++ rest := by
  cases h with
  | common => rfl
  | service _ _ => rfl

/-- How a format refers to a variable. -/
inductive IsReference : (List Char → List Char) → Prop
  | plain : IsReference fun name => opening :: opening :: (name ++ [closing, closing])
  | spaced : IsReference fun name =>
      opening :: opening :: ' ' :: '_' :: '.' :: (name ++ [' ', closing, closing])

/-- **A reference to a base-URL variable is read as one.** The two formats write it in their own
    way, without blanks and a mark or with them. -/
theorem afterBaseVariable?_reference {refer : List Char → List Char} (hrefer : IsReference refer)
    {name : List Char} (h : IsBaseName name) (rest : List Char) :
    afterBaseVariable? (refer name ++ rest) = some rest := by
  unfold afterBaseVariable?
  cases hrefer with
  | plain =>
    have hopen : afterPair? opening opening
        (opening :: opening :: (name ++ [closing, closing]) ++ rest)
        = some (name ++ closing :: closing :: rest) := by
      show some (name ++ [closing, closing] ++ rest) = _
      rw [List.append_assoc]
      rfl
    rw [hopen]
    show (Text.afterWord? "baseUrl".toList ((afterPair? '_' '.' (List.dropWhile Text.isBlank _)).getD
      (List.dropWhile Text.isBlank _)) >>= _) = _
    rw [skipped_baseName h]
    exact afterWord?_baseName h (by decide) (by decide) rfl
  | spaced =>
    have hopen : afterPair? opening opening
        (opening :: opening :: ' ' :: '_' :: '.' :: (name ++ [' ', closing, closing]) ++ rest)
        = some (' ' :: '_' :: '.' :: (name ++ ' ' :: closing :: closing :: rest)) := by
      show some (' ' :: '_' :: '.' :: (name ++ [' ', closing, closing] ++ rest)) = _
      rw [List.append_assoc]
      rfl
    rw [hopen]
    exact afterWord?_baseName h (by decide) (by decide) rfl

/-- The reference in front of a URL is dropped.  It stands at the very beginning, so the first match
    is the reference as a whole, and the scan goes on behind it. -/
theorem replaceMatches_reference {refer : List Char → List Char} (hrefer : IsReference refer)
    {name : List Char} (h : IsBaseName name) (rest : List Char) : ∃ before,
    replaceMatches baseVariableRule (refer name ++ rest) = replaceFrom baseVariableRule before rest := by
  have hmatch : baseVariableRule none (refer name ++ rest) = some ((refer name).length, []) := by
    show (afterBaseVariable? (refer name ++ rest)).map _ = _
    rw [afterBaseVariable?_reference hrefer h, Option.map_some, List.length_append,
      Nat.add_sub_cancel_right]
  have hcons : ∃ c tail, refer name = c :: tail := by
    cases hrefer <;> exact ⟨_, _, rfl⟩
  obtain ⟨c, tail, hc⟩ := hcons
  rw [hc, List.cons_append] at hmatch
  have hskip : (c :: tail).length - 1 ≤ (tail ++ rest).length := by
    rw [List.length_append, List.length_cons]
    omega
  obtain ⟨before, hbefore⟩ := Text.scanFrom_skip baseVariableRule _ (some c) (tail ++ rest) hskip
  refine ⟨before, ?_⟩
  rw [Text.replaceMatches_eq, replaceFrom, hc, List.cons_append, Text.scanFrom, hmatch]
  show (Text.scanFrom baseVariableRule ((c :: tail).length - 1) (some c) (tail ++ rest)).flatMap
    Text.writtenPiece = _
  rw [hbefore, List.length_cons, Nat.add_sub_cancel, List.drop_left]
  rfl

/-! ## The path behind it

In the path no reference may be read.  A path is a list of segments with slashes between, and none
is read across a slash, so this is asked segment by segment. -/

/-- No reference to a base-URL variable is read in the text. -/
def BaseFree (cs : List Char) : Prop := ∀ s ∈ cs.tails, afterBaseVariable? s = none

instance (cs : List Char) : Decidable (BaseFree cs) :=
  inferInstanceAs (Decidable (∀ s ∈ cs.tails, afterBaseVariable? s = none))

/-- In such a text nothing is dropped. -/
theorem replaceFrom_of_baseFree {cs : List Char} (h : BaseFree cs) (before : Option Char) :
    replaceFrom baseVariableRule before cs = cs := by
  refine Text.replaceFrom_of_none before fun before s _ hs => ?_
  show (afterBaseVariable? s).map _ = none
  rw [h s ((List.mem_tails s cs).mpr hs)]
  rfl

/-- The rule ignores what stands before. -/
theorem replaceFrom_baseVariableRule (before : Option Char) (cs : List Char) :
    replaceFrom baseVariableRule before cs = replaceMatches baseVariableRule cs := by
  cases cs with
  | nil => rfl
  | cons c cs => rfl

/-- No reference is read in a text when none begins at its first character or later. -/
theorem baseFree_cons {c : Char} {cs : List Char} :
    BaseFree (c :: cs) ↔ afterBaseVariable? (c :: cs) = none ∧ BaseFree cs := by
  rw [BaseFree, List.tails_cons, List.forall_mem_cons]
  rfl

/-- The empty text is free of references. -/
theorem baseFree_nil : BaseFree [] := fun s hs => by
  obtain rfl := List.mem_singleton.mp hs
  rfl

theorem baseFree_of_not_mem {cs : List Char} (h : opening ∉ cs) : BaseFree cs := by
  induction cs with
  | nil => exact baseFree_nil
  | cons c cs ih =>
    obtain ⟨hc, hcs⟩ := not_or.mp (List.mem_cons.not.mp h)
    exact baseFree_cons.mpr ⟨afterBaseVariable?_of_ne (Ne.symm hc) cs, ih hcs⟩

/-- **A path is free of references when its segments are**: none is read across a slash. -/
theorem baseFree_append_joined {segments : List (List Char)} {s : List Char} :
    BaseFree (s ++ Route.joined segments) ↔ BaseFree s ∧ ∀ t ∈ segments, BaseFree t := by
  induction segments generalizing s with
  | nil =>
    rw [Route.joined_nil, List.append_nil]
    exact (and_iff_left fun t ht => absurd ht List.not_mem_nil).symm
  | cons u segments ih =>
    rw [Route.joined_cons, List.forall_mem_cons, ← ih]
    induction s with
    | nil =>
      rw [List.nil_append, baseFree_cons]
      exact ⟨fun h => ⟨baseFree_nil, h.2⟩, fun h => ⟨afterBaseVariable?_of_ne (by decide) _, h.2⟩⟩
    | cons c s ihs =>
      rw [List.cons_append, baseFree_cons, ihs, baseFree_cons, ← List.cons_append,
        afterBaseVariable?_append endsVariable_slash, Option.map_eq_none_iff, and_assoc]

/-- A path is free of references exactly when its segments are. -/
theorem baseFree_written {segments : List (List Char)} :
    BaseFree (Route.written segments) ↔ ∀ s ∈ segments, BaseFree s := by
  cases segments with
  | nil => exact ⟨fun _ s hs => absurd hs List.not_mem_nil, fun _ => by decide⟩
  | cons s segments =>
    rw [Route.written_of_ne_nil (List.cons_ne_nil s segments),
      ← List.nil_append (Route.joined _), baseFree_append_joined]
    exact and_iff_right baseFree_nil

/-- **Behind colons fewer paths are mistaken.**  A path in which no reference is read with its
    placeholders in double braces has none behind colons either, since no name has a brace in it; of
    a path like `/:baseUrl` only the second is true. -/
theorem BaseFree.behindColon {path : String} (hpath : Route.CleanPath path)
    (h : BaseFree (Route.writtenChars Route.inDoubleBraces path.toList)) :
    BaseFree (Route.writtenChars Route.behindColon path.toList) := by
  rw [Route.writtenChars_eq, baseFree_written, List.forall_mem_map] at h ⊢
  intro s hs
  rcases (hpath.whole s hs).cases_written with ⟨-, -, hsame⟩ | ⟨name, hname, -, -, hwritten⟩
  · rw [hsame Route.behindColon, ← hsame Route.inDoubleBraces]
    exact h s hs
  · rw [hwritten]
    exact baseFree_of_not_mem (Route.opening_not_mem_behindColon hname)

/-- **The path of a URL**: what stands between the reference in front and the query.  Neither a
    reference nor a query or a fragment begins within the path, so that cutting stops at its ends. -/
theorem urlPathChars_url {refer : List Char → List Char} (hrefer : IsReference refer)
    {name : List Char} (hname : IsBaseName name) {path query : List Char}
    (hpath : ∃ tail, path = '/' :: tail) (hplain : '?' ∉ path ∧ '#' ∉ path)
    (hfree : replaceMatches baseVariableRule path = path)
    (hquery : query = [] ∨ ∃ tail, query = '?' :: tail) :
    urlPathChars (refer name ++ (path ++ query)) = path := by
  obtain ⟨before, hdropped⟩ := replaceMatches_reference hrefer hname (path ++ query)
  have htake : (replaceMatches baseVariableRule (refer name ++ (path ++ query))).takeWhile (· != '?')
      = path := by
    have hall : ∀ c ∈ path, (c != '?') = true := by
      intro c hc
      rw [bne_iff_ne]
      rintro rfl
      exact hplain.1 hc
    rw [hdropped, replaceFrom_baseVariableRule]
    rcases hquery with rfl | ⟨tail, rfl⟩
    · rw [List.append_nil, hfree]
      exact List.takeWhile_eq_self_iff.mpr hall
    · have hsplit := Text.replaceFrom_append fits_baseVariableRule
        (stopsAt_baseVariableRule endsVariable_query) none path tail
      rw [← Text.replaceMatches_eq, ← Text.replaceMatches_eq, hfree] at hsplit
      rw [hsplit, List.takeWhile_append_of_pos hall, List.takeWhile_cons]
      exact List.append_nil _
  have hfragment : path.takeWhile (· != '#') = path := by
    refine List.takeWhile_eq_self_iff.mpr fun c hc => ?_
    rw [bne_iff_ne]
    rintro rfl
    exact hplain.2 hc
  obtain ⟨tail, rfl⟩ := hpath
  rw [urlPathChars, htake, hfragment]
  rfl

/-- **The key of a request is that of its endpoint**, whichever way its URL refers to the base URL,
    writes its placeholders and goes on behind the path. -/
theorem keyOf_url {refer : List Char → List Char} (hrefer : IsReference refer) {name : List Char}
    (hname : IsBaseName name) {path : String} (hpath : Route.CleanPath path)
    {write : List Char → List Char} (hwrite : Route.IsNotation write)
    (hfree : BaseFree (Route.writtenChars write path.toList)) {query : List Char}
    (hquery : query = [] ∨ ∃ tail, query = '?' :: tail) {url : String}
    (hurl : url.toList = refer name ++ (Route.writtenChars write path.toList ++ query))
    (method : String) : keyOf method url = Route.key method path := by
  have hrooted : ∃ tail, Route.writtenChars write path.toList = '/' :: tail := by
    rw [Route.writtenChars_eq]
    cases (Route.segmentChars path.toList).map (Route.writeSegment write) <;> exact ⟨_, rfl⟩
  have hplain : '?' ∉ Route.writtenChars write path.toList ∧
      '#' ∉ Route.writtenChars write path.toList :=
    ⟨Route.not_mem_writtenChars hwrite hpath hpath.no_query
        ⟨by decide, by decide, by decide, by decide⟩ (by decide),
      Route.not_mem_writtenChars hwrite hpath hpath.no_fragment
        ⟨by decide, by decide, by decide, by decide⟩ (by decide)⟩
  have hself := replaceFrom_of_baseFree hfree none
  have hchars : (urlPath url).toList = Route.writtenChars write path.toList := by
    rw [urlPath, String.toList_ofList, hurl]
    exact urlPathChars_url hrefer hname hrooted hplain hself hquery
  rw [keyOf, Route.key, Route.key, Route.display, hchars,
    Route.displayChars_writtenChars hwrite hpath]
  rfl

end RouteAtlas.Persisted
