/-
  Patterns of file names and paths.

  In a name, `*` stands for any characters, `?` for one, and a bracket for one out of a class, which
  may have ranges and may be turned round by `!`.  A range whose ends are in the wrong order is
  empty.  Matched against a whole path, `*` runs across slashes.

  A pattern in parts is matched name by name below a directory; the part `**` stands for the
  directory itself and all directories below it.

  Braces list alternatives and are written out before a pattern is used: `expandBraces` replaces the
  first group without braces inside by each of its alternatives and goes on.  Every step uses up an
  opening brace, so it ends.
-/
import RouteAtlas.Project.Tree

namespace RouteAtlas.Project

open Source (Location)

/-! ## Alternatives in braces -/

/-- Is the character no brace? -/
def noBrace (c : Char) : Bool := c != '\x7b' && c != '\x7d'

/-- The first group without braces inside: what stands before it, in it and behind it. -/
def firstGroup? : List Char → Option (List Char × List Char × List Char)
  | [] => none
  | c :: cs =>
    match if c = '\x7b' then cs.dropWhile noBrace else [] with
    | '\x7d' :: tail => some ([], cs.takeWhile noBrace, tail)
    | _ => (firstGroup? cs).map fun (head, body, tail) => (c :: head, body, tail)

/-- The group and what is around it make up the text, and in the group are no braces. -/
theorem firstGroup?_eq_some {cs head body tail : List Char}
    (h : firstGroup? cs = some (head, body, tail)) :
    cs = head ++ '\x7b' :: body ++ '\x7d' :: tail ∧ ∀ c ∈ body, noBrace c = true := by
  fun_induction firstGroup? cs generalizing head body tail with
  | case1 => simp at h
  | case2 c cs rest hd =>
    simp only [Option.some.injEq, Prod.mk.injEq] at h
    obtain ⟨rfl, rfl, rfl⟩ := h
    split at hd
    · rename_i hc
      refine ⟨?_, fun c hc => List.all_eq_true.1 List.all_takeWhile c hc⟩
      rw [List.nil_append, hc, ← hd, List.cons_append, List.takeWhile_append_dropWhile]
    · simp at hd
  | case3 c cs _ ih =>
    obtain ⟨⟨head', body', tail'⟩, hg, he⟩ := Option.map_eq_some_iff.1 h
    simp only [Prod.mk.injEq] at he
    obtain ⟨rfl, rfl, rfl⟩ := he
    obtain ⟨rfl, hb⟩ := ih hg
    exact ⟨by simp, hb⟩

/-- Writing out an alternative uses up the group's opening brace. -/
theorem count_alternative_lt {cs head body tail alternative : List Char}
    (h : firstGroup? cs = some (head, body, tail))
    (ha : alternative ∈ Text.splitAt (· == ',') body) :
    (head ++ alternative ++ tail).count '\x7b' < cs.count '\x7b' := by
  obtain ⟨rfl, hb⟩ := firstGroup?_eq_some h
  have none_in : ∀ l : List Char, (∀ c ∈ l, noBrace c = true) → l.count '\x7b' = 0 := fun l hl =>
    List.count_eq_zero.2 fun hm => by simpa [noBrace] using hl _ hm
  have hbody := none_in body hb
  have halt := none_in alternative fun c hc => hb c (Text.mem_of_mem_splitAt ha hc)
  have hclose : ('\x7d' :: tail).count '\x7b' = tail.count '\x7b' :=
    List.count_cons_of_ne (by decide)
  simp only [List.count_append, List.count_cons_self, halt, hbody, hclose]
  omega

set_option linter.unusedVariables false in
/-- Writes out all alternatives, in order. -/
def expandChars (cs : List Char) : List (List Char) :=
  match h : firstGroup? cs with
  | none => [cs]
  | some (head, body, tail) =>
    (Text.splitAt (· == ',') body).attach.flatMap fun ⟨alternative, ha⟩ =>
      expandChars (head ++ alternative ++ tail)
termination_by cs.count '\x7b'
decreasing_by simpa [Nat.add_assoc] using count_alternative_lt h ha

/-- The pattern with all alternatives written out. -/
def expandBraces (pattern : String) : List String := (expandChars pattern.toList).map String.ofList

/-! ## Classes of characters -/

/-- The texts between the signs of ranges in a class.  The first `passed` characters are no sign:
    one stands between two characters, and two signs have two characters between them. -/
def chunksFrom : (passed : Nat) → List Char → List (List Char)
  | _, [] => [[]]
  | passed, c :: cs =>
    if passed = 0 ∧ c = '-' then [] :: chunksFrom 2 cs
    else match chunksFrom (passed - 1) cs with
      | chunk :: chunks => (c :: chunk) :: chunks
      | [] => [[c]]

/-- A sign at the end is a character. -/
def closeChunks : List (List Char) → List (List Char)
  | [chunk, []] => [chunk ++ ['-']]
  | chunk :: chunks => chunk :: closeChunks chunks
  | [] => []

/-- Takes out the ranges whose ends are in the wrong order, ends included. -/
def dropEmptyRanges : List (List Char) → List (List Char)
  | [] => []
  | chunk :: chunks =>
    match dropEmptyRanges chunks with
    | next :: rest =>
      match chunk.getLast?, next.head? with
      | some a, some b =>
        if a > b then (chunk.dropLast ++ next.tail) :: rest else chunk :: next :: rest
      | _, _ => chunk :: next :: rest
    | [] => [chunk]

/-- The characters from `first` to `last`. -/
structure CharRange where
  first : Char
  last : Char
  deriving DecidableEq, Repr

/-- Is the character one of the range's? -/
def CharRange.holds (r : CharRange) (c : Char) : Bool := decide (r.first ≤ c) && decide (c ≤ r.last)

/-- The ranges of a class: between chunks, the last character of one and the first of the next are
    the ends of a range; every other character stands for itself. -/
def rangesOf : List (List Char) → List CharRange
  | [] => []
  | [chunk] => chunk.map fun c => ⟨c, c⟩
  | chunk :: next :: rest =>
    (chunk.map fun c => ⟨c, c⟩)
      ++ (match chunk.getLast?, next.head? with
          | some a, some b => [⟨a, b⟩]
          | _, _ => [])
      ++ rangesOf (next :: rest)

/-! ## Names -/

/-- A piece of a pattern of names. -/
inductive Token where
  /-- Any characters. -/
  | run
  /-- One character, whichever. -/
  | one
  /-- One character of a class, or one that is not of it. -/
  | among (turned : Bool) (ranges : List CharRange)
  /-- This character. -/
  | char (c : Char)
  deriving DecidableEq, Repr

/-- The class written between brackets. -/
def classToken (stuff : List Char) : Token :=
  let turnable := stuff.head? == some '!'
  let chunks := dropEmptyRanges (closeChunks (chunksFrom (if turnable then 2 else 1) stuff))
  match chunks with
  | ('!' :: chunk) :: rest => .among true (rangesOf (chunk :: rest))
  | chunks => .among false (rangesOf chunks)

/-- What stands between the bracket in front of `cs` and the one that closes it; the first character
    of a class may be a closing bracket. -/
def bracketed? (cs : List Char) : Option (List Char) :=
  let lead := match cs with
    | '!' :: ']' :: _ => 2
    | '!' :: _ | ']' :: _ => 1
    | _ => 0
  let length := lead + ((cs.drop lead).takeWhile (· != ']')).length
  if length < cs.length then some (cs.take length) else none

/-- The rule that finds the pieces of a pattern which are not plain characters. -/
def tokenRule : Text.Rule Token := fun _ cs =>
  match cs with
  | '*' :: _ => some (1, .run)
  | '?' :: _ => some (1, .one)
  | '[' :: rest => (bracketed? rest).map fun stuff => (stuff.length + 2, classToken stuff)
  | _ => none

/-- The pieces of a pattern of names. -/
def tokens (pattern : String) : List Token :=
  (Text.scan tokenRule pattern.toList).map fun
    | .inl c => .char c
    | .inr token => token

/-- Does the piece stand for the one character? -/
def Token.accepts : Token → Char → Bool
  | run, _ => false
  | one, _ => true
  | among turned ranges, c => (ranges.any (·.holds c)) != turned
  | char d, c => d == c

/-- Does some end of the text satisfy `rest`? -/
def someEnd (rest : List Char → Bool) : List Char → Bool
  | [] => rest []
  | c :: cs => rest (c :: cs) || someEnd rest cs

/-- Do the pieces stand for the whole text? -/
def accepts : List Token → List Char → Bool
  | [], cs => cs.isEmpty
  | .run :: rest, cs => someEnd (accepts rest) cs
  | token :: rest, cs =>
    match cs with
    | [] => false
    | c :: cs => token.accepts c && accepts rest cs

/-- Does the pattern match the whole text? -/
def isMatch (pattern text : String) : Bool := accepts (tokens pattern) text.toList

/-! ## Paths -/

/-- A part of a pattern of paths. -/
inductive Part where
  /-- This name. -/
  | name (name : String)
  /-- A name that the pieces stand for. -/
  | wild (tokens : List Token)
  /-- Any number of directories. -/
  | deep
  /-- Nothing more, but what was found must be a directory. -/
  | ending
  deriving DecidableEq, Repr

/-- Why a text is no pattern of paths. -/
inductive PatternFault where
  | empty
  /-- Nothing but the directory itself. -/
  | noParts
  /-- Two stars within a longer part. -/
  | starsInside
  deriving DecidableEq, Repr

/-- The message of a fault. -/
def PatternFault.message : PatternFault → String
  | empty => "Unacceptable pattern: ''"
  | noParts => "tuple index out of range"
  | starsInside => "Invalid pattern: '**' can only be an entire path component"

/-- Does the name have characters that stand for others? -/
def isWild (name : String) : Bool := name.toList.any fun c => c == '*' || c == '?' || c == '['

/-- The part of a pattern that a name is. -/
def partOf (name : String) : Except PatternFault Part :=
  if name == "**" then .ok .deep
  else if Text.hasPart "**".toList name.toList then .error .starsInside
  else if isWild name then .ok (.wild (tokens name))
  else .ok (.name name)

/-- The parts of a pattern. -/
def partsOf (pattern : String) : Except PatternFault (List Part) := do
  if pattern == "" then throw .empty
  let parts ← (Location.ofText pattern).names.mapM partOf
  let parts := if Text.endsWith "/" pattern then parts ++ [.ending] else parts
  if parts.isEmpty then throw .noParts
  return parts

/-- The directory and all directories below it; `depth` bounds how far down they are. -/
def directoriesFrom (t : Tree) : (depth : Nat) → Location → List Location
  | 0, dir => [dir]
  | depth + 1, dir =>
    dir :: ((t.namesIn dir).map dir.child |>.filter t.isDir).flatMap (directoriesFrom t depth)

/-- The greatest number of names in a place of the tree. -/
def depth (t : Tree) : Nat :=
  (t.files.map (·.1) ++ t.directories).foldl (fun n p => max n p.names.length) 0

/-- The paths below a directory that the parts lead to. -/
def select (t : Tree) : (parts : List Part) → (dir : Location) → List Location
  | [], dir => [dir]
  | .ending :: _, dir => [dir]
  | .name name :: rest, dir =>
    let path := dir.child name
    if (if rest.isEmpty then t.isThere path else t.isDir path) then select t rest path else []
  | .wild tokens :: rest, dir =>
    let found := (t.namesIn dir).filter fun n => accepts tokens n.toList
    ((found.map dir.child).filter fun path => rest.isEmpty || t.isDir path).flatMap (select t rest)
  | .deep :: rest, dir => (directoriesFrom t (depth t) dir).flatMap (select t rest)

/-- The paths below a directory that a pattern matches. -/
def glob (t : Tree) (dir : Location) (pattern : String) : Except PatternFault (List Location) := do
  let parts ← partsOf pattern
  return if t.isDir dir then select t parts dir else []

end RouteAtlas.Project
