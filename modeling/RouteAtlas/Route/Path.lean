/-
  URL paths and their placeholders.

  A path is normal when it begins with a slash, has no empty segment, and ends with a slash only if
  it is the root.  `normalize` makes a path normal (blanks at its ends are dropped first), `segments`
  cuts it, and `join` puts one path behind another.

  A placeholder stands for a part of the path that varies, and is written `:name`, `{name}` or
  `{{name}}` depending on who reads the path.  The middle notation is the common one: `display`
  brings every placeholder to it, and the other two notations are written from there.  So a route
  has one `key`, its method and displayed path, whichever notation it was declared in.
-/
import RouteAtlas.Text.Blank
import RouteAtlas.Text.Case
import RouteAtlas.Text.Rule

namespace RouteAtlas.Route

open Text (Rule isNameChar)

/-! ## Normal form -/

/-- Every run of slashes becomes one; `inRun` says that a slash was just written. -/
def squeezeFrom : (inRun : Bool) → List Char → List Char
  | _, [] => []
  | inRun, c :: cs =>
    if c = '/' then (if inRun then squeezeFrom true cs else '/' :: squeezeFrom true cs)
    else c :: squeezeFrom false cs

/-- Every run of slashes becomes one. -/
def squeeze (cs : List Char) : List Char := squeezeFrom false cs

/-- Puts a slash in front unless there is one. -/
def rooted (cs : List Char) : List Char :=
  match cs with
  | '/' :: _ => cs
  | _ => '/' :: cs

/-- Drops a slash at the end, except from the root. -/
def withoutTail (cs : List Char) : List Char :=
  if cs.length > 1 && cs.getLast? == some '/' then cs.dropLast else cs

/-- The normal form of a path's characters. -/
def normalChars (cs : List Char) : List Char := withoutTail (squeeze (rooted (Text.trimChars cs)))

/-- The normal form of a path; a missing or empty one is the root. -/
def normalize (path : String) : String := String.ofList (normalChars path.toList)

/-- One path behind another.  The root adds nothing. -/
def joinChars (base child : List Char) : List Char :=
  let a := normalChars base
  let b := normalChars child
  if a = ['/'] then b
  else if b = ['/'] then a
  else normalChars (a ++ '/' :: b)

/-- One path behind another. -/
def join (base child : String) : String := String.ofList (joinChars base.toList child.toList)

/-- The segments of a path's characters. -/
def segmentChars (cs : List Char) : List (List Char) :=
  (Text.splitAt (· == '/') (normalChars cs)).filter fun s => !s.isEmpty

/-- The segments of a path, none of them empty. -/
def segments (path : String) : List String := (segmentChars path.toList).map String.ofList

/-- The text of a path that may be missing: a missing path is an empty one. -/
def given (path : Option String) : String := path.getD ""

/-! ## Placeholders -/

/-- The opening brace. -/
def opening : Char := '\x7b'

/-- The closing brace. -/
def closing : Char := '\x7d'

/-- A placeholder in the common notation. -/
def inBraces (name : List Char) : List Char := opening :: name ++ [closing]

/-- A placeholder in double braces. -/
def inDoubleBraces (name : List Char) : List Char := opening :: opening :: name ++ [closing, closing]

/-- A placeholder behind a colon. -/
def behindColon (name : List Char) : List Char := ':' :: name

/-- The name at the beginning of `cs` and what follows it; none when there is no name. -/
def nameAt? (cs : List Char) : Option (List Char × List Char) :=
  match cs.takeWhile isNameChar with
  | [] => none
  | c :: name => some (c :: name, cs.dropWhile isNameChar)

/-- Finds a name in double braces. -/
def doubleRule : Rule (List Char) := fun _ cs =>
  match cs with
  | a :: b :: rest =>
    if a = opening ∧ b = opening then
      match nameAt? rest with
      | some (name, x :: y :: _) =>
        if x = closing ∧ y = closing then some (name.length + 4, name) else none
      | _ => none
    else none
  | _ => none

/-- Finds a name behind a colon. -/
def colonRule : Rule (List Char) := fun _ cs =>
  match cs with
  | ':' :: rest => (nameAt? rest).map fun (name, _) => (name.length + 1, name)
  | _ => none

/-- Finds a name in single braces, with no further brace on either side. -/
def singleRule : Rule (List Char) := fun before cs =>
  match cs with
  | a :: rest =>
    if a = opening ∧ before ≠ some opening then
      match nameAt? rest with
      | some (name, x :: after) =>
        if x = closing ∧ after.head? ≠ some closing then some (name.length + 2, name) else none
      | _ => none
    else none
  | [] => none

/-- A rule whose matches are to be replaced. -/
def replacing (rule : Rule (List Char)) (write : List Char → List Char) : Rule (List Char) :=
  fun before cs => (rule before cs).map fun (length, name) => (length, write name)

/-- Every placeholder in the common notation, the path normal. -/
def displayChars (cs : List Char) : List Char :=
  Text.replaceMatches (replacing colonRule inBraces)
    (Text.replaceMatches (replacing doubleRule inBraces) (normalChars cs))

/-- The path with placeholders `{name}`. -/
def display (path : String) : String := String.ofList (displayChars path.toList)

/-- The path's characters with every placeholder written anew. -/
def writtenChars (write : List Char → List Char) (cs : List Char) : List Char :=
  Text.replaceMatches (replacing singleRule write) (displayChars cs)

/-- The path with placeholders `{{name}}`. -/
def doubleBraced (path : String) : String := String.ofList (writtenChars inDoubleBraces path.toList)

/-- The path with placeholders `:name`. -/
def coloned (path : String) : String := String.ofList (writtenChars behindColon path.toList)

/-- What identifies a route: its method in capitals and its displayed path. -/
def key (method path : String) : String := Text.upper method ++ " " ++ display path

/-- The names of the placeholders, in order of first appearance. -/
def placeholders (path : String) : List String :=
  ((Text.findMatches singleRule (displayChars path.toList)).map String.ofList).eraseDups

/-- Is the whole segment a placeholder? -/
def isPlaceholder (segment : String) : Bool :=
  match segment.toList with
  | [] => false
  | c :: cs => c == ':' || (c == opening && (c :: cs).getLast? == some closing)

/-- Does the text look like a route's path? -/
def looksLikePath (text : String) : Bool := text.toList.head? == some '/'

/-- The first segment that says what the path is about: no placeholder, and not `api`. -/
def domain (path : String) : String :=
  ((segments path).find? fun s => !(Text.lower s == "api" || isPlaceholder s)).getD "General"

end RouteAtlas.Route
