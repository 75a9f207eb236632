/-
  Where a file is: paths with `/` as separator.

  A `Location` is a root (none, `/`, or the `//` that some systems keep apart) and the names below
  it.  `ofText` drops empty names and `.`; `tidy` also takes back a name for every `..` behind it,
  so that two spellings of one place become equal.  Locations are ordered name by name and not
  as texts, so `a/z` comes before `a-b/x`.

  The suffix of a name starts at its last point, unless that point is its first or last character.
-/
import RouteAtlas.Text.Rule

namespace RouteAtlas.Source

/-- A path: its root and the names below. -/
structure Location where
  root : String
  names : List String
  deriving DecidableEq, Repr, Inhabited

namespace Location

/-- The root a text begins with: exactly two slashes are a root of their own. -/
def rootOf (cs : List Char) : String :=
  match (cs.takeWhile (· == '/')).length with
  | 0 => ""
  | 2 => "//"
  | _ => "/"

/-- The path a text writes, `..` kept. -/
def ofText (text : String) : Location :=
  ⟨rootOf text.toList, (Text.splitOn '/' text).filter fun n => n != "" && n != "."⟩

/-- The names with every `..` taken back; `kept` holds, last first, the names so far.  Above a
    root there is nothing to go up to, and a relative path keeps what it cannot take back. -/
def resolveNames (rooted : Bool) : (kept : List String) → List String → List String
  | kept, [] => kept.reverse
  | kept, n :: ns =>
    if n != ".." then resolveNames rooted (n :: kept) ns
    else match kept with
      | [] => if rooted then resolveNames rooted [] ns else resolveNames rooted [".."] ns
      | k :: ks =>
        if k == ".." then resolveNames rooted (".." :: k :: ks) ns else resolveNames rooted ks ns

/-- The path with every `..` taken back. -/
def tidy (p : Location) : Location := ⟨p.root, resolveNames (p.root != "") [] p.names⟩

/-- The place a text names, in its one spelling. -/
def clean (text : String) : Location := (ofText text).tidy

/-- Writes a path; the empty relative one is `.`. -/
def text (p : Location) : String :=
  if p.root == "" && p.names.isEmpty then "." else p.root ++ String.intercalate "/" p.names

/-- Does the path start at a root? -/
def isAbsolute (p : Location) : Bool := p.root != ""

/-- The last name, empty when there is none. -/
def name (p : Location) : String := p.names.getLastD ""

/-- Where the suffix of a name starts. -/
def stemLength (name : List Char) : Nat :=
  let tail := (name.reverse.takeWhile (· != '.')).length
  if tail = name.length then name.length
  else if tail = 0 ∨ tail + 1 = name.length then name.length
  else name.length - tail - 1

/-- The suffix of a name, point included; empty when it has none. -/
def suffixOf (name : String) : String :=
  String.ofList (name.toList.drop (stemLength name.toList))

/-- The suffix of the last name. -/
def suffix (p : Location) : String := suffixOf p.name

/-- The path with another last name. -/
def withName (p : Location) (name : String) : Location := ⟨p.root, p.names.dropLast ++ [name]⟩

/-- The path without the suffix of its last name. -/
def withoutSuffix (p : Location) : Location :=
  p.withName (String.ofList (p.name.toList.take (stemLength p.name.toList)))

/-- The directory around. -/
def parent (p : Location) : Location := ⟨p.root, p.names.dropLast⟩

/-- A path below a directory; a path with a root of its own stands for itself. -/
def join (p q : Location) : Location :=
  if q.isAbsolute then q else ⟨p.root, p.names ++ q.names⟩

/-- A name below a directory. -/
def child (p : Location) (name : String) : Location := ⟨p.root, p.names ++ [name]⟩

/-- The names of a path below a directory. -/
def below? (p dir : Location) : Option (List String) :=
  if p.root == dir.root && dir.names.isPrefixOf p.names then some (p.names.drop dir.names.length)
  else none

/-- The parts that decide the order: the root, then the names. -/
def parts (p : Location) : List String := if p.root == "" then p.names else p.root :: p.names

/-- Order part by part. -/
def partsLe : List String → List String → Bool
  | [], _ => true
  | _ :: _, [] => false
  | a :: as, b :: bs => if a == b then partsLe as bs else Text.textLe a b

/-- The order of locations. -/
def le (p q : Location) : Bool := partsLe p.parts q.parts

/-- Locations in order. -/
def sort (ps : List Location) : List Location := ps.mergeSort le

end Location

end RouteAtlas.Source
