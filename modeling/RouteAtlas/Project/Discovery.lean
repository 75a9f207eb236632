/-
  Which files of a project are its sources.

  Patterns say what to read and what to leave out.  A directory stands for everything in it, and a
  bare suffix for the files that have it.  When the patterns find nothing the usual places of routes
  and controllers are tried, and then the usual names, wherever the files are; a note says so.

  Whatever finds them, packages, builds and declaration files are never sources.
-/
import RouteAtlas.Project.Pattern
import RouteAtlas.Settings.Basic

namespace RouteAtlas.Project

open Source (Location)

/-! ## Entries of the settings -/

/-- What an entry is for. -/
inductive EntryUse where
  | include
  | exclude
  deriving DecidableEq, Repr

/-- Characters that make an entry a pattern. -/
def patternChars : List Char := ['*', '?', '[', ']', '\x7b', '\x7d', '!']

/-- The suffixes of programs, as alternatives. -/
def anySuffix : String := "*.\x7bts,js,tsx,jsx\x7d"

/-- The text without the slashes at its end. -/
def withoutSlashes (text : String) : String :=
  String.ofList (text.toList.reverse.dropWhile (· == '/')).reverse

/-- The patterns an entry stands for. -/
def patternsOf (t : Tree) (root : Location) (use : EntryUse) (entry : String) : List String :=
  let value := Text.trim entry
  if value == "" then []
  else if value.toList.any patternChars.contains then [value]
  else
    let target := root.join (Location.ofText value)
    if t.isDir target then
      [withoutSlashes value ++ (match use with
        | .include => "/**/" ++ anySuffix
        | .exclude => "/**")]
    else if t.isThere target then [value]
    else if value.toList.all fun c => c != '/' && c != '\\' then
      ["**/*." ++ String.ofList (value.toList.dropWhile (· == '.'))]
    else [value]

/-! ## What is left out -/

/-- Directories of packages and builds. -/
def ignoredDirectories : List String := ["node_modules", "dist", "build"]

/-- Is a file never a source?  Its path is given below the project. -/
def isNeverSource (names : List String) : Bool :=
  names.dropLast.any ignoredDirectories.contains
    || [".d.ts", ".d.tsx"].any (Text.endsWith · (names.getLastD ""))

/-- Does the pattern leave out the file with this path?  Behind `**/` a pattern also holds for the
    project's own directory, and with `/**` at its end for everything below its beginning, whatever
    characters that has. -/
def leavesOut (text pattern : String) : Bool :=
  isMatch pattern text
    || (Text.startsWith "**/" pattern && isMatch (String.ofList (pattern.toList.drop 3)) text)
    || (Text.endsWith "/**" pattern
        && Text.startsWith (String.ofList (pattern.toList.take (pattern.toList.length - 3)) ++ "/") text)

/-- Does one of the patterns leave out the file with this path? -/
def isLeftOut (text : String) (patterns : List String) : Bool := patterns.any (leavesOut text)

/-! ## Searching -/

/-- The path of a place below the project. -/
def pathBelow (root place : Location) : List String := (place.below? root).getD place.names

/-- Is the place that of a source which nothing leaves out? -/
def isWanted (t : Tree) (root : Location) (excludes : List String) (place : Location) : Bool :=
  let names := pathBelow root place
  t.isFile place && Source.isSourceSuffix place.suffix
    && !isNeverSource names && !isLeftOut (Text.joinWith "/" names) excludes

/-- The sources that one written-out pattern finds; one that starts at a root finds none. -/
def found (t : Tree) (root : Location) (excludes : List String) (pattern : String) :
    Except PatternFault (List Location) := do
  if (Location.ofText pattern).isAbsolute then return []
  return (← glob t root pattern).filter (isWanted t root excludes)

/-- The sources that entries find, in order and each once. -/
def search (t : Tree) (root : Location) (includes excludes : List String) :
    Except PatternFault (List Location) := do
  let patterns := (includes.flatMap (patternsOf t root .include)).flatMap expandBraces
  return Location.sort (← patterns.mapM (found t root excludes)).flatten.eraseDups

/-! ## Usual names -/

/-- Does the pattern of characters hold somewhere in the text? -/
def holdsSomewhere (p : (before : Option Char) → List Char → Bool) : Option Char → List Char → Bool
  | before, [] => p before []
  | before, c :: cs => p before (c :: cs) || holdsSomewhere p (some c) cs

/-- What follows a character of a class, which may be missing. -/
def afterOptional (letters cs : List Char) : List Char :=
  match cs with
  | c :: rest => if letters.contains c then rest else cs
  | [] => []

/-- What follows a text. -/
def after? (text cs : List Char) : Option (List Char) :=
  if text.isPrefixOf cs then some (cs.drop text.length) else none

/-- Is the text `ts` or `js`, with or without an `x`, at the end? -/
def isProgramSuffix (cs : List Char) : Bool :=
  match cs with
  | a :: 's' :: rest => (a == 't' || a == 'j') && Text.atEnd (afterOptional ['x'] rest)
  | _ => false

/-- Names, each of them whole or behind a point, of files with routes. -/
def routeStems : List String := ["route", "routes", "router", "controller"]

/-- Is the small name one of a file with routes? -/
def isRouteName (name : List Char) : Bool :=
  holdsSomewhere (fun before cs =>
    (before == none || before == some '.') && routeStems.any fun stem =>
      match after? (stem.toList ++ ['.']) cs with
      | some rest => isProgramSuffix (afterOptional ['c', 'm'] rest) || isProgramSuffix rest
      | none => false) none name

/-- Is the small name one of a controller for remote calls? -/
def isRemoteName (name : List Char) : Bool :=
  holdsSomewhere (fun _ cs =>
    match after? "grpc".toList cs with
    | none => false
    | some rest => holdsSomewhere (fun _ cs =>
        match after? "controller.".toList cs with
        | some rest => isProgramSuffix rest
        | none => false) none rest) none name

/-- Directories of files with routes. -/
def routeDirectories : List String := ["route", "routes", "controller", "controllers"]

/-- Is the small path, below the project, one of a file with routes? -/
def isRoutePath (names : List String) : Bool :=
  let name := (names.getLastD "").toList
  isRouteName name || isRemoteName name || names.dropLast.any routeDirectories.contains

/-- The sources with usual names. -/
def searchByName (t : Tree) (root : Location) (excludes : List String) :
    Except PatternFault (List Location) := do
  return (← search t root ["**/" ++ anySuffix] excludes).filter fun place =>
    isRoutePath ((pathBelow root place).map Text.lower)

/-! ## Discovery -/

/-- What was found, and which way. -/
inductive Found where
  | configured (files : List Location)
  | preset (files : List Location)
  | byName (files : List Location)
  | nothing
  deriving DecidableEq, Repr

/-- The files found. -/
def Found.files : Found → List Location
  | configured files | preset files | byName files => files
  | nothing => []

/-- What is said about the way. -/
def Found.notes : Found → List String
  | preset _ =>
    ["No files matched the configured include patterns; using the default route/controller presets."]
  | byName files =>
    ["No files matched the configured globs; auto-discovered " ++ toString files.length
      ++ " route/controller file(s)."]
  | _ => []

/-- The sources of a project. -/
def discover (t : Tree) (root : Location) (includes excludes : List String) :
    Except PatternFault Found := do
  let excludes := (excludes.flatMap (patternsOf t root .exclude)).flatMap expandBraces
  let files ← search t root includes excludes
  if !files.isEmpty then return .configured files
  let files ← search t root ({} : SourceSettings).includes excludes
  if !files.isEmpty then return .preset files
  let files ← searchByName t root excludes
  if !files.isEmpty then return .byName files
  return .nothing

end RouteAtlas.Project
