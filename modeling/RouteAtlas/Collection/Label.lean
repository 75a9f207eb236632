/-
  Labels: readable names made of file, folder, tag and service names.

  A label is split into words where the name has a separator or a hump (`userProfile`), and every
  word is written with one capital, `API` with three.  What only says that a file holds routes is
  left out: the suffix of a source file, `.routes`, `.controller`, `router` and a leading `grpc`.

  Services are compared by their `lookupName`, letters and digits in small, so that spelling does
  not matter; `variableSuffix` makes a part of a variable's name of one.
-/
import RouteAtlas.Text.Blank
import RouteAtlas.Text.Case
import RouteAtlas.Text.Rule

namespace RouteAtlas.Label

open Text (Rule)

/-! ## Names of services -/

/-- The name in small letters, only letters and digits of ASCII kept. -/
def lookupName (name : String) : String :=
  String.ofList ((Text.lowerChars (Text.trimChars name.toList)).filter Text.isSmallAlphanum)

/-- The name in small letters, everything else than letters and digits one underscore. -/
def variableSuffix (name : String) : String :=
  let small := Text.lowerChars (Text.trimChars name.toList)
  let joined := Text.replaceMatches (Text.runRule (fun c => !Text.isSmallAlphanum c) ['_']) small
  match Text.stripChars (· == '_') joined with
  | [] => "app"
  | cs => String.ofList cs

/-! ## Parts of file names -/

/-- One letter out of several, case ignored, and what follows. -/
def afterLetter? (letters cs : List Char) : Option (List Char) :=
  match cs with
  | c :: rest => if letters.any (Text.sameLetter · c) then some rest else none
  | [] => none

/-- The rule that drops what `after?` recognizes when nothing follows it. -/
def endingRule (after? : List Char → Option (List Char)) : Rule (List Char) := fun _ cs =>
  match after? cs with
  | some rest => if Text.atEnd rest then some (cs.length - rest.length, []) else none
  | none => none

/-- The suffix of a source file: a point, perhaps `m` or `c`, then `ts` or `js`, perhaps `x`. -/
def afterSourceSuffix? (cs : List Char) : Option (List Char) := do
  let rest ← Text.afterWord? ['.'] cs
  let rest := (afterLetter? ['m', 'c'] rest).getD rest
  let rest ← afterLetter? ['t', 'j'] rest
  let rest ← afterLetter? ['s'] rest
  return (afterLetter? ['x'] rest).getD rest

/-- Drops a word at the end, case ignored. -/
def dropEnding (word : String) (cs : List Char) : List Char :=
  Text.replaceMatches (endingRule (Text.afterWord? word.toList)) cs

/-- Drops the suffix of a source file. -/
def dropSourceSuffix (cs : List Char) : List Char :=
  Text.replaceMatches (endingRule afterSourceSuffix?) cs

/-- Drops `grpc` in front, with one separator behind it. -/
def dropGrpc (cs : List Char) : List Char :=
  match Text.afterWord? "grpc".toList cs with
  | some (c :: rest) => if ['.', '_', '-'].contains c then rest else c :: rest
  | some [] => []
  | none => cs

/-! ## Labels -/

/-- The rule that puts a space into a hump. -/
def humpRule : Rule (List Char) := fun _ cs =>
  match cs with
  | a :: b :: _ => if a.isLower && b.isUpper then some (2, [a, ' ', b]) else none
  | _ => none

/-- A word with one capital. -/
def capitalized (word : List Char) : List Char :=
  if Text.upperChars word = "API".toList then "API".toList
  else Text.upperChars (word.take 1) ++ Text.lowerChars (word.drop 1)

/-- The words of a name that is to be a label. -/
def labelWords (name : List Char) : List (List Char) :=
  let cs := dropEnding ".routes" (dropSourceSuffix name)
  let cs := match Text.afterWord? "routes".toList cs with
    | some rest => if Text.atEnd rest then rest else cs
    | none => cs
  let spaced := Text.replaceMatches (Text.runRule (fun c => ['_', '-', '.'].contains c) [' ']) cs
  (Text.wordsChars (Text.replaceMatches humpRule spaced)).map capitalized

/-- `user-profile.routes.ts` as `User Profile`; nothing at all as `General`. -/
def clean (name : String) : String :=
  match labelWords name.toList with
  | [] => "General"
  | words => String.intercalate " " (words.map String.ofList)

/-- Stems of file names that say nothing about what is in the file. -/
def genericStems : List String :=
  ["index", "routes", "route", "controller", "handler", "router", "app", "main", "server"]

/-- What a file's name says about its subject; empty when it says nothing. -/
def fileStem (name : String) : String :=
  let cs := dropSourceSuffix name.toList
  let routes (cs : List Char) := do
    let rest ← Text.afterWord? ".route".toList cs
    return (afterLetter? ['s'] rest).getD rest
  let cs := Text.replaceMatches (endingRule routes) cs
  let cs := dropGrpc (dropEnding "router" (dropEnding ".controller" cs))
  let stem := String.ofList (Text.stripChars (fun c => [' ', '.', '-', '_'].contains c) cs)
  if genericStems.contains (Text.lower stem) then "" else stem

end RouteAtlas.Label
