/-
  Where an endpoint goes: folders of a collection.

  Folders follow the sources.  In a repository of several services, the service of a file is the
  first folder and the modules on its path are the folders below.  Elsewhere the first tag of the
  endpoint is its folder, and without tags the name of its file or of the directory around it.
  Grouped by tags, the first tag alone decides.

  The service of a file is the name behind `apps` or `services` on its path, or else a directory
  that bears the name of a configured service.
-/
import RouteAtlas.Collection.Label
import RouteAtlas.Endpoint.Basic
import RouteAtlas.Settings.Basic

namespace RouteAtlas.Folder

/-- Directories that services live in. -/
def appMarkers : List String := ["apps", "services"]

/-- Directories that say nothing about what is in them. -/
def ignoredDirs : List String :=
  ["src", "modules", "module", "routes", "route", "controllers", "controller", "api", "http", "grpc",
   "rest", "internal", "public", "server", "main", "dist", "build", "domain", "application", "infra",
   "infrastructure", "shared", "common", "handlers", "handler", "v1", "v2", "v3", "v4"]

/-- The names on a path, whichever way its slashes lean. -/
def pathNames (path : String) : List String :=
  ((Text.splitAt (fun c => c == '\\' || c == '/') path.toList).map String.ofList).filter
    fun n => n != "" && n != "."

/-- A text, or another if it is empty. -/
def orElse (text other : String) : String := if text == "" then other else text

/-- The text without its last `n` characters. -/
def dropEnd (text : String) (n : Nat) : String :=
  String.ofList (text.toList.take (text.toList.length - n))

/-! ## Folders from file names -/

/-- The folder for the conventions of file names, if one applies. -/
def fromFileName? (names : List String) : Option String :=
  match names.reverse with
  | [] => none
  | file :: above =>
    let parent := above.headD ""
    let grandparent := (above.drop 1).headD ""
    let base := String.ofList (Label.dropSourceSuffix file.toList)
    let small := Text.lower base
    if base == "routes" then some (Label.clean (orElse parent grandparent))
    else if Text.endsWith ".routes" small then
      let stem := dropEnd base ".routes".length
      if parent == "routes" && grandparent != "" then some (Label.clean grandparent)
      else if stem != "" && stem != "index" then some (Label.clean stem)
      else some (Label.clean (orElse parent grandparent))
    else if Text.endsWith ".controller" small then
      let stem := dropEnd base ".controller".length
      if ["controllers", "controller"].contains parent && grandparent != "" then
        some (Label.clean grandparent)
      else if parent != "" && !(["src", "modules", "module"].contains (Text.lower parent)) then
        some (Label.clean parent)
      else
        let stem := String.ofList (Label.dropGrpc stem.toList)
        some (Label.clean (if stem != "" && stem != "index" then stem else grandparent))
    else if parent == "routes" then some (Label.clean (orElse base grandparent))
    else if parent != "" then some (Label.clean parent)
    else none

/-- The folder named for an endpoint's file, else for its tag or its path. -/
def ofFile (e : Endpoint) : String :=
  match fromFileName? (pathNames e.sourceFile) with
  | some folder => folder
  | none =>
    match e.tags with
    | tag :: _ => Label.clean tag
    | [] => Label.clean (Route.domain e.path)

/-- The folder of an endpoint's first tag. -/
def ofTag (e : Endpoint) : String :=
  match e.tags with
  | tag :: _ => Label.clean tag
  | [] => "General"

/-! ## Folders of services -/

/-- The name behind a marker, and the marker's index, when it is not the last name. -/
def behindMarker? : (index : Nat) → List String → Option (String × Nat)
  | index, a :: b :: rest =>
    if appMarkers.contains (Text.lower a) then some (b, index)
    else behindMarker? (index + 1) (b :: rest)
  | _, _ => none

/-- The service of a path: its name, and the index of the marker in front of it if there is one. -/
def detectApp (path : String) (apps : List String) : Option (String × Option Nat) :=
  let names := pathNames path
  match behindMarker? 0 names with
  | some (name, index) => some (name, some index)
  | none =>
    let known := apps.map Label.lookupName
    (names.dropLast.find? fun n => known.contains (Label.lookupName n)).map (·, none)

/-- The directories that may name modules: those below `src`, else those below the service. -/
def moduleDirs (dirs : List String) : List String :=
  match dirs.dropWhile fun d => Text.lower d != "src" with
  | [] => dirs
  | _ :: below => below

/-- The modules on a path within a service; without any, what the file's name says. -/
def moduleNames (names : List String) (app : String) (marker : Option Nat) : List String :=
  let dirs := names.dropLast.drop ((marker.map (· + 2)).getD 0)
  let own := Label.lookupName app
  let modules := (moduleDirs dirs).filter fun d =>
    Label.lookupName d != "" && !ignoredDirs.contains (Text.lower d) && Label.lookupName d != own
  match modules with
  | [] =>
    let stem := Label.fileStem (names.getLastD "")
    if stem == "" then [] else [stem]
  | modules => modules

/-- Appends the labels of modules, leaving out one that repeats the service or the one before. -/
def appendLabels (app : String) : (kept : List String) → List String → List String
  | kept, [] => kept
  | kept, name :: rest =>
    let label := Label.clean name
    let small := Text.lower label
    if small == Text.lower app || small == Text.lower (kept.getLastD app) then
      appendLabels app kept rest
    else appendLabels app (kept ++ [label]) rest

/-- The folders of a file within its service, if it belongs to one. -/
def ofService (path : String) (apps : List String) : List String :=
  match detectApp path apps with
  | none => []
  | some (app, marker) =>
    let label := Label.clean app
    match appendLabels label [] (moduleNames (pathNames path) app marker) with
    | [] => [label, "App"]
    | modules => label :: modules

/-- The folders of an endpoint, outermost first, when they follow the sources. -/
def segments (e : Endpoint) (apps : List String) : List String :=
  match ofService e.sourceFile apps with
  | [] =>
    match e.tags with
    | tag :: _ => [Label.clean tag]
    | [] => [ofFile e]
  | folders => folders

/-- The folders of an endpoint, outermost first, however endpoints are grouped. -/
def placement (grouping : Grouping) (apps : List String) (e : Endpoint) : List String :=
  match grouping with
  | .tags => [ofTag e]
  | .folder => (segments e apps).map Label.clean

/-! ## Base URLs -/

/-- The variable of a service's base URL. -/
def baseVariableOf (app : String) : String := "baseUrl_" ++ Label.variableSuffix app

/-- The variables of all services that have a lookup name, by that name. -/
def baseVariables (apps : List String) : Dict String :=
  Dict.ofList ((apps.filter fun a => Label.lookupName a != "").map fun a =>
    (Label.lookupName a, baseVariableOf a))

/-- The service variable for the name behind a marker, of the first marker that has one. -/
def variableBehindMarker? (known : Dict String) : List String → Option String
  | a :: b :: rest =>
    match Dict.get? known (Label.lookupName b) with
    | some v =>
      if appMarkers.contains (Text.lower a) then some v else variableBehindMarker? known (b :: rest)
    | none => variableBehindMarker? known (b :: rest)
  | _ => none

/-- The base-URL variable of an endpoint: that of its service, or the common one. -/
def baseVariable (e : Endpoint) (apps : List String) : String :=
  let known := baseVariables apps
  let names := pathNames e.sourceFile
  match variableBehindMarker? known names with
  | some v => v
  | none => (names.findSome? fun n => Dict.get? known (Label.lookupName n)).getD "baseUrl"

end RouteAtlas.Folder
