/-
  One synchronization of a project: from sources to collections.

  The settings are loaded, the sources found and searched for endpoints, the collections built from
  them, merged into the ones that are there, and written; last, the collection is sent to the
  collection service, if a key and an identifier are given.  What is done stays done when a later
  step fails: a `Run` keeps the state of the world beside the failure.

  A collection that cannot be read counts as none, with a warning.
-/
import RouteAtlas.Cloud.Push
import RouteAtlas.Endpoint.Survey
import RouteAtlas.Insomnia.Document
import RouteAtlas.Insomnia.Merge
import RouteAtlas.Postman.Document
import RouteAtlas.Postman.Merge
import RouteAtlas.Project.Discovery
import RouteAtlas.Settings.Reader

namespace RouteAtlas.Project

open Source (Location)

/-- Why a run fails. -/
inductive Failure where
  | settings (fault : Settings.Fault)
  /-- The settings file is no text. -/
  | settingsBytes (fault : Text.DecodeFault)
  | pattern (fault : PatternFault)
  | unknownFramework (word : String)
  | document (fault : Persisted.Fault)
  | path (fault : PathFault)
  | push (fault : Cloud.Fault)

/-- The message of a failure. -/
def Failure.message : Failure → String
  | settings fault => fault.message
  | settingsBytes fault => fault.message
  | pattern fault => fault.message
  | unknownFramework word => Framework.unknownMessage word
  | document fault => fault.message
  | path fault => fault.message
  | push fault => fault.message

/-! ## Settings -/

/-- The name of the settings file. -/
def settingsName : String := "api-sync.yaml"

/-- The settings file and the project it is for.  A directory, or a name without a suffix that is
    not there, is the project; a file's directory is its project. -/
def settingsPlace (t : Tree) (current : Location) : Option Location → Location × Location
  | none => (current.child settingsName, current)
  | some path =>
    let target := current.join path
    if t.isDir target || (!t.isThere target && target.suffix == "") then
      (target.child settingsName, target)
    else if t.isThere target then (target, target.parent)
    else (target, current)

/-- Loads a settings file; one that is not there means the defaults. -/
def loadSettings (t : Tree) (path : Location) : Except Failure Settings :=
  match t.read? path with
  | .ok none => .ok {}
  | .ok (some (entry, _)) =>
    match entry.settings with
    | some value => (Settings.ofYaml path.text value).mapError .settings
    | none => .error (.settings (.malformed path.text))
  | .error (.path fault) => .error (.settings (.unreadable path.text fault.message))
  | .error (.bytes fault) => .error (.settingsBytes fault)

/-! ## Endpoints -/

/-- What a run gives. -/
structure Report where
  files : List String := []
  endpoints : List Endpoint := []
  framework : String := "none"
  /-- The documents written, in order. -/
  written : List String := []
  pushed : Bool := false
  diagnostics : Diagnostics := {}
  deriving Inhabited

/-- Adds a warning. -/
def Report.warn (r : Report) (warning : String) : Report :=
  { r with diagnostics := { r.diagnostics with warnings := r.diagnostics.warnings ++ [warning] } }

/-- A path below the project as it is written in a report; a path elsewhere is written in full.
    Relative paths start at `current`. -/
def relativePath (current root path : Location) : String :=
  match (current.join path).tidy.below? (current.join root).tidy with
  | some names => Location.text ⟨"", names⟩
  | none => path.text

/-- The framework of a run: the one asked for, else the one configured. -/
def frameworkFor (settings : Settings) (asked : Option String) : Except Failure Framework :=
  match asked with
  | none | some "" => .ok settings.framework
  | some word =>
    match Framework.ofWord? word with
    | some framework => .ok framework
    | none => .error (.unknownFramework word)

/-- Finds the endpoints of a project. -/
def gather (t : Tree) (root : Location) (settings : Settings) (asked : Option String) :
    Except Failure Report := do
  let found ← (discover t root settings.sources.includes settings.sources.excludes).mapError .pattern
  let report : Report := { diagnostics := { warnings := found.notes } }
  if found.files.isEmpty then
    return report.warn ("No source files matched under " ++ root.text)
  let framework ← frameworkFor settings asked
  let survey := Survey.run (t.bundle found.files) framework
  let here (path : Location) := relativePath root root path
  return { report with
    files := found.files.map here
    endpoints := survey.endpoints.map fun e =>
      { e with sourceFile := here (Location.ofText e.sourceFile) }
    framework := survey.framework
    diagnostics := {
      errors := survey.diagnostics.errors
      warnings := report.diagnostics.warnings ++ survey.diagnostics.warnings } }

/-! ## Documents -/

/-- The document at a path, and what is said when there is something else. -/
def existingDocument (t : Tree) (path : Location) : Option (Dict Json) × List String :=
  let ignored (reason : String) : Option (Dict Json) × List String :=
    (none, ["Ignoring existing collection at " ++ path.text ++ ": " ++ reason])
  match t.read? path with
  | .ok none => (none, [])
  | .error fault => ignored fault.message
  | .ok (some (_, text)) =>
    match Json.read text.toList with
    | .error fault => ignored (fault.message text.toList)
    | .ok (.obj fields) => (some fields, [])
    | .ok _ => ignored "not a JSON object"

/-- The text of a document's file. -/
def documentText (document : Dict Json) : String := (Json.obj document).documentText ++ "\n"

/-! ## Runs -/

/-- What is outside of a run: the files, and the requests sent so far. -/
structure World where
  tree : Tree
  sent : List Cloud.Request := []

/-- A step of a run, which may fail. -/
abbrev Run := ExceptT Failure (StateM World)

/-- What a run is given by its surroundings: an identifier and a date for new documents, and what
    the collection service replies. -/
structure Surroundings where
  newId : String
  today : String
  reply : Cloud.Reply

/-- A fallible value as a step. -/
def Run.ofExcept {α : Type} (value : Except Failure α) : Run α := ExceptT.mk (pure value)

/-- Merges a document into the one at a path, and writes it. -/
def update (path : Location) (report : Report)
    (merge : Option (Dict Json) → Except Persisted.Fault (Dict Json)) : Run (Dict Json × Report) := do
  let (existing, warnings) := existingDocument (← get).tree path
  let document ← Run.ofExcept ((merge existing).mapError .document)
  let tree ← Run.ofExcept (((← get).tree.write path (documentText document)).mapError .path)
  modify ({ · with tree })
  let report := warnings.foldl Report.warn report
  return (document, { report with written := report.written ++ [path.text] })

/-- Updates the collection for Postman, if it is wanted. -/
def updatePostman (around : Surroundings) (root : Location) (settings : Settings) (report : Report) :
    Run (Option (Dict Json) × Report) := do
  if !settings.postman.enabled then return (none, report)
  let fresh := Postman.document around.newId settings report.endpoints
  let (document, report) ← update (root.join (Location.ofText settings.postman.path)) report
    fun existing => Postman.merge fresh existing settings.markDeprecated
  return (some document, report)

/-- Updates the export for Insomnia, if it is wanted. -/
def updateInsomnia (around : Surroundings) (root : Location) (settings : Settings) (report : Report) :
    Run Report := do
  if !settings.insomnia.enabled then return report
  let fresh := Insomnia.document around.today settings report.endpoints
  let (_, report) ← update (root.join (Location.ofText settings.insomnia.path)) report
    fun existing => Insomnia.merge fresh existing settings.markDeprecated
  return report

/-- The first of two texts that is not empty, or the empty one. -/
def firstGiven (asked configured : Option String) : String :=
  match asked with
  | none | some "" => configured.getD ""
  | some text => text

/-- Sends the collection, if there is one and it is known where to. -/
def push (around : Surroundings) (key id : String) (document : Option (Dict Json)) (report : Report) :
    Run Report := do
  if key == "" && id == "" then return report
  if key == "" || id == "" then
    let missing := if key == "" then "POSTMAN_API_KEY" else "POSTMAN_COLLECTION_ID"
    return report.warn ("Skipping Postman Cloud sync: " ++ missing ++ " is missing")
  match document with
  | none => return report
  | some document =>
    modify fun world => { world with sent := world.sent ++ [⟨key, id, document⟩] }
    let _ ← Run.ofExcept ((Cloud.read around.reply).mapError .push)
    return { report with pushed := true }

/-- One synchronization of the project at `root`. -/
def sync (around : Surroundings) (root : Location) (settings : Settings)
    (framework key id : Option String) : Run Report := do
  let report ← Run.ofExcept (gather (← get).tree root settings framework)
  let (document, report) ← updatePostman around root settings report
  let report ← updateInsomnia around root settings report
  push around (firstGiven key settings.postman.apiKey) (firstGiven id settings.postman.collectionId)
    document report

end RouteAtlas.Project
