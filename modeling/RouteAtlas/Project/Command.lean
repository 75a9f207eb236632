/-
  The command line.

  `sync` synchronizes a project and says what it did; `extract` prints the endpoints.  Warnings and
  skipped files go to the error output, so that what is printed can be read by a program.  A failure
  that is the user's to mend is told in one line; the exit code says whether all went well.
-/
import RouteAtlas.Endpoint.Printer
import RouteAtlas.Project.Sync

namespace RouteAtlas.Project

open Source (Location)

/-- What a command is asked for. -/
inductive Verb where
  | sync
  | extract
  deriving DecidableEq, Repr

/-- The verb of a word. -/
def Verb.ofWord? (word : String) : Option Verb :=
  match word with
  | "sync" => some .sync
  | "extract" => some .extract
  | _ => none

/-- The options of a command. -/
structure Options where
  config : Option String := none
  directory : Option String := none
  framework : Option String := none
  apiKey : Option String := none
  collectionId : Option String := none
  deriving Inhabited, Repr

/-- Sets the option of a name; none when there is no such option. -/
def Options.set? (o : Options) (name value : String) : Option Options :=
  match name with
  | "-c" | "--config" => some { o with config := some value }
  | "--cwd" => some { o with directory := some value }
  | "--framework" => some { o with framework := some value }
  | "--postman-key" => some { o with apiKey := some value }
  | "--postman-id" => some { o with collectionId := some value }
  | _ => none

/-- The name and value of an argument that holds both: a long name before an equals sign, or a short
    one directly before its value. -/
def splitArgument? (argument : String) : Option (String × String) :=
  match argument.toList with
  | '-' :: '-' :: rest =>
    match rest.dropWhile (· != '=') with
    | [] => none
    | _ :: value => some (String.ofList ('-' :: '-' :: rest.takeWhile (· != '=')), String.ofList value)
  | '-' :: letter :: c :: value => some (String.ofList ['-', letter], String.ofList (c :: value))
  | _ => none

/-- Reads arguments into options. -/
def Options.read? (o : Options) : List String → Option Options
  | [] => some o
  | argument :: rest =>
    match splitArgument? argument with
    | some (name, value) => (o.set? name value).bind (·.read? rest)
    | none =>
      match rest with
      | value :: rest => (o.set? argument value).bind (·.read? rest)
      | [] => none

/-- What a command leaves behind, besides the changed world. -/
structure Outcome where
  exitCode : Nat := 0
  output : String := ""
  errors : String := ""
  deriving Inhabited, Repr

/-- Lines of output. -/
def linesOf (texts : List String) : String := String.join (texts.map (· ++ "\n"))

/-- What is said about problems met on the way. -/
def noticesOf (d : Diagnostics) : List String :=
  d.warnings.map (fun w => "Warning: " ++ w)
    ++ d.errors.map fun (file, message) => "Error: " ++ file ++ ": " ++ message

/-- What is said about a failure; of one that is not the user's to mend, nothing. -/
def failureNotices : Failure → List String
  | .settings fault => ["Error: " ++ fault.message]
  | .push fault => ["Error: " ++ fault.message]
  | _ => []

/-- What a synchronization says it did. -/
def summaryOf (r : Report) : List String :=
  ["Found " ++ toString r.endpoints.length ++ " endpoints in " ++ toString r.files.length
    ++ " files (framework: " ++ r.framework ++ ")."]
  ++ r.written.map (fun path => "  Wrote " ++ path)
  ++ (if r.pushed then ["Pushed collection to Postman."] else [])

/-- The outcome of a failed command that has printed `before`. -/
def failed (before : List String) (failure : Failure) : Outcome :=
  ⟨1, linesOf before, linesOf (failureNotices failure)⟩

/-- The given option, or what a variable of the surroundings holds. -/
def optionOr (given : Option String) (environment : Dict String) (name : String) : Option String :=
  match given with
  | some value => some value
  | none => (Dict.get? environment name).filter (· != "")

/-- Runs a verb on a world, in the directory `current`. -/
def runVerb (around : Surroundings) (environment : Dict String) (current : Location) (verb : Verb)
    (o : Options) (world : World) : Outcome × World :=
  let directory := match o.directory with
    | some path => (current.join (Location.ofText path)).tidy
    | none => current
  let (file, root) := settingsPlace world.tree directory (o.config.map Location.ofText)
  match loadSettings world.tree file with
  | .error failure => (failed [] failure, world)
  | .ok settings =>
    match verb with
    | .extract =>
      match gather world.tree root settings o.framework with
      | .error failure => (failed [] failure, world)
      | .ok report =>
        let endpoints := Json.arr (report.endpoints.map Endpoint.toJson)
        (⟨0, linesOf [endpoints.documentText], linesOf (noticesOf report.diagnostics)⟩, world)
    | .sync =>
      let scanning := "Scanning " ++ root.text ++ "..."
      let key := optionOr o.apiKey environment "POSTMAN_API_KEY"
      let id := optionOr o.collectionId environment "POSTMAN_COLLECTION_ID"
      match (sync around root settings o.framework key id).run.run world with
      | (.error failure, world) => (failed [scanning] failure, world)
      | (.ok report, world) =>
        (⟨0, linesOf (scanning :: summaryOf report), linesOf (noticesOf report.diagnostics)⟩, world)

/-- Runs a command line; what is no command has no effect but its exit code. -/
def runCommand (around : Surroundings) (environment : Dict String) (current : Location)
    (arguments : List String) (world : World) : Outcome × World :=
  match arguments with
  | [] => (⟨2, "", ""⟩, world)
  | word :: rest =>
    match Verb.ofWord? word, ({} : Options).read? rest with
    | some verb, some options => runVerb around environment current verb options world
    | _, _ => (⟨2, "", ""⟩, world)

end RouteAtlas.Project
