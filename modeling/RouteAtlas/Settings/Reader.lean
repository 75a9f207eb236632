/-
  Settings read from the value of a settings file.

  Every part is read on its own, so all problems of a file are found at once, in the order of the
  settings.  A problem names its place, outermost name first, and what is wrong there.  What is
  missing has its default, and names that mean nothing are passed over.

  Truth values may also be written as the numbers 0 and 1 and as the usual words for them.
-/
import RouteAtlas.Settings.Basic
import RouteAtlas.Settings.Yaml

namespace RouteAtlas.Settings

/-- What is wrong at a place. -/
inductive ProblemKind where
  /-- Not one of the words to choose from. -/
  | choice
  /-- No text. -/
  | text
  /-- No list. -/
  | list
  /-- No mapping, where names are given values. -/
  | mapping
  /-- No mapping, where a group of settings stands. -/
  | group
  /-- Nothing that could be a truth value. -/
  | truthKind
  /-- No number or word for a truth value. -/
  | truthWord
  deriving DecidableEq, Repr

/-- The word for a kind of problem. -/
def ProblemKind.word : ProblemKind → String
  | .choice => "literal_error"
  | .text => "string_type"
  | .list => "list_type"
  | .mapping => "dict_type"
  | .group => "model_type"
  | .truthKind => "bool_type"
  | .truthWord => "bool_parsing"

/-- A problem of a settings file. -/
structure Problem where
  place : List String
  kind : ProblemKind
  deriving DecidableEq, Repr

/-- What was read, and what was wrong with it. -/
structure Reading (α : Type) where
  value : α
  problems : List Problem := []

/-- The entries of a mapping of the file. -/
abbrev Entries := List (Yaml × Yaml)

/-! ## Single settings -/

/-- Reads what stands at a place, which is one of a name's settings; the default if nothing does. -/
def setting {α : Type} (entries : Entries) (around : List String) (name : String) (default : α)
    (read : List String → Yaml → Reading α) : Reading α :=
  match Yaml.field? entries name with
  | some value => read (around ++ [name]) value
  | none => ⟨default, []⟩

/-- A text. -/
def readText (place : List String) : Yaml → Reading String
  | .str s => ⟨s, []⟩
  | _ => ⟨"", [⟨place, .text⟩]⟩

/-- A text or null. -/
def readText? (place : List String) : Yaml → Reading (Option String)
  | .null => ⟨none, []⟩
  | value => let r := readText place value; ⟨some r.value, r.problems⟩

/-- A list of texts. -/
def readTexts (place : List String) : Yaml → Reading (List String)
  | .seq items =>
    let read := items.zipIdx.map fun (item, index) => readText (place ++ [toString index]) item
    ⟨read.map (·.value), read.flatMap (·.problems)⟩
  | _ => ⟨[], [⟨place, .list⟩]⟩

/-- A name; what is none is a problem of its own. -/
def readKey (place : List String) : Yaml → Reading String
  | .str s => ⟨s, []⟩
  | _ => ⟨"", [⟨place ++ ["[key]"], .text⟩]⟩

/-- A text for each of some names. -/
def readNamedTexts (place : List String) : Yaml → Reading (Dict String)
  | .map entries =>
    let read := entries.map fun (key, value) =>
      let here := place ++ [key.keyText]
      let k := readKey here key
      let v := readText here value
      (⟨(k.value, v.value), k.problems ++ v.problems⟩ : Reading (String × String))
    ⟨read.map (·.value), read.flatMap (·.problems)⟩
  | _ => ⟨[], [⟨place, .mapping⟩]⟩

/-- One of the given words, which stand for values. -/
def readChoice {α : Type} (choices : List (String × α)) (default : α) (place : List String) :
    Yaml → Reading α
  | .str s =>
    match Dict.get? choices s with
    | some value => ⟨value, []⟩
    | none => ⟨default, [⟨place, .choice⟩]⟩
  | _ => ⟨default, [⟨place, .choice⟩]⟩

/-- Words for truth values. -/
def truthWords : List (String × Bool) :=
  [("0", false), ("off", false), ("f", false), ("false", false), ("n", false), ("no", false),
   ("1", true), ("on", true), ("t", true), ("true", true), ("y", true), ("yes", true)]

/-- A truth value. -/
def readTruth (place : List String) (value : Yaml) : Reading Bool :=
  let ofNumber (n : Option Int) : Reading Bool :=
    match n with
    | some 0 => ⟨false, []⟩
    | some 1 => ⟨true, []⟩
    | _ => ⟨false, [⟨place, .truthWord⟩]⟩
  match value with
  | .bool b => ⟨b, []⟩
  | .int n => ofNumber (some n)
  | .float x => ofNumber x.toInt?
  | .str s =>
    match Dict.get? truthWords (String.ofList (s.toList.map Char.toLower)) with
    | some b => ⟨b, []⟩
    | none => ⟨false, [⟨place, .truthWord⟩]⟩
  | _ => ⟨false, [⟨place, .truthKind⟩]⟩

/-- A group of settings. -/
def readGroup {α : Type} (default : α) (read : List String → Entries → Reading α)
    (place : List String) : Yaml → Reading α
  | .map entries => read place entries
  | _ => ⟨default, [⟨place, .group⟩]⟩

/-! ## Groups of settings -/

/-- Which sources are read, and where the service answers. -/
def readSources (place : List String) (entries : Entries) : Reading SourceSettings :=
  let d : SourceSettings := {}
  let includes := setting entries place "include" d.includes readTexts
  let excludes := setting entries place "exclude" d.excludes readTexts
  let baseUrl := setting entries place "base_url" d.baseUrl readText?
  let services := setting entries place "app_base_urls" d.serviceUrls readNamedTexts
  ⟨⟨includes.value, excludes.value, baseUrl.value, services.value⟩,
    includes.problems ++ excludes.problems ++ baseUrl.problems ++ services.problems⟩

/-- The output for Postman. -/
def readPostman (place : List String) (entries : Entries) : Reading PostmanOutput :=
  let d : PostmanOutput := {}
  let enabled := setting entries place "enabled" d.enabled readTruth
  let path := setting entries place "output_path" d.path readText
  let name := setting entries place "collection_name" d.collectionName readText
  let key := setting entries place "api_key" d.apiKey readText?
  let id := setting entries place "collection_id" d.collectionId readText?
  ⟨⟨enabled.value, path.value, name.value, key.value, id.value⟩,
    enabled.problems ++ path.problems ++ name.problems ++ key.problems ++ id.problems⟩

/-- The output for Insomnia. -/
def readInsomnia (place : List String) (entries : Entries) : Reading InsomniaOutput :=
  let d : InsomniaOutput := {}
  let enabled := setting entries place "enabled" d.enabled readTruth
  let path := setting entries place "output_path" d.path readText
  let name := setting entries place "workspace_name" d.workspaceName readText
  ⟨⟨enabled.value, path.value, name.value⟩, enabled.problems ++ path.problems ++ name.problems⟩

/-- Both outputs. -/
def readOutputs (place : List String) (entries : Entries) : Reading (PostmanOutput × InsomniaOutput) :=
  let postman := setting entries place "postman" {} (readGroup {} readPostman)
  let insomnia := setting entries place "insomnia" {} (readGroup {} readInsomnia)
  ⟨(postman.value, insomnia.value), postman.problems ++ insomnia.problems⟩

/-- What happens to requests whose endpoint is gone. -/
def readMerge (place : List String) (entries : Entries) : Reading Bool :=
  setting entries place "mark_deprecated" true readTruth

/-- The groupings by their words. -/
def groupings : List (String × Grouping) :=
  [Grouping.folder, Grouping.tags].map fun g => (g.word, g)

/-- How endpoints are grouped. -/
def readOrganization (place : List String) (entries : Entries) : Reading Grouping :=
  setting entries place "group_by" .folder (readChoice groupings .folder)

/-- The frameworks by their words. -/
def frameworks : List (String × Framework) := Framework.all.map fun f => (f.word, f)

/-- All settings. -/
def readAll (entries : Entries) : Reading Settings :=
  let framework := setting entries [] "framework" .auto (readChoice frameworks .auto)
  let sources := setting entries [] "sources" {} (readGroup {} readSources)
  let outputs := setting entries [] "output" ({}, {}) (readGroup ({}, {}) readOutputs)
  let mark := setting entries [] "merge" true (readGroup true readMerge)
  let grouping := setting entries [] "organization" .folder (readGroup .folder readOrganization)
  ⟨⟨framework.value, sources.value, outputs.value.1, outputs.value.2, mark.value, grouping.value⟩,
    framework.problems ++ sources.problems ++ outputs.problems ++ mark.problems ++ grouping.problems⟩

/-! ## Files -/

/-- Why a settings file gives no settings. -/
inductive Fault where
  /-- The file cannot be opened. -/
  | unreadable (path reason : String)
  /-- The file's text is none of the format. -/
  | malformed (path : String)
  /-- Something else than a mapping. -/
  | noMapping (path : String)
  /-- Some settings are wrong. -/
  | invalid (path : String) (problems : List Problem)
  deriving DecidableEq, Repr

/-- The message of a fault, as far as it is the library's own. -/
def Fault.message : Fault → String
  | unreadable path reason => "Cannot read " ++ path ++ ": " ++ reason
  | malformed path => "Invalid YAML in " ++ path
  | noMapping path => path ++ ": expected a mapping at the top level"
  | invalid path _ => "Invalid configuration in " ++ path ++ ":"

/-- The settings of the file at `path`; an empty one means the defaults. -/
def ofYaml (path : String) : Yaml → Except Fault Settings
  | .null => .ok {}
  | .map entries =>
    match readAll entries with
    | ⟨settings, []⟩ => .ok settings
    | ⟨_, problems⟩ => .error (.invalid path problems)
  | _ => .error (.noMapping path)

end RouteAtlas.Settings
