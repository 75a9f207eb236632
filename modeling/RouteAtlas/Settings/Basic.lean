/-
  Settings: how a project is read, and what is written about it.

  Every setting has a default, so a project needs no settings at all.  The base URL of requests is
  the one configured, else that of the first service that has one; services without a name or a URL
  do not count.
-/
import RouteAtlas.Endpoint.Framework
import RouteAtlas.Json.Basic
import RouteAtlas.Text.Blank

namespace RouteAtlas

/-- How endpoints are grouped into folders. -/
inductive Grouping where
  | folder
  | tags
  deriving DecidableEq, Repr, Inhabited

/-- The word for a grouping. -/
def Grouping.word : Grouping → String
  | .folder => "folder"
  | .tags => "tags"

/-- Names that source files of routes have by default. -/
def defaultFileNames : List String :=
  ["routes.\x7bjs,ts\x7d", "*.routes.\x7bjs,ts\x7d", "*.controller.ts", "*router.\x7bjs,ts\x7d"]

/-- Where source files are by default. -/
def defaultRoots : List String := ["src/**", "apps/**/src/**", "services/**/src/**", "libs/**/src/**"]

/-- Which sources are read, and where the service answers. -/
structure SourceSettings where
  /-- Patterns of files to read, relative to the project. -/
  includes : List String := defaultRoots.flatMap fun root => defaultFileNames.map fun n => root ++ "/" ++ n
  /-- Patterns of files to leave out. -/
  excludes : List String :=
    ["**/*.spec.ts", "**/*.test.ts", "node_modules/**", "dist/**", "build/**"]
  baseUrl : Option String := none
  /-- Services and their base URLs, in the order of their folders. -/
  serviceUrls : Dict String := []
  deriving Inhabited, Repr

/-- The output for Postman. -/
structure PostmanOutput where
  enabled : Bool := true
  path : String := "./collections/postman-collection.json"
  collectionName : String := "API Collection"
  apiKey : Option String := none
  collectionId : Option String := none
  deriving Inhabited, Repr

/-- The output for Insomnia. -/
structure InsomniaOutput where
  enabled : Bool := true
  path : String := "./collections/insomnia-collection.json"
  workspaceName : String := "API Workspace"
  deriving Inhabited, Repr

/-- All settings of a project. -/
structure Settings where
  framework : Framework := .auto
  sources : SourceSettings := {}
  postman : PostmanOutput := {}
  insomnia : InsomniaOutput := {}
  /-- Keep requests whose endpoint is gone, marked as deprecated. -/
  markDeprecated : Bool := true
  grouping : Grouping := .folder
  deriving Inhabited, Repr

namespace Settings

/-- The base URL when nothing else is configured. -/
def defaultBaseUrl : String := "http://localhost:3000/api"

/-- The base URL of requests outside of services. -/
def baseUrl (s : Settings) : String :=
  let first := ((Dict.values s.sources.serviceUrls).map Text.trim).find? (· != "")
  match s.sources.baseUrl with
  | none | some "" => first.getD defaultBaseUrl
  | some url => url

/-- The services that have a name and a URL, in order. -/
def services (s : Settings) : List (String × String) :=
  (s.sources.serviceUrls.map fun (name, url) => (Text.trim name, Text.trim url)).filter
    fun (name, url) => name != "" && url != ""

/-- The names of the services. -/
def serviceNames (s : Settings) : List String := s.services.map (·.1)

end Settings

end RouteAtlas
