/-
  An export for Insomnia, version 4 of its format, made of endpoints and settings.

  An export is a flat list of resources: a workspace, its base environment, folders and requests,
  each naming its parent.  Identifiers are digests of what a resource stands for (the workspace's
  name, the path of a folder, the key of an endpoint), so the same project has the same ones every
  time.  A folder is listed before the first request that is in it.
-/
import RouteAtlas.Collection.Example
import RouteAtlas.Collection.Folder
import RouteAtlas.Collection.Wording
import RouteAtlas.Digest.Sha1

namespace RouteAtlas.Insomnia

/-- The stable identifier of what the parts describe. -/
def stableId (kind : String) (parts : List String) : String :=
  kind ++ "_" ++ String.ofList ((Digest.sha1Hex (Text.joinWith "\x00" parts)).toList.take 16)

/-- A reference to an environment variable. -/
def reference (name : String) : String := "\x7b\x7b _." ++ name ++ " \x7d\x7d"

/-- A name with a value. -/
def pairJson (name value : String) : Json := .obj [("name", .str name), ("value", .str value)]

/-! ## Requests -/

/-- The headers of an endpoint's request. -/
def headersOf (e : Endpoint) : List Json :=
  (if e.parameters.body.isSome then [pairJson "Content-Type" "application/json"] else [])
  ++ (if Wording.needsAuthorization e then
    [pairJson "Authorization" ("Bearer " ++ reference "authToken")] else [])

/-- The query parameters of an endpoint's request. -/
def parametersOf (e : Endpoint) : List Json :=
  (Example.queryEntries e.parameters.query).map fun q =>
    .obj [("name", .str q.key), ("value", .str q.value), ("disabled", .bool q.disabled)]

/-- The body of an endpoint's request, empty when it has none. -/
def bodyOf (e : Endpoint) : Json :=
  match e.parameters.body with
  | none => .obj []
  | some body => .obj [("mimeType", .str "application/json"),
      ("text", .str (Example.ofShape body).exampleText)]

/-- The request of an endpoint below a parent. -/
def requestOf (apps : List String) (parent : String) (e : Endpoint) : Dict Json :=
  let pathValues := Example.pathVariables e.path e.parameters.path
  [("_id", .str (stableId "req" [e.key])), ("_type", .str "request"), ("parentId", .str parent),
    ("name", .str (Wording.requestName e)),
    ("description", .str (Wording.requestDescription e (Wording.summary e))),
    ("method", .str e.method.word),
    ("url", .str (reference (Folder.baseVariable e apps) ++ Route.coloned e.path)),
    ("headers", .arr (headersOf e)), ("parameters", .arr (parametersOf e)), ("body", bodyOf e)]
  ++ (if pathValues.isEmpty then []
      else [("pathParameters", .arr (pathValues.map fun (k, v) => pairJson k v))])

/-! ## Folders -/

/-- The identifier of the workspace. -/
def workspaceId (workspace : String) : String := stableId "wrk" [workspace]

/-- The identifier of a folder. -/
def folderId (workspace : String) (path : List String) : String := stableId "fld" (workspace :: path)

/-- The resource of a folder below a parent. -/
def folderOf (workspace parent : String) (path : List String) : Dict Json :=
  [("_id", .str (folderId workspace path)), ("_type", .str "request_group"),
    ("parentId", .str parent), ("name", .str (path.getLastD ""))]

/-- The paths of the folders around something, outermost first. -/
def foldersAround (path : List String) : List (List String) :=
  (List.range path.length).map fun n => path.take (n + 1)

/-- The parent of what is in a folder: the folder, or the workspace when there is none. -/
def parentIn (workspace : String) (path : List String) : String :=
  if path.isEmpty then workspaceId workspace else folderId workspace path

/-- The folders and requests of endpoints; `known` holds the paths of the folders listed already. -/
def listed (grouping : Grouping) (apps : List String) (workspace : String) :
    (known : List (List String)) → List Endpoint → List (Dict Json)
  | _, [] => []
  | known, e :: rest =>
    let path := Folder.placement grouping apps e
    let new := (foldersAround path).filter fun p => !known.contains p
    new.map (fun p => folderOf workspace (parentIn workspace p.dropLast) p)
      ++ requestOf apps (parentIn workspace path) e
      :: listed grouping apps workspace (known ++ new) rest

/-! ## Documents -/

/-- The data of the base environment. -/
def environmentData (settings : Settings) : Dict Json :=
  Dict.putAll [("baseUrl", .str settings.baseUrl), ("authToken", .str "")]
    (settings.services.map fun (name, url) => (Folder.baseVariableOf name, .str url))

/-- The workspace and its base environment. -/
def frame (settings : Settings) : List (Dict Json) :=
  let workspace := settings.insomnia.workspaceName
  [[("_id", .str (workspaceId workspace)), ("_type", .str "workspace"), ("name", .str workspace)],
    [("_id", .str (stableId "env" [workspace])), ("_type", .str "environment"),
      ("parentId", .str (workspaceId workspace)), ("name", .str "Base Environment"),
      ("data", .obj (environmentData settings))]]

/-- All resources of an export. -/
def resources (settings : Settings) (endpoints : List Endpoint) : List (Dict Json) :=
  frame settings
    ++ listed settings.grouping settings.serviceNames settings.insomnia.workspaceName [] endpoints

/-- The name of the program that made an export. -/
def exportSource : String := "api-collection-sync"

/-- The export of a project's endpoints, made on `date`. -/
def document (date : String) (settings : Settings) (endpoints : List Endpoint) : Dict Json :=
  [("_type", .str "export"), ("__export_format", .int 4), ("__export_date", .str date),
    ("__export_source", .str exportSource),
    ("resources", .arr ((resources settings endpoints).map .obj))]

end RouteAtlas.Insomnia
