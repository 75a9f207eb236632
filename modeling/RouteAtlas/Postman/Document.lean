/-
  A collection for Postman, version 2.1 of its format, made of endpoints and settings.

  Every endpoint becomes one request in the folder it belongs to, in the order of the endpoints.
  Grouped by folder, the folders of the configured services come first, in their order, and the
  others after them by name; without services, and when grouped by tags, folders stay in order of
  first appearance.
-/
import RouteAtlas.Collection.Example
import RouteAtlas.Collection.Folder
import RouteAtlas.Collection.Wording
import RouteAtlas.Postman.Item

namespace RouteAtlas.Postman

/-- A JSON object of texts. -/
def textFields (fields : List (String × String)) : Json := .obj (fields.map fun (k, v) => (k, .str v))

/-- A field that is there only under a condition. -/
def fieldIf (condition : Bool) (name : String) (value : Json) : List (String × Json) :=
  if condition then [(name, value)] else []

/-! ## Requests -/

/-- The example of a body as text. -/
def bodyText (body : Shape) : String := (Example.ofShape body).exampleText

/-- The headers of an endpoint's request. -/
def headersOf (e : Endpoint) : List Json :=
  (if e.parameters.body.isSome then
    [textFields [("key", "Content-Type"), ("value", "application/json"), ("type", "text")]] else [])
  ++ (if Wording.needsAuthorization e then
    [textFields [("key", "Authorization"), ("value", "Bearer " ++ Example.reference "authToken"),
      ("type", "text")]] else [])

/-- A query parameter. -/
def queryJson (q : Example.QueryEntry) : Json :=
  .obj ([("key", .str q.key), ("value", .str q.value)] ++ fieldIf q.disabled "disabled" (.bool true))

/-- The part of a URL behind its path: the query parameters that are switched on. -/
def queryText (query : List Example.QueryEntry) : String :=
  match Text.joinWith "&" ((query.filter fun q => !q.disabled).map fun q => q.key ++ "=" ++ q.value) with
  | "" => ""
  | text => "?" ++ text

/-- The URL of an endpoint's request. -/
def urlOf (e : Endpoint) (apps : List String) : Json :=
  let path := Route.doubleBraced e.path
  let host := Example.reference (Folder.baseVariable e apps)
  let query := Example.queryEntries e.parameters.query
  let pathValues := Example.pathVariables e.path e.parameters.path
  .obj ([("raw", .str (host ++ path ++ queryText query)), ("host", .arr [.str host]),
      ("path", .arr ((Route.segments path).map .str))]
    ++ fieldIf (!query.isEmpty) "query" (.arr (query.map queryJson))
    ++ fieldIf (!pathValues.isEmpty) "variable"
        (.arr (pathValues.map fun (k, v) => textFields [("key", k), ("value", v)])))

/-- The body of a request. -/
def bodyJson (body : Shape) : Json :=
  .obj [("mode", .str "raw"), ("raw", .str (bodyText body)),
    ("options", .obj [("raw", textFields [("language", "json")])])]

/-- The request of an endpoint. -/
def requestOf (e : Endpoint) (apps : List String) : Dict Json :=
  [("method", .str e.method.word), ("header", .arr (headersOf e)), ("url", urlOf e apps),
    ("description", .str (Wording.requestDescription e (Wording.summary e)))]
  ++ (e.parameters.body.map fun body => ("body", bodyJson body)).toList

/-! ## Saved responses -/

/-- The number a text of digits writes, digits of any script.  It is for the statuses that are
    documented: codes such as `200`, and words such as `default`, which are no numbers.  Neither other
    signs for digits (as in `20²`) nor numerals of thousands of digits are such statuses; a program may
    fail on them, and no fault is given for them here. -/
def digitsValue? (text : String) : Option Nat :=
  if text == "" then none
  else (text.toList.mapM Text.digitValue?).map (·.foldl (fun n d => 10 * n + d) 0)

/-- A documented response as a saved one. -/
def responseJson (request : Dict Json) (r : Response) : Json :=
  .obj ([("name", .str (Folder.orElse r.description (r.status ++ " response"))),
      ("originalRequest", .obj request), ("status", .str r.description),
      ("_postman_previewlanguage", .str "json"),
      ("header", .arr [textFields [("key", "Content-Type"), ("value", "application/json")]]),
      ("body", .str ((r.body.map bodyText).getD ""))]
    ++ ((digitsValue? r.status).map fun code => ("code", Json.int code)).toList)

/-- The item of an endpoint. -/
def itemOf (apps : List String) (e : Endpoint) : Dict Json :=
  let request := requestOf e apps
  [("name", .str (Wording.requestName e)), ("request", .obj request)]
  ++ fieldIf (!e.responses.isEmpty) "response" (.arr (e.responses.map (responseJson request)))

/-! ## Folders -/

/-- The items of all endpoints, each in its folder. -/
def placed (grouping : Grouping) (apps : List String) (endpoints : List Endpoint) : List Item :=
  endpoints.foldl (fun items e => addAt (.leaf (itemOf apps e)) (Folder.placement grouping apps e) items) []

/-- The name of an item. -/
def itemName : Item → String
  | .folder fields _ | .leaf fields => ((Dict.get? fields "name").bind Json.string?).getD ""
  | .other _ => ""

/-- The places of services among the folders, by name in small letters; the last of a name counts. -/
def ranks (apps : List String) : Dict Nat :=
  Dict.ofList ((apps.map fun a => Text.lower (Label.clean a)).zipIdx)

/-- The folders of services in their order, the others after them by name. -/
def inServiceOrder (apps : List String) (items : List Item) : List Item :=
  if apps.isEmpty then items
  else
    let known := ranks apps
    let rank (item : Item) : Nat := (Dict.get? known (Text.lower (itemName item))).getD known.length
    items.mergeSort fun a b =>
      if rank a == rank b then Text.textLe (itemName a) (itemName b) else rank a < rank b

/-- The items of a collection. -/
def items (settings : Settings) (endpoints : List Endpoint) : List Item :=
  let apps := settings.serviceNames
  match settings.grouping with
  | .folder => inServiceOrder apps (placed .folder apps endpoints)
  | .tags => placed .tags apps endpoints

/-! ## Documents -/

/-- The format's name. -/
def schemaUrl : String := "https://schema.getpostman.com/json/collection/v2.1.0/collection.json"

/-- A collection variable. -/
def variableJson (name value : String) : Json :=
  textFields [("key", name), ("value", value), ("type", "string")]

/-- The variables of a collection: base URLs, and the values that requests share. -/
def collectionVariables (settings : Settings) : List Json :=
  variableJson "baseUrl" settings.baseUrl
    :: Example.sharedVariables.map (variableJson · "")
    ++ settings.services.map fun (name, url) => variableJson (Folder.baseVariableOf name) url

/-- The collection of a project's endpoints; `id` is the identifier of a new one. -/
def document (id : String) (settings : Settings) (endpoints : List Endpoint) : Dict Json :=
  [("info", textFields [("_postman_id", id), ("name", settings.postman.collectionName),
      ("schema", schemaUrl)]),
    ("variable", .arr (collectionVariables settings)),
    ("item", .arr (Item.toValues (items settings endpoints)))]

end RouteAtlas.Postman
