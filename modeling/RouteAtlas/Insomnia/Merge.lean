/-
  A fresh export merged into the persisted one.

  The identifiers that the persisted export already uses are kept: those of its workspace, of its
  base environment, and of every folder with the same path; the fresh resources are renamed to
  them before anything else.  A request that was persisted under the same key keeps its identifier
  and every field that the synthesis does not own, and an environment the values filled in by hand.

  A persisted request whose endpoint is gone is marked as deprecated and moved into the fresh folder
  with the path of its old one, or into the workspace when there is none; or it is dropped, if so
  wished.  Further environments and resources of other kinds pass through as they are.
-/
import RouteAtlas.Insomnia.Resource

namespace RouteAtlas.Insomnia

open Persisted (Fault lookupKey required)
open Resource (ofKind fieldOrNull)

/-! ## One resource over another -/

/-- A fresh request over the persisted one with the same key. -/
def mergeRequest (fresh existing : Resource) : Except Fault Resource := do
  let method := Json.orElse (Dict.get? fresh "method") (Dict.get? existing "method")
  let headers ← Persisted.mergeHeaderFields "name" (Dict.get? fresh "headers") (Dict.get? existing "headers")
  let merged := Dict.putAll existing
    [("name", Json.orElse (Dict.get? fresh "name") (Dict.get? existing "name")), ("method", method),
      ("url", Json.orElse (Dict.get? fresh "url") (Dict.get? existing "url")),
      ("parentId", fieldOrNull fresh "parentId"), ("headers", headers)]
  let description := fieldOrNull fresh "description"
  let merged := if description.truthy then Dict.put merged "description" description else merged
  let body := fieldOrNull fresh "body"
  return if Persisted.isBodyless method then Dict.put merged "body" (.obj [])
    else if body.truthy then Dict.put merged "body" body
    else merged

/-- Is the value of a variable left open? -/
def isOpen : Json → Bool
  | .null | .str "" => true
  | _ => false

/-- Fresh variables over persisted ones: a value left open replaces nothing. -/
def mergeData (fresh existing : Dict Json) : Dict Json :=
  fresh.foldl (fun data (name, value) =>
    if isOpen value && Dict.has data name then data else Dict.put data name value) existing

/-- The variables of an environment, which may be missing in any way. -/
def variablesOf (r : Resource) : Except Fault (Dict Json) :=
  match Json.orElse (Dict.get? r "data") (some (.obj [])) with
  | .obj fields => .ok fields
  | value => .error (.noMember value.kind "items")

/-- A fresh environment over the persisted one. -/
def mergeEnvironment (fresh existing : Resource) : Except Fault Resource := do
  let old ← Persisted.fieldsOf (Json.orElse (Dict.get? existing "data") (some (.obj [])))
  let data := mergeData (← variablesOf fresh) old
  return Dict.putAll existing
    [("name", Json.orElse (Dict.get? fresh "name") (Dict.get? existing "name")),
      ("parentId", fieldOrNull fresh "parentId"), ("data", .obj data)]

/-! ## Identifiers -/

/-- The identifier of a resource, which has to have one. -/
def idOf (r : Resource) : Except Fault Json := do lookupKey (← required r "_id")

/-- The first of the fresh resources stands for the first of the persisted ones, if both are there. -/
def standIn (fresh existing : List Resource) : Except Fault (List (Json × Json)) :=
  match fresh, existing with
  | new :: _, old :: _ => do
    let target ← required old "_id"
    return [(← idOf new, target)]
  | _, _ => .ok []

/-- The environments below the first workspace, or all of them when there are none below it. -/
def baseEnvironments (existing : List Resource) : Except Fault (List Resource) := do
  let workspaces ← ((ofKind "workspace" existing).take 1).mapM fun w => lookupKey (fieldOrNull w "_id")
  let all := ofKind "environment" existing
  let below ← all.filterM fun e => do
    return workspaces.contains (← lookupKey (fieldOrNull e "parentId"))
  return if below.isEmpty then all else below

/-- Folders by their path; of several with one path, the last. -/
def foldersByPath (paths : List (Json × FolderPath)) : Except Fault (List (FolderPath × Json)) := do
  let entries ← paths.mapM fun (id, path) => do return (← lookupPath path, id)
  return Dict.ofList entries

/-- What the fresh identifiers become: those the persisted export already uses. -/
def newNames (fresh existing : List Resource) : Except Fault (List (Json × Json)) := do
  let workspaces ← standIn (ofKind "workspace" fresh) (ofKind "workspace" existing)
  let environments ← standIn (ofKind "environment" fresh) (← baseEnvironments existing)
  let old ← foldersByPath ((← folderPaths existing).filter fun p => !p.2.isEmpty)
  let folders ← (← folderPaths fresh).filterMapM fun (id, path) => do
    return (Dict.get? old (← lookupPath path)).map (id, ·)
  return Dict.putAll [] (workspaces ++ environments ++ folders)

/-- The new identifier. -/
def renamed (names : List (Json × Json)) (id : Json) : Except Fault Json := do
  return (Dict.get? names (← lookupKey id)).getD id

/-- The resource with its identifier and its parent's renamed. -/
def rename (names : List (Json × Json)) (r : Resource) : Except Fault Resource := do
  let r := Dict.put r "_id" (← renamed names (← required r "_id"))
  match Dict.get? r "parentId" with
  | some parent => return Dict.put r "parentId" (← renamed names parent)
  | none => return r

/-! ## Exports -/

/-- The key of a request. -/
def key? (r : Resource) : Except Fault (Option String) :=
  Persisted.key? (fieldOrNull r "method") (fieldOrNull r "url")

/-- The persisted requests by key; of several with one key, the last. -/
def persisted (existing : List Resource) : Except Fault (Dict Resource) := do
  let keyed ← (ofKind "request" existing).mapM fun r => do return (← key? r).map (·, r)
  return Dict.ofList (keyed.filterMap id)

/-- What the persisted export knows. -/
structure Known where
  names : List (Json × Json)
  environments : List (Json × Resource)
  requests : Dict Resource

/-- What a persisted export knows that a fresh one is merged into. -/
def Known.of (fresh existing : List Resource) : Except Fault Known := do
  let names ← newNames fresh existing
  let environments ← (ofKind "environment" existing).mapM fun e => do
    return (← lookupKey (fieldOrNull e "_id"), e)
  return ⟨names, Dict.ofList environments, ← persisted existing⟩

/-- A fresh resource with what was persisted for it. -/
def refresh (known : Known) (fresh : Json) : Except Fault Resource := do
  let r ← rename known.names (← Persisted.fieldsOf fresh)
  if r.isA "request" then
    match (← key? r).bind (Dict.get? known.requests) with
    | some old => mergeRequest r old
    | none => return r
  else if r.isA "environment" then
    match Dict.get? known.environments (fieldOrNull r "_id") with
    | some old => mergeEnvironment r old
    | none => return r
  else return r

/-- A persisted request whose endpoint is gone, in the folder it belongs to now. -/
def leftover (oldPaths : List (Json × FolderPath)) (folders : List (FolderPath × Json)) (r : Resource) :
    Except Fault Resource := do
  let name ← Persisted.deprecated (Dict.get? r "name")
  let parent ← lookupKey (fieldOrNull r "parentId")
  let path ← lookupPath ((Dict.get? oldPaths parent).getD [])
  let root := (Dict.get? folders []).getD .null
  return Dict.putAll r [("name", name), ("parentId", (Dict.get? folders path).getD root)]

/-- The persisted requests that no fresh one has the key of, put into the merged folders. -/
def leftovers (known : Known) (fresh existing merged : List Resource) :
    Except Fault (List Resource) := do
  let keys ← (ofKind "request" fresh).mapM key?
  let oldPaths ← folderPaths existing
  let folders ← foldersByPath (← folderPaths merged)
  let gone := known.requests.filter fun (key, _) => !keys.contains (some key)
  gone.mapM fun (_, r) => leftover oldPaths folders r

/-- The kinds that a synthesis makes itself. -/
def ownKinds : List String := ["workspace", "environment", "request_group", "request"]

/-- The persisted resources that pass through: other kinds, and environments that are not there yet. -/
def passing (existing merged : List Resource) : Except Fault (List Resource) := do
  let kept ← merged.mapM fun r => lookupKey (fieldOrNull r "_id")
  existing.filterM fun r => do
    let _ ← lookupKey (fieldOrNull r "_type")
    if !ownKinds.any fun k => r.isA k then return true
    else if r.isA "environment" then return !kept.contains (← lookupKey (fieldOrNull r "_id"))
    else return false

/-- Fresh resources merged into persisted ones. -/
def mergeResources (fresh : List Json) (existing : List Resource) (markDeprecated : Bool) :
    Except Fault (List Resource) := do
  let known ← Known.of (Resource.ofValues fresh) existing
  let merged ← fresh.mapM (refresh known)
  let merged ← if markDeprecated then
      pure (merged ++ (← leftovers known (Resource.ofValues fresh) existing merged))
    else pure merged
  return merged ++ (← passing existing merged)

/-- The fields of an export that describe it. -/
def headFields : List String := ["_type", "__export_format", "__export_date", "__export_source"]

/-- A fresh export merged into the persisted one, if there is one that holds resources. -/
def merge (fresh : Dict Json) (existing : Option (Dict Json)) (markDeprecated : Bool) :
    Except Fault (Dict Json) := do
  let some existing := existing | return fresh
  let some (.arr old) := Dict.get? existing "resources" | return fresh
  let new ← Persisted.sequence (← required fresh "resources")
  let resources ← mergeResources new (Resource.ofValues old) markDeprecated
  let head ← headFields.mapM fun name => do return (name, ← required fresh name)
  let merged := head.foldl (fun merged (name, value) => Dict.putNew merged name value) existing
  return Dict.put merged "resources" (.arr (resources.map .obj))

end RouteAtlas.Insomnia
