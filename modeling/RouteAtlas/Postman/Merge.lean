/-
  A fresh collection merged into the persisted one.

  The fresh tree decides folders, names and order.  A request that was persisted under the same key
  keeps every field that the synthesis does not own, such as tests, scripts and settings, and the
  headers added by hand; saved responses are replaced only when there are none.

  A persisted request whose endpoint is gone is marked as deprecated and put at the end of its
  folder, or of the collection when the folder is gone too; or it is dropped, if so wished.
-/
import RouteAtlas.Postman.Item

namespace RouteAtlas.Postman

open Persisted (Fault)

/-- The persisted requests by key; of several with one key, the last. -/
def persisted (items : List Item) : Except Fault (Dict (FolderPath × Dict Json)) := do
  let keyed ← (flatten items).mapM fun (path, leaf) => do
    return (← Item.key? leaf).map fun key => (key, path, leaf)
  return Dict.ofList (keyed.filterMap id)

/-- The fields of a fresh request over those of the persisted one. -/
def mergeRequest (fresh existing : Dict Json) : Except Fault (Dict Json) := do
  let method := Json.orElse (Dict.get? fresh "method") (Dict.get? existing "method")
  let url := ((Dict.get? fresh "url") <|> (Dict.get? existing "url")).getD .null
  let headers ← Persisted.mergeHeaderFields "key" (Dict.get? fresh "header") (Dict.get? existing "header")
  let merged := Dict.putAll existing [("method", method), ("url", url), ("header", headers)]
  let merged := match Dict.get? fresh "description" with
    | some text => if text.truthy then Dict.put merged "description" text else merged
    | none => merged
  return if Persisted.isBodyless method then Dict.erase merged "body"
    else match Dict.get? fresh "body" with
      | some body => Dict.put merged "body" body
      | none => merged

/-- A fresh item over the persisted one with the same key. -/
def mergeLeaf (fresh existing : Dict Json) : Except Fault (Dict Json) := do
  let name := Json.orElse (Dict.get? fresh "name") (Dict.get? existing "name")
  let request ← mergeRequest (Item.requestOf fresh) (Item.requestOf existing)
  let merged := Dict.putAll existing [("name", name), ("request", .obj request)]
  return match Dict.get? fresh "response" with
    | some response =>
      if ((Dict.get? merged "response").getD .null).truthy then merged
      else Dict.put merged "response" response
    | none => merged

mutual
/-- A fresh item with what was persisted for its requests. -/
def refresh (previous : Dict (FolderPath × Dict Json)) : Item → Except Fault Item
  | .folder fields items => do
    let _ ← Persisted.lookupKey (Item.nameOf fields)
    return .folder fields (← refreshAll previous items)
  | .leaf fields => do
    match (← Item.key? fields).bind (Dict.get? previous) with
    | some (_, existing) => return .leaf (← mergeLeaf fields existing)
    | none => return .leaf fields
  | .other value => .error (.noMember value.kind "get")
/-- Fresh items with what was persisted for their requests. -/
def refreshAll (previous : Dict (FolderPath × Dict Json)) : List Item → Except Fault (List Item)
  | [] => .ok []
  | item :: rest => do return (← refresh previous item) :: (← refreshAll previous rest)
end

/-- Puts a request whose endpoint is gone at the end of its folder, or of the collection. -/
def putLeftover (items : List Item) (path : FolderPath) (leaf : Dict Json) :
    Except Fault (List Item) := do
  let name ← Persisted.deprecated (Dict.get? leaf "name")
  let _ ← path.mapM Persisted.lookupKey
  let marked := Item.leaf (Dict.put leaf "name" name)
  return (addTo? marked path items).getD (items ++ [marked])

/-- The keys of the requests among items. -/
def keysOf (items : List Item) : Except Fault (List String) := do
  return ((← (flatten items).mapM fun leaf => Item.key? leaf.2)).filterMap id

/-- Fresh items merged into the persisted requests. -/
def mergeItems (previous : Dict (FolderPath × Dict Json)) (fresh : List Item)
    (markDeprecated : Bool) : Except Fault (List Item) := do
  let items ← refreshAll previous fresh
  if !markDeprecated then return items
  let keys ← keysOf fresh
  let gone := previous.filter fun (key, _) => !keys.contains key
  gone.foldlM (fun items (_, path, leaf) => putLeftover items path leaf) items

/-- A fresh collection merged into the persisted one, if there is one that holds items. -/
def merge (fresh : Dict Json) (existing : Option (Dict Json)) (markDeprecated : Bool) :
    Except Fault (Dict Json) := do
  let some existing := existing | return fresh
  let some (.arr old) := Dict.get? existing "item" | return fresh
  let previous ← persisted (Item.ofValues old)
  let new ← Persisted.sequence (← Persisted.required fresh "item")
  let items ← mergeItems previous (Item.ofValues new) markDeprecated
  let kept := existing.filter fun (name, _) => name != "variable" && name != "item"
  let info ← match Dict.get? existing "info" with
    | some info => if info.truthy then pure info else Persisted.required fresh "info"
    | none => Persisted.required fresh "info"
  return Dict.putAll kept [("info", info), ("variable", (Dict.get? fresh "variable").getD (.arr [])),
    ("item", .arr (Item.toValues items))]

end RouteAtlas.Postman
