/-
  The items of a collection: folders and requests.

  An item is a folder when its field `item` is a list, and holds a request otherwise; what is no
  object at all is carried along.  `Item.ofJson` reads an item of a document and `toJson` writes it
  back, with all its fields in their order.

  `flatten` lists the requests with the names of the folders they are in, which need not be texts;
  two such paths are one when their names count as one.
-/
import RouteAtlas.Persisted.Header

namespace RouteAtlas.Postman

open Persisted (Fault)

/-- An item of a collection. -/
inductive Item where
  /-- A folder: its fields, and the items that its field `item` holds. -/
  | folder (fields : Dict Json) (items : List Item)
  /-- An object that is no folder. -/
  | leaf (fields : Dict Json)
  /-- Something else. -/
  | other (value : Json)
  deriving Inhabited, Repr

namespace Item

mutual
/-- Reads an item. -/
def ofJson : Json → Item
  | .obj fields =>
    match itemsAmong? fields with
    | some items => .folder fields items
    | none => .leaf fields
  | j => .other j
/-- The items of the field `item`, if it is there and a list. -/
def itemsAmong? : List (String × Json) → Option (List Item)
  | [] => none
  | (name, value) :: rest => if name == "item" then ofList? value else itemsAmong? rest
/-- Reads a list of items. -/
def ofList? : Json → Option (List Item)
  | .arr values => some (ofValues values)
  | _ => none
/-- Reads items. -/
def ofValues : List Json → List Item
  | [] => []
  | value :: rest => ofJson value :: ofValues rest
end

mutual
/-- Writes an item. -/
def toJson : Item → Json
  | .folder fields items => .obj (Dict.put fields "item" (.arr (toValues items)))
  | .leaf fields => .obj fields
  | .other value => value
/-- Writes items. -/
def toValues : List Item → List Json
  | [] => []
  | item :: rest => toJson item :: toValues rest
end

/-- A new folder. -/
def named (name : String) (items : List Item) : Item :=
  .folder [("name", .str name), ("item", .arr [])] items

/-- The name of an item's fields, empty when there is none. -/
def nameOf (fields : Dict Json) : Json := (Dict.get? fields "name").getD (.str "")

/-- The request of an item. -/
def requestOf (fields : Dict Json) : Dict Json :=
  match Dict.get? fields "request" with
  | some (.obj request) => request
  | _ => []

/-- The URL of a request, which may be given by its parts. -/
def urlOf (request : Dict Json) : Json :=
  match Dict.get? request "url" with
  | some (.obj url) =>
    match Dict.get? url "raw", Dict.get? url "path" with
    | none, some (.arr parts) | some .null, some (.arr parts) =>
      .str ("/" ++ Text.joinWith "/" (parts.map Json.shown))
    | raw, _ => raw.getD .null
  | url => url.getD .null

/-- The key of an item, if it holds a request that has one. -/
def key? (fields : Dict Json) : Except Fault (Option String) :=
  match Dict.get? fields "request" with
  | some (.obj request) =>
    Persisted.key? ((Dict.get? request "method").getD .null) (urlOf request)
  | _ => .ok none

end Item

/-! ## The requests of a tree -/

/-- The names of the folders around an item, outermost first. -/
abbrev FolderPath := List Json

mutual
/-- The requests of an item in the folder `path`. -/
def leaves (path : FolderPath) : Item → List (FolderPath × Dict Json)
  | .folder fields items => flattenAt (path ++ [Item.nameOf fields]) items
  | .leaf fields => [(path, fields)]
  | .other _ => []
/-- The requests of items in the folder `path`. -/
def flattenAt (path : FolderPath) : List Item → List (FolderPath × Dict Json)
  | [] => []
  | item :: rest => leaves path item ++ flattenAt path rest
end

/-- The requests among items, each with the folders it is in. -/
def flatten (items : List Item) : List (FolderPath × Dict Json) := flattenAt [] items

/-! ## Putting items into folders -/

/-- Puts an item at the end of the folder with the given names, making the folders that are not
    there. -/
def addAt (leaf : Item) : (names : List String) → List Item → List Item
  | [], items => items ++ [leaf]
  | name :: names, items => inFolder name (addAt leaf names) items
where
  /-- Changes the items of the first folder called `name`; a new one comes last. -/
  inFolder (name : String) (change : List Item → List Item) : List Item → List Item
    | [] => [Item.named name (change [])]
    | .folder fields items :: rest =>
      if (Item.nameOf fields).same (.str name) then .folder fields (change items) :: rest
      else .folder fields items :: inFolder name change rest
    | item :: rest => item :: inFolder name change rest

mutual
/-- Puts an item at the end of the first folder with the given path below the items, if there is
    one. -/
def addTo? (leaf : Item) (path : FolderPath) : List Item → Option (List Item)
  | [] => none
  | item :: rest =>
    match addInto? leaf path item with
    | some changed => some (changed :: rest)
    | none => (addTo? leaf path rest).map (item :: ·)
/-- Puts an item at the end of the folder with the given path, if it begins at this item. -/
def addInto? (leaf : Item) (path : FolderPath) : Item → Option Item
  | .folder fields items =>
    match path with
    | [] => none
    | name :: names =>
      if (Item.nameOf fields).same name then
        match names with
        | [] => some (.folder fields (items ++ [leaf]))
        | name :: names => (addTo? leaf (name :: names) items).map (.folder fields)
      else none
  | _ => none
end

end RouteAtlas.Postman
