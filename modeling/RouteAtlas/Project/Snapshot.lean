/-
  A project as one document.

  Programs and settings are read by parsers of their own, and what those make of a project travels
  with it.  A snapshot is an object with the fields

    `current`      the working directory
    `directories`  directories that may be empty
    `files`        one object a file: its `path`, its `text`, and, as far as a parser has read it,
                   its `tree` or the value of its `settings`
    `environment`  the variables of the surroundings
    `newId`        the identifier for a new collection
    `today`        the date for a new export

  A node of a tree is written `[kind, start, stop, role, [child, ...]]`; children, and a role before
  none, may be left out, and the kind of a token starts with an apostrophe.  What is missing or of
  another shape counts as empty, so that every document is a snapshot of something.
-/
import RouteAtlas.Project.Command

namespace RouteAtlas

open Source (Location)

/-! ## Trees and settings -/

namespace Syntax.Node

/-- The node with a span of a text. -/
def spanning (text : Array Char) (kind : String) (start stop : Int) (role : String)
    (children : List Node) : Node :=
  let (named, kind) := match kind.toList with
    | '\'' :: token => (false, String.ofList token)
    | _ => (true, kind)
  ⟨kind, named, start.toNat, stop.toNat, role,
    String.ofList (text.extract start.toNat stop.toNat).toList, children⟩

mutual
/-- Reads a node over a text. -/
def ofJson (text : Array Char) : Json → Node
  | .arr [.str kind, .int start, .int stop] => spanning text kind start stop "" []
  | .arr [.str kind, .int start, .int stop, .str role] => spanning text kind start stop role []
  | .arr [.str kind, .int start, .int stop, .str role, .arr children] =>
    spanning text kind start stop role (ofValues text children)
  | _ => default
/-- Reads nodes over a text. -/
def ofValues (text : Array Char) : List Json → List Node
  | [] => []
  | value :: values => ofJson text value :: ofValues text values
end

end Syntax.Node

namespace Yaml

mutual
/-- The settings value that a JSON value stands for: the same one, the names of fields being
    strings. -/
def ofJson : Json → Yaml
  | .null => .null
  | .bool b => .bool b
  | .int n => .int n
  | .float x => .float x
  | .str s => .str s
  | .arr items => .seq (ofValues items)
  | .obj fields => .map (ofFields fields)
/-- The values of a list. -/
def ofValues : List Json → List Yaml
  | [] => []
  | value :: values => ofJson value :: ofValues values
/-- The entries of fields. -/
def ofFields : List (String × Json) → List (Yaml × Yaml)
  | [] => []
  | (name, value) :: fields => (.str name, ofJson value) :: ofFields fields
end

end Yaml

namespace Project

/-! ## Snapshots -/

/-- A project and what surrounds it. -/
structure Snapshot where
  tree : Tree
  current : Location
  environment : Dict String
  newId : String
  today : String

/-- The string under a name, or the empty one. -/
def textUnder (value : Json) (name : String) : String :=
  ((value.field? name).bind Json.string?).getD ""

/-- The list under a name, or the empty one. -/
def itemsUnder (value : Json) (name : String) : List Json :=
  match value.field? name with
  | some (.arr items) => items
  | _ => []

/-- Reads a file. -/
def Entry.ofJson (value : Json) : Entry :=
  let text := textUnder value "text"
  { text := .ok text
    tree := ((value.field? "tree").map (Syntax.Node.ofJson text.toList.toArray)).getD default
    settings := (value.field? "settings").map Yaml.ofJson }

namespace Snapshot

/-- Reads a snapshot. -/
def ofJson (value : Json) : Snapshot :=
  let current := Location.clean (textUnder value "current")
  let placeOf (path : String) : Location := (current.join (Location.ofText path)).tidy
  { tree :=
      { files := Dict.ofList ((itemsUnder value "files").map fun file =>
          (placeOf (textUnder file "path"), Entry.ofJson file))
        directories := current :: (itemsUnder value "directories").filterMap fun path =>
          path.string?.map placeOf }
    current
    environment := match value.field? "environment" with
      | some (.obj fields) => fields.filterMap fun (name, text) => text.string?.map (name, ·)
      | _ => []
    newId := textUnder value "newId"
    today := textUnder value "today" }

/-- Runs a command line on a snapshot.  Nothing can be sent from here. -/
def run (s : Snapshot) (arguments : List String) : Outcome × World :=
  runCommand ⟨s.newId, s.today, .unreachable "no connection"⟩ s.environment s.current arguments
    ⟨s.tree, []⟩

end Snapshot

/-- The text of a file as it is written. -/
def writtenText (tree : Tree) (place : Location) : Option String :=
  (tree.fileAt? place).bind (·.text.toOption)

/-- The files that one state of a tree has and an earlier one had not, or not with this text. -/
def changedFiles (before after : Tree) : List (Location × String) :=
  (Dict.keys after.files).filterMap fun place =>
    match writtenText after place with
    | none => none
    | some text => if writtenText before place == some text then none else some (place, text)

end Project

end RouteAtlas
