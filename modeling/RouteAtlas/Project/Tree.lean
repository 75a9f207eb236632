/-
  The files of a project.

  A `Tree` holds files, each at a place without `..`, and the directories that were made on their
  own; a directory is also there when something is below it.  Paths may go up with `..`, and are
  followed name by name: every place passed must be a directory.

  What the parsers for programs and for settings make of a file belongs to the file, beside its
  text.
-/
import RouteAtlas.Settings.Yaml
import RouteAtlas.Source.Bundle
import RouteAtlas.Text.Decode

namespace RouteAtlas.Project

open Source (Location)

/-- A file of a project. -/
structure Entry where
  /-- Its text, unless its bytes are none. -/
  text : Except Text.DecodeFault String
  /-- The syntax tree of a program. -/
  tree : Syntax.Node := default
  /-- The value of a settings file, none when its text is not of the format. -/
  settings : Option Yaml := none

/-- The files and directories of a project. -/
structure Tree where
  files : List (Location × Entry)
  /-- Directories that are there even without anything in them. -/
  directories : List Location

/-- Why the system refuses to write or read at a path. -/
inductive PathFault where
  /-- A directory stands where a file is meant. -/
  | isDirectory (path : Location)
  /-- A file stands where a directory is passed. -/
  | notDirectory (path : Location)
  /-- A file stands where a directory is to be made. -/
  | isFile (path : Location)
  deriving DecidableEq, Repr

/-- The message of a fault. -/
def PathFault.message : PathFault → String
  | isDirectory path => "[Errno 21] Is a directory: " ++ Text.quoted path.text
  | notDirectory path => "[Errno 20] Not a directory: " ++ Text.quoted path.text
  | isFile path => "[Errno 17] File exists: " ++ Text.quoted path.text

namespace Tree

/-! ## Places -/

/-- The file at a place. -/
def fileAt? (t : Tree) (place : Location) : Option Entry := t.files.lookup place

/-- Is something strictly below the place? -/
def hasBelow (t : Tree) (place : Location) : Bool :=
  (t.files.map (·.1) ++ t.directories).any fun p => (p.below? place).any (!·.isEmpty)

/-- Is there a directory at the place? -/
def dirAt (t : Tree) (place : Location) : Bool :=
  place.names.isEmpty || t.directories.contains place || t.hasBelow place

/-- Follows names from a place, each from a directory. -/
def follow? (t : Tree) : Location → List String → Option Location
  | place, [] => some place
  | place, name :: names =>
    if t.dirAt place then t.follow? (if name == ".." then place.parent else place.child name) names
    else none

/-- The place a path leads to, whether something is there or not. -/
def place? (t : Tree) (path : Location) : Option Location := t.follow? ⟨path.root, []⟩ path.names

/-! ## Paths -/

/-- The file a path leads to. -/
def file? (t : Tree) (path : Location) : Option Entry := (t.place? path).bind t.fileAt?

/-- Does the path lead to a file? -/
def isFile (t : Tree) (path : Location) : Bool := (t.file? path).isSome

/-- Does the path lead to a directory? -/
def isDir (t : Tree) (path : Location) : Bool := (t.place? path).any t.dirAt

/-- Does the path lead anywhere? -/
def isThere (t : Tree) (path : Location) : Bool := t.isFile path || t.isDir path

/-- The names in the directory a path leads to. -/
def namesIn (t : Tree) (path : Location) : List String :=
  match t.place? path with
  | none => []
  | some place =>
    ((t.files.map (·.1) ++ t.directories).filterMap fun p =>
      (p.below? place).bind List.head?).eraseDups

/-! ## Changes -/

/-- Makes the directory a path leads to, and those around it. -/
def makeDir (t : Tree) (path : Location) : Except PathFault Tree :=
  go t ⟨path.root, []⟩ path.names
where
  /-- Makes the directories of the names, one below the other. -/
  go (t : Tree) (place : Location) : List String → Except PathFault Tree
    | [] => .ok t
    | name :: names =>
      let next := if name == ".." then place.parent else place.child name
      if t.dirAt next then go t next names
      else if (t.fileAt? next).isSome then
        .error (if names.isEmpty then .isFile path else .notDirectory path)
      else go { t with directories := t.directories ++ [next] } next names

/-- Puts a file at a place. -/
def putAt (t : Tree) (place : Location) (entry : Entry) : Tree :=
  { t with files := Dict.put t.files place entry }

/-- Writes a text file, making the directories around it. -/
def write (t : Tree) (path : Location) (text : String) : Except PathFault Tree := do
  let t ← t.makeDir path.parent
  match t.place? path with
  | none => .error (.notDirectory path)
  | some place =>
    if t.dirAt place then .error (.isDirectory path)
    else return t.putAt place { text := .ok text }

/-- Takes the file at a place away; its directory stays. -/
def removeAt (t : Tree) (place : Location) : Tree :=
  ⟨t.files.filter (·.1 != place), t.directories ++ [place.parent]⟩

/-! ## Reading -/

/-- What reading a path as text gives. -/
inductive ReadFault where
  | path (fault : PathFault)
  | bytes (fault : Text.DecodeFault)
  deriving DecidableEq, Repr

/-- The message of a fault. -/
def ReadFault.message : ReadFault → String
  | path fault => fault.message
  | bytes fault => fault.message

/-- The file a path leads to and its text, line ends unified; none when nothing is there. -/
def read? (t : Tree) (path : Location) : Except ReadFault (Option (Entry × String)) :=
  match t.file? path with
  | some entry =>
    match entry.text with
    | .ok text => .ok (some (entry, Text.unifyLines text))
    | .error fault => .error (.bytes fault)
  | none => if t.isDir path then .error (.path (.isDirectory path)) else .ok none

/-- The files of the project, for a search on some of them. -/
def bundle (t : Tree) (paths : List Location) : Source.Bundle :=
  ⟨Location.sort (paths.map Location.tidy), t.files.map fun (place, entry) =>
    (place, match entry.text with
      | .ok text => .ok (Source.File.ofTree place text entry.tree)
      | .error fault => .error (.undecodable fault.message))⟩

end Tree

end RouteAtlas.Project
