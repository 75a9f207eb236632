/-
  Source files.

  A file is its place, its text and its syntax tree, with the tables read off the tree: what it
  imports, what it exports, and the first initializer of every variable it declares.  The suffix of
  a file's name decides the grammar it is read with; anything unknown is read as TypeScript.
-/
import RouteAtlas.Source.Location
import RouteAtlas.Syntax.Binding
import RouteAtlas.Text.Case

namespace RouteAtlas.Source

open Syntax (Node Import)

/-- A source file that has been read and parsed. -/
structure File where
  path : Location
  text : String
  root : Node
  /-- The tree holds a place the parser could not make sense of. -/
  hasErrors : Bool
  imports : Dict Import
  exports : Dict String
  /-- The first initializer of every declared variable. -/
  declarators : Dict Node
  deriving Inhabited

/-- The grammars by the suffix of a file's name. -/
def languages : List (String × String) :=
  [(".ts", "typescript"), (".mts", "typescript"), (".cts", "typescript"), (".tsx", "tsx"),
   (".js", "javascript"), (".mjs", "javascript"), (".cjs", "javascript"), (".jsx", "javascript")]

/-- Is a file with this suffix a source file? -/
def isSourceSuffix (suffix : String) : Bool := Dict.has languages (Text.lower suffix)

/-- The grammar a file is read with. -/
def languageOf (path : Location) : String :=
  (Dict.get? languages (Text.lower path.suffix)).getD "typescript"

/-- A parsed file, with its tables. -/
def File.ofTree (path : Location) (text : String) (root : Node) : File where
  path := path
  text := text
  root := root
  hasErrors := root.hasErrors
  imports := root.imports
  exports := root.exports
  declarators := root.declarators.foldl (fun d (name, value) => Dict.putNew d name value) []

/-- The number of the line that holds the code point at `offset`, counted from one. -/
def File.lineAt (file : File) (offset : Nat) : Nat := ((file.text.toList.take offset).count '\n') + 1

end RouteAtlas.Source
