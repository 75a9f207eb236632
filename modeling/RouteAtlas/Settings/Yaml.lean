/-
  Values of a settings file.

  A mapping is a list of entries in order; its keys may be any values, and those of one mapping are
  distinct.
-/
import RouteAtlas.Text.Quoted

namespace RouteAtlas

open Decimal (Double)

/-- A value of a settings file. -/
inductive Yaml where
  | null
  | bool (b : Bool)
  | int (n : Int)
  | float (x : Double)
  | str (s : String)
  | seq (items : List Yaml)
  | map (entries : List (Yaml × Yaml))
  deriving Inhabited, Repr

namespace Yaml

/-- The value under a name of a mapping's entries. -/
def field? (entries : List (Yaml × Yaml)) (name : String) : Option Yaml :=
  entries.findSome? fun
    | (.str key, value) => if key == name then some value else none
    | _ => none

/-- A key as it stands in the place of a problem; truth values count as one and zero. -/
def keyText : Yaml → String
  | .str s => s
  | .null => Json.null.literalText
  | .bool b => if b then "1" else "0"
  | .int n => toString n
  | .float x => (Json.float x).literalText
  | .seq _ => "()"
  | .map _ => ""

end Yaml

end RouteAtlas
