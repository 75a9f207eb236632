/-
  What can be wrong with a persisted document.

  Collections are edited by hand and by other programs, so a document may hold anything anywhere.
  Most of it is kept as it is; but the few values that a merge has to look into must be of the kind
  it looks for, and a `Fault` says which one was not.
-/
import RouteAtlas.Json.Basic

namespace RouteAtlas.Persisted

/-- Why a document cannot be merged. -/
inductive Fault where
  /-- A field that has to be there is missing. -/
  | missing (field : String)
  /-- A value of this kind has no such member. -/
  | noMember (kind : Json.Kind) (member : String)
  /-- A URL that is no text. -/
  | notText (kind : Json.Kind)
  /-- A list or an object stands where something is looked up by. -/
  | notKey (kind : Json.Kind)
  /-- A value that is no sequence of values. -/
  | notSequence (kind : Json.Kind)
  /-- A sequence cannot be continued by a value of another kind. -/
  | notAppendable (kind other : Json.Kind)
  /-- Two values that cannot be put together. -/
  | notAddable (kind other : Json.Kind)
  /-- The value at this place of a list is no pair of a name and a value: it has no parts. -/
  | noParts (place : Nat)
  /-- The value at this place of a list is no pair: it has this many parts. -/
  | notPair (place size : Nat)
  deriving DecidableEq, Repr

namespace Fault

/-- The word for a kind. -/
def word : Json.Kind → String
  | .null => "NoneType"
  | .bool => "bool"
  | .int => "int"
  | .float => "float"
  | .str => "str"
  | .arr => "list"
  | .obj => "dict"

/-- The message of a fault. -/
def message : Fault → String
  | missing field => "'" ++ field ++ "'"
  | noMember kind member => "'" ++ word kind ++ "' object has no attribute '" ++ member ++ "'"
  | notText kind => "expected string or bytes-like object, got '" ++ word kind ++ "'"
  | notKey kind => "unhashable type: '" ++ word kind ++ "'"
  | notSequence kind => "'" ++ word kind ++ "' object is not iterable"
  | notAppendable kind other =>
    "can only concatenate " ++ word kind ++ " (not \"" ++ word other ++ "\") to " ++ word kind
  | notAddable kind other =>
    "unsupported operand type(s) for +: '" ++ word kind ++ "' and '" ++ word other ++ "'"
  | noParts place =>
    "cannot convert dictionary update sequence element #" ++ toString place ++ " to a sequence"
  | notPair place size =>
    "dictionary update sequence element #" ++ toString place ++ " has length " ++ toString size
      ++ "; 2 is required"

end Fault

/-! ## Looking into values -/

/-- The field that has to be there. -/
def required (fields : Dict Json) (name : String) : Except Fault Json :=
  match Dict.get? fields name with
  | some value => .ok value
  | none => .error (.missing name)

/-- The value, if it can be looked up by. -/
def lookupKey (value : Json) : Except Fault Json :=
  if value.kind.isKey then .ok value else .error (.notKey value.kind)

/-- The values a value is a sequence of: items, characters, or the names of fields. -/
def sequence : Json → Except Fault (List Json)
  | .arr items => .ok items
  | .str s => .ok (s.toList.map fun c => .str c.toString)
  | .obj fields => .ok (fields.map fun f => .str f.1)
  | value => .error (.notSequence value.kind)

/-- The name of the field that a value is the key of; a key that is no text is written as one. -/
def fieldName : Json → Except Fault String
  | .str s => .ok s
  | .null => .ok "null"
  | .bool b => .ok (if b then "true" else "false")
  | .int n => .ok (toString n)
  | .float x => .ok x.text
  | value => .error (.notKey value.kind)

/-- The field that the value at a place of a list stands for, which is a pair. -/
def pairAt (place : Nat) (value : Json) : Except Fault (String × Json) :=
  match sequence value with
  | .ok [name, value] => do return (← fieldName name, value)
  | .ok parts => .error (.notPair place parts.length)
  | .error _ => .error (.noParts place)

/-- The fields that can be copied from a value: an object's own, or those that the pairs of a
    sequence stand for. -/
def fieldsOf : Json → Except Fault (Dict Json)
  | .obj fields => .ok fields
  | value => do
    let pairs ← (← sequence value).zipIdx.mapM fun (pair, place) => pairAt place pair
    return Dict.ofList pairs

/-- Is a value of this kind a number, truth values included? -/
def isNumber : Json.Kind → Bool
  | .bool | .int | .float => true
  | _ => false

/-- One sequence behind another. -/
def appended : Json → Json → Except Fault (List Json)
  | .arr a, .arr b => .ok (a ++ b)
  | .str a, .str b => sequence (.str (a ++ b))
  | a, b =>
    if a.kind == .arr || a.kind == .str then .error (.notAppendable a.kind b.kind)
    else if isNumber a.kind && isNumber b.kind then
      .error (.notSequence (if a.kind == .float || b.kind == .float then .float else .int))
    else .error (.notAddable a.kind b.kind)

end RouteAtlas.Persisted
