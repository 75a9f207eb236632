/-
  JSON values.

  `Json` is the one dynamic type of this library: literals of the sources, examples, and the
  persisted collections, which users edit and extend freely, are all of this shape.  Whole numbers
  and doubles are kept apart, since `1` and `1.0` are written differently; the fields of an object
  are kept in order, since they are written in order.

  An object is a list of fields, with functions that keep names distinct: `put` overwrites in
  place, so a field stays where it first appeared and the last value wins.  `truthy` and `same` are
  the two judgements on values that merging depends on: whether a value counts as given, and whether
  two values count as one (`1`, `1.0` and `true` do, and the order of an object's fields does not
  matter).
-/
import RouteAtlas.Decimal.Shortest

namespace RouteAtlas

open Decimal (Double)

/-- A JSON value. -/
inductive Json where
  | null
  | bool (b : Bool)
  | int (n : Int)
  | float (x : Double)
  | str (s : String)
  | arr (items : List Json)
  | obj (fields : List (String × Json))
  deriving Inhabited, Repr

/-! ## Ordered dictionaries -/

/-- A dictionary by name, in order of first appearance of its keys.  The operations below work for
    keys of any type. -/
abbrev Dict (α : Type) := List (String × α)

namespace Dict

variable {κ α : Type} [BEq κ]

/-- The value under `key`. -/
def get? (d : List (κ × α)) (key : κ) : Option α := d.lookup key

/-- Is there a value under `key`? -/
def has (d : List (κ × α)) (key : κ) : Bool := (d.lookup key).isSome

/-- Sets `key`, in place when it is there, else at the end. -/
def put (d : List (κ × α)) (key : κ) (value : α) : List (κ × α) :=
  match d with
  | [] => [(key, value)]
  | (k, v) :: rest => if k == key then (k, value) :: rest else (k, v) :: put rest key value

/-- Sets `key` unless it is there. -/
def putNew (d : List (κ × α)) (key : κ) (value : α) : List (κ × α) :=
  if has d key then d else d ++ [(key, value)]

/-- Sets every entry of a list in turn. -/
def putAll (d : List (κ × α)) (entries : List (κ × α)) : List (κ × α) :=
  entries.foldl (fun d (k, v) => put d k v) d

/-- The dictionary of a list of entries: last value, first position. -/
def ofList (entries : List (κ × α)) : List (κ × α) := putAll [] entries

/-- Removes `key`. -/
def erase (d : List (κ × α)) (key : κ) : List (κ × α) := d.filter (·.1 != key)

/-- The keys in order. -/
def keys (d : List (κ × α)) : List κ := d.map (·.1)

/-- The values in order. -/
def values (d : List (κ × α)) : List α := d.map (·.2)

end Dict

namespace Json

/-- The field `name` of an object. -/
def field? (j : Json) (name : String) : Option Json :=
  match j with
  | .obj fields => Dict.get? fields name
  | _ => none

/-- Does the value count as given?  Null, false, zero and everything empty do not. -/
def truthy : Json → Bool
  | .null => false
  | .bool b => b
  | .int n => n != 0
  | .float x => !x.isZero
  | .str s => s != ""
  | .arr items => !items.isEmpty
  | .obj fields => !fields.isEmpty

/-- The value as a number, truth values counting as one and zero. -/
def number? : Json → Option (Int ⊕ Double)
  | .bool b => some (.inl (if b then 1 else 0))
  | .int n => some (.inl n)
  | .float x => some (.inr x)
  | _ => none

/-- Equality of two numbers, whole or not. -/
def sameNumber : Int ⊕ Double → Int ⊕ Double → Bool
  | .inl a, .inl b => a == b
  | .inl a, .inr y => y.toInt? == some a
  | .inr x, .inl b => x.toInt? == some b
  | .inr x, .inr y => x.same y

mutual
/-- Do two values count as one? -/
def same : Json → Json → Bool
  | .null, .null => true
  | .str s, .str t => s == t
  | .arr xs, .arr ys => sameItems xs ys
  | .obj fs, .obj gs => fs.length == gs.length && sameFields fs gs
  | .bool a, b => (b.number?.map (sameNumber (.inl (if a then 1 else 0)))).getD false
  | .int a, b => (b.number?.map (sameNumber (.inl a))).getD false
  | .float a, b => (b.number?.map (sameNumber (.inr a))).getD false
  | _, _ => false
/-- Same values in the same order. -/
def sameItems : List Json → List Json → Bool
  | [], [] => true
  | x :: xs, y :: ys => same x y && sameItems xs ys
  | _, _ => false
/-- Every field of the first list is in the second with the same value. -/
def sameFields : List (String × Json) → List (String × Json) → Bool
  | [], _ => true
  | (k, v) :: fs, gs =>
    (match Dict.get? gs k with
     | some w => same v w
     | none => false) && sameFields fs gs
end

/-- Where values are looked up by, two of them are equal when they count as one. -/
instance : BEq Json := ⟨same⟩

/-- The string a value is. -/
def string? : Json → Option String
  | .str s => some s
  | _ => none

/-- The first value if it counts as given, else the second, else null. -/
def orElse (first second : Option Json) : Json :=
  match first with
  | some j => if j.truthy then j else second.getD .null
  | none => second.getD .null

/-! ## Kinds -/

/-- The kinds of value. -/
inductive Kind where
  | null
  | bool
  | int
  | float
  | str
  | arr
  | obj
  deriving DecidableEq, Repr, Inhabited

/-- The kind of a value. -/
def kind : Json → Kind
  | .null => .null
  | .bool _ => .bool
  | .int _ => .int
  | .float _ => .float
  | .str _ => .str
  | .arr _ => .arr
  | .obj _ => .obj

/-- Can a value of this kind be looked up by?  Lists and objects cannot. -/
def Kind.isKey : Kind → Bool
  | .arr | .obj => false
  | _ => true

end Json

end RouteAtlas
