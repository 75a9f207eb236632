/-
  Shapes: what is known of a value before there is one.

  A shape is a primitive, an object with named properties, an array of items, or a choice among
  listed values, with marks that any of them may carry: optional, nullable, a text format, a
  description and a sample.  A sample of null is the same as none.

  The properties of an object are ordered and their names distinct; `required` lists the names of
  those that are not optional, in the same order, and `Shape.ofProperties` computes it.
-/
import RouteAtlas.Json.Basic

namespace RouteAtlas

/-- The kinds of shape. -/
inductive Shape.Kind where
  | string
  | number
  | boolean
  | object
  | array
  | choice
  deriving DecidableEq, Repr, Inhabited

/-- A description of the values at one place. -/
structure Shape where
  kind : Shape.Kind
  /-- The properties of an object. -/
  properties : List (String × Shape) := []
  /-- The names of the properties that must be there. -/
  required : List String := []
  /-- The shape of an array's items. -/
  items : Option Shape := none
  /-- The values of a choice. -/
  values : List Json := []
  /-- A value given as an example, null for none. -/
  sample : Json := .null
  optional : Bool := false
  nullable : Bool := false
  format : Option String := none
  description : Option String := none
  deriving Inhabited

namespace Shape

/-- The word for a kind. -/
def Kind.word : Kind → String
  | .string => "string"
  | .number => "number"
  | .boolean => "boolean"
  | .object => "object"
  | .array => "array"
  | .choice => "enum"

/-- A text. -/
def text : Shape := { kind := .string }

/-- A text in some format. -/
def formatted (format : String) : Shape := { kind := .string, format := some format }

/-- A primitive or otherwise unstructured shape. -/
def plain (kind : Kind) : Shape := { kind := kind }

/-- An object nothing else is known of. -/
def unknown : Shape := { kind := .object }

/-- An array of some items. -/
def arrayOf (items : Shape) : Shape := { kind := .array, items := some items }

/-- A choice among values, the first of them serving as the example. -/
def choiceOf (values : List Json) : Shape :=
  { kind := .choice, values := values, sample := values.headD .null }

/-- The names of the properties that are not optional, in order. -/
def requiredOf (properties : List (String × Shape)) : List String :=
  (properties.filter fun p => !p.2.optional).map (·.1)

/-- The object with the given properties. -/
def ofProperties (properties : List (String × Shape)) : Shape :=
  { kind := .object, properties := properties, required := requiredOf properties }

/-- The same shape with another mark of being optional. -/
def asOptional (s : Shape) (optional : Bool) : Shape := { s with optional := optional }

/-- The object whose properties may all be left out. -/
def allOptional (s : Shape) : Shape :=
  { s with properties := s.properties.map fun (k, v) => (k, v.asOptional true), required := [] }

/-- The object none of whose properties may be left out. -/
def allRequired (s : Shape) : Shape :=
  { s with
    properties := s.properties.map fun (k, v) => (k, v.asOptional false)
    required := s.properties.map (·.1) }

/-- The object that keeps the properties whose names are in `names`, or those that are not. -/
def restrict (s : Shape) (names : List String) (keep : Bool) : Shape :=
  ofProperties (s.properties.filter fun p => names.contains p.1 == keep)

/-- The properties of several shapes in one dictionary, later ones winning. -/
def unionOf (parts : List Shape) : List (String × Shape) :=
  parts.foldl (fun d s => Dict.putAll d s.properties) []

/-- An object with at least one property. -/
def hasProperties (s : Shape) : Bool := s.kind == .object && !s.properties.isEmpty

end Shape

end RouteAtlas
