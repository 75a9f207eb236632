/-
  Literals and object literals.

  A literal expression denotes a JSON value: strings and templates without substitutions, numbers,
  truth values, null, a negated number, and arrays and objects made of literals.  `literal?` gives
  that value, and nothing for any other expression; a null literal is a value and not nothing.

  The properties of an object literal are a dictionary: a key given twice keeps its first place and
  its last value.  A shorthand property stands for the identifier itself and a method for its
  definition; spreads are no properties and are listed apart.
-/
import RouteAtlas.Syntax.Node
import RouteAtlas.Json.Basic
import RouteAtlas.Decimal.Numeral

namespace RouteAtlas.Syntax.Node

open Decimal (Number)

/-- The text without its first and last character. -/
def withoutQuotes (text : String) : String := String.ofList (text.toList.drop 1).dropLast

/-- The text a quoted string denotes, or a template that substitutes nothing. -/
def quotedText? (n : Node) : Option String :=
  match n.kind with
  | "string" => some (withoutQuotes n.text)
  | "template_string" =>
    if (n.childrenOfKind ["template_substitution"]).isEmpty then some (withoutQuotes n.text) else none
  | _ => none

/-- The text a string expression denotes, wrappers aside. -/
def stringValue? (n : Node) : Option String := n.unwrap.bind quotedText?

/-! ## Properties -/

/-- The key of a pair, a method or a field, when it is not computed. -/
def propertyKey? (n : Node) : Option String := do
  let key ← if n.kind == "pair" then n.field? "key" else n.field? "name"
  if ["property_identifier", "identifier", "number", "private_property_identifier"].contains key.kind
  then some key.text
  else if key.kind == "string" then some (withoutQuotes key.text)
  else none

/-- What one child of an object literal gives: a key and the node of its value. -/
def entry? (child : Node) : Option (String × Node) :=
  match child.kind with
  | "pair" => do return (← child.propertyKey?, ← child.field? "value")
  | "shorthand_property_identifier" => some (child.text, child)
  | "method_definition" => child.propertyKey?.map (·, child)
  | _ => none

/-- The node, unwrapped, when it is an object literal. -/
def asObject? (n : Node) : Option Node := n.unwrap.filter (·.kind == "object")

/-- The properties of an object literal; an expression that is none has no properties. -/
def properties (n : Node) : Dict Node :=
  match n.asObject? with
  | some object => Dict.ofList (object.namedChildren.filterMap entry?)
  | none => []

/-- The expressions an object literal spreads. -/
def spreads (n : Node) : List Node :=
  match n.asObject? with
  | some object =>
    (object.namedChildren.filter (·.kind == "spread_element")).filterMap firstNamed?
  | none => []

/-! ## Values -/

/-- The value of a number literal. -/
def numberValue? (text : String) : Option Json :=
  (Number.ofLiteral? text).map fun
    | .whole n => .int n
    | .real x => .float x

/-- The number with the opposite sign. -/
def negated? : Json → Option Json
  | .int n => some (.int (-n))
  | .float x => some (.float x.negate)
  | _ => none

/-- An object whose values are all known. -/
def objectOf? (entries : List (String × Option Json)) : Option Json :=
  let values : Option (List (String × Json)) :=
    (Dict.ofList entries).mapM fun entry => entry.2.map fun value => (entry.1, value)
  values.map .obj

mutual
/-- The value of a literal expression, wrappers aside. -/
def literal? : Node → Option Json
  | ⟨kind, named, start, stop, role, text, children⟩ =>
    if isWrapperKind kind then literalFirst? children
    else match quotedText? ⟨kind, named, start, stop, role, text, children⟩ with
      | some s => some (.str s)
      | none =>
        match kind with
        | "number" => numberValue? text
        | "true" => some (.bool true)
        | "false" => some (.bool false)
        | "null" => some .null
        | "unary_expression" =>
          if text.toList.head? == some '-' then (literalFirst? children).bind negated? else none
        | "array" => (literalItems? children).map .arr
        | "object" => objectOf? (literalEntries children)
        | _ => none
/-- The value of the first meaningful node. -/
def literalFirst? : List Node → Option Json
  | [] => none
  | c :: cs => if c.isMeaningful then literal? c else literalFirst? cs
/-- The values of all meaningful nodes, when all are literals. -/
def literalItems? : List Node → Option (List Json)
  | [] => some []
  | c :: cs =>
    if c.isMeaningful then do return (← literal? c) :: (← literalItems? cs) else literalItems? cs
/-- The keys of an object literal's children, each with its value when that is a literal. -/
def literalEntries : List Node → List (String × Option Json)
  | [] => []
  | ⟨kind, named, start, stop, role, text, children⟩ :: cs =>
    let n : Node := ⟨kind, named, start, stop, role, text, children⟩
    if !n.isMeaningful then literalEntries cs
    else match kind with
      | "pair" =>
        match n.propertyKey?, literalInRole "value" children with
        | some key, some value => (key, value) :: literalEntries cs
        | _, _ => literalEntries cs
      | "shorthand_property_identifier" => (text, none) :: literalEntries cs
      | "method_definition" =>
        match n.propertyKey? with
        | some key => (key, none) :: literalEntries cs
        | none => literalEntries cs
      | _ => literalEntries cs
/-- The value of the node in some role: none without such a node, `some none` when it is there and
    is no literal. -/
def literalInRole (role : String) : List Node → Option (Option Json)
  | [] => none
  | c :: cs => if c.role == role then some (literal? c) else literalInRole role cs
end

end RouteAtlas.Syntax.Node
