/-
  Shapes of schema-builder expressions.

  A validation library lets a program build its schemas from calls: `z.object({ … })` makes an
  object, `z.array(x)` an array, `s.optional()` a variant of `s`.  Only the outermost call of an
  expression is looked at.  A leaf builder has a shape of its own, a composite builder that of its
  members, a modifier changes the shape of what it is called on, and any other call (`.min()`,
  `.trim()`, `.refine()`) leaves that shape alone.

  Expressions refer to each other by name, also in circles, so two things bound the reading.  Each
  step into a part or a definition uses up one level, and there are thirteen; at the end of them
  everything is a text.  And a name met again while its own definition is being read is an unknown
  object: `busy` lists the names being read.  Since every step uses a level, the recursion is on
  their number alone.
-/
import RouteAtlas.Shape.Basic
import RouteAtlas.Syntax.Expression
import RouteAtlas.Syntax.Literal

namespace RouteAtlas.Shape.Builder

open Syntax (Node)

/-- Builders of numbers. -/
def numberBuilders : List String := ["number", "int", "bigint", "float", "int32", "float64"]

/-- Builders of texts in a format, with the format. -/
def formatBuilders : Dict String :=
  [("email", "email"), ("uuid", "uuid"), ("guid", "uuid"), ("url", "uri"),
   ("datetime", "date-time"), ("date", "date-time")]

/-- Builders of objects from a literal of their properties. -/
def objectBuilders : List String := ["object", "strictObject", "looseObject"]

/-- Builders of shapes that cannot be known from the text. -/
def unknownBuilders : List String := ["any", "unknown", "record", "map", "custom", "instanceof"]

/-- The number of levels a reading may go down. -/
def maxLevels : Nat := 13

/-! ## Which receivers are the library itself -/

mutual
/-- Is the expression the library, as `z` or `z.coerce` in `z.string()`?  A bare name is, unless it
    names a schema. -/
def isNamespace (known : String → Bool) : Node → Bool
  | ⟨kind, named, start, stop, role, text, children⟩ =>
    if Node.isWrapperKind kind then isNamespaceFirst known children
    else if kind == "identifier" then !known text
    else if kind == "member_expression" then
      isNamespaceObject known children
        && Node.property? ⟨kind, named, start, stop, role, text, children⟩ == some "coerce"
    else false
/-- Is the first meaningful node the library? -/
def isNamespaceFirst (known : String → Bool) : List Node → Bool
  | [] => false
  | c :: cs => if c.isMeaningful then isNamespace known c else isNamespaceFirst known cs
/-- Is the node that is the object the library? -/
def isNamespaceObject (known : String → Bool) : List Node → Bool
  | [] => false
  | c :: cs => if c.role == "object" then isNamespace known c else isNamespaceObject known cs
end

/-! ## Shapes from shapes -/

/-- Several objects in one; the marks are those of the first.  With a part that is no object there
    is nothing to unite, and the first part stands for all. -/
def intersect : List Shape → Shape
  | [] => unknown
  | first :: rest =>
    if (first :: rest).all (·.kind == .object) then
      { ofProperties (unionOf (first :: rest)) with
        optional := first.optional, nullable := first.nullable }
    else first

/-- The values of an object or array of literals. -/
def listedValues : Option Json → List Json
  | some (.arr items) => items
  | some (.obj fields) => Dict.values fields
  | _ => []

/-- `literal(x)`: a choice of one value. -/
def literalShape (args : List Node) : Shape :=
  match args.head?.bind Node.literal? with
  | some value => choiceOf [value]
  | none => text

/-- `enum(x)`: the values listed in place or under a name. -/
def enumShape (definitions : Dict Node) (arg : Option Node) : Shape :=
  let node := match arg.bind Node.unwrap with
    | some n => if n.kind == "identifier" then (Dict.get? definitions n.text).bind Node.unwrap
      else some n
    | none => none
  match listedValues (node.bind Node.literal?) with
  | [] => text
  | values => choiceOf values

/-- `nativeEnum(x)`: the values of the object `x` names. -/
def nativeEnumShape (definitions : Dict Node) (arg : Option Node) : Shape :=
  match arg.bind Node.unwrap with
  | some n =>
    if n.kind == "identifier" then
      match (Dict.get? definitions n.text).bind Node.literal? with
      | some (.obj (field :: fields)) => choiceOf (Dict.values (field :: fields))
      | _ => text
    else text
  | none => text

/-- Sample and description given as an object literal. -/
def withMetadata (base : Shape) (args : List Node) : Shape :=
  match args.find? (·.asObject?.isSome) with
  | none => base
  | some arg =>
    let fields := arg.properties
    let base := match (Dict.get? fields "example").bind Node.literal? with
      | some value => { base with sample := value }
      | none => base
    match (Dict.get? fields "description").bind Node.stringValue? with
    | some words => { base with description := some words }
    | none => base

/-! ## Reading an expression

    The readings below are given the two ways to go down a level: `sub` reads a part of the
    expression, `expand` the definition of a name. -/

/-- A call on a schema that modifies it. -/
def modifierShape (sub : Option Node → Shape) (method : Option String) (receiver : Option Node)
    (args : List Node) (onNamespace : Bool) : Shape :=
  match method.getD "" with
  | "optional" => (sub (if onNamespace && !args.isEmpty then args.head? else receiver)).asOptional true
  | "nullable" =>
    { sub (if onNamespace && !args.isEmpty then args.head? else receiver) with nullable := true }
  | "nullish" =>
    { sub (if onNamespace && !args.isEmpty then args.head? else receiver) with
      nullable := true, optional := true }
  | "default" | "catch" | "prefault" =>
    let base := (sub receiver).asOptional true
    match args.head?.bind Node.literal? with
    | some value => { base with sample := value }
    | none => base
  | "openapi" | "meta" => withMetadata (sub receiver) args
  | "describe" =>
    match args.head?.bind Node.stringValue? with
    | some words => { sub receiver with description := some words }
    | none => sub receiver
  | "partial" => (sub receiver).allOptional
  | "required" => (sub receiver).allRequired
  | "extend" | "merge" | "safeExtend" =>
    intersect [sub receiver, if args.isEmpty then unknown else sub args.head?]
  | "pick" => (sub receiver).restrict (((args.head?.map Node.properties).getD []).map (·.1)) true
  | "omit" => (sub receiver).restrict (((args.head?.map Node.properties).getD []).map (·.1)) false
  | "element" =>
    let base := sub receiver
    match base.kind, base.items with
    | .array, some items => items
    | _, _ => base
  | _ => sub receiver

/-- The first member of an array literal stands for all of them. -/
def firstMember (sub : Option Node → Shape) (arg : Option Node) : Shape :=
  match (arg.bind Node.unwrap).filter (·.kind == "array") with
  | some list => if list.namedChildren.isEmpty then text else sub list.namedChildren.head?
  | none => text

/-- A call of a method. -/
def methodShape (definitions : Dict Node) (sub : Option Node → Shape) (method : Option String)
    (receiver : Option Node) (args : List Node) : Shape :=
  let onNamespace := (receiver.map (isNamespace (Dict.has definitions))).getD false
  let name := method.getD ""
  if name == "string" then text
  else if numberBuilders.contains name then plain .number
  else if name == "boolean" then plain .boolean
  else match Dict.get? formatBuilders name with
  | some format =>
    if onNamespace || name == "date" then formatted format
    else { sub receiver with format := some format }
  | none =>
    if objectBuilders.contains name then (if args.isEmpty then unknown else sub args.head?)
    else if unknownBuilders.contains name && onNamespace then unknown
    else match name with
    | "literal" => literalShape args
    | "enum" => enumShape definitions args.head?
    | "nativeEnum" => nativeEnumShape definitions args.head?
    | "array" => arrayOf (if onNamespace || !args.isEmpty then sub args.head? else sub receiver)
    | "tuple" =>
      match args.head?.filter (·.kind == "array") with
      | some list => arrayOf (if list.namedChildren.isEmpty then text else sub list.namedChildren.head?)
      | none => arrayOf text
    | "union" => firstMember sub args.head?
    | "discriminatedUnion" => firstMember sub args[1]?
    | "or" => sub receiver
    | "and" =>
      match args with
      | [] => unknown
      | arg :: _ => intersect [sub receiver, sub (some arg)]
    | "intersection" => intersect ((args.take 2).map fun a => sub (some a))
    | "lazy" => if args.isEmpty then unknown else sub args.head?
    | _ => modifierShape sub method receiver args onNamespace

/-- A call: of a named schema, or of a method. -/
def callShape (definitions : Dict Node) (sub : Option Node → Shape) (expand : String → Shape)
    (call : Node) : Shape :=
  match call.callee? with
  | none => text
  | some callee =>
    if callee.kind == "identifier" then
      if Dict.has definitions callee.text then expand callee.text else text
    else if callee.kind == "member_expression" then
      methodShape definitions sub callee.property? callee.object? call.arguments
    else text

/-- A member of a schema: one of its properties, or a builder used without a call. -/
def memberShape (sub : Option Node → Shape) (member : Node) : Shape :=
  let name := member.property?.getD ""
  if name == "string" then text
  else if numberBuilders.contains name then plain .number
  else if name == "boolean" then plain .boolean
  else
    let base := sub member.object?
    match member.property?.bind (Dict.get? base.properties) with
    | some property => property
    | none => base

/-- An arrow function stands for what it returns. -/
def arrowShape (sub : Option Node → Shape) (arrow : Node) : Shape :=
  match arrow.inner? "body" with
  | some body =>
    if body.kind == "statement_block" then
      match body.namedChildren.find? (·.kind == "return_statement") with
      | some stmt => sub stmt.firstNamed?
      | none => unknown
    else sub (some body)
  | none => sub none

/-- An object literal: the properties it spreads, then its own. -/
def literalObjectShape (sub : Option Node → Shape) (object : Node) : Shape :=
  let spread := unionOf (object.spreads.map fun s => sub (some s))
  ofProperties (Dict.putAll spread (object.properties.map fun (k, v) => (k, sub (some v))))

/-- The shape of an expression, read down at most `levels` levels while the definitions of the
    names in `busy` are being read. -/
def shapeWithin (definitions : Dict Node) :
    (levels : Nat) → (busy : List String) → Option Node → Shape
  | 0, _, _ => text
  | levels + 1, busy, node =>
    let sub := shapeWithin definitions levels busy
    let expand (name : String) : Shape :=
      match Dict.get? definitions name with
      | some target =>
        if busy.contains name then unknown
        else shapeWithin definitions levels (name :: busy) (some target)
      | none => unknown
    match node.bind Node.unwrap with
    | none => text
    | some n =>
      match n.kind with
      | "identifier" | "shorthand_property_identifier" => expand n.text
      | "object" => literalObjectShape sub n
      | "call_expression" => callShape definitions sub expand n
      | "member_expression" => memberShape sub n
      | "arrow_function" => arrowShape sub n
      | _ => text

/-- The shape a schema expression describes, among the given definitions. -/
def shapeOf (definitions : Dict Node) (node : Option Node) : Shape :=
  shapeWithin definitions maxLevels [] node

end RouteAtlas.Shape.Builder
