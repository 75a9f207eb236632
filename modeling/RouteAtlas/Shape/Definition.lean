/-
  Declarations that give shapes a name: classes, interfaces, type synonyms and enumerations.

  A class used for requests is a record whose fields carry decorators; those that matter for the
  shape are its `Mark`s, kept in source order since a later one overrules an earlier.  A class may
  extend another by name, or an expression that derives one from others (all fields optional, some
  picked or left out, several united).
-/
import RouteAtlas.Shape.TypeExpr
import RouteAtlas.Syntax.Decorator

namespace RouteAtlas.Shape

open Syntax (Node Site)

/-- What one decorator says about a field. -/
inductive Mark where
  | optional
  /-- The field is a primitive of this kind, perhaps in some format. -/
  | kind (kind : Kind) (format : Option String)
  /-- The field takes the values of the enumeration `name`. -/
  | valuesOf (name : String)
  | values (values : List Json)
  | sample (value : Json)
  | description (words : Option String)
  deriving Inhabited

/-- A field of a class. -/
structure Field where
  name : String
  /-- The type written, if any. -/
  type : Option TypeExpr
  /-- A question mark stands behind the name. -/
  optional : Bool
  marks : List Mark
  deriving Inhabited

/-- How a class is derived from others. -/
inductive Derivation where
  | union
  | partially
  | restricted (names : List String) (keep : Bool)
  /-- In some way that is not understood. -/
  | unclear
  deriving Inhabited

/-- What a class extends. -/
inductive Base where
  | named (name : String)
  | derived (names : List String) (how : Derivation)
  deriving Inhabited

/-- A declaration. -/
inductive Definition where
  | class (bases : List Base) (fields : List Field)
  | interface (bases : List TypeExpr) (members : List (String × Bool × TypeExpr))
  | synonym (type : TypeExpr)
  | choice (values : List Json)
  | other
  deriving Inhabited

/-- The kinds of node that declare a shape. -/
def definitionKinds : List String :=
  ["class_declaration", "abstract_class_declaration", "interface_declaration",
   "type_alias_declaration", "enum_declaration"]

/-! ## Enumerations -/

/-- The value of one member: the one it is given, else its name. -/
def memberValue? (member : Node) : Option Json :=
  match member.kind with
  | "enum_assignment" =>
    match (member.field? "value").bind Node.literal? with
    | some value => some value
    | none => some (((member.field? "name").map fun n => Json.str n.text).getD .null)
  | "property_identifier" | "string" =>
    some (.str (match member.stringValue? with
      | some "" | none => member.text
      | some s => s))
  | _ => none

/-- The values of an enumeration, in order. -/
def enumerated (node : Node) : List Json :=
  match node.field? "body" with
  | some body => body.namedChildren.filterMap memberValue?
  | none => []

/-! ## Decorators of fields -/

/-- Decorators that check for a primitive, with its kind and format. -/
def kindDecorators : Dict (Kind × Option String) :=
  [("IsString", .string, none), ("IsEmail", .string, some "email"), ("IsUUID", .string, some "uuid"),
   ("IsUrl", .string, some "uri"), ("IsDateString", .string, some "date-time"),
   ("IsISO8601", .string, some "date-time"), ("IsInt", .number, none), ("IsNumber", .number, none),
   ("IsPositive", .number, none), ("Min", .number, none), ("Max", .number, none),
   ("IsBoolean", .boolean, none)]

/-- Decorators that make a field optional. -/
def optionalDecorators : List String := ["IsOptional", "ApiPropertyOptional", "ValidateIf"]

/-- What the options of a documentation decorator say.  It is for options that can be compiled, where a
    type is some expression: for an empty pair of parentheses as `type` no mark is given here, and no
    fault either. -/
def optionMarks (options : Dict Node) : List Mark :=
  let value? (name : String) : Option Json := (Dict.get? options name).bind Node.literal?
  (match value? "required" with
    | some (.bool false) => [.optional]
    | _ => [])
  ++ (match value? "example" with
    | some value => [.sample value]
    | none => [])
  ++ (match Dict.get? options "description" with
    | some node => [.description node.stringValue?]
    | none => [])
  ++ (match (Dict.get? options "type").bind Node.unwrap with
    | some node =>
      if node.kind == "identifier" then
        match Dict.get? primitives node.text with
        | some kind => [.kind kind none]
        | none => []
      else []
    | none => [])
  ++ (match value? "enum" with
    | some (.arr (value :: values)) => [.values (value :: values)]
    | _ => [])

/-- What a decorator says about its field. -/
def decoratorMarks (decorator : Node) : List Mark :=
  match decorator.decoratorCall with
  | (none, _) => []
  | (some name, args) =>
    (if optionalDecorators.contains name then [.optional] else [])
    ++ (match Dict.get? kindDecorators name with
      | some (kind, format) => [.kind kind format]
      | none => [])
    ++ (if name == "IsEnum" then (args.head?.map fun a => Mark.valuesOf a.text).toList else [])
    ++ (if name == "ApiProperty" || name == "ApiPropertyOptional" then
        optionMarks ((args.head?.map Node.properties).getD [])
      else [])

/-! ## Reading a declaration -/

/-- The kinds of node a method is written as when it is assigned to a field. -/
def functionKinds : List String := ["arrow_function", "function_expression", "function"]

/-- The field a class member declares, unless it is static or holds a function. -/
def fieldOf? (member : Site) : Option Field :=
  let n := member.node
  if n.kind != "public_field_definition" || n.hasToken "static" then none
  else do
    let name ← n.propertyKey?
    let isFunction := ((n.inner? "value").map fun v => functionKinds.contains v.kind).getD false
    if isFunction then none
    else some {
      name := name
      type := (n.field? "type").map TypeExpr.ofNode
      optional := n.hasToken "?"
      marks := member.decorators.flatMap decoratorMarks }

/-- The class an expression derives from others.  The keys that are picked or omitted are names, so a
    key list is meant to hold texts; numbers, truth values and null in it are no names and are passed
    over.  Lists and objects, which cannot be keys at all, are passed over too, without a fault. -/
def derivedBase (call : Node) : Base :=
  let args := call.arguments
  let names := (args.filter (·.kind == "identifier")).map (·.text)
  let listed : List String :=
    match args[1]?.bind Node.literal? with
    | some (.arr items) => items.filterMap Json.string?
    | _ => []
  match call.calleeName? with
  | some "IntersectionType" => .derived names .union
  | some "PartialType" => .derived names .partially
  | some "PickType" => .derived names (.restricted listed true)
  | some "OmitType" => .derived names (.restricted listed false)
  | _ => .derived [] .unclear

/-- What the heritage clauses of a class name. -/
def classBases (node : Node) : List Base :=
  (node.childrenOfKind ["class_heritage"]).flatMap fun heritage =>
    (heritage.childrenOfKind ["extends_clause"]).filterMap fun clause =>
      (clause.inner? "value").bind fun value =>
        match value.kind with
        | "identifier" => some (Base.named value.text)
        | "call_expression" => some (derivedBase value)
        | _ => none

/-- Reads a declaration. -/
def Definition.ofNode (node : Node) : Definition :=
  match node.kind with
  | "class_declaration" | "abstract_class_declaration" =>
    let members := (((Site.root node).field? "body").map Site.namedChildren).getD []
    .class (classBases node) (members.filterMap fieldOf?)
  | "interface_declaration" =>
    .interface
      ((node.childrenOfKind ["extends_type_clause"]).flatMap fun clause =>
        clause.namedChildren.map TypeExpr.ofNode)
      (TypeExpr.membersOf (((node.field? "body").map Node.namedChildren).getD []))
  | "type_alias_declaration" => .synonym (TypeExpr.ofNode? (node.field? "value"))
  | "enum_declaration" => .choice (enumerated node)
  | _ => .other

/-- The declarations of a file by name, the first of each name. -/
def definitionNodes (root : Node) : Dict Node :=
  (root.findAll definitionKinds).foldl (fun d n =>
    match n.field? "name" with
    | some name => Dict.putNew d name.text n
    | none => d) []

end RouteAtlas.Shape
