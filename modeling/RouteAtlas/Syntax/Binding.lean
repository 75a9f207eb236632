/-
  The names a file declares, imports and exports.

  Imports map a local name to a module specifier and the name it has there, `default` for a default
  import; `require` counts as an import.  Exports map the name a file offers to the local name
  behind it; assignments to `module.exports` and `exports.x` count as exports.  Of several entries
  for one name the last wins.
-/
import RouteAtlas.Syntax.Site
import RouteAtlas.Syntax.Expression
import RouteAtlas.Syntax.Literal
import RouteAtlas.Text.Rule

namespace RouteAtlas.Syntax

/-- Where an imported name comes from. -/
structure Import where
  specifier : String
  /-- The name in the other module, `default` for its default export. -/
  name : String
  deriving DecidableEq, Repr, Inhabited

namespace Node

/-- Name and initializer of every simple variable declaration. -/
def declarators (root : Node) : List (String × Node) :=
  (root.findAll ["variable_declarator"]).filterMap fun d => do
    let name ← d.field? "name"
    let value ← d.field? "value"
    if name.kind == "identifier" then some (name.text, value) else none

/-! ## Imports -/

/-- The bindings of one part of an import clause. -/
def clauseImports (specifier : String) (part : Node) : List (String × Import) :=
  match part.kind with
  | "identifier" => [(part.text, ⟨specifier, "default"⟩)]
  | "named_imports" =>
    (part.childrenOfKind ["import_specifier"]).filterMap fun spec => do
      let name ← spec.field? "name"
      let shown := ((spec.field? "alias").getD name).text
      let quoted (c : Char) := "'\"".toList.contains c
      return (shown, ⟨specifier, String.ofList (Text.stripChars quoted name.text.toList)⟩)
  | _ => []

/-- The bindings of an import statement. -/
def statementImports (stmt : Node) : List (String × Import) :=
  match (stmt.field? "source").bind stringValue? with
  | none => []
  | some specifier =>
    (stmt.childrenOfKind ["import_clause"]).flatMap fun clause =>
      clause.namedChildren.flatMap (clauseImports specifier)

/-- The bindings of a declaration initialized by `require('…')`. -/
def requireImports (decl : Node) : List (String × Import) :=
  let found : Option (List (String × Import)) := do
    let value ← decl.inner? "value"
    let target ← decl.field? "name"
    if !value.isCallOf "require" then none
    else
      let specifier ← value.arguments.head?.bind stringValue?
      match target.kind with
      | "identifier" => some [(target.text, ⟨specifier, "default"⟩)]
      | "object_pattern" =>
        some (target.namedChildren.filterMap fun part =>
          match part.kind with
          | "shorthand_property_identifier_pattern" => some (part.text, ⟨specifier, part.text⟩)
          | "pair_pattern" => do
            let key ← part.field? "key"
            let value ← part.field? "value"
            return (value.text, ⟨specifier, key.text⟩)
          | _ => none)
      | _ => none
  found.getD []

/-- Local name to origin, for every import of a file. -/
def imports (root : Node) : Dict Import :=
  Dict.ofList ((root.findAll ["import_statement"]).flatMap statementImports
    ++ (root.findAll ["variable_declarator"]).flatMap requireImports)

/-! ## Exports -/

/-- The names an exported declaration offers. -/
def declarationExports (stmt declaration : Node) : List (String × String) :=
  if ["lexical_declaration", "variable_declaration"].contains declaration.kind then
    (declaration.childrenOfKind ["variable_declarator"]).filterMap fun decl => do
      let name ← decl.field? "name"
      if name.kind == "identifier" then some (name.text, name.text) else none
  else match declaration.field? "name" with
    | some name => [(if stmt.hasToken "default" then "default" else name.text, name.text)]
    | none => []

/-- The names of the clause `{ a, b as c }`. -/
def clauseExports (stmt : Node) : List (String × String) :=
  (stmt.childrenOfKind ["export_clause"]).flatMap fun clause =>
    (clause.childrenOfKind ["export_specifier"]).filterMap fun spec => do
      let name ← spec.field? "name"
      return (((spec.field? "alias").getD name).text, name.text)

/-- The names an export statement offers; what is passed on from another module is not followed. -/
def statementExports (stmt : Node) : List (String × String) :=
  if (stmt.field? "source").isSome then []
  else match stmt.field? "declaration" with
    | some declaration => declarationExports stmt declaration
    | none =>
      match stmt.inner? "value" with
      | some value =>
        if stmt.hasToken "default" && value.kind == "identifier" then [("default", value.text)]
        else clauseExports stmt
      | none => clauseExports stmt

/-- The names an assignment to `module.exports` or a property of `exports` offers. -/
def assignmentExports (expr : Node) : List (String × String) :=
  if expr.kind != "assignment_expression" then []
  else match (expr.field? "left").bind dottedName?, expr.inner? "right" with
    | some target, some value =>
      if target == "module.exports" && value.kind == "identifier" then [("default", value.text)]
      else if Text.startsWith "exports." target && value.kind == "identifier" then
        [(String.ofList (target.toList.drop "exports.".length), value.text)]
      else if target == "module.exports" && value.kind == "object" then
        value.properties.filterMap fun (key, node) =>
          if ["identifier", "shorthand_property_identifier"].contains node.kind
          then some (key, node.text) else none
      else []
    | _, _ => []

/-- Exported name to local name, for every export of a file. -/
def exports (root : Node) : Dict String :=
  Dict.ofList (root.namedChildren.flatMap fun stmt =>
    match stmt.kind with
    | "export_statement" => statementExports stmt
    | "expression_statement" => (stmt.firstNamed?.map assignmentExports).getD []
    | _ => [])

end Node

end RouteAtlas.Syntax
