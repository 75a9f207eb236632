/-
  Decorators and what they decorate.

  Grammars differ in where they put a decorator: as a child of what it decorates, as a sibling
  before it (members of a class), or as a child of the `export` around it.  `Site.decorators` gathers
  all three, in source order.  Among siblings a decorator belongs to the first node after it that is
  neither a decorator nor a comment, so it never belongs to two.
-/
import RouteAtlas.Syntax.Site
import RouteAtlas.Syntax.Expression

namespace RouteAtlas.Syntax

/-- Decorators and the comments between them. -/
def Node.isDecoration (n : Node) : Bool := n.kind == "decorator" || n.kind == "comment"

namespace Site

/-- The decorators among the siblings before a node, in source order. -/
def siblingDecorators (before : List Node) : List Node :=
  ((before.takeWhile Node.isDecoration).filter (·.kind == "decorator")).reverse

/-- All decorators of a class, member or parameter, in source order. -/
def decorators (s : Site) : List Node :=
  let exported := match s.parent? with
    | some p => if p.kind == "export_statement" then p.childrenOfKind ["decorator"] else []
    | none => []
  exported ++ siblingDecorators s.before ++ s.node.childrenOfKind ["decorator"]

end Site

namespace Node

/-- Name and arguments of `@Name(…)`; a bare `@Name` has no arguments. -/
def decoratorCall (decorator : Node) : Option String × List Node :=
  match decorator.firstNamed? with
  | none => (none, [])
  | some expr =>
    match expr.kind with
    | "call_expression" => (expr.calleeName?, expr.arguments)
    | "identifier" => (some expr.text, [])
    | "member_expression" => (expr.property?, [])
    | _ => (none, [])

end Node

end RouteAtlas.Syntax
