/-
  Calls, members and names.

  A call has a callee and arguments; a member expression an object and a property.  The name of a
  call is the last name of its callee (`bar` for `x.y.bar(…)`), its path the whole dotted one.  All
  readings look through wrappers.
-/
import RouteAtlas.Syntax.Node

namespace RouteAtlas.Syntax.Node

/-- The callee of a call, unwrapped. -/
def callee? (call : Node) : Option Node := call.inner? "function"

/-- The arguments of a call. -/
def arguments (call : Node) : List Node := ((call.field? "arguments").map namedChildren).getD []

/-- The object of a member expression, unwrapped. -/
def object? (member : Node) : Option Node := member.inner? "object"

/-- The property of a member expression. -/
def property? (member : Node) : Option String := (member.field? "property").map (·.text)

/-- The name an unwrapped callee goes by. -/
def calledAs? (callee : Node) : Option String :=
  match callee.kind with
  | "identifier" => some callee.text
  | "member_expression" => callee.property?
  | _ => none

/-- `foo` for `foo(…)`, `bar` for `x.y.bar(…)`. -/
def calleeName? (call : Node) : Option String := call.callee?.bind calledAs?

/-- The kinds of node whose text is a name. -/
def isNameKind (kind : String) : Bool :=
  ["identifier", "this", "property_identifier", "type_identifier"].contains kind

mutual
/-- The dotted name of an expression made of names and members, wrappers aside. -/
def dottedName? : Node → Option String
  | ⟨kind, named, start, stop, role, text, children⟩ =>
    if isWrapperKind kind then dottedFirst? children
    else if isNameKind kind then some text
    else if kind == "member_expression" then do
      let object ← dottedObject? children
      let property ← property? ⟨kind, named, start, stop, role, text, children⟩
      return object ++ "." ++ property
    else none
/-- The dotted name of the first meaningful node. -/
def dottedFirst? : List Node → Option String
  | [] => none
  | c :: cs => if c.isMeaningful then dottedName? c else dottedFirst? cs
/-- The dotted name of the node that is the object. -/
def dottedObject? : List Node → Option String
  | [] => none
  | c :: cs => if c.role == "object" then dottedName? c else dottedObject? cs
end

/-- The dotted callee of a call, such as `z.object`. -/
def calleePath? (call : Node) : Option String := call.callee?.bind dottedName?

/-- The node when it is a call, unwrapped. -/
def asCall? (n : Node) : Option Node := n.unwrap.filter (·.kind == "call_expression")

/-- Is the node a call of something named `name`? -/
def isCallOf (n : Node) (name : String) : Bool := (n.asCall?.bind calleeName?) == some name

/-- What a step of a request's handling goes by: `auth` for `auth`, `auth()` and `mw.auth`; nothing
    for a handler written in place. -/
def handlerName? (n : Node) : Option String := do
  let n ← n.unwrap
  match n.kind with
  | "identifier" => some n.text
  | "call_expression" => n.calleeName?
  | "member_expression" => n.property?
  | _ => none

end RouteAtlas.Syntax.Node
