/-
  The middleware convention: handlers handed to an application or router (Express).

      router.get('/users', auth, list)
      router.route('/orders').get(list).post(create)
      app.use('/shop', router)

  A route is a call named for a method on a variable, with a path first; or such a call on a chain
  that starts with `route('/path')`.  `use` mounts a router under a path, in the same file.

  A handler that is called with a schema checks the request.  The schema may say which part it is
  for (`{ body: …, query: … }`, or a label behind it); otherwise requests without a body have their
  query checked and all others their body.
-/
import RouteAtlas.Convention.Basic
import RouteAtlas.Route.Mount
import RouteAtlas.Shape.Builder
import RouteAtlas.Syntax.Site

namespace RouteAtlas.Convention.Middleware

open Syntax (Node Site)
open Source (File Bundle)

/-- The method called, and the variable it is called on if it is one, of `variable.method(…)`. -/
def receiver (call : Node) : Option String × Option String :=
  match call.callee?.filter (·.kind == "member_expression") with
  | some member =>
    ((member.object?.filter (·.kind == "identifier")).map (·.text), member.property?)
  | none => (none, none)

set_option linter.unusedVariables false in
/-- Router and path of the call `router.route('/path')` that the unwrapped chain `n` starts with. -/
def routeBelow (n : Node) : Option (String × String) :=
  if n.kind == "call_expression" then
    if (receiver n).2 == some "route" then do
      let owner ← (receiver n).1
      let path ← (n.arguments.head?.bind Node.stringValue?).filter Route.looksLikePath
      return (owner, path)
    else
      match hc : n.callee? with
      | none => none
      | some callee =>
        if callee.kind == "member_expression" then
          match ho : callee.object? with
          | some object => routeBelow object
          | none => none
        else none
  else none
termination_by n.size
decreasing_by
  have := Node.size_lt_of_inner? hc
  have := Node.size_lt_of_inner? ho
  omega

/-! ## Validation -/

/-- The words for the parts of a request. -/
def partLabels : List String := ["body", "query", "params"]

/-- Records the shape of one part of the request. -/
def assign (label : String) (shape : Shape) (p : Parameters) : Parameters :=
  match label with
  | "body" => { p with body := some shape }
  | "query" => { p with query := Param.ofShape shape .query }
  | "params" => { p with path := Param.ofShape shape .path }
  | _ => p

/-- What one handler says about the request. -/
def validated (definitions : Dict Node) (method : Method) (handler : Node) (p : Parameters) :
    Parameters :=
  match handler.asCall?.map Node.arguments with
  | some (schema :: rest) =>
    let labeled := schema.properties
    if !labeled.isEmpty && labeled.all fun entry => partLabels.contains entry.1 then
      labeled.foldl (fun p (label, node) =>
        assign label (Shape.Builder.shapeOf definitions (some node)) p) p
    else
      let shape := Shape.Builder.shapeOf definitions (some schema)
      if !shape.hasProperties then p
      else
        let given := (rest.head?.bind Node.stringValue?).filter partLabels.contains
        let usual := if [Method.get, .delete, .head].contains method then "query" else "body"
        assign (given.getD usual) shape p
  | _ => p

/-! ## Mounts and routes -/

/-- The mount a call of `use` makes. -/
def mountOf? (call : Node) : Option (LocalMount) := do
  let (owner, method) := receiver call
  let owner ← owner
  if method != some "use" || call.arguments.length < 2 then none
  else
    let path ← (call.arguments.head?.bind Node.stringValue?).filter (· != "")
    let child ← (call.arguments.getLast?.bind Node.unwrap).filter (·.kind == "identifier")
    return ⟨owner, child.text, path⟩

/-- The paths every mounted or mounting router is reached under. -/
def reachedPaths (calls : List Node) : List (String × List String) :=
  let mounts := calls.filterMap mountOf?
  let graph : Route.MountGraph String := {
    routers := mounts.foldl (fun d m => Dict.putNew (Dict.putNew d m.parent "") m.child "") []
    mounts := mounts.map fun m => ⟨m.parent, m.child, m.path⟩ }
  graph.resolve

/-- The route a call declares: its router, its path and its handlers. -/
def declaration? (call : Node) : Option (Method × String × String × List Node) := do
  let (owner, name) := receiver call
  let method ← name.bind Method.registering?
  match owner with
  | some owner =>
    let path ← (call.arguments.head?.bind Node.stringValue?).filter Route.looksLikePath
    return (method, owner, path, call.arguments.drop 1)
  | none =>
    let (owner, path) ← (call.callee?.bind Node.object?).bind routeBelow
    return (method, owner, path, call.arguments)

/-- The registrations a call makes, one for every path its router is reached under. -/
def registrationsOf (definitions : Dict Node) (file : String) (reached : List (String × List String))
    (call : Node) : List Registration :=
  match declaration? call with
  | none => []
  | some (method, owner, path, handlers) =>
    let endpoint (path : String) : Endpoint := {
      method := method
      path := path
      middleware := ((handlers.filterMap Node.handlerName?).filter (· != "")).eraseDups
      parameters := handlers.foldl (fun p h => validated definitions method h p) {}
      sourceFile := file }
    ((Dict.get? reached owner).getD [""]).map fun base => ⟨endpoint (Route.join base path), none⟩

/-- The routes of a file. -/
def routesOf (bundle : Bundle) (file : File) : FileRoutes :=
  let calls := file.root.findAll ["call_expression"]
  let definitions := visibleInitializers bundle file
  let reached := reachedPaths calls
  { file := file.path.text
    registrations := calls.flatMap (registrationsOf definitions file.path.text reached) }

end RouteAtlas.Convention.Middleware
