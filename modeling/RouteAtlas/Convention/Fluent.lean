/-
  The fluent convention: routes registered by calls chained on a router (Hono, OpenAPIHono).

      const app = new Hono().basePath('/api')
      app.get('/users', auth, list).route('/orders', orders)

  A chain is a root with the calls made on it, in source order.  Every call of the tree that no
  longer chain goes through is taken as a chain; those whose root is a router are read, link by link.
  A router is a variable that is initialized with a construction, a further name of one, an import,
  or, in a file that imports the framework, any other variable.

  The links that matter register a route (`get`, `all`, `on`, `openapi`), extend the router's base
  path or mount another router.  Handlers contribute their names, except validators, which
  contribute the shape they check.
-/
import RouteAtlas.Convention.Basic
import RouteAtlas.Shape.Builder
import RouteAtlas.Syntax.Site

namespace RouteAtlas.Convention.Fluent

open Syntax (Node Site)
open Source (File Bundle)

/-! ## Chains -/

/-- One call of a chain: the method called, if it has a name, and its arguments. -/
structure Link where
  name : Option String
  arguments : List Node
  deriving Inhabited

/-- A chain of calls and what it starts from. -/
structure Chain where
  root : Option Node
  links : List Link
  deriving Inhabited

set_option linter.unusedVariables false in
/-- The chain that ends in the unwrapped expression `n`, with the links that follow it. -/
def Chain.below (n : Node) (later : List Link) : Chain :=
  if n.kind == "call_expression" then
    match hc : n.callee? with
    | none => ⟨some n, later⟩
    | some callee =>
      if callee.kind == "member_expression" then
        match ho : callee.object? with
        | none => ⟨none, ⟨callee.property?, n.arguments⟩ :: later⟩
        | some object => Chain.below object (⟨callee.property?, n.arguments⟩ :: later)
      else ⟨some n, later⟩
  else ⟨some n, later⟩
termination_by n.size
decreasing_by
  have := Node.size_lt_of_inner? hc
  have := Node.size_lt_of_inner? ho
  omega

/-- The chain an expression is. -/
def Chain.ofNode (n : Node) : Chain :=
  match n.unwrap with
  | some inner => Chain.below inner []
  | none => ⟨none, []⟩

/-- The wrappers that are looked through on the way from a call outwards. -/
def endWrappers : List String := ["parenthesized_expression", "non_null_expression"]

/-- Whether a call in a place with these nodes around it ends its chain: it does unless it is the object
    of a member that is called in turn. -/
def endsIn (above : List Node) : Bool :=
  match above.dropWhile fun n => endWrappers.contains n.kind with
  | member :: around :: _ => !(member.kind == "member_expression" && around.kind == "call_expression")
  | _ => true

/-- Is the call the end of its chain? -/
def isChainEnd (call : Site) : Bool := endsIn call.above

/-! ## Routers -/

/-- The classes routers are constructed from. -/
def routerClasses : List String := ["Hono", "OpenAPIHono"]

/-- Is the expression the construction of a router? -/
def isConstruction (n : Node) : Bool :=
  match n.unwrap with
  | some n =>
    n.kind == "new_expression"
      && ((n.field? "constructor").map fun c => routerClasses.contains c.text).getD false
  | none => false

/-- Does a module specifier name the framework? -/
def isFramework (specifier : String) : Bool :=
  Text.startsWith "hono" specifier || Text.startsWith "@hono/" specifier

/-- The calls that make a chain one on a router. -/
def chainMethods : List String :=
  Method.verbs.map (fun m => Text.lower m.word) ++ ["all", "on", "route", "basePath", "openapi"]

/-- Is the link one that matters? -/
def Link.isRouting (l : Link) : Bool := (l.name.map chainMethods.contains).getD false

/-- The variables initialized with a router, perhaps with calls chained on it. -/
def declaredRouters (file : File) : List String :=
  (file.declarators.filter fun (_, value) =>
    isConstruction ((Chain.ofNode value).root.getD value)).map (·.1)

/-- The variables initialized with the result of calls on a declared router, with its name. -/
def furtherNames (file : File) (declared : List String) : Dict String :=
  file.declarators.filterMap fun (name, value) =>
    let chain := Chain.ofNode value
    match chain.root.bind Node.unwrap with
    | some root =>
      if !chain.links.isEmpty && root.kind == "identifier" && declared.contains root.text
        && chain.links.all Link.isRouting && !declared.contains name
      then some (name, root.text) else none
    | none => none

/-- The name of the variable a call initializes. -/
def declaredBy? (call : Site) : Option String :=
  match call.above.dropWhile fun n =>
      ["parenthesized_expression", "as_expression", "satisfies_expression"].contains n.kind with
  | decl :: _ => if decl.kind == "variable_declarator" then (decl.field? "name").map (·.text) else none
  | [] => none

/-- What is known while a file is read. -/
structure Context where
  file : File
  /-- The initializers in view. -/
  definitions : Dict Node
  declared : List String

/-- The router a chain is made on, and the routes with that router noted if it is imported. -/
def ownerOf (ctx : Context) (routes : FileRoutes) (call : Site) (root : Option Node) :
    Option String × FileRoutes :=
  match root.bind Node.unwrap with
  | none => (none, routes)
  | some root =>
    if isConstruction root then
      let exported := (call.parent?.map (·.kind == "export_statement")).getD false
      (declaredBy? call <|> if exported then some "default" else none, routes)
    else if root.kind != "identifier" then (none, routes)
    else
      let name := root.text
      if Dict.has routes.aliases name then (routes.routerNamed? name, routes)
      else if ctx.declared.contains name || Dict.has routes.routers name then (some name, routes)
      else if Dict.has ctx.file.imports name then
        (some name, { routes with
          imported := if routes.imported.contains name then routes.imported
            else routes.imported ++ [name] })
      else (if routes.importsFramework then some name else none, routes)

/-! ## Handlers -/

/-- Functions that make a handler out of a schema to check a request against. -/
def validators : List String := ["zValidator"]

/-- What a validator says: the part of the request, and the schema. -/
def validated (ctx : Context) (handler : Node) (parameters : Parameters) : Parameters :=
  match ((handler.unwrap.map Node.arguments).getD []) with
  | target :: schema :: _ =>
    let shape := Shape.Builder.shapeOf ctx.definitions (some schema)
    match target.stringValue? with
    | some "json" | some "form" => { parameters with body := some shape }
    | some "query" => { parameters with query := Param.ofShape shape .query }
    | some "param" => { parameters with path := Param.ofShape shape .path }
    | _ => parameters
  | _ => parameters

/-- Is the handler made by a validator? -/
def isValidator (handler : Node) : Bool :=
  handler.asCall?.isSome && (handler.handlerName?.map validators.contains).getD false

/-- The parameters that the validators among the handlers give. -/
def parametersOf (ctx : Context) (handlers : List Node) : Parameters :=
  (handlers.filter isValidator).foldl (fun p h => validated ctx h p) {}

/-- The names of the other handlers. -/
def middlewareOf (handlers : List Node) : List String :=
  (handlers.filter fun h => !isValidator h).filterMap Node.handlerName?

/-! ## Links -/

/-- Registers routes for every method on every path. -/
def register (ctx : Context) (router : String) (methods : List Method) (paths : List String)
    (handlers : List Node) (routes : FileRoutes) : FileRoutes :=
  let endpoint (method : Method) (path : String) : Endpoint := {
    method := method
    path := path
    middleware := (middlewareOf handlers).eraseDups
    parameters := parametersOf ctx handlers
    sourceFile := ctx.file.path.text }
  let found := methods.flatMap fun m => paths.map fun p => ⟨endpoint m p, some router⟩
  let routes := routes.withRouter router
  { routes with registrations := routes.registrations ++ found }

/-- The texts in a literal that is one text or a list. -/
def textsOf (n : Node) : List String :=
  match n.literal? with
  | some (.arr items) => items.filterMap Json.string?
  | some (.str s) => [s]
  | _ => []

/-- Extends a router's base path. -/
def extendBase (router : String) (args : List Node) (routes : FileRoutes) : FileRoutes :=
  match args.head?.bind Node.stringValue? with
  | some path =>
    if path == "" then routes
    else
      let routes := routes.withRouter router
      { routes with
        routers := Dict.put routes.routers router
          (Route.join ((Dict.get? routes.routers router).getD "") path) }
  | none => routes

/-- Mounts a router in another. -/
def mount (router : String) (args : List Node) (routes : FileRoutes) : FileRoutes :=
  match args with
  | path :: child :: _ =>
    match path.stringValue?, child.unwrap.filter (·.kind == "identifier") with
    | some path, some child =>
      let routes := routes.withRouter router
      { routes with mounts := routes.mounts ++ [⟨router, child.text, path⟩] }
    | _, _ => routes
  | _ => routes

/-- Registers routes for lists of methods and paths. -/
def registerOn (ctx : Context) (router : String) (args : List Node) (routes : FileRoutes) :
    FileRoutes :=
  match args with
  | methods :: paths :: handlers =>
    let methods := (textsOf methods).filterMap Method.verbOf?
    let paths := (textsOf paths).filter Route.looksLikePath
    if methods.isEmpty || paths.isEmpty then routes
    else register ctx router methods paths handlers routes
  | _ => routes

/-! ## Routes described by an object -/

/-- The kinds of content a body is looked for in, in this order. -/
def bodyContentTypes : List String :=
  ["application/json", "multipart/form-data", "application/x-www-form-urlencoded"]

/-- The properties of an expression that may be missing. -/
def propertiesOf (n : Option Node) : Dict Node := (n.map Node.properties).getD []

/-- The schema under a kind of content. -/
def contentShape? (ctx : Context) (n : Option Node) : Option Shape :=
  let content := propertiesOf (Dict.get? (propertiesOf n) "content")
  (bodyContentTypes.findSome? fun type => Dict.get? (propertiesOf (Dict.get? content type)) "schema").map
    fun schema => Shape.Builder.shapeOf ctx.definitions (some schema)

/-- The parameters a description gives. -/
def requestOf (ctx : Context) (n : Option Node) : Parameters :=
  let fields := propertiesOf n
  let params (name : String) (place : ParamPlace) : List Param :=
    match Dict.get? fields name with
    | some schema => Param.ofShape (Shape.Builder.shapeOf ctx.definitions (some schema)) place
    | none => []
  { path := params "params" .path
    query := params "query" .query
    body := (Dict.get? fields "body").bind fun body => contentShape? ctx (some body) }

/-- The responses a description gives, by status. -/
def responsesOf (ctx : Context) (n : Option Node) : List Response :=
  (propertiesOf n).map fun (status, value) => {
    status := status
    description := ((Dict.get? value.properties "description").bind Node.stringValue?).getD ""
    body := contentShape? ctx (some value) }

/-- The handlers a description names. -/
def describedMiddleware (n : Option Node) : List String :=
  match n.bind Node.unwrap with
  | none => []
  | some n =>
    let items := if n.kind == "array" then n.namedChildren else [n]
    (items.filterMap Node.handlerName?).filter (· != "")

/-- The endpoint an object describes. -/
def describedEndpoint? (ctx : Context) (object : Node) : Option Endpoint := do
  let fields := object.properties
  let text? (name : String) : Option String := (Dict.get? fields name).bind Node.stringValue?
  let method ← (text? "method").bind Method.verbOf?
  let path ← (text? "path").filter Route.looksLikePath
  return {
    method := method
    path := path
    summary := text? "summary"
    description := text? "description"
    tags := match (Dict.get? fields "tags").bind Node.literal? with
      | some (.arr items) => items.filterMap Json.string?
      | _ => []
    middleware := (describedMiddleware (Dict.get? fields "middleware")).eraseDups
    parameters := requestOf ctx (Dict.get? fields "request")
    responses := responsesOf ctx (Dict.get? fields "responses")
    auth := match (Dict.get? fields "security").map Node.literal? with
      | none | some (some .null) | some (some (.arr [])) => false
      | _ => true
    sourceFile := ctx.file.path.text }

/-- The object that describes a route: given in place or by name, alone or to `createRoute`. -/
def description? (ctx : Context) (arg : Node) : Option Node := do
  let route ← arg.unwrap
  let route ← if route.kind == "identifier" then (Dict.get? ctx.definitions route.text).bind Node.unwrap
    else some route
  let route ← if route.isCallOf "createRoute" then
      (route.asCall?.bind fun c => c.arguments.head?).bind Node.unwrap
    else some route
  if route.kind == "object" then some route else none

/-- Registers the route an object describes. -/
def registerDescribed (ctx : Context) (router : String) (args : List Node) (routes : FileRoutes) :
    FileRoutes :=
  match (args.head?.bind (description? ctx)).bind (describedEndpoint? ctx) with
  | some endpoint =>
    let routes := routes.withRouter router
    { routes with registrations := routes.registrations ++ [⟨endpoint, some router⟩] }
  | none => routes

/-- What one link of a chain on `router` adds. -/
def applyLink (ctx : Context) (router : String) (routes : FileRoutes) (link : Link) : FileRoutes :=
  let name := link.name.getD ""
  let args := link.arguments
  match name with
  | "basePath" => extendBase router args routes
  | "route" => mount router args routes
  | "on" => registerOn ctx router args routes
  | "openapi" => registerDescribed ctx router args routes
  | _ =>
    let method := if name == "all" then some Method.all else Method.registering? name
    match method, (args.head?.bind Node.stringValue?).filter Route.looksLikePath with
    | some method, some path => register ctx router [method] [path] (args.drop 1) routes
    | _, _ => routes

/-- What a chain adds, if it is one on a router. -/
def applyChain (ctx : Context) (routes : FileRoutes) (call : Site) : FileRoutes :=
  if !isChainEnd call then routes
  else
    let chain := Chain.ofNode call.node
    if !chain.links.any Link.isRouting then routes
    else match ownerOf ctx routes call chain.root with
      | (some router, routes) => chain.links.foldl (applyLink ctx router) routes
      | (none, routes) => routes

/-- The routes of a file. -/
def routesOf (bundle : Bundle) (file : File) : FileRoutes :=
  let declared := declaredRouters file
  let ctx : Context := ⟨file, visibleInitializers bundle file, declared⟩
  let start : FileRoutes := {
    file := file.path.text
    routers := declared.map (·, "")
    aliases := furtherNames file declared
    importsFramework := file.imports.any fun (_, origin) => isFramework origin.specifier }
  ((Site.root file.root).findAll ["call_expression"]).foldl (applyChain ctx) start

end RouteAtlas.Convention.Fluent
