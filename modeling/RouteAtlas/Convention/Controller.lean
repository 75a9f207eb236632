/-
  The controller convention: classes whose methods are decorated (NestJS).

      @Controller('users')
      export class UsersController {
        @Get(':id') find(@Param('id') id: string): Promise<User> { … }
      }

  A class is a controller when it is decorated as one, which also gives its base path.  A handler is
  a method, or a function assigned to a field, with the decorator of an HTTP method or of a remote
  call.  Remote calls (gRPC methods, message and event patterns) have no path of their own; they are
  given one below `/grpc` or `/rpc`, so that they can stand in one list with the others, and count
  in any class, controller or not.

  Request shapes come from the types of decorated parameters.  They are resolved in one session for
  the whole file, in the order in which the file mentions them.
-/
import RouteAtlas.Convention.Basic
import RouteAtlas.Shape.Declared

namespace RouteAtlas.Convention.Controller

open Syntax (Node Site)
open Source (File Bundle Location)
open Shape (Definition Resolving)

/-! ## Authorization -/

/-- Words that make a name look like one about authorization. -/
def authWords : List String := ["auth", "jwt", "role", "permission", "guard"]

/-- Does the name hold one of the words, case ignored? -/
def looksLikeAuth (name : String) : Bool := authWords.any fun w => Text.hasWord w.toList name.toList

/-- Decorators that ask for authorization. -/
def authDecorators : List String :=
  ["ApiBearerAuth", "ApiOAuth2", "ApiCookieAuth", "UseGuards", "Auth", "Roles", "Permissions"]

/-- The name of a guard: a class, a call or a construction. -/
def guardName? (n : Node) : Option String := do
  let n ← n.unwrap
  match n.kind with
  | "identifier" => some n.text
  | "call_expression" => (n.field? "function").map (·.text)
  | "new_expression" => (n.field? "constructor").map (·.text)
  | _ => none

/-- Does a decorator ask for authorization?  Guards only count when one of them looks like it. -/
def asksForAuth (name : Option String) (args : List Node) : Bool :=
  match name with
  | none | some "" => false
  | some "UseGuards" => args.any fun a => looksLikeAuth ((guardName? a).getD "")
  | some name => authDecorators.contains name || looksLikeAuth name

/-! ## Remote calls -/

/-- A route made up for a remote call. -/
structure RpcRoute where
  kind : String
  path : String
  summary : String
  description : String
  deriving DecidableEq, Repr, Inhabited

/-- Is the call made through gRPC? -/
def RpcRoute.isGrpc (r : RpcRoute) : Bool := Text.startsWith "grpc" r.kind

/-- The decorators of remote calls. -/
def rpcDecorators : List String := ["GrpcMethod", "GrpcStreamMethod", "MessagePattern", "EventPattern"]

/-- Characters that may stand in a path segment as they are. -/
def isSafe (c : Char) : Bool := Text.isNameChar c || c == '.' || c == '-'

/-- A path segment for a value; what is unsafe in it becomes a dash. -/
def rpcSegment (value : Json) (fallback : String) : String :=
  match value with
  | .null => fallback
  | value =>
    match Text.trimChars value.shown.toList with
    | [] => fallback
    | cs => String.ofList (Text.replaceMatches (Text.runRule (fun c => !isSafe c) ['-']) cs)

/-- What an argument calls a service, method or pattern: a simple value, or that of `cmd`. -/
def simpleValue (arg : Option Node) : Json :=
  match arg.bind Node.literal? with
  | some (.obj fields) => (Dict.get? fields "cmd").getD .null
  | some (.arr _) | none => .null
  | some value => value

/-- The first of two texts that is not empty. -/
def orElse (text fallback : String) : String := if text == "" then fallback else text

/-- The route of a remote call. -/
def rpcRoute (decorator : String) (args : List Node) (handler controller : String) : RpcRoute :=
  if decorator == "GrpcMethod" || decorator == "GrpcStreamMethod" then
    let service := rpcSegment (simpleValue args.head?) (orElse controller "GrpcService")
    let method := rpcSegment (simpleValue args[1]?) (orElse handler "Call")
    let streaming := decorator == "GrpcStreamMethod"
    { kind := if streaming then "grpc-stream" else "grpc"
      path := Route.normalize ("/grpc/" ++ service ++ "/" ++ method)
      summary := service ++ "." ++ method
      description := "gRPC " ++ (if streaming then "stream method" else "method") ++ " " ++ service
        ++ "." ++ method }
  else
    let pattern := rpcSegment (simpleValue args.head?) (orElse handler "message")
    if decorator == "MessagePattern" then
      { kind := "message-pattern"
        path := Route.normalize ("/rpc/message/" ++ pattern)
        summary := "Message Pattern " ++ pattern
        description := "NestJS MessagePattern handler for \"" ++ pattern ++ "\"" }
    else
      { kind := "event-pattern"
        path := Route.normalize ("/rpc/event/" ++ pattern)
        summary := "Event Pattern " ++ pattern
        description := "NestJS EventPattern handler for \"" ++ pattern ++ "\"" }

/-! ## Paths and tags -/

/-- The decorators of HTTP methods. -/
def methodDecorators : List (String × Method) :=
  [("Get", .get), ("Post", .post), ("Put", .put), ("Patch", .patch), ("Delete", .delete),
   ("Options", .options), ("Head", .head), ("All", .all)]

/-- The path an argument gives: a text, or the first of a list. -/
def pathOf (arg : Option Node) : String :=
  match arg.bind Node.literal? with
  | some (.str s) => s
  | some (.arr (.str s :: _)) => s
  | _ => ""

/-- The base path of a controller, given as an option or alone. -/
def basePath (args : List Node) : String :=
  match Dict.get? ((args.head?.map Node.properties).getD []) "path" with
  | some node => pathOf (some node)
  | none => pathOf args.head?

/-- The tags an `ApiTags` decorator gives. -/
def tagsOf (args : List Node) : List String :=
  (args.filterMap Node.stringValue?).filter (· != "")

/-! ## Responses -/

/-- The decorators of responses, with their status. -/
def responseDecorators : Dict (Option String) :=
  [("ApiResponse", none), ("ApiOkResponse", some "200"), ("ApiCreatedResponse", some "201"),
   ("ApiAcceptedResponse", some "202"), ("ApiNoContentResponse", some "204"),
   ("ApiBadRequestResponse", some "400"), ("ApiUnauthorizedResponse", some "401"),
   ("ApiForbiddenResponse", some "403"), ("ApiNotFoundResponse", some "404")]

/-- The status a response is documented under. -/
def statusOf (given : Option Json) (usual : Option String) : String :=
  match given with
  | some (.int n) => (Json.int n).shown
  | some (.bool b) => (Json.bool b).shown
  | _ => usual.getD "default"

/-- The shape of a response's body: a named type or a list of one. -/
def responseBody (definitions : Dict Definition) (type : Option Node) : Resolving (Option Shape) := do
  match type with
  | none => return none
  | some type =>
    match type.kind with
    | "identifier" => return some (← Shape.resolveNamed definitions type.text)
    | "array" =>
      match type.namedChildren with
      | item :: _ =>
        if item.kind == "identifier" then
          return some (.arrayOf (← Shape.resolveNamed definitions item.text))
        else return none
      | [] => return none
    | _ => return none

/-- The response a decorator documents. -/
def responseOf (definitions : Dict Definition) (usual : Option String) (args : List Node) :
    Resolving Response := do
  let options := (args.head?.map Node.properties).getD []
  let body ← responseBody definitions ((Dict.get? options "type").bind Node.unwrap)
  return {
    status := statusOf ((Dict.get? options "status").bind Node.literal?) usual
    description := ((Dict.get? options "description").bind Node.stringValue?).getD ""
    body := body }

/-! ## Decorators of a handler -/

/-- What the decorators of a handler say. -/
structure HandlerNotes where
  method : Option Method := none
  path : String := ""
  rpc : Option RpcRoute := none
  summary : Option String := none
  description : Option String := none
  tags : List String := []
  auth : Bool := false
  decorators : List String := []
  responses : List Response := []
  deriving Inhabited

/-- A text that is given and not empty, else the fallback. -/
def given (text fallback : Option String) : Option String := text.filter (· != "") <|> fallback

/-- Adds what one decorator says. -/
def HandlerNotes.add (definitions : Dict Definition) (handler controller : String)
    (notes : HandlerNotes) (decorator : Node) : Resolving HandlerNotes := do
  match decorator.decoratorCall with
  | (none, _) => return notes
  | (some name, args) =>
    let notes := { notes with
      decorators := notes.decorators ++ [name]
      auth := notes.auth || asksForAuth (some name) args }
    match Dict.get? methodDecorators name with
    | some method => return { notes with method := some method, path := pathOf args.head? }
    | none =>
      if rpcDecorators.contains name then
        return { notes with rpc := some (rpcRoute name args handler controller) }
      else if name == "ApiTags" then return { notes with tags := notes.tags ++ tagsOf args }
      else if name == "ApiOperation" then
        let options := (args.head?.map Node.properties).getD []
        return { notes with
          summary := given ((Dict.get? options "summary").bind Node.stringValue?) notes.summary
          description :=
            given ((Dict.get? options "description").bind Node.stringValue?) notes.description }
      else match Dict.get? responseDecorators name with
        | some usual =>
          let response ← responseOf definitions usual args
          return { notes with responses := notes.responses ++ [response] }
        | none => return notes

/-! ## Parameters -/

/-- The kind a single parameter is given as: its type's, when that is a number or a truth value. -/
def primitiveWord (definitions : Dict Definition) (type : Option Node) : Resolving String := do
  match type with
  | none => return "string"
  | some type =>
    let shape ← Shape.resolve definitions (.ofNode type)
    return if shape.kind == .number || shape.kind == .boolean then shape.kind.word else "string"

/-- The parameters of a handler read so far, and the parts of the body that are given by name. -/
structure ParameterNotes where
  parameters : Parameters := {}
  bodyFields : Dict Shape := []
  deriving Inhabited

/-- The parameters that `@Param` or `@Query` give: one by name, or all properties of a type. -/
def namedParams (definitions : Dict Definition) (place : ParamPlace) (key : String)
    (type : Option Node) : Resolving (List Param) := do
  if key != "" then
    let word ← primitiveWord definitions type
    return [{ name := key, type := word, required := place == .path }]
  else match type with
    | some type => return Param.ofShape (← Shape.resolve definitions (.ofNode type)) place
    | none => return []

/-- Adds what one decorator of a parameter says. -/
def ParameterNotes.add (definitions : Dict Definition) (type : Option Node)
    (notes : ParameterNotes) (decorator : Node) : Resolving ParameterNotes := do
  let (name, args) := decorator.decoratorCall
  let key := (args.head?.bind Node.stringValue?).getD ""
  let p := notes.parameters
  match name with
  | some "Param" =>
    let found ← namedParams definitions .path key type
    return { notes with parameters := { p with path := p.path ++ found } }
  | some "Query" =>
    let found ← namedParams definitions .query key type
    return { notes with parameters := { p with query := p.query ++ found } }
  | some "Body" =>
    let shape ← match type with
      | some type => Shape.resolve definitions (.ofNode type)
      | none => pure Shape.unknown
    if key != "" then return { notes with bodyFields := Dict.put notes.bodyFields key shape }
    else return { notes with parameters := { p with body := some shape } }
  | _ => return notes

/-- The body made of the parts given by name. -/
def keyedBody (fields : Dict Shape) : Shape :=
  { kind := .object, properties := fields, required := Dict.keys fields }

/-- The parameters of a handler; a body given whole hides one given in parts. -/
def parametersOf (definitions : Dict Definition) (params : List Site) : Resolving Parameters := do
  let notes ← params.foldlM (fun notes (param : Site) =>
    param.decorators.foldlM (ParameterNotes.add definitions (param.node.field? "type")) notes)
    ({} : ParameterNotes)
  let p := notes.parameters
  return if !notes.bodyFields.isEmpty && p.body.isNone then
      { p with body := some (keyedBody notes.bodyFields) }
    else p

/-- Decorators of parameters that carry the context of a remote call and not its message. -/
def contextDecorators : List String := ["Ctx", "Context", "Metadata", "Headers"]

/-- The shape of a remote call's message: that of the first typed parameter not bound to the
    context. -/
def messageBody (definitions : Dict Definition) (params : List Site) : Resolving (Option Shape) := do
  let message := params.find? fun param =>
    !(param.decorators.any fun d => ((d.decoratorCall).1.map contextDecorators.contains).getD false)
      && (param.node.field? "type").isSome
  match message.bind fun param => param.node.field? "type" with
  | some type => return some (← Shape.resolve definitions (.ofNode type))
  | none => return none

/-- The parameters of a class member that can be called, in their places. -/
def callableParams? (member : Node) : Option (List Site) := do
  let callable ← match member.kind with
    | "method_definition" => some member
    | "public_field_definition" =>
      (member.inner? "value").filter fun v => Shape.functionKinds.contains v.kind
    | _ => none
  return ((callable.field? "parameters").map fun p => (Site.root p).namedChildren).getD []

/-! ## Handlers and controllers -/

/-- The endpoint a class member handles, if it handles one. -/
def handlerOf (definitions : Dict Definition) (file controller base : String) (member : Site) :
    Resolving (Option Endpoint) := do
  match callableParams? member.node with
  | none => return none
  | some params =>
    let handler := orElse (member.node.propertyKey?.getD "") "handler"
    let notes ← member.decorators.foldlM (HandlerNotes.add definitions handler controller) {}
    let endpoint : Endpoint := {
      method := notes.method.getD .post
      path := Route.join base notes.path
      summary := notes.summary
      description := notes.description
      tags := notes.tags
      middleware := notes.decorators.eraseDups
      responses := notes.responses
      auth := notes.auth
      protocol := match notes.rpc with
        | none => .http
        | some rpc => if rpc.isGrpc then .grpc else .rpc
      rpcKind := notes.rpc.map (·.kind)
      sourceFile := file }
    match notes.method, notes.rpc with
    | none, none => return none
    | some _, _ => return some { endpoint with parameters := ← parametersOf definitions params }
    | none, some rpc =>
      let parameters ← parametersOf definitions params
      let body ← match parameters.body with
        | some body => pure (some body)
        | none => messageBody definitions params
      return some { endpoint with
        method := if rpc.isGrpc then .grpc else .post
        path := rpc.path
        summary := given notes.summary (some rpc.summary)
        description := given notes.description (some rpc.description)
        parameters := { body := body } }

/-- What the decorators of a class say. -/
structure ClassNotes where
  isController : Bool := false
  base : String := ""
  tags : List String := []
  auth : Bool := false
  deriving Inhabited

/-- Adds what one decorator of a class says. -/
def ClassNotes.add (notes : ClassNotes) (decorator : Node) : ClassNotes :=
  let (name, args) := decorator.decoratorCall
  let notes := { notes with auth := notes.auth || asksForAuth name args }
  match name with
  | some "Controller" => { notes with isController := true, base := basePath args }
  | some "ApiTags" => { notes with tags := notes.tags ++ tagsOf args }
  | _ => notes

/-- The endpoints of a class: all its remote calls, and its other handlers if it is a controller. -/
def endpointsOf (definitions : Dict Definition) (file : String) (cls : Site) :
    Resolving (List Endpoint) := do
  let name := ((cls.node.field? "name").map (·.text)).getD "GrpcService"
  let notes := cls.decorators.foldl ClassNotes.add {}
  let members := ((cls.field? "body").map Site.namedChildren).getD []
  let handled ← members.mapM (handlerOf definitions file name notes.base)
  return (handled.filterMap id).filterMap fun e =>
    if e.protocol == .http && !notes.isController then none
    else some { e with tags := (notes.tags ++ e.tags).eraseDups, auth := e.auth || notes.auth }

/-! ## Files -/

/-- The declarations in view of a file: its own, then those of the files it imports, the first of
    each name. -/
def visibleDefinitions (bundle : Bundle) (file : File) : Dict Definition :=
  let start : List Location × Dict Node := ([file.path], Shape.definitionNodes file.root)
  let (_, nodes) := file.imports.foldl (fun (visited, known) (_, origin) =>
    match bundle.importedFile? file origin.specifier with
    | none => (visited, known)
    | some target =>
      if visited.contains target.path then (visited, known)
      else (visited ++ [target.path],
        (Shape.definitionNodes target.root).foldl (fun known (n, node) => Dict.putNew known n node) known))
    start
  nodes.map fun (n, node) => (n, Definition.ofNode node)

/-- The routes of a file. -/
def routesOf (bundle : Bundle) (file : File) : FileRoutes :=
  let classes := (Site.root file.root).findAll ["class_declaration", "abstract_class_declaration"]
  let definitions := visibleDefinitions bundle file
  let endpoints : Resolving (List (List Endpoint)) :=
    classes.mapM (endpointsOf definitions file.path.text)
  { file := file.path.text
    registrations := ((endpoints.run {}).1.flatten).map fun e => ⟨e, none⟩ }

end RouteAtlas.Convention.Controller
