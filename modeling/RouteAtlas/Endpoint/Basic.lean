/-
  Endpoints: what a service answers to.

  An endpoint has a method, a path, and what its declaration tells about it: documentation, tags,
  the names of the handlers in front of it, parameters, responses and whether it asks for
  authorization.  A `Registration` is an endpoint as one file declares it: its path is still
  relative to the router it is registered on, when there is one.  An `Endpoint` is the result once
  routers are resolved: its path is complete and normal, and with its method makes its `key`.
-/
import RouteAtlas.Route.Path
import RouteAtlas.Shape.Basic

namespace RouteAtlas

/-- Request methods; `ALL` answers to any, `GRPC` to calls that are not plain HTTP. -/
inductive Method where
  | get
  | post
  | put
  | patch
  | delete
  | options
  | head
  | all
  | grpc
  deriving DecidableEq, Repr, Inhabited

namespace Method

/-- The method's word. -/
def word : Method → String
  | .get => "GET"
  | .post => "POST"
  | .put => "PUT"
  | .patch => "PATCH"
  | .delete => "DELETE"
  | .options => "OPTIONS"
  | .head => "HEAD"
  | .all => "ALL"
  | .grpc => "GRPC"

/-- The plain methods of HTTP. -/
def verbs : List Method := [.get, .post, .put, .patch, .delete, .options, .head]

/-- The method of a word. -/
def ofWord? (w : String) : Option Method := (verbs ++ [Method.all, Method.grpc]).find? (·.word == w)

/-- The plain method of a word, whatever its case. -/
def verbOf? (w : String) : Option Method := verbs.find? (·.word == Text.upper w)

/-- The plain method a router's method of this name, in small letters, registers. -/
def registering? (name : String) : Option Method := verbs.find? (Text.lower ·.word == name)

end Method

/-- How an endpoint is called. -/
inductive Protocol where
  | http
  | rpc
  | grpc
  deriving DecidableEq, Repr, Inhabited

/-- The protocol's word. -/
def Protocol.word : Protocol → String
  | .http => "http"
  | .rpc => "rpc"
  | .grpc => "grpc"

/-- A path or query parameter. -/
structure Param where
  name : String
  /-- The word for the kind of its value. -/
  type : String := "string"
  required : Bool := true
  /-- A value given as an example, null for none. -/
  sample : Json := .null
  deriving Inhabited

/-- What a request carries. -/
structure Parameters where
  path : List Param := []
  query : List Param := []
  body : Option Shape := none
  deriving Inhabited

/-- A documented response. -/
structure Response where
  status : String
  description : String := ""
  body : Option Shape := none
  deriving Inhabited

/-- An endpoint. -/
structure Endpoint where
  method : Method
  path : String
  summary : Option String := none
  description : Option String := none
  tags : List String := []
  /-- The names of the handlers and decorators in front of it, in order. -/
  middleware : List String := []
  parameters : Parameters := {}
  responses : List Response := []
  /-- Its declaration asks for authorization. -/
  auth : Bool := false
  protocol : Protocol := .http
  /-- What kind of remote call it is, if it is one. -/
  rpcKind : Option String := none
  sourceFile : String := ""
  deriving Inhabited

/-- What identifies an endpoint. -/
def Endpoint.key (e : Endpoint) : String := Route.key e.method.word e.path

/-- A router of the fluent convention: the file that declares it, and its name there. -/
structure RouterId where
  file : String
  name : String
  deriving DecidableEq, Repr, Inhabited

/-- An endpoint as one file declares it. -/
structure Registration where
  /-- The endpoint, its path relative to the router. -/
  endpoint : Endpoint
  /-- The name of the router it is registered on, if any. -/
  router : Option String := none
  deriving Inhabited

/-- The endpoint with a complete path in place of its own. -/
def Endpoint.at (e : Endpoint) (path : String) : Endpoint := { e with path := Route.normalize path }

/-- The router of a registration. -/
def Registration.routerId? (r : Registration) : Option RouterId :=
  r.router.map (⟨r.endpoint.sourceFile, ·⟩)

/-! ## Parameters from shapes -/

/-- Where a parameter stands. -/
inductive ParamPlace where
  | path
  | query
  deriving DecidableEq, Repr

/-- The properties of an object as parameters; whatever stands in a path is required. -/
def Param.ofShape (shape : Shape) (place : ParamPlace) : List Param :=
  shape.properties.map fun (name, property) => {
    name := name
    type := if property.kind == .choice then "string" else property.kind.word
    required := place == .path || !property.optional
    sample := property.sample }

end RouteAtlas
