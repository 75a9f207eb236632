/-
  Endpoints written as JSON.

  Every field is written in its order, lists also when they are empty; what is unknown is left out.
  The key stands at the end.
-/
import RouteAtlas.Endpoint.Basic

namespace RouteAtlas

/-- A field that is left out when there is no value. -/
def fieldOf? (name : String) (value : Option Json) : List (String × Json) :=
  (value.map fun v => (name, v)).toList

/-- A value unless it is null. -/
def Json.notNull? : Json → Option Json
  | .null => none
  | value => some value

mutual
/-- A shape as JSON. -/
def Shape.toJson : Shape → Json
  | ⟨kind, properties, required, items, values, sample, optional, nullable, format, description⟩ =>
    .obj ([("type", .str kind.word), ("properties", .obj (propertiesToJson properties)),
        ("required", .arr (required.map .str))]
      ++ fieldOf? "items" (itemsToJson items)
      ++ [("values", .arr values)]
      ++ fieldOf? "example" sample.notNull?
      ++ [("optional", .bool optional), ("nullable", .bool nullable)]
      ++ fieldOf? "format" (format.map .str)
      ++ fieldOf? "description" (description.map .str))
/-- Properties as fields. -/
def Shape.propertiesToJson : List (String × Shape) → List (String × Json)
  | [] => []
  | (name, shape) :: rest => (name, Shape.toJson shape) :: Shape.propertiesToJson rest
/-- The shape of items, if it is known. -/
def Shape.itemsToJson : Option Shape → Option Json
  | none => none
  | some shape => some (Shape.toJson shape)
end

/-- A parameter as JSON. -/
def Param.toJson (p : Param) : Json :=
  .obj ([("name", .str p.name), ("type", .str p.type), ("required", .bool p.required)]
    ++ fieldOf? "example" p.sample.notNull?)

/-- Parameters as JSON. -/
def Parameters.toJson (p : Parameters) : Json :=
  .obj ([("path", .arr (p.path.map Param.toJson)), ("query", .arr (p.query.map Param.toJson))]
    ++ fieldOf? "body" (p.body.map Shape.toJson))

/-- A response as JSON. -/
def Response.toJson (r : Response) : Json :=
  .obj ([("status", .str r.status), ("description", .str r.description)]
    ++ fieldOf? "body" (r.body.map Shape.toJson))

/-- An endpoint as JSON. -/
def Endpoint.toJson (e : Endpoint) : Json :=
  .obj ([("method", .str e.method.word), ("path", .str e.path)]
    ++ fieldOf? "summary" (e.summary.map .str)
    ++ fieldOf? "description" (e.description.map .str)
    ++ [("tags", .arr (e.tags.map .str)), ("middleware", .arr (e.middleware.map .str)),
      ("parameters", e.parameters.toJson), ("responses", .arr (e.responses.map Response.toJson)),
      ("auth", .bool e.auth), ("protocol", .str e.protocol.word)]
    ++ fieldOf? "rpc_kind" (e.rpcKind.map .str)
    ++ [("source_file", .str e.sourceFile), ("key", .str e.key)])

end RouteAtlas
