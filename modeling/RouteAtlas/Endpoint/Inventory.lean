/-
  From registrations to the list of endpoints.

  A registration on a router becomes one endpoint for every path the router is reached under; one
  without a router keeps its own path.  Of several endpoints with one key the last declaration wins
  and the first decides the place in the list.
-/
import RouteAtlas.Endpoint.Basic

namespace RouteAtlas.Endpoint

/-- The paths a registration's router is reached under; one whose router is not known has none to
    put in front. -/
def mountPaths (reached : List (RouterId × List String)) (r : Registration) : List String :=
  match r.routerId? with
  | some id => (Dict.get? reached id).getD [""]
  | none => [""]

/-- One endpoint per registration and path of its router. -/
def materialize (registrations : List Registration) (reached : List (RouterId × List String)) :
    List Endpoint :=
  registrations.flatMap fun r =>
    (mountPaths reached r).map fun path => r.endpoint.at (Route.join path r.endpoint.path)

/-- One endpoint per key: last declaration, first place. -/
def deduplicate (endpoints : List Endpoint) : List Endpoint :=
  Dict.values (Dict.ofList (endpoints.map fun e => (e.key, e)))

end RouteAtlas.Endpoint
