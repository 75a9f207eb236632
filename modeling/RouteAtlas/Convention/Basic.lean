/-
  What one file says about routes.

  There are three conventions of declaring routes, each read by a module beside this one: routers
  that calls are chained on, classes with decorators, and applications that handlers are handed to.
  Whatever the convention, a file yields its registrations.  The first convention also has routers
  as values: a file declares them, gives them further names, imports some from other files, and
  mounts one in another.
-/
import RouteAtlas.Endpoint.Basic
import RouteAtlas.Route.Chain
import RouteAtlas.Source.Bundle

namespace RouteAtlas.Convention

open Syntax (Node)
open Source (File Bundle)

/-- One router mounted in another, by the names a file has for them. -/
structure LocalMount where
  parent : String
  child : String
  path : String
  deriving DecidableEq, Repr, Inhabited

/-- What one file says about routes. -/
structure FileRoutes where
  file : String
  registrations : List Registration := []
  /-- The routers of the file, with the base path each has gathered. -/
  routers : Dict String := []
  /-- Further names of routers. -/
  aliases : Dict String := []
  mounts : List LocalMount := []
  /-- Routers that are imported and belong to the file that defines them. -/
  imported : List String := []
  /-- The file imports the package routers come from. -/
  importsFramework : Bool := false
  deriving Inhabited

namespace FileRoutes

/-- The router a name stands for in this file. -/
def routerNamed? (r : FileRoutes) (name : String) : Option String :=
  let name := Route.follow r.aliases name
  if Dict.has r.routers name then some name else none

/-- The routes with `name` among the routers. -/
def withRouter (r : FileRoutes) (name : String) : FileRoutes :=
  { r with routers := Dict.putNew r.routers name "" }

end FileRoutes

/-- The initializers a file can see: those of its own variables, and those of the variables it
    imports from other files. -/
def visibleInitializers (bundle : Bundle) (file : File) : Dict Node :=
  file.imports.foldl (fun known (name, _) =>
    if Dict.has known name then known
    else match bundle.resolveBinding? file name with
      | some (target, there) =>
        match Dict.get? target.declarators there with
        | some value => Dict.put known name value
        | none => known
      | none => known) file.declarators

end RouteAtlas.Convention
