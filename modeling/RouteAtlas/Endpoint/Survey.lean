/-
  All endpoints of a bundle of files.

  The framework is given or left open.  Given, its convention reads the files; when it finds
  nothing the question is treated as open.  Open, the fluent convention is tried first, and when it
  finds nothing the two others read every file, both of them.

  Fluent routers refer to each other across files.  Starting from the files to be searched, the
  files behind imported and mounted routers are read as well, and those behind them, each once; so
  the reading ends.  A router that is used through an import is the router of the file that defines
  it: `redirects` leads from the one to the other, and routes, base paths and mounts of both are put
  together at the end of the chain.  What is imported from where no router can be found is dropped
  unless its file imports the framework.

  A file that cannot be read is reported and does not affect the others.
-/
import RouteAtlas.Convention.Controller
import RouteAtlas.Convention.Fluent
import RouteAtlas.Convention.Middleware
import RouteAtlas.Endpoint.Framework
import RouteAtlas.Endpoint.Inventory

namespace RouteAtlas

open Source (File Bundle Location)
open Convention (FileRoutes)

/-- Problems met on the way. -/
structure Diagnostics where
  /-- Files that were skipped, with the reason. -/
  errors : List (String × String) := []
  /-- What was done nevertheless, but perhaps not fully. -/
  warnings : List String := []
  deriving Inhabited

/-- What a search for endpoints gives. -/
structure Survey where
  endpoints : List Endpoint
  /-- The convention that gave the endpoints, `none` without any. -/
  framework : String
  diagnostics : Diagnostics
  deriving Inhabited

namespace Survey

/-! ## The graph of fluent routers -/

/-- The files read so far, and how their routers are linked. -/
structure RouterGraph where
  /-- The routes of every file read, by its path, in the order of reading. -/
  read : Dict FileRoutes := []
  /-- Where routers that are imported are defined, if that is known. -/
  redirects : List (RouterId × Option RouterId) := []
  mounts : List (Route.Mount RouterId) := []
  deriving Inhabited

namespace RouterGraph

/-- Reads a file unless that has been done. -/
def add (bundle : Bundle) (file : File) (g : RouterGraph) : FileRoutes × RouterGraph :=
  match Dict.get? g.read file.path.text with
  | some routes => (routes, g)
  | none =>
    let routes := Convention.Fluent.routesOf bundle file
    (routes, { g with read := g.read ++ [(file.path.text, routes)] })

/-- The router behind an imported name, in the file that defines it. -/
def resolveImported (bundle : Bundle) (routes : FileRoutes) (name : String) (g : RouterGraph) :
    Option RouterId × RouterGraph :=
  match bundle.read? (Location.clean routes.file) with
  | none => (none, g)
  | some file =>
    match Dict.get? file.imports name with
    | none => (none, g)
    | some origin =>
      match bundle.importedFile? file origin.specifier with
      | none => (none, g)
      | some target =>
        let added := g.add bundle target
        let name := (Dict.get? target.exports origin.name).getD origin.name
        ((added.1.routerNamed? name).map (⟨added.1.file, ·⟩), added.2)

/-- The router a mounted name stands for. -/
def resolveChild (bundle : Bundle) (routes : FileRoutes) (name : String) (g : RouterGraph) :
    Option RouterId × RouterGraph :=
  match routes.routerNamed? name with
  | some known => (some ⟨routes.file, known⟩, g)
  | none => g.resolveImported bundle routes name

/-- Notes where an imported router is defined. -/
def addRedirect (bundle : Bundle) (routes : FileRoutes) (g : RouterGraph) (name : String) :
    RouterGraph :=
  let resolved := g.resolveImported bundle routes name
  { resolved.2 with
    redirects := Dict.put resolved.2.redirects ⟨routes.file, name⟩ resolved.1 }

/-- Notes a mount whose child is known. -/
def addMount (bundle : Bundle) (routes : FileRoutes) (g : RouterGraph)
    (mount : Convention.LocalMount) : RouterGraph :=
  let parent := (routes.routerNamed? mount.parent).getD mount.parent
  let resolved := g.resolveChild bundle routes mount.child
  match resolved.1 with
  | some child =>
    { resolved.2 with
      mounts := resolved.2.mounts ++ [⟨⟨routes.file, parent⟩, child, mount.path⟩] }
  | none => resolved.2

/-- Follows all imports and mounts of one file. -/
def visit (bundle : Bundle) (routes : FileRoutes) (g : RouterGraph) : RouterGraph :=
  routes.mounts.foldl (addMount bundle routes) (routes.imported.foldl (addRedirect bundle routes) g)

/-! ## The reading ends

    Every step only adds files of the bundle that were not read before, so the files still unread
    pay for those that are added. -/

/-- The number of the bundle's files that have not been read. -/
def unread (bundle : Bundle) (g : RouterGraph) : Nat :=
  (bundle.files.map (·.1)).countP fun p => !Dict.has g.read p.text

/-- `h` has read what `g` has, and more files only at the cost of unread ones. -/
def Extends (bundle : Bundle) (g h : RouterGraph) : Prop :=
  ∃ added, h.read = g.read ++ added ∧ h.unread bundle + added.length ≤ g.unread bundle

theorem extends_refl {bundle : Bundle} {g : RouterGraph} : Extends bundle g g :=
  ⟨[], by simp, by simp⟩

theorem Extends.trans {bundle : Bundle} {g h k : RouterGraph} (a : Extends bundle g h)
    (b : Extends bundle h k) : Extends bundle g k := by
  obtain ⟨l, hl, hn⟩ := a
  obtain ⟨m, hm, hk⟩ := b
  exact ⟨l ++ m, by rw [hm, hl, List.append_assoc], by simp only [List.length_append]; omega⟩

theorem Extends.of_read_eq {bundle : Bundle} {g h k : RouterGraph} (a : Extends bundle g h)
    (same : k.read = h.read) : Extends bundle g k := by
  obtain ⟨l, hl, hn⟩ := a
  refine ⟨l, by rw [same, hl], ?_⟩
  unfold unread at *
  rw [same]
  exact hn

/-- If `q` implies `p` and some element satisfies `p` alone, fewer elements satisfy `q`. -/
theorem countP_lt_of_mem {α : Type} {p q : α → Bool} {l : List α} {x : α} (hx : x ∈ l)
    (hp : p x = true) (hq : q x = false) (le : ∀ y, q y = true → p y = true) :
    l.countP q < l.countP p := by
  induction l with
  | nil => cases hx
  | cons y l ih =>
    have mono : l.countP q ≤ l.countP p := List.countP_mono_left fun y _ => le y
    rcases List.mem_cons.1 hx with rfl | h
    · rw [List.countP_cons_of_neg (by simp [hq]), List.countP_cons_of_pos hp]
      omega
    · have := ih h
      have hy := le y
      simp only [List.countP_cons]
      split <;> rename_i hqy
      · rw [if_pos (hy hqy)]; omega
      · omega

theorem has_append {β : Type} (d e : Dict β) (k : String) :
    Dict.has (d ++ e) k = (Dict.has d k || Dict.has e k) := by
  simp only [Dict.has, List.lookup_append]
  cases List.lookup k d <;> simp

theorem add_extends {bundle : Bundle} {path : Location} {file : File}
    (h : bundle.read? path = some file) (g : RouterGraph) :
    Extends bundle g (g.add bundle file).2 := by
  obtain ⟨hp, hm⟩ := Bundle.read?_eq_some h
  unfold add
  cases hr : Dict.get? g.read file.path.text with
  | some routes => exact extends_refl
  | none =>
    refine ⟨[(file.path.text, Convention.Fluent.routesOf bundle file)], rfl, ?_⟩
    have hr' : Dict.has g.read file.path.text = false := by
      simpa [Dict.has, Dict.get?] using hr
    refine countP_lt_of_mem (x := path) hm (by simpa [← hp] using hr') ?_ ?_
    · simp [← hp, Dict.has]
    · intro y hy
      simp only [has_append, Bool.not_or, Bool.and_eq_true] at hy
      exact hy.1

theorem resolveImported_extends (bundle : Bundle) (routes : FileRoutes) (name : String)
    (g : RouterGraph) : Extends bundle g (g.resolveImported bundle routes name).2 := by
  unfold resolveImported
  split
  · exact extends_refl
  · split
    · exact extends_refl
    · split
      · exact extends_refl
      · rename_i target ht
        obtain ⟨path, _, hread⟩ := Option.bind_eq_some_iff.1 ht
        exact add_extends hread g

theorem resolveChild_extends (bundle : Bundle) (routes : FileRoutes) (name : String)
    (g : RouterGraph) : Extends bundle g (g.resolveChild bundle routes name).2 := by
  unfold resolveChild
  split
  · exact extends_refl
  · exact resolveImported_extends bundle routes name g

theorem addMount_extends (bundle : Bundle) (routes : FileRoutes) (g : RouterGraph)
    (mount : Convention.LocalMount) : Extends bundle g (g.addMount bundle routes mount) := by
  have h := resolveChild_extends bundle routes mount.child g
  unfold addMount
  dsimp only
  split
  · exact h.of_read_eq rfl
  · exact h

theorem foldl_extends {β : Type} {bundle : Bundle} (step : RouterGraph → β → RouterGraph)
    (h : ∀ g x, Extends bundle g (step g x)) (l : List β) (g : RouterGraph) :
    Extends bundle g (l.foldl step g) := by
  induction l generalizing g with
  | nil => exact extends_refl
  | cons x l ih => exact (h g x).trans (ih (step g x))

/-- Visiting a file reads further files only at the cost of unread ones. -/
theorem visit_extends (bundle : Bundle) (routes : FileRoutes) (g : RouterGraph) :
    Extends bundle g (g.visit bundle routes) :=
  (foldl_extends (addRedirect bundle routes)
    (fun g name => (resolveImported_extends bundle routes name g).of_read_eq rfl) _ g).trans
    (foldl_extends (addMount bundle routes) (addMount_extends bundle routes) _ _)

/-- Visits the pending files, and then those that were read on the way. -/
def settle (bundle : Bundle) : (pending : List FileRoutes) → RouterGraph → RouterGraph
  | [], g => g
  | routes :: pending, g =>
    let after := g.visit bundle routes
    settle bundle (pending ++ Dict.values (after.read.drop g.read.length)) after
termination_by pending g => 2 * g.unread bundle + pending.length
decreasing_by
  obtain ⟨added, hread, hcost⟩ := visit_extends bundle routes g
  simp only [hread, Dict.values, List.drop_left, List.length_append, List.length_map,
    List.length_cons]
  omega

/-- The graph of the routers of some files, and of all files they lead to. -/
def ofFiles (bundle : Bundle) (files : List File) : RouterGraph :=
  let start := files.foldl (fun g file => (g.add bundle file).2) ({} : RouterGraph)
  start.settle bundle (Dict.values start.read)

/-! ## From the graph to endpoints -/

/-- The known redirects. -/
def links (g : RouterGraph) : List (RouterId × RouterId) :=
  g.redirects.filterMap fun (router, target) => target.map (router, ·)

/-- The router that another one is in the end. -/
def target (g : RouterGraph) (router : RouterId) : RouterId := Route.follow g.links router

/-- All routers that files mention, with their base paths and the file's routes. -/
def mentioned (g : RouterGraph) : List (RouterId × String × FileRoutes) :=
  (Dict.values g.read).flatMap fun routes =>
    routes.routers.map fun (name, base) => (⟨routes.file, name⟩, base, routes)

/-- Is the router an import that leads to no router, in a file that does not import the framework? -/
def isLost (g : RouterGraph) (router : RouterId) (routes : FileRoutes) : Bool :=
  Dict.get? g.redirects router == some none && !routes.importsFramework

/-- The routers that exist: neither redirected nor lost. -/
def routers (g : RouterGraph) : List (RouterId × String) :=
  Dict.ofList (g.mentioned.filterMap fun (router, base, routes) =>
    if Dict.has g.links router || g.isLost router routes then none else some (router, base))

/-- The routers whose routes are dropped. -/
def lost (g : RouterGraph) : List RouterId :=
  g.mentioned.filterMap fun (router, _, routes) =>
    if !Dict.has g.links router && g.isLost router routes then some router else none

/-- The routers that exist, with both ends of every mount at the end of their chains. -/
def mountGraph (g : RouterGraph) : Route.MountGraph RouterId where
  routers := g.routers
  mounts := g.mounts.map fun m => ⟨g.target m.parent, g.target m.child, m.path⟩

/-- The paths every router is reached under; a redirected one shares those of its target. -/
def reached (g : RouterGraph) : List (RouterId × List String) :=
  g.redirects.foldl (fun found (router, _) =>
    if g.target router == router then found
    else match Dict.get? found (g.target router) with
      | some paths => Dict.put found router paths
      | none => found) g.mountGraph.resolve

/-- The registrations of all files, except those on lost routers. -/
def registrations (g : RouterGraph) : List Registration :=
  ((Dict.values g.read).flatMap (·.registrations)).filter fun r =>
    match r.routerId? with
    | some router => !g.lost.contains (g.target router)
    | none => true

/-- The endpoints of the graph. -/
def endpoints (g : RouterGraph) : List Endpoint := Endpoint.materialize g.registrations g.reached

end RouterGraph

/-! ## Conventions -/

/-- The endpoints of fluent routers. -/
def fluent (bundle : Bundle) (files : List File) : List Endpoint :=
  (RouterGraph.ofFiles bundle files).endpoints

/-- The endpoints of files read one by one, each file's declarations settled before the next. -/
def perFile (files : List File) (conventions : List (File → FileRoutes)) : List Endpoint :=
  files.flatMap fun file =>
    Endpoint.deduplicate (conventions.flatMap fun read =>
      (read file).registrations.map fun r => r.endpoint.at r.endpoint.path)

/-- The endpoints when the framework is open, and what found them. -/
def openly (bundle : Bundle) (files : List File) : List Endpoint × String :=
  match fluent bundle files with
  | [] =>
    (perFile files [Convention.Controller.routesOf bundle, Convention.Middleware.routesOf bundle],
      Framework.auto.word)
  | found => (found, Framework.hono.word)

/-- The endpoints a framework's convention finds, and what found them. -/
def byFramework (bundle : Bundle) (files : List File) : Framework → List Endpoint × String
  | .auto => openly bundle files
  | .hono => (fluent bundle files, Framework.hono.word)
  | .nestjs => (perFile files [Convention.Controller.routesOf bundle], Framework.nestjs.word)
  | .express => (perFile files [Convention.Middleware.routesOf bundle], Framework.express.word)

/-! ## The survey -/

/-- Reads the files to be searched, and reports those that cannot be read or fully understood. -/
def load (bundle : Bundle) : List File × Diagnostics :=
  bundle.paths.foldl (fun (files, problems) path =>
    match bundle.read path with
    | .error fault =>
      (files, { problems with
        errors := problems.errors ++ [(path.text, "could not read or parse: " ++ fault.message)] })
    | .ok file =>
      (files ++ [file], if file.hasErrors then { problems with
        warnings := problems.warnings
          ++ [path.text ++ ": syntax errors, extraction may be incomplete"] } else problems))
    ([], {})

/-- What is said when a given framework's convention finds nothing. -/
def fallbackWarning (framework : Framework) : String :=
  "No endpoints found with framework '" ++ framework.word ++ "', falling back to auto detection"

/-- All endpoints of a bundle, each key once. -/
def run (bundle : Bundle) (framework : Framework) : Survey :=
  let (files, problems) := load bundle
  let first := byFramework bundle files framework
  let retry := first.1.isEmpty && framework != .auto
  let (found, used) := if retry then openly bundle files else first
  let endpoints := Endpoint.deduplicate found
  { endpoints := endpoints
    framework := if endpoints.isEmpty then "none" else used
    diagnostics := if retry then { problems with
        warnings := problems.warnings ++ [fallbackWarning framework] } else problems }

end Survey

end RouteAtlas
