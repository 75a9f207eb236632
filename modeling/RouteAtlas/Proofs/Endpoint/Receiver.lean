/-
  A router that is used through an import is the router of the file that defines it.

  ==== Problem ====

  Routes are registered on names, in any number of files, and many names stand for one router.  All of
  its routes have to come out under the same prefixes, the ones that its mounts give it, no matter
  which of its names they were registered on, and none may get lost on the way.

  ==== Program ====

  1. **Prefixes** - the search knows the routers of the graph; its outcome is then copied to every
     name that is redirected.  So each name is reached under the paths of the router that it is in the
     end (`get?_reached`).

  2. **Routes** - a route is dropped when its router is in the end a lost one; any other route ends up
     at a router of the graph, and becomes one endpoint for every prefix (`becomes_part`).

  3. **All together** - everything that the given files lead to was read, and the endpoints are what
     these routes become, one after the other (`endpoints_throughImports`).

  ==== The crux ====

  `get?_foldl_share`: while prefixes are copied, those they are copied from do not change, since the
  router at the end of its redirects is not redirected itself.
-/
import Mathlib.Data.List.Forall2
import RouteAtlas.Proofs.Endpoint.Linked
import RouteAtlas.Proofs.Route.Search
import RouteAtlas.Proofs.Syntax.Walk

namespace RouteAtlas.Survey

open Source (File Bundle)
open Convention (FileRoutes)
open Route (EndsAt)
open Syntax (Node Import)

/-- What a route becomes: nothing, if its router is in the end a lost one; else an endpoint for every
    prefix of this router, of which there is at least one. -/
def Becomes (bundle : Bundle) (read : Dict FileRoutes) (target : RouterId → RouterId)
    (reg : Registration) (endpoints : List Endpoint) : Prop :=
  ∃ r, reg.routerId? = some r ∧
    (Lost bundle read (target r) → endpoints = []) ∧
    (¬Lost bundle read (target r) → ∃ prefixes,
      Dict.get? (linkedGraph bundle read target).resolve (target r) = some prefixes ∧
      prefixes ≠ [] ∧ prefixes.Nodup ∧
      endpoints = prefixes.map fun path =>
        { reg.endpoint with path := Route.normalize (Route.join path reg.endpoint.path) })

namespace RouterGraph

/-! ## Copying prefixes

The paths of a router are copied to all names that stand for it, one name after the other. -/

/-- A name gets the paths of the router that it is in the end. -/
def share (g : RouterGraph) (found : List (RouterId × List String)) (router : RouterId) :
    List (RouterId × List String) :=
  if g.target router == router then found
  else match Dict.get? found (g.target router) with
    | some paths => Dict.put found router paths
    | none => found

/-- The paths under which routers are reached: those of the search, copied to names. -/
theorem reached_eq (g : RouterGraph) :
    g.reached = (Dict.keys g.redirects).foldl g.share g.mountGraph.resolve := by
  unfold reached Dict.keys
  rw [List.foldl_map]
  rfl

/-- Copying to one name changes what is found for this name only. -/
theorem get?_share (g : RouterGraph) (found : List (RouterId × List String)) (router r : RouterId) :
    Dict.get? (g.share found router) r =
      if router = r ∧ g.target r ≠ r then (Dict.get? found (g.target r)).or (Dict.get? found r)
      else Dict.get? found r := by
  unfold share
  by_cases hrouter : router = r
  · subst hrouter
    by_cases hself : g.target router = router
    · rw [if_pos (beq_iff_eq.mpr hself), if_neg fun h => h.2 hself]
    · rw [if_neg fun h => hself (eq_of_beq h), if_pos ⟨rfl, hself⟩]
      cases Dict.get? found (g.target router) with
      | none => rfl
      | some paths => exact Dict.get?_put_self ..
  · refine Eq.trans ?_ (if_neg fun h => hrouter h.1).symm
    split
    · rfl
    · split
      · exact Dict.get?_put_of_ne (Ne.symm hrouter) ..
      · rfl

/-- **Copying leaves alone what it copies from.** A target is its own target, so it is never copied
    onto, and copying a second time finds what the first one found. -/
theorem get?_foldl_share {g : RouterGraph} (hfixed : ∀ r, g.target (g.target r) = g.target r)
    (names : List RouterId) (found : List (RouterId × List String)) (r : RouterId) :
    Dict.get? (names.foldl g.share found) r =
      if r ∈ names ∧ g.target r ≠ r then (Dict.get? found (g.target r)).or (Dict.get? found r)
      else Dict.get? found r := by
  induction names generalizing found with
  | nil => exact (if_neg fun h => List.not_mem_nil h.1).symm
  | cons router names ih =>
    have htarget : Dict.get? (g.share found router) (g.target r) = Dict.get? found (g.target r) := by
      rw [get?_share, if_neg fun h => h.2 (hfixed r)]
    rw [List.foldl_cons, ih, htarget, get?_share]
    by_cases hself : g.target r = r
    · rw [if_neg fun h => h.2 hself, if_neg fun h => h.2 hself, if_neg fun h => h.2 hself]
    · by_cases hrouter : router = r
      · have hnow : router = r ∧ g.target r ≠ r := ⟨hrouter, hself⟩
        have hmem : r ∈ router :: names ∧ g.target r ≠ r := ⟨hrouter ▸ List.mem_cons_self .., hself⟩
        rw [if_pos hnow, if_pos hmem]
        -- copied now, and perhaps once more
        split
        · cases Dict.get? found (g.target r) <;> rfl
        · rfl
      · have hnow : ¬(router = r ∧ g.target r ≠ r) := fun h => hrouter h.1
        have hmem : r ∈ router :: names ↔ r ∈ names :=
          List.mem_cons.trans (or_iff_right fun h => hrouter h.symm)
        rw [if_neg hnow]
        simp only [hmem]

/-! ## Prefixes -/

section

variable {bundle : Bundle} {files : List File} {g : RouterGraph} (hg : Finished bundle files g)
  (acyclic : ∀ r, ¬Relation.TransGen (Redirects bundle g.read) r r)
include hg

/-- No router is listed twice. -/
theorem nodup_keys_routers : (Dict.keys g.mountGraph.routers).Nodup := by
  show (Dict.keys g.routers).Nodup
  rw [routers_eq hg]
  exact Dict.nodup_keys_ofList _

/-- The search gives paths for each router. -/
theorem mem_keys_resolve {r : RouterId} :
    r ∈ Dict.keys g.mountGraph.resolve ↔ r ∈ Dict.keys g.routers :=
  (g.mountGraph.keys_resolve_perm (nodup_keys_routers hg)).mem_iff

include acyclic

/-- What a name stands for stands for itself. -/
theorem target_target (r : RouterId) : g.target (g.target r) = g.target r := by
  refine Route.follow_of_get?_eq_none (Option.eq_none_iff_forall_ne_some.mpr fun s hs => ?_)
  exact (endsAt_target hg acyclic r).2 s ((links_iff_redirects hg).mp hs)

/-- A name that stands for another router is redirected. -/
theorem exists_redirects {r : RouterId} (h : g.target r ≠ r) :
    ∃ s, Redirects bundle g.read r s := by
  rcases Relation.ReflTransGen.cases_head (endsAt_target hg acyclic r).1 with heq | ⟨s, hs, -⟩
  · exact absurd heq.symm h
  · exact ⟨s, hs⟩

/-- **Every name is reached under the paths of the router that it is in the end.** -/
theorem get?_reached (r : RouterId) :
    Dict.get? g.reached r = Dict.get? g.mountGraph.resolve (g.target r) := by
  rw [reached_eq, get?_foldl_share (target_target hg acyclic)]
  by_cases hself : g.target r = r
  · rw [if_neg fun h => h.2 hself, hself]
  · obtain ⟨s, hs⟩ := exists_redirects hg acyclic hself
    have hkey : r ∈ Dict.keys g.redirects := by
      obtain ⟨routes, hroutes, hfile, himported, hdefined⟩ := hs
      have hget := get?_redirects hg hroutes hfile
      rw [if_pos himported] at hget
      exact Dict.mem_keys_of_get? hget
    have hnone : Dict.get? g.mountGraph.resolve r = none := by
      refine Dict.get?_eq_none_iff.mpr fun hr => ?_
      exact ((mem_keys_routers hg).mp ((mem_keys_resolve hg).mp hr)).2.1 s hs
    rw [if_pos ⟨hkey, hself⟩, hnone, Option.or_none]

/-! ## Routes

A route is kept unless its router is lost; its endpoints have the paths of that router in front. -/

omit hg acyclic in
/-- Is a route kept? -/
def keeps (g : RouterGraph) (reg : Registration) : Bool :=
  match reg.routerId? with
  | some router => !g.lost.contains (g.target router)
  | none => true

/-- The endpoints that a route gives. -/
def part (g : RouterGraph) (reg : Registration) : List Endpoint :=
  if g.keeps reg then (Endpoint.mountPaths g.reached reg).map fun path =>
    reg.endpoint.at (Route.join path reg.endpoint.path)
  else []

omit hg acyclic in
/-- The endpoints of a graph, route by route. -/
theorem endpoints_eq (g : RouterGraph) :
    g.endpoints = (((Dict.values g.read).flatMap (·.registrations)).map g.part).flatten := by
  show ((List.flatMap _ _).filter g.keeps).flatMap _ = _
  induction (Dict.values g.read).flatMap (·.registrations) with
  | nil => rfl
  | cons reg regs ih =>
    rw [List.filter_cons, List.map_cons, List.flatten_cons, ← ih, part]
    split
    · rfl
    · rfl

/-- **What a route becomes**: it is dropped when its router is lost in the end.  Its receiver leads
    to a router at the end of the redirects, which is kept unless it is lost, and then the prefixes
    of that router are those of the route. -/
theorem becomes_part {reg : Registration}
    (hreg : reg ∈ (Dict.values g.read).flatMap (·.registrations)) :
    Becomes bundle g.read g.target reg (g.part reg) := by
  obtain ⟨r, hr, hrouter⟩ := exists_router hg hreg
  obtain ⟨hleads, hend⟩ := endsAt_target hg acyclic r
  have htarget : IsRouter g.read (g.target r) := isRouter_of_leads hr hleads
  have hkeeps : g.keeps reg = true ↔ ¬Lost bundle g.read (g.target r) := by
    unfold keeps
    rw [hrouter]
    dsimp only
    rw [Bool.not_eq_true', ← Bool.not_eq_true, List.contains_iff_mem, mem_lost hg,
      and_iff_right htarget]
  refine ⟨r, hrouter, fun hlost => ?_, fun hlost => ?_⟩
  · exact if_neg fun hkept => hkeeps.mp hkept hlost
  · have hknown : g.target r ∈ Dict.keys g.routers := (mem_keys_routers hg).mpr ⟨htarget, hend, hlost⟩
    obtain ⟨prefixes, hget⟩ := Dict.exists_get?_of_mem_keys ((mem_keys_resolve hg).mpr hknown)
    obtain ⟨hne, hnodup⟩ := Route.MountGraph.paths_of_get?_resolve hget
    refine ⟨prefixes, mountGraph_eq hg ▸ hget, hne, hnodup, ?_⟩
    have hpaths : Endpoint.mountPaths g.reached reg = prefixes := by
      unfold Endpoint.mountPaths
      rw [hrouter]
      dsimp only
      rw [get?_reached hg acyclic, hget]
      rfl
    unfold part
    rw [if_pos (hkeeps.mpr hlost), hpaths]
    rfl

end

/-! ## The endpoints

A registration becomes one endpoint for each prefix of the router it is on in the end, or none when
that router is lost. -/

/-- What a graph of routers makes of the routes of some files. -/
structure ThroughImports (bundle : Bundle) (files : List File) (g : RouterGraph) : Prop where
  /-- All that the files lead to was read. -/
  complete : Complete bundle files g.read
  /-- Every name has the router that it is in the end as its target. -/
  endsAt : ∀ r, EndsAt (Redirects bundle g.read) r (g.target r)
  /-- The endpoints are what the registered routes become, in order. -/
  endpoints : ∃ parts, g.endpoints = parts.flatten ∧
    List.Forall₂ (Becomes bundle g.read g.target)
      ((Dict.values g.read).flatMap (·.registrations)) parts
  /-- Routes whose routers are one in the end have the same prefixes. -/
  same : ∀ reg ∈ (Dict.values g.read).flatMap (·.registrations),
    ∀ other ∈ (Dict.values g.read).flatMap (·.registrations),
    ∀ r s, reg.routerId? = some r → other.routerId? = some s → g.target r = g.target s →
      Endpoint.mountPaths g.reached reg = Endpoint.mountPaths g.reached other

/-- **A router that is used through an import is the router of the file that defines it**, through
    however many files, as long as redirects do not go round in circles. -/
theorem endpoints_throughImports (bundle : Bundle) (files : List File)
    (acyclic : ∀ r, ¬Relation.TransGen (Redirects bundle (ofFiles bundle files).read) r r) :
    ThroughImports bundle files (ofFiles bundle files) := by
  have hg := finished_ofFiles bundle files
  generalize ofFiles bundle files = g at *
  constructor
  case complete => exact hg.complete
  case endsAt => exact endsAt_target hg acyclic
  case endpoints =>
    refine ⟨_, g.endpoints_eq, ?_⟩
    rw [List.forall₂_map_right_iff]
    exact List.forall₂_same.mpr fun reg hreg => becomes_part hg acyclic hreg
  case same =>
    intro reg _ other _ r s hr hs hsame
    unfold Endpoint.mountPaths
    rw [hr, hs]
    dsimp only
    rw [get?_reached hg acyclic, get?_reached hg acyclic, hsame]

/-! ## A chain of imports -/

open Syntax.Node (branch leaf calling)

/-- A string literal. -/
def quoted (text : String) : Node := leaf "string" "" ("\"" ++ text ++ "\"")

/-- A method called on a variable. -/
def callOn (object method : String) (args : List Node) : Node :=
  calling (leaf "identifier" "" object) method args

/-- A file that constructs some routers and makes some calls. -/
def sourceFile (name : String) (imports : Dict Import) (exports : Dict String)
    (routers : List String) (calls : List Node) : File where
  path := ⟨"", [name]⟩
  text := ""
  root := branch "program" "" "" calls
  hasErrors := false
  imports := imports
  exports := exports
  declarators := routers.map fun router =>
    (router, branch "new_expression" "" "" [leaf "identifier" "constructor" "Hono"])

/-- The file that a run starts from: its router is imported, and another import leads nowhere. -/
def entryFile : File :=
  sourceFile "main.ts" [("root", ⟨"./barrel", "server"⟩), ("ghost", ⟨"./nowhere", "ghost"⟩)] [] []
    [callOn "root" "post" [quoted "/main"], callOn "ghost" "get" [quoted "/lost"]]

/-- The router of `main.ts` is imported here too, from the file that defines it and mounts another. -/
def importChain : Bundle where
  paths := [entryFile.path]
  files := [
    entryFile,
    sourceFile "barrel.ts" [("app", ⟨"./base", "app"⟩)] [("server", "app")] []
      [callOn "app" "get" [quoted "/barrel"]],
    sourceFile "base.ts" [("Hono", ⟨"hono", "Hono"⟩), ("users", ⟨"./users", "users"⟩)]
      [("app", "app")] ["app"] [callOn "app" "basePath" [quoted "/api"],
        callOn "app" "route" [quoted "/users", leaf "identifier" "" "users"]],
    sourceFile "users.ts" [("Hono", ⟨"hono", "Hono"⟩)] [("users", "users")] ["users"]
      [callOn "users" "get" [quoted "/list"]]].map fun file => (file.path, .ok file)

/-- A router that is imported through another file is the one that is constructed there. -/
theorem endpoints_throughImports_importChain :
    (∀ r, ¬Relation.TransGen
      (Redirects importChain (ofFiles importChain [entryFile]).read) r r) ∧
    ThroughImports importChain [entryFile] (ofFiles importChain [entryFile]) := by
  have hrises : ∀ path ∈ importChain.files.map (·.1), risesAt importChain
      (fun path => ["main.ts", "barrel.ts", "base.ts", "users.ts"].idxOf path) path.text = true := by
    decide +kernel
  have hacyclic := acyclic_of_rank (finished_ofFiles importChain [entryFile]) _ fun file hfile => by
    refine hrises file.path ?_
    rcases hfile with hfile | ⟨path, hpath⟩
    · obtain rfl := List.mem_singleton.mp hfile
      exact List.mem_cons_self ..
    · obtain ⟨rfl, hmem⟩ := Bundle.read?_eq_some hpath
      exact hmem
  exact ⟨hacyclic, endpoints_throughImports importChain [entryFile] hacyclic⟩

end RouterGraph

end RouteAtlas.Survey
