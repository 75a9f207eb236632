/-
  The graph of routers once every imported receiver is the router it stands for.

  ==== Problem ====

  Of all the routers that files mention, some are imported receivers.  Those that another file
  defines are no routers of their own; those that nothing defines are, but only in a file that imports
  the framework.  The mounts of all files have to meet at the routers that remain.

  ==== Program ====

  1. **Specification** - `linkedGraph` has the routers that files own (`isOwn`), and the mounts of all
     files with both ends replaced by what they are in the end.

  2. **The graph that is searched is that one** (`mountGraph_eq`): a mentioned router is left out of it
     exactly when it is redirected or lost.

  3. **Every router ends up in it or is lost** (`mem_keys_routers`, `mem_lost_iff`): redirects lead
     from a router to routers only, and where they end there is one that is not redirected.
-/
import Mathlib.Data.List.Basic
import RouteAtlas.Proofs.Endpoint.Redirect

namespace RouteAtlas.Survey

open Source (File Bundle)
open Convention (FileRoutes)
open Route (Links)

section

variable (bundle : Bundle) (read : Dict FileRoutes)

/-- Does a router belong to the file that mentions it?  An imported receiver does when no file defines
    it, and the file that uses it imports the framework. -/
def isOwn (routes : FileRoutes) (name : String) : Bool :=
  !routes.imported.contains name ||
    ((definedRouter? bundle read routes name).isNone && routes.importsFramework)

/-- The routers that belong to a file, with their base paths. -/
def ownRouters (routes : FileRoutes) : List (RouterId × String) :=
  (routes.routers.filter fun e => isOwn bundle read routes e.1).map fun e =>
    (⟨routes.file, e.1⟩, e.2)

/-- The routers that belong to some file, mounted as all files say, where each end of a mount is the
    router that it is in the end. -/
def linkedGraph (target : RouterId → RouterId) : Route.MountGraph RouterId where
  routers := Dict.ofList ((Dict.values read).flatMap (ownRouters bundle read))
  mounts := ((Dict.values read).flatMap (mountsOf bundle read)).map fun m =>
    ⟨target m.parent, target m.child, m.path⟩

end

namespace RouterGraph

variable {bundle : Bundle} {files : List File} {g : RouterGraph} (hg : Finished bundle files g)
include hg

section

variable {routes : FileRoutes} (hroutes : routes ∈ Dict.values g.read) {r : RouterId}
  (hfile : r.file = routes.file)
include hroutes hfile

/-- A name is linked to the router that it is in the file that defines it. -/
theorem get?_links : Dict.get? g.links r =
    if r.name ∈ routes.imported then definedRouter? bundle g.read routes r.name else none := by
  rw [get?_links_eq hg, get?_redirects hg hroutes hfile]
  split <;> rfl

/-- A router is left out of the graph exactly when it does not belong to its file. -/
theorem left_out_eq :
    (Dict.has g.links r || g.isLost r routes) = !isOwn bundle g.read routes r.name := by
  show ((Dict.get? g.links r).isSome || g.isLost r routes) = _
  unfold isLost isOwn
  rw [get?_links hg hroutes hfile, get?_redirects hg hroutes hfile]
  by_cases himported : r.name ∈ routes.imported
  · rw [if_pos himported, if_pos himported, List.contains_iff_mem.mpr himported]
    cases definedRouter? bundle g.read routes r.name with
    | some s => rfl
    | none => cases routes.importsFramework <;> rfl
  · rw [if_neg himported, if_neg himported]
    have hcontains : routes.imported.contains r.name = false := by simpa using himported
    rw [hcontains]
    rfl

/-- A name is redirected if it is imported and a router where it comes from. -/
theorem redirects_iff {s : RouterId} : Redirects bundle g.read r s ↔
    r.name ∈ routes.imported ∧ definedRouter? bundle g.read routes r.name = some s := by
  rw [← links_iff_redirects hg, Links, get?_links hg hroutes hfile]
  split
  · rename_i himported
    exact (and_iff_right himported).symm
  · rename_i himported
    exact ⟨fun h => absurd h.symm (Option.some_ne_none s), fun h => absurd h.1 himported⟩

theorem lost_iff : Lost bundle g.read r ↔ r.name ∈ routes.imported ∧
    definedRouter? bundle g.read routes r.name = none ∧ routes.importsFramework = false := by
  constructor
  · rintro ⟨other, hother, hotherFile, hlost⟩
    obtain rfl := eq_of_file_eq hg hroutes hother (hfile.symm.trans hotherFile)
    exact hlost
  · exact fun hlost => ⟨routes, hroutes, hfile, hlost⟩

/-- A router's routes are dropped exactly when it is lost. -/
theorem dropped_iff :
    (!Dict.has g.links r && g.isLost r routes) = true ↔ Lost bundle g.read r := by
  show (!(Dict.get? g.links r).isSome && g.isLost r routes) = true ↔ _
  unfold isLost
  rw [lost_iff hg hroutes hfile, get?_links hg hroutes hfile, get?_redirects hg hroutes hfile]
  by_cases himported : r.name ∈ routes.imported
  · cases definedRouter? bundle g.read routes r.name with
    | some s => simp [himported]
    | none => simp [himported]
  · simp [himported]

/-- A router belongs to its file when it is neither redirected nor lost. -/
theorem isOwn_iff : isOwn bundle g.read routes r.name = true ↔
    (∀ s, ¬Redirects bundle g.read r s) ∧ ¬Lost bundle g.read r := by
  rw [lost_iff hg hroutes hfile]
  simp only [redirects_iff hg hroutes hfile]
  unfold isOwn
  by_cases himported : r.name ∈ routes.imported
  · cases definedRouter? bundle g.read routes r.name with
    | some s => simp [himported]
    | none => simp [himported]
  · simp [himported]

end

/-- The routers of the graph are those that files own. -/
theorem routers_eq :
    g.routers = Dict.ofList ((Dict.values g.read).flatMap (ownRouters bundle g.read)) := by
  unfold routers mentioned
  rw [List.filterMap_flatMap]
  congr 1
  refine List.flatMap_congr fun routes hroutes => ?_
  unfold ownRouters
  rw [List.filterMap_map, ← List.filterMap_eq_map, List.filterMap_filter]
  refine List.filterMap_congr fun e _ => ?_
  show (if _ then none else some _) = if _ then some _ else none
  rw [left_out_eq hg hroutes rfl]
  cases isOwn bundle g.read routes e.1 <;> rfl

/-- **The routers of the graph** are those that are neither redirected nor lost. -/
theorem mem_keys_routers {r : RouterId} : r ∈ Dict.keys g.routers ↔
    IsRouter g.read r ∧ (∀ s, ¬Redirects bundle g.read r s) ∧ ¬Lost bundle g.read r := by
  rw [routers_eq hg, Dict.mem_keys_ofList]
  constructor
  · intro h
    obtain ⟨e, he, rfl⟩ := List.mem_map.mp h
    obtain ⟨routes, hroutes, hown⟩ := List.mem_flatMap.mp he
    obtain ⟨entry, hentry, rfl⟩ := List.mem_map.mp hown
    obtain ⟨hrouter, hown⟩ := List.mem_filter.mp hentry
    exact ⟨⟨routes, hroutes, rfl, List.mem_map_of_mem hrouter⟩, (isOwn_iff hg hroutes rfl).mp hown⟩
  · rintro ⟨⟨routes, hroutes, hfile, hname⟩, hown⟩
    obtain ⟨entry, hentry, hentryName⟩ := List.mem_map.mp hname
    have hmem : (r, entry.2) ∈ ownRouters bundle g.read routes := by
      refine List.mem_map.mpr ⟨entry, List.mem_filter.mpr ⟨hentry, ?_⟩, ?_⟩
      · rw [hentryName]
        exact (isOwn_iff hg hroutes hfile).mpr hown
      · rw [hentryName, ← hfile]
    exact List.mem_map_of_mem (List.mem_flatMap.mpr ⟨routes, hroutes, hmem⟩)

/-- **The routers whose routes are dropped** are the lost ones. -/
theorem mem_lost {r : RouterId} : r ∈ g.lost ↔ IsRouter g.read r ∧ Lost bundle g.read r := by
  unfold lost mentioned
  rw [List.filterMap_flatMap, List.mem_flatMap]
  constructor
  · rintro ⟨routes, hroutes, h⟩
    obtain ⟨entry, hentry, hsome⟩ := List.mem_filterMap.mp h
    obtain ⟨e, he, rfl⟩ := List.mem_map.mp hentry
    obtain ⟨hdropped, heq⟩ := Option.ite_none_right_eq_some.mp hsome
    cases heq
    exact ⟨⟨routes, hroutes, rfl, List.mem_map_of_mem he⟩, (dropped_iff hg hroutes rfl).mp hdropped⟩
  · rintro ⟨⟨routes, hroutes, hfile, hname⟩, hlost⟩
    obtain ⟨e, he, hentryName⟩ := List.mem_map.mp hname
    refine ⟨routes, hroutes, List.mem_filterMap.mpr ⟨_, List.mem_map_of_mem he, ?_⟩⟩
    have heq : (⟨routes.file, e.1⟩ : RouterId) = r := by rw [hentryName, ← hfile]
    show (if _ then some _ else none) = _
    rw [heq, if_pos ((dropped_iff hg hroutes hfile).mpr hlost)]

/-- **The graph that is searched** is the one that the files describe. -/
theorem mountGraph_eq : g.mountGraph = linkedGraph bundle g.read g.target := by
  unfold mountGraph linkedGraph
  rw [routers_eq hg, hg.mounts_eq]

end RouterGraph

end RouteAtlas.Survey
