/-
  Which routers the routes of a file are registered on.

  ==== Problem ====

  A file is read call by call, and every call may add routers, routes and mounts.  Whoever looks up
  the router of a route later on has to find it among the routers of the file, whatever the call was
  that registered the route.

  ==== Program ====

  1. **One link** - each way of registering a route adds its router first (`Owned.register`,
     `Owned.registerDescribed`); the other links register nothing (`Owned.mount`,
     `Owned.extendBase`).  No link takes a router away.

  2. **A whole file** - a chain is links applied in order, a file chains applied in order
     (`Owned.applyChain`, `owned_routesOf`).

  ==== The crux ====

  `Owned.grow`: routers are only ever added, so what was registered before stays registered on a
  router of the file.
-/
import RouteAtlas.Convention.Fluent
import RouteAtlas.Proofs.Json.Dictionary

namespace RouteAtlas.Convention.Fluent

open Syntax (Node Site)
open Source (File Bundle)

/-- These are routes of the file, each registered on one of its routers. -/
structure Owned (file : String) (routes : FileRoutes) : Prop where
  file_eq : routes.file = file
  onRouter : ∀ reg ∈ routes.registrations, ∃ name ∈ Dict.keys routes.routers,
    reg.routerId? = some ⟨file, name⟩

section

variable {file : String} {routes later : FileRoutes}

/-- **Routers are only added**, and new routes are registered on routers that are there. -/
theorem Owned.grow (h : Owned file routes) (hfile : later.file = routes.file)
    (hrouters : ∀ name ∈ Dict.keys routes.routers, name ∈ Dict.keys later.routers)
    (hnew : ∀ reg ∈ later.registrations, reg ∈ routes.registrations ∨
      ∃ name ∈ Dict.keys later.routers, reg.routerId? = some ⟨file, name⟩) : Owned file later where
  file_eq := hfile.trans h.file_eq
  onRouter reg hreg := by
    rcases hnew reg hreg with hold | hon
    · obtain ⟨name, hname, hrouter⟩ := h.onRouter reg hold
      exact ⟨name, hrouters name hname, hrouter⟩
    · exact hon

/-- Adding a router adds its name. -/
theorem mem_keys_withRouter {name router : String} :
    name ∈ Dict.keys (routes.withRouter router).routers ↔
      name ∈ Dict.keys routes.routers ∨ name = router := by
  show name ∈ Dict.keys (Dict.putNew routes.routers router "") ↔ _
  rw [Dict.keys_putNew, Dict.mem_keys_put]
  exact or_comm

/-- New routes on a router that is added first. -/
theorem Owned.registering (h : Owned file routes) {router : String} {found : List Registration}
    (hfound : ∀ reg ∈ found, reg.routerId? = some ⟨file, router⟩) :
    Owned file { routes.withRouter router with
      registrations := (routes.withRouter router).registrations ++ found } := by
  refine h.grow rfl (fun _ hname => mem_keys_withRouter.mpr (.inl hname)) fun reg hreg => ?_
  refine (List.mem_append.mp hreg).imp_right fun hreg => ?_
  exact ⟨router, mem_keys_withRouter.mpr (.inr rfl), hfound reg hreg⟩

end

/-! ## Links

One lemma for each kind of link, all from `Owned.registering`: a router is added before routes are
registered on it. -/

section

variable {ctx : Context} {routes : FileRoutes} (h : Owned ctx.file.path.text routes)
include h

/-- Registering handlers for methods and paths. -/
theorem Owned.register (router : String) (methods : List Method) (paths : List String)
    (handlers : List Node) :
    Owned ctx.file.path.text (register ctx router methods paths handlers routes) := by
  refine h.registering fun reg hreg => ?_
  obtain ⟨method, -, hreg⟩ := List.mem_flatMap.mp hreg
  obtain ⟨path, -, rfl⟩ := List.mem_map.mp hreg
  rfl

/-- Registering them for the method that a link is named after. -/
theorem Owned.registerOn (router : String) (args : List Node) :
    Owned ctx.file.path.text (registerOn ctx router args routes) := by
  unfold Fluent.registerOn
  split
  · dsimp only
    split
    · exact h
    · exact h.register ..
  · exact h

omit h in
/-- An endpoint that an object describes is one of the file. -/
theorem sourceFile_of_describedEndpoint? {object : Node} {endpoint : Endpoint}
    (hdescribed : describedEndpoint? ctx object = some endpoint) :
    endpoint.sourceFile = ctx.file.path.text := by
  unfold describedEndpoint? at hdescribed
  simp only [Option.bind_eq_bind, Option.bind_eq_some_iff] at hdescribed
  obtain ⟨method, -, path, -, hendpoint⟩ := hdescribed
  cases hendpoint
  rfl

/-- Registering a route that an object describes. -/
theorem Owned.registerDescribed (router : String) (args : List Node) :
    Owned ctx.file.path.text (registerDescribed ctx router args routes) := by
  unfold Fluent.registerDescribed
  split
  · rename_i endpoint hendpoint
    refine h.registering fun reg hreg => ?_
    obtain rfl := List.mem_singleton.mp hreg
    obtain ⟨object, -, hdescribed⟩ := Option.bind_eq_some_iff.mp hendpoint
    show some (RouterId.mk endpoint.sourceFile router) = _
    rw [sourceFile_of_describedEndpoint? hdescribed]
  · exact h

/-- Extending a base path. -/
theorem Owned.extendBase (router : String) (args : List Node) :
    Owned ctx.file.path.text (extendBase router args routes) := by
  unfold Fluent.extendBase
  split
  · split
    · exact h
    · refine h.grow rfl (fun name hname => ?_) fun reg hreg => .inl hreg
      exact Dict.mem_keys_put.mpr (.inr (mem_keys_withRouter.mpr (.inl hname)))
  · exact h

/-- Mounting another router. -/
theorem Owned.mount (router : String) (args : List Node) :
    Owned ctx.file.path.text (mount router args routes) := by
  unfold Fluent.mount
  split
  · split
    · exact h.grow rfl (fun _ hname => mem_keys_withRouter.mpr (.inl hname)) fun _ hreg => .inl hreg
    · exact h
  · exact h

/-- **One link** keeps every route on a router of the file. -/
theorem Owned.applyLink (router : String) (link : Link) :
    Owned ctx.file.path.text (applyLink ctx router routes link) := by
  unfold Fluent.applyLink
  dsimp only
  split
  · exact h.extendBase ..
  · exact h.mount ..
  · exact h.registerOn ..
  · exact h.registerDescribed ..
  · split
    · exact h.register ..
    · exact h

omit h in
/-- Finding the router of a chain changes at most what is imported. -/
theorem ownerOf_snd (ctx : Context) (routes : FileRoutes) (call : Site) (root : Option Node) :
    ∃ imported, (ownerOf ctx routes call root).2 = { routes with imported := imported } := by
  unfold ownerOf
  dsimp only
  repeat' split
  all_goals exact ⟨_, rfl⟩

/-- Finding the router of a chain. -/
theorem Owned.ownerOf (call : Site) (root : Option Node) :
    Owned ctx.file.path.text (ownerOf ctx routes call root).2 := by
  obtain ⟨imported, heq⟩ := ownerOf_snd ctx routes call root
  rw [heq]
  exact ⟨h.file_eq, h.onRouter⟩

/-- **One chain** keeps every route on a router of the file. -/
theorem Owned.applyChain (call : Site) : Owned ctx.file.path.text (applyChain ctx routes call) := by
  unfold Fluent.applyChain
  split
  · exact h
  · dsimp only
    split
    · exact h
    · have howner := h.ownerOf call (Chain.ofNode call.node).root
      split
      · rename_i router after hsome
        rw [hsome] at howner
        exact List.foldlRecOn _ _ howner fun routes hroutes link _ => hroutes.applyLink router link
      · rename_i after hnone
        rw [hnone] at howner
        exact howner

end

/-- **Every route of a file is registered on one of its routers.** -/
theorem owned_routesOf (bundle : Bundle) (file : File) :
    Owned file.path.text (routesOf bundle file) := by
  unfold routesOf
  dsimp only
  refine List.foldlRecOn _ _ ⟨rfl, fun _ h => absurd h List.not_mem_nil⟩ ?_
  intro routes hroutes call _
  let ctx : Context := ⟨file, visibleInitializers bundle file, declaredRouters file⟩
  have howned : Owned ctx.file.path.text routes := hroutes
  exact howned.applyChain call

end RouteAtlas.Convention.Fluent
