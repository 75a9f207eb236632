/-
  What the links of a chain leave in the routes of a file.

  ==== Problem ====

  A chain is applied link by link, and a link may register routes, mount a router or extend a base
  path.  What a chain leaves should be read off its links and the router it is on, whatever the routes
  were before.

  ==== Program ====

  1. **Replay** - a call applies the links of its chain to the routes, but for the note of which
     routers are imported (`applyChain_eq_replay`).

  2. **One link** - it leaves one mount at most and extends one base path by one segment at most, both
     of which can be told from the link (`leaves_applyLink`).

  3. **Many links** - the mounts are appended, and the segments joined, in the order of the links
     (`mounts_replay`, `basePathOf_replay`).
-/
import RouteAtlas.Proofs.Convention.ChainOwner
import RouteAtlas.Proofs.Convention.Router

namespace RouteAtlas.Convention.Fluent

open Syntax (Node Site)

/-! ## Replay

The program walks over calls and applies the links of each chain to the routes of the file.  Apart
from what it notes as imported, this is one fold over links, each with its router. -/

/-- The links of a chain, each with a router, if there is one. -/
def linksOn (call : Site) (router : Option String) : List (String × Site) :=
  match router with
  | some router => (chainSites call).map (router, ·)
  | none => []

/-- Applies links to their routers, in order. -/
def replay (ctx : Context) (links : List (String × Site)) (routes : FileRoutes) : FileRoutes :=
  links.foldl (fun routes link => applyLink ctx link.1 routes (linkOf link.2.node)) routes

/-- The same routes, with other routers noted as imported. -/
def noting (routes : FileRoutes) (imported : List String) : FileRoutes :=
  { routes with imported := imported }

section

variable (ctx : Context)

/-- What is noted as imported does not matter to a link.  The note is one field, and none of the
    branches of a link reads it or writes it. -/
theorem applyLink_noting (router : String) (routes : FileRoutes) (imported : List String)
    (link : Link) :
    applyLink ctx router (noting routes imported) link =
      noting (applyLink ctx router routes link) imported := by
  unfold applyLink
  dsimp only
  split
  · unfold extendBase
    split
    · split <;> rfl
    · rfl
  · unfold mount
    split
    · split <;> rfl
    · rfl
  · unfold registerOn
    split
    · dsimp only
      split <;> rfl
    · rfl
  · unfold registerDescribed
    split <;> rfl
  · split <;> rfl

theorem replay_noting (links : List (String × Site)) (routes : FileRoutes) (imported : List String) :
    replay ctx links (noting routes imported) = noting (replay ctx links routes) imported := by
  induction links generalizing routes with
  | nil => rfl
  | cons link links ih =>
    show replay ctx links (applyLink ctx link.1 (noting routes imported) _) = _
    rw [applyLink_noting, ih]
    rfl

/-- Applying two lists of links is applying one after the other. -/
theorem replay_append (l r : List (String × Site)) (routes : FileRoutes) :
    replay ctx (l ++ r) routes = replay ctx r (replay ctx l routes) := List.foldl_append

/-- One call applies the links of its chain if it is the end of it.  Finding the owner may note an
    import, which is why the two agree up to what is noted; the links then only see the router. -/
theorem applyChain_eq_replay (routes : FileRoutes) {call : Site}
    (hkind : call.node.kind = "call_expression") :
    ∃ imported, applyChain ctx routes call = noting (replay ctx
      (if isChainEnd call then linksOn call (routerOf ctx routes call) else []) routes) imported := by
  have hlinks := links_ofNode hkind
  unfold applyChain
  cases isChainEnd call with
  | false => exact ⟨routes.imported, rfl⟩
  | true =>
    dsimp only
    unfold routerOf matters
    by_cases hrouting : (Chain.ofNode call.node).links.any Link.isRouting = true
    · rw [hrouting]
      obtain ⟨imported, howner⟩ := ownerOf_snd ctx routes call (Chain.ofNode call.node).root
      refine ⟨imported, ?_⟩
      generalize hfound : ownerOf ctx routes call (Chain.ofNode call.node).root = found
      rw [hfound] at howner
      obtain ⟨router, after⟩ := found
      obtain rfl : after = noting routes imported := howner
      cases router with
      | none => rfl
      | some router =>
        show (Chain.ofNode call.node).links.foldl (applyLink ctx router) (noting routes imported) = _
        rw [← replay_noting, hlinks]
        show _ = List.foldl _ _ (List.map _ _)
        rw [List.foldl_map, List.foldl_map]
    · rw [Bool.not_eq_true] at hrouting
      rw [hrouting]
      exact ⟨routes.imported, rfl⟩

end

/-! ## What the links leave

What a link does to the mounts and base paths of a file can be read off the link, so what many do is
their list. -/

/-- The mount that a link makes on a router. -/
def mountBy (router : String) (link : Link) : Option LocalMount :=
  if link.name = some "route" then
    match link.arguments with
    | path :: child :: _ =>
      path.stringValue?.bind fun path =>
        (child.unwrap.filter (·.kind == "identifier")).map fun child => ⟨router, child.text, path⟩
    | _ => none
  else none

/-- The segment that a link extends its router's base path by. -/
def segmentBy (link : Link) : Option String :=
  if link.name = some "basePath" then
    (link.arguments.head?.bind Node.stringValue?).filter (· != "")
  else none

/-- The base path of a router, empty if it has none. -/
def basePathOf (routes : FileRoutes) (router : String) : String :=
  (Dict.get? routes.routers router).getD ""

/-- What a link leaves: a mount at most, and a base path longer by a segment at most. -/
structure Leaves (routes : FileRoutes) (router : String) (mount? : Option LocalMount)
    (segment? : Option String) (later : FileRoutes) : Prop where
  mounts : later.mounts = routes.mounts ++ mount?.toList
  basePath : basePathOf later router = segment?.toList.foldl Route.join (basePathOf routes router)
  others : ∀ other, other ≠ router → basePathOf later other = basePathOf routes other

section

variable {routes : FileRoutes} {router : String}

/-- A router that is added has no base path. -/
theorem basePathOf_withRouter (name other : String) :
    basePathOf (routes.withRouter name) other = basePathOf routes other := by
  show (Dict.get? (Dict.putNew routes.routers name "") other).getD "" = _
  rw [Dict.get?_putNew, basePathOf]
  cases Dict.get? routes.routers other with
  | some base => rfl
  | none => split <;> rfl

theorem leaves_nothing : Leaves routes router none none routes :=
  ⟨(List.append_nil _).symm, rfl, fun _ _ => rfl⟩

/-- Registering adds the router, without a base path, and nothing else but routes. -/
theorem leaves_registering (found : List Registration) :
    Leaves routes router none none { routes.withRouter router with
      registrations := (routes.withRouter router).registrations ++ found } :=
  ⟨(List.append_nil _).symm, basePathOf_withRouter router router,
    fun other _ => basePathOf_withRouter router other⟩

/-- Registering routes for any method leaves no mount and no segment. -/
theorem leaves_registerOn (ctx : Context) (args : List Node) :
    Leaves routes router none none (registerOn ctx router args routes) := by
  unfold registerOn
  split
  · dsimp only
    split
    · exact leaves_nothing
    · exact leaves_registering _
  · exact leaves_nothing

theorem leaves_registerDescribed (ctx : Context) (args : List Node) :
    Leaves routes router none none (registerDescribed ctx router args routes) := by
  unfold registerDescribed
  split
  · exact leaves_registering _
  · exact leaves_nothing

/-- A link to `basePath` leaves its segment.  Without a path, or with an empty one, there is no
    segment and nothing is written. -/
theorem leaves_extendBase (args : List Node) :
    Leaves routes router none (segmentBy ⟨some "basePath", args⟩) (extendBase router args routes) := by
  unfold extendBase
  rw [segmentBy, if_pos rfl]
  dsimp only
  cases args.head?.bind Node.stringValue? with
  | none => exact leaves_nothing
  | some path =>
    dsimp only
    by_cases hpath : path = ""
    · rw [if_pos (beq_iff_eq.mpr hpath), hpath]
      exact leaves_nothing
    · have hsegment : (some path).filter (· != "") = some path := by simp [hpath]
      rw [if_neg (mt beq_iff_eq.mp hpath), hsegment]
      refine ⟨(List.append_nil _).symm, ?_, fun other hother => ?_⟩
      · show (Dict.get? (Dict.put _ router _) router).getD "" = _
        rw [Dict.get?_put_self]
        show Route.join (basePathOf (routes.withRouter router) router) path = _
        rw [basePathOf_withRouter]
        rfl
      · show (Dict.get? (Dict.put _ router _) other).getD "" = _
        rw [Dict.get?_put_of_ne hother]
        exact basePathOf_withRouter router other

/-- A link to `route` leaves its mount. -/
theorem leaves_mount (args : List Node) :
    Leaves routes router (mountBy router ⟨some "route", args⟩) none (mount router args routes) := by
  unfold mount
  rw [mountBy, if_pos rfl]
  match args with
  | [] => exact leaves_nothing
  | [path] => exact leaves_nothing
  | path :: child :: rest =>
    dsimp only
    cases path.stringValue? with
    | none => exact leaves_nothing
    | some path =>
      cases child.unwrap.filter (·.kind == "identifier") with
      | none => exact leaves_nothing
      | some child =>
        exact ⟨rfl, basePathOf_withRouter router router,
          fun other _ => basePathOf_withRouter router other⟩

/-- **One link** leaves the mount and the segment that can be read off it.

    Only `basePath` leaves a segment and only `route` a mount, so the names are told apart once, and
    every other link leaves neither. -/
theorem leaves_applyLink (ctx : Context) (link : Link) :
    Leaves routes router (mountBy router link) (segmentBy link) (applyLink ctx router routes link) := by
  obtain ⟨name, args⟩ := link
  have hnamed : ∀ {word : String}, name.getD "" = word → word ≠ "" → name = some word := by
    intro word hword hne
    cases name with
    | none => exact absurd hword.symm hne
    | some name => exact congrArg some hword
  have hother : ∀ {later}, name ≠ some "basePath" → name ≠ some "route" →
      Leaves routes router none none later →
      Leaves routes router (mountBy router ⟨name, args⟩) (segmentBy ⟨name, args⟩) later := by
    intro later hbase hroute hlater
    rw [mountBy, segmentBy, if_neg hroute, if_neg hbase]
    exact hlater
  unfold applyLink
  dsimp only
  split
  -- by the name of the method, in the order of the program
  case h_1 hword =>
    obtain rfl := hnamed hword (by decide)
    exact leaves_extendBase args
  case h_2 hword =>
    obtain rfl := hnamed hword (by decide)
    exact leaves_mount args
  case h_3 hword =>
    obtain rfl := hnamed hword (by decide)
    exact hother (by decide) (by decide) (leaves_registerOn ctx args)
  case h_4 hword =>
    obtain rfl := hnamed hword (by decide)
    exact hother (by decide) (by decide) (leaves_registerDescribed ctx args)
  case h_5 hbase hroute _ _ =>
    refine hother (fun h => hbase (h ▸ rfl)) (fun h => hroute (h ▸ rfl)) ?_
    split
    · exact leaves_registering _
    · exact leaves_nothing

/-- What is kept of a list, with its first element apart. -/
theorem filterMap_cons_eq {α β : Type} (f : α → Option β) (a : α) (l : List α) :
    (a :: l).filterMap f = (f a).toList ++ l.filterMap f := by
  rw [List.filterMap_cons]
  cases f a <;> rfl

/-- The mounts that links make. -/
def mountsOf (links : List (String × Site)) : List LocalMount :=
  links.filterMap fun link => mountBy link.1 (linkOf link.2.node)

/-- The segments that links extend the base path of a router by. -/
def segmentsOf (router : String) (links : List (String × Site)) : List String :=
  links.filterMap fun link => if link.1 = router then segmentBy (linkOf link.2.node) else none

/-- **The mounts of a file** are those that its links make, in their order. -/
theorem mounts_replay (ctx : Context) (links : List (String × Site)) (routes : FileRoutes) :
    (replay ctx links routes).mounts = routes.mounts ++ mountsOf links := by
  induction links generalizing routes with
  | nil => exact (List.append_nil _).symm
  | cons link links ih =>
    show (replay ctx links (applyLink ctx link.1 routes _)).mounts = _
    rw [ih, (leaves_applyLink ctx _).mounts, List.append_assoc, mountsOf, mountsOf,
      filterMap_cons_eq]

/-- **The base path of a router** is put together from the segments of its links, in their order.

    A link on another router keeps the base path of this one, so the segments are those of its own
    links. -/
theorem basePathOf_replay (ctx : Context) (links : List (String × Site)) (routes : FileRoutes)
    (router : String) :
    basePathOf (replay ctx links routes) router =
      (segmentsOf router links).foldl Route.join (basePathOf routes router) := by
  induction links generalizing routes with
  | nil => rfl
  | cons link links ih =>
    obtain ⟨name, site⟩ := link
    show basePathOf (replay ctx links (applyLink ctx name routes _)) router = _
    rw [ih, segmentsOf, segmentsOf, filterMap_cons_eq, List.foldl_append]
    have hleaves : Leaves routes name _ _ (applyLink ctx name routes (linkOf site.node)) :=
      leaves_applyLink ctx _
    by_cases hrouter : name = router
    · subst hrouter
      rw [hleaves.basePath]
      dsimp only
      rw [if_pos rfl]
    · rw [hleaves.others router (Ne.symm hrouter)]
      dsimp only
      rw [if_neg hrouter]
      rfl

end

end RouteAtlas.Convention.Fluent
