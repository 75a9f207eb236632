/-
  Which links a file's chains apply, and to which routers.

  ==== Problem ====

  A file is read call by call.  A call that is the end of its chain applies all links of the chain to
  the chain's router, and the calls in the middle are left to it.  A call that is taken for an end
  though it is in the middle applies the first links of its chain once more: a base path is extended
  twice by the same segment, a router is mounted twice.  A chain whose router is not found applies
  nothing.

  ==== Program ====

  1. **Rounds** - every call, with the router its chain is on when the walk comes to it and the one it
     is meant for (`roundsOf`), and the links that are applied, in order, with their routers
     (`applied`).

  2. **Replay** - the routes of a file are what the applied links make of the routers it declares, but
     for the note of which routers are imported (`foldl_applyChain_eq_replay`).

  3. **Once** - the links due are those of the outermost chains, on the routers they are meant for.
     Applied are those kept and those repeated; due are those kept and those missed (`perm_applied`,
     `perm_due`).  Every link of the tree is on one outermost chain.

  ==== The crux ====

  A call that is left out is always an inner one, so outermost chains are all read, and what is applied
  too often is what is left after taking them away.  Repeated links and missed ones cannot make up for
  one another: the first are on chains that start with a name, the second on chains that start with a
  construction (`not_mem_missedIn`).
-/
import RouteAtlas.Proofs.Convention.ChainReplay

namespace RouteAtlas.Convention.Fluent

open Syntax (Node Site)
open Source (File Bundle)

/-! ## Rounds

A walk comes to one call after the other, and may come to know more routers on its way.  A round is
what it does at one of them. -/

/-- A call, the router its chain is on when the walk comes to it, and the one it is meant for. -/
structure Round where
  call : Site
  router : Option String
  meant : Option String

/-- The rounds of a walk over calls. -/
def rounds (ctx : Context) : FileRoutes → List Site → List Round
  | _, [] => []
  | routes, call :: calls =>
    ⟨call, routerOf ctx routes call, meantFor ctx routes call⟩ ::
      rounds ctx (applyChain ctx routes call) calls

/-- The links of a chain, with the router it is on. -/
def Round.links (round : Round) : List (String × Site) := linksOn round.call round.router

/-- The links of a chain, with the router it is meant for. -/
def Round.meantLinks (round : Round) : List (String × Site) := linksOn round.call round.meant

section

variable (ctx : Context)

/-- The links that a walk over calls applies. -/
def appliedIn (routes : FileRoutes) (calls : List Site) : List (String × Site) :=
  ((rounds ctx routes calls).filter fun round => isChainEnd round.call).flatMap Round.links

/-- **A walk over calls is the replay** of the links it applies.

    What the links do does not depend on what was noted before, so the notes of the calls are passed
    on to the end. -/
theorem foldl_applyChain_eq_replay (routes : FileRoutes) (calls : List Site)
    (hkinds : ∀ call ∈ calls, call.node.kind = "call_expression") :
    ∃ imported, calls.foldl (applyChain ctx) routes =
      noting (replay ctx (appliedIn ctx routes calls) routes) imported := by
  induction calls generalizing routes with
  | nil => exact ⟨routes.imported, rfl⟩
  | cons call calls ih =>
    obtain ⟨imported, hone⟩ := applyChain_eq_replay ctx routes (hkinds call List.mem_cons_self)
    obtain ⟨last, hrest⟩ := ih (applyChain ctx routes call)
      fun c hc => hkinds c (List.mem_cons_of_mem call hc)
    have hsplit : appliedIn ctx routes (call :: calls) =
        (if isChainEnd call then linksOn call (routerOf ctx routes call) else []) ++
          appliedIn ctx (applyChain ctx routes call) calls := by
      rw [appliedIn, rounds, List.filter_cons]
      split <;> rfl
    refine ⟨last, ?_⟩
    rw [List.foldl_cons, hrest, hsplit, replay_append]
    generalize appliedIn ctx (applyChain ctx routes call) calls = later
    rw [hone, replay_noting]
    rfl

end

/-! ## Once

Due are the links of outermost chains, on the routers they are meant for.  What is applied differs
from what is due by the links of stray calls and of missed chains. -/

section

variable {ctx : Context}

/-- Every round is on a call of the walk, with the routers that it has at some time. -/
theorem of_mem_rounds {routes : FileRoutes} {calls : List Site} {round : Round}
    (h : round ∈ rounds ctx routes calls) :
    round.call ∈ calls ∧ ∃ routes', round.router = routerOf ctx routes' round.call ∧
      round.meant = meantFor ctx routes' round.call := by
  induction calls generalizing routes with
  | nil => exact absurd h List.not_mem_nil
  | cons call calls ih =>
    rcases List.mem_cons.mp h with rfl | h
    · exact ⟨List.mem_cons_self, routes, rfl, rfl⟩
    · obtain ⟨hcall, hrouters⟩ := ih h
      exact ⟨List.mem_cons_of_mem call hcall, hrouters⟩

/-- There is one round for each call. -/
theorem map_call_rounds (routes : FileRoutes) (calls : List Site) :
    (rounds ctx routes calls).map (·.call) = calls := by
  induction calls generalizing routes with
  | nil => rfl
  | cons call calls ih => rw [rounds, List.map_cons, ih]

/-- A chain that matters has links. -/
theorem linksOn_ne_nil {call : Site} (hkind : call.node.kind = "call_expression")
    (hmatters : matters call.node = true) {router : Option String} (hrouter : router ≠ none) :
    linksOn call router ≠ [] := by
  intro hnil
  obtain ⟨name, rfl⟩ := Option.ne_none_iff_exists'.mp hrouter
  have hchain : chainSites call = [] := List.map_eq_nil_iff.mp hnil
  rw [matters, links_ofNode hkind, hchain] at hmatters
  exact absurd hmatters Bool.false_ne_true

/-- What is on a router matters. -/
theorem matters_of_router {routes : FileRoutes} {call : Site}
    (hrouter : routerOf ctx routes call ≠ none) : matters call.node = true := by
  by_contra hmatters
  exact hrouter (if_neg hmatters)

/-- The links of a chain that is not on the router it is meant for. -/
def Round.missedLinks (round : Round) : List (String × Site) :=
  if round.router = none then round.meantLinks else []

/-- A missed chain is on no router; every other chain is on the one that it is meant for. -/
theorem router_of_mem_rounds {routes : FileRoutes} {calls : List Site} {round : Round}
    (h : round ∈ rounds ctx routes calls) :
    (IsMissed round.call → round.router = none ∧ round.meant ≠ none) ∧
      (¬ IsMissed round.call → round.router = round.meant) := by
  obtain ⟨-, routes', hrouter, hmeant⟩ := of_mem_rounds h
  rw [hrouter, hmeant]
  exact ⟨router_of_missed ctx routes', router_of_not_missed ctx routes'⟩

variable (ctx) in
/-- The links of the outermost chains of a walk, with the routers they are meant for. -/
def dueIn (routes : FileRoutes) (calls : List Site) : List (String × Site) :=
  ((rounds ctx routes calls).filter fun round => !isInner round.call).flatMap Round.meantLinks

variable (ctx) in
/-- The links of the outermost chains, with the routers they are on. -/
def keptIn (routes : FileRoutes) (calls : List Site) : List (String × Site) :=
  ((rounds ctx routes calls).filter fun round => !isInner round.call).flatMap Round.links

variable (ctx) in
/-- The links that inner calls apply on their own. -/
def repeatedIn (routes : FileRoutes) (calls : List Site) : List (String × Site) :=
  (((rounds ctx routes calls).filter fun round => isChainEnd round.call).filter
    fun round => isInner round.call).flatMap Round.links

variable (ctx) in
/-- The links of the outermost chains that are not on the routers they are meant for. -/
def missedIn (routes : FileRoutes) (calls : List Site) : List (String × Site) :=
  ((rounds ctx routes calls).filter fun round => !isInner round.call).flatMap Round.missedLinks

section

variable {routes : FileRoutes} {calls : List Site}

/-- The outermost calls are among those that are read on their own. -/
theorem keptIn_eq : keptIn ctx routes calls =
    (((rounds ctx routes calls).filter fun round => isChainEnd round.call).filter
      fun round => !isInner round.call).flatMap Round.links := by
  rw [keptIn, List.filter_filter]
  refine congrArg (List.flatMap Round.links) (List.filter_congr fun round _ => ?_)
  cases hend : isChainEnd round.call with
  | true => exact (Bool.and_true _).symm
  | false =>
    rw [isInner_of_not_isChainEnd hend]
    rfl

/-- What is applied are the links kept, and those that stray calls apply in addition. -/
theorem perm_applied :
    (keptIn ctx routes calls ++ repeatedIn ctx routes calls).Perm (appliedIn ctx routes calls) := by
  have hparts := (List.filter_append_perm (fun round : Round => isInner round.call)
    ((rounds ctx routes calls).filter fun round => isChainEnd round.call)).flatMap_right Round.links
  rw [List.flatMap_append, ← keptIn_eq] at hparts
  exact List.perm_append_comm.trans hparts

/-- What is due are the links kept, and those missed. -/
theorem perm_due :
    (keptIn ctx routes calls ++ missedIn ctx routes calls).Perm (dueIn ctx routes calls) := by
  have hround : ∀ round ∈ (rounds ctx routes calls).filter fun round => !isInner round.call,
      round.links ++ round.missedLinks = round.meantLinks := by
    intro round hround
    obtain ⟨hmissed, hother⟩ := router_of_mem_rounds (List.mem_filter.mp hround).1
    unfold Round.missedLinks Round.links
    by_cases hnone : round.router = none
    · rw [if_pos hnone, hnone]
      rfl
    · rw [if_neg hnone, List.append_nil, hother fun h => hnone (hmissed h).1]
      rfl
  refine (List.flatMap_append_perm ..).trans ?_
  rw [dueIn, List.flatMap_congr hround]

/-- Nothing is applied twice if no stray call finds a router. -/
theorem repeatedIn_eq_nil_iff (hkinds : ∀ call ∈ calls, call.node.kind = "call_expression") :
    repeatedIn ctx routes calls = [] ↔
      ∀ round ∈ rounds ctx routes calls, IsStray round.call → round.router = none := by
  constructor
  · intro hnothing round hround hstray
    obtain ⟨hinner, hend⟩ := isStray_iff.mp hstray
    have hlinks : round.links = [] := by
      refine List.flatMap_eq_nil_iff.mp hnothing round (List.mem_filter.mpr ⟨?_, hinner⟩)
      exact List.mem_filter.mpr ⟨hround, hend⟩
    obtain ⟨hcall, routes', hrouter, -⟩ := of_mem_rounds hround
    by_contra hsome
    exact linksOn_ne_nil (hkinds _ hcall) (matters_of_router (hrouter ▸ hsome)) hsome hlinks
  · intro hnone
    refine List.flatMap_eq_nil_iff.mpr fun round hround => ?_
    obtain ⟨hround, hinner⟩ := List.mem_filter.mp hround
    obtain ⟨hround, hend⟩ := List.mem_filter.mp hround
    rw [Round.links, hnone round hround (isStray_iff.mpr ⟨hinner, hend⟩)]
    rfl

/-- Nothing is left out if no chain is missed.  A missed chain has links, so leaving it out leaves
    something out; a round that is not missed leaves nothing out, since its router is the one that
    was meant. -/
theorem missedIn_eq_nil_iff (hkinds : ∀ call ∈ calls, call.node.kind = "call_expression") :
    missedIn ctx routes calls = [] ↔ ∀ round ∈ rounds ctx routes calls, ¬ IsMissed round.call := by
  constructor
  · intro hnothing round hround hmissed
    obtain ⟨hnone, hmeant⟩ := (router_of_mem_rounds hround).1 hmissed
    have houter : (!isInner round.call) = true := by
      rw [not_isInner_of_missed hmissed]
      rfl
    have hlinks := List.flatMap_eq_nil_iff.mp hnothing round (List.mem_filter.mpr ⟨hround, houter⟩)
    rw [Round.missedLinks, if_pos hnone] at hlinks
    exact linksOn_ne_nil (hkinds _ (of_mem_rounds hround).1) hmissed.1 hmeant hlinks
  · intro hnot
    refine List.flatMap_eq_nil_iff.mpr fun round hround => ?_
    have hround := (List.mem_filter.mp hround).1
    have hmeant := (router_of_mem_rounds hround).2 (hnot round hround)
    unfold Round.missedLinks
    split
    · rename_i hnone
      rw [Round.meantLinks, ← hmeant, hnone]
      rfl
    · rfl

/-- All links of a chain are on what the chain starts with. -/
theorem root_of_mem_linksOn {call : Site} (hkind : call.node.kind = "call_expression")
    {router : Option String} {link : String × Site} (h : link ∈ linksOn call router) :
    (Chain.ofNode link.2.node).root = (Chain.ofNode call.node).root := by
  cases router with
  | none => exact absurd h List.not_mem_nil
  | some name =>
    obtain ⟨c, hc, rfl⟩ := List.mem_map.mp h
    rw [ofNode_call hkind]
    exact root_of_mem_chainSites hc

/-- What is applied twice starts with a name and what is missed with a construction, so no link is
    both. -/
theorem not_mem_missedIn (hkinds : ∀ call ∈ calls, call.node.kind = "call_expression")
    {link : String × Site} (hrepeated : link ∈ repeatedIn ctx routes calls) :
    link ∉ missedIn ctx routes calls := by
  intro hmissed
  obtain ⟨stray, hstray, hlink⟩ := List.mem_flatMap.mp hrepeated
  obtain ⟨hstray, hinner⟩ := List.mem_filter.mp hstray
  obtain ⟨hcall, routes', hrouter, -⟩ := of_mem_rounds (List.mem_filter.mp hstray).1
  have hsome : routerOf ctx routes' stray.call ≠ none := by
    intro hnone
    rw [Round.links, hrouter, hnone] at hlink
    exact absurd hlink List.not_mem_nil
  obtain ⟨root, hroot, hkind⟩ := identifier_of_inner hinner hsome
  rw [← root_of_mem_linksOn (hkinds _ hcall) hlink] at hroot
  obtain ⟨outer, houter, hlink⟩ := List.mem_flatMap.mp hmissed
  have hround := (List.mem_filter.mp houter).1
  unfold Round.missedLinks at hlink
  split at hlink
  · rename_i hnone
    rw [root_of_mem_linksOn (hkinds _ (of_mem_rounds hround).1) hlink] at hroot
    by_cases hchain : IsMissed outer.call
    · exact not_identifier_of_missed hchain hroot hkind
    · rw [Round.meantLinks, ← (router_of_mem_rounds hround).2 hchain, hnone] at hlink
      exact absurd hlink List.not_mem_nil
  · exact absurd hlink List.not_mem_nil

/-- **Applied once**: the links applied are those due, each once, exactly when no stray call finds a
    router and no chain is missed. -/
theorem applied_perm_iff (hkinds : ∀ call ∈ calls, call.node.kind = "call_expression") :
    (appliedIn ctx routes calls).Perm (dueIn ctx routes calls) ↔
      ∀ round ∈ rounds ctx routes calls,
        (IsStray round.call → round.router = none) ∧ ¬ IsMissed round.call := by
  have hnothing : (appliedIn ctx routes calls).Perm (dueIn ctx routes calls) ↔
      repeatedIn ctx routes calls = [] ∧ missedIn ctx routes calls = [] := by
    constructor
    · intro hperm
      have hrest : (repeatedIn ctx routes calls).Perm (missedIn ctx routes calls) :=
        (List.perm_append_left_iff _).mp (perm_applied.trans (hperm.trans perm_due.symm))
      have hrepeated : repeatedIn ctx routes calls = [] :=
        List.eq_nil_iff_forall_not_mem.mpr fun link hlink =>
          not_mem_missedIn hkinds hlink (hrest.mem_iff.mp hlink)
      exact ⟨hrepeated, List.nil_perm.mp (hrepeated ▸ hrest)⟩
    · rintro ⟨hrepeated, hmissed⟩
      have happlied : (keptIn ctx routes calls ++ repeatedIn ctx routes calls).Perm _ := perm_applied
      have hdue : (keptIn ctx routes calls ++ missedIn ctx routes calls).Perm _ := perm_due
      rw [hrepeated] at happlied
      rw [hmissed] at hdue
      exact happlied.symm.trans hdue
  rw [hnothing, repeatedIn_eq_nil_iff hkinds, missedIn_eq_nil_iff hkinds]
  exact ⟨fun h round hround => ⟨h.1 round hround, h.2 round hround⟩,
    fun h => ⟨fun round hround => (h round hround).1, fun round hround => (h round hround).2⟩⟩

/-- If no stray call finds a router and no chain is missed, the links due are applied in the order of
    the walk. -/
theorem applied_eq_due (h : ∀ round ∈ rounds ctx routes calls,
    (IsStray round.call → round.router = none) ∧ ¬ IsMissed round.call) :
    appliedIn ctx routes calls = dueIn ctx routes calls := by
  have hkept : dueIn ctx routes calls = keptIn ctx routes calls := by
    refine List.flatMap_congr fun round hround => ?_
    have hround := (List.mem_filter.mp hround).1
    rw [Round.meantLinks, ← (router_of_mem_rounds hround).2 (h round hround).2, Round.links]
  rw [hkept, keptIn_eq, appliedIn]
  refine (flatMap_filter_of_nil fun round hround hinner => ?_).symm
  obtain ⟨hround, hend⟩ := List.mem_filter.mp hround
  rw [Bool.not_eq_false'] at hinner
  rw [Round.links, (h round hround).1 (isStray_iff.mpr ⟨hinner, hend⟩)]
  rfl

end

end

/-! ## Files

The same of all calls in a file, in the order of the walk. -/

section

variable (bundle : Bundle) (file : File)

/-- What is known while a file is read. -/
def contextOf : Context := ⟨file, visibleInitializers bundle file, declaredRouters file⟩

/-- The routes of a file before its first call is read. -/
def startOf : FileRoutes where
  file := file.path.text
  routers := (declaredRouters file).map (·, "")
  aliases := furtherNames file (declaredRouters file)
  importsFramework := file.imports.any fun (_, origin) => isFramework origin.specifier

/-- The calls of a file, in the order of the walk. -/
def callsOf : List Site := (Site.root file.root).findAll ["call_expression"]

/-- The rounds of a file. -/
def roundsOf : List Round := rounds (contextOf bundle file) (startOf file) (callsOf file)

/-- The links that are applied in a file, with their routers. -/
def applied : List (String × Site) := appliedIn (contextOf bundle file) (startOf file) (callsOf file)

/-- The links that are due in a file, with the routers that they are meant for. -/
def due : List (String × Site) := dueIn (contextOf bundle file) (startOf file) (callsOf file)

/-- No router has a base path to begin with. -/
theorem basePathOf_startOf (router : String) : basePathOf (startOf file) router = "" := by
  show (Dict.get? ((declaredRouters file).map (·, "")) router).getD "" = ""
  induction declaredRouters file with
  | nil => rfl
  | cons name names ih =>
    rw [List.map_cons, Dict.get?_cons]
    split
    · rfl
    · exact ih

/-- The calls of a file are calls. -/
theorem kind_of_mem_callsOf {file : File} {call : Site} (h : call ∈ callsOf file) :
    call.node.kind = "call_expression" := by
  simpa using (List.mem_filter.mp h).2

/-- The calls that are links are all among the calls. -/
theorem filter_callsOf (p : Site → Bool) :
    ((callsOf file).filter fun call => isLink call.node && p call) =
      (Site.root file.root).walk.filter fun t => isLink t.node && p t := by
  rw [callsOf, Site.findAll, List.filter_filter]
  refine List.filter_congr fun t _ => ?_
  by_cases hlink : isLink t.node = true
  · have hkind := kind_of_isLink hlink
    simp [hlink, hkind]
  · simp [hlink]

/-- The links of a regular tree are those of the chains that end in outermost calls. -/
theorem perm_outermost (hgrammar : Grammatical file.root) :
    (((roundsOf bundle file).filter fun round => !isInner round.call).flatMap
      fun round => chainSites round.call).Perm ((callsOf file).filter fun call => isLink call.node) := by
  have hlinks := filter_callsOf file fun _ => true
  have houter := filter_callsOf file fun call => !isInner call
  simp only [Bool.and_true] at hlinks
  have hrounds : (roundsOf bundle file).map (·.call) = callsOf file := map_call_rounds ..
  have hcalls : ((roundsOf bundle file).filter fun round => !isInner round.call).flatMap
      (fun round => chainSites round.call) =
        ((callsOf file).filter fun call => !isInner call).flatMap chainSites := by
    rw [← hrounds, List.filter_map, List.flatMap_map]
    rfl
  have hothers : ∀ call ∈ (callsOf file).filter fun call => !isInner call,
      isLink call.node = false → chainSites call = [] :=
    fun call _ hlink => chainSites_of_not_link (Bool.eq_false_iff.mp hlink)
  rw [hlinks, hcalls, ← flatMap_filter_of_nil hothers, List.filter_filter, houter]
  exact perm_chains hgrammar

/-- **Links are applied once, but for those that stray calls apply again and those of missed chains.**
    In a file with a regular tree, every link is on one chain that ends in an outermost call.  The
    routes of the file are what the applied links make of its routers, in their order; so are its
    mounts and the base path of each router.  These links are those of the outermost chains that are
    meant for a router, each once and in order, exactly when no stray call finds a router and no chain
    is missed.  A stray call finds one only if its chain starts with a name; a missed chain, which
    starts with a construction, is on no router, and every other chain on the one that it is meant
    for. -/
theorem links_applied :
    (Grammatical file.root →
      (((roundsOf bundle file).filter fun round => !isInner round.call).flatMap
        fun round => chainSites round.call).Perm ((callsOf file).filter fun call => isLink call.node)) ∧
    (∃ imported, routesOf bundle file =
      noting (replay (contextOf bundle file) (applied bundle file) (startOf file)) imported) ∧
    (routesOf bundle file).mounts = mountsOf (applied bundle file) ∧
    (∀ router, basePathOf (routesOf bundle file) router =
      (segmentsOf router (applied bundle file)).foldl Route.join "") ∧
    ((applied bundle file).Perm (due bundle file) ↔ ∀ round ∈ roundsOf bundle file,
      (IsStray round.call → round.router = none) ∧ ¬ IsMissed round.call) ∧
    ((∀ round ∈ roundsOf bundle file,
      (IsStray round.call → round.router = none) ∧ ¬ IsMissed round.call) →
        applied bundle file = due bundle file) ∧
    ∀ round ∈ roundsOf bundle file,
      (IsStray round.call → round.router ≠ none →
        ∃ root, (Chain.ofNode round.call.node).root.bind Node.unwrap = some root ∧
          root.kind = "identifier") ∧
      (IsMissed round.call → round.router = none ∧ round.meant ≠ none) ∧
      (¬ IsMissed round.call → round.router = round.meant) := by
  have hkinds : ∀ call ∈ callsOf file, call.node.kind = "call_expression" :=
    fun call hcall => kind_of_mem_callsOf hcall
  obtain ⟨imported, hreplay⟩ : ∃ imported, routesOf bundle file =
      noting (replay (contextOf bundle file) (applied bundle file) (startOf file)) imported :=
    foldl_applyChain_eq_replay (contextOf bundle file) (startOf file) (callsOf file) hkinds
  refine ⟨?_, ⟨imported, hreplay⟩, ?_, ?_, applied_perm_iff hkinds, applied_eq_due, ?_⟩
  · exact perm_outermost bundle file
  · rw [hreplay]
    exact mounts_replay ..
  · intro router
    rw [hreplay]
    show basePathOf (replay _ _ _) router = _
    rw [basePathOf_replay, basePathOf_startOf]
  · intro round hround
    obtain ⟨-, routes, hfound, -⟩ := of_mem_rounds hround
    refine ⟨fun hstray hrouter => ?_, router_of_mem_rounds hround⟩
    exact identifier_of_inner hstray.1 (hfound ▸ hrouter)

end

namespace Wrapped

open Syntax.Node (branch leaf calling)

/-- `app.basePath('/v1').route('/users', users)`. -/
def inner : Node :=
  calling (calling (leaf "identifier" "" "app") "basePath" [leaf "string" "" "'/v1'"]) "route"
    [leaf "string" "" "'/users'", leaf "identifier" "" "users"]

/-- `new Hono()`, in some role. -/
def construction (role : String) : Node :=
  branch "new_expression" role "" [leaf "identifier" "constructor" "Hono"]

/-- `.get('/status', status)` on something. -/
def status (object : Node) : Node :=
  calling object "get" [leaf "string" "" "'/status'", leaf "identifier" "" "status"]

/-- A file with one statement that declares the router `app`. -/
def fileOf (statement value : Node) : File where
  path := ⟨"", ["app.ts"]⟩
  text := ""
  root := branch "program" "" "" [statement]
  hasErrors := false
  imports := [("Hono", ⟨"hono", "Hono"⟩)]
  exports := []
  declarators := [("app", value)]

/-- The chain goes on behind a non-null mark. -/
def marked : File := fileOf
  (branch "expression_statement" "" "" [status (branch "non_null_expression" "" "" [inner])])
  (construction "value")

/-- The chain goes on behind a cast. -/
def cast : File := fileOf
  (branch "expression_statement" "" "" [status (branch "parenthesized_expression" "" ""
    [branch "as_expression" "" "" [inner, leaf "predefined_type" "" "any"]])])
  (construction "value")

/-- `new Hono().get('/status', status)!` -/
def constructed : Node := branch "non_null_expression" "value" "" [status (construction "")]

/-- The whole chain initializes a variable behind a non-null mark. -/
def unseen : File := fileOf
  (branch "lexical_declaration" "" "" [branch "variable_declarator" "" ""
    [leaf "identifier" "name" "app", constructed]])
  constructed

/-- The file alone. -/
def bundleOf (file : File) : Bundle := ⟨[file.path], [(file.path, .ok file)]⟩

end Wrapped

open Wrapped (marked cast unseen bundleOf)

/-- Behind a non-null mark, the three links of the chain are applied once.  Unwrapping sees through
    the mark, so there is one outermost call, and no call is stray or missed. -/
theorem links_applied_marked :
    Grammatical marked.root ∧ applied (bundleOf marked) marked = due (bundleOf marked) marked ∧
      (due (bundleOf marked) marked).length = 3 ∧
      (((roundsOf (bundleOf marked) marked).filter fun round => !isInner round.call).flatMap
        fun round => chainSites round.call).length = 3 ∧
      (routesOf (bundleOf marked) marked).mounts = [⟨"app", "users", "/users"⟩] ∧
      basePathOf (routesOf (bundleOf marked) marked) "app" = "/v1" := by
  have hgrammar : Grammatical marked.root := by
    have hall : ∀ n ∈ marked.root.walk, isRegular n = true := by decide +kernel
    exact hall
  have honce : ∀ round ∈ roundsOf (bundleOf marked) marked,
      (IsStray round.call → round.router = none) ∧ ¬ IsMissed round.call := by
    have hends : ∀ round ∈ roundsOf (bundleOf marked) marked,
        (isInner round.call && isChainEnd round.call) = false ∧
          isConstructed round.call.node = false := by decide +kernel
    intro round hround
    obtain ⟨hends, hconstructed⟩ := hends round hround
    refine ⟨fun hstray => ?_, fun hmissed => ?_⟩
    · obtain ⟨hinner, hend⟩ := isStray_iff.mp hstray
      exact absurd hends (by rw [hinner, hend]; decide)
    · exact absurd hmissed.2.1 (by rw [hconstructed]; decide)
  obtain ⟨houter, -, hmounts, hbase, -, hdue, -⟩ := links_applied (bundleOf marked) marked
  have hlinks := (houter hgrammar).length_eq
  refine ⟨hgrammar, hdue honce, ?_, ?_, ?_, ?_⟩
  · decide +kernel
  · rw [hlinks]
    decide +kernel
  · rw [hmounts]
    decide +kernel
  · rw [hbase]
    decide +kernel

/-- Behind a cast, two of the three links are applied again: the base path is extended twice, and the
    router mounted twice.  Where the whole chain is behind a non-null mark, its link is not applied. -/
theorem links_applied_twice :
    (Grammatical cast.root ∧ (due (bundleOf cast) cast).length = 3 ∧
      (applied (bundleOf cast) cast).length = 5 ∧
      (routesOf (bundleOf cast) cast).mounts =
        [⟨"app", "users", "/users"⟩, ⟨"app", "users", "/users"⟩] ∧
      basePathOf (routesOf (bundleOf cast) cast) "app" = "/v1/v1") ∧
    (Grammatical unseen.root ∧ (due (bundleOf unseen) unseen).map (·.1) = ["app"] ∧
      applied (bundleOf unseen) unseen = [] ∧
      (routesOf (bundleOf unseen) unseen).registrations.length = 0) := by
  have hcast : ∀ n ∈ cast.root.walk, isRegular n = true := by decide +kernel
  have hunseen : ∀ n ∈ unseen.root.walk, isRegular n = true := by decide +kernel
  have hnothing : (applied (bundleOf unseen) unseen).length = 0 := by decide +kernel
  refine ⟨⟨hcast, ?_⟩, hunseen, ?_, List.eq_nil_of_length_eq_zero hnothing, ?_⟩ <;> decide +kernel

end RouteAtlas.Convention.Fluent
