/-
  Routers mounted in routers, and the paths their routes end up under.

  Every router has a base path of its own, and may be mounted in other routers, each time under some
  path.  Its routes are reached under every path that leads to it from a root router, one that is
  mounted nowhere.  When each router is mounted somewhere, all of them count as roots; a router that
  no root leads to is reached under its base path alone.

  The search goes breadth first.  A visit is a router, the path it is entered under and the routers
  already on the way; none of these is entered again, so circles of mounts end.  A router entered a
  second time under the same path is not visited again: its routes are known there, and what it
  leads to as well.  `seen` records the paths each router was entered under, `found` the paths its
  routes are reached under, in the order they were found.

  The search ends: a visit weighs `b^k`, for `k` routers not yet on the way and `b` one more than the
  number of mounts, and leads to fewer than `b` visits that weigh at most `b^(k-1)` each.
-/
import RouteAtlas.Route.Path
import RouteAtlas.Json.Basic

namespace RouteAtlas.Route

variable {α : Type} [DecidableEq α]

/-- One router mounted in another, under a path. -/
structure Mount (α : Type) where
  parent : α
  child : α
  path : String
  deriving DecidableEq, Repr, Inhabited

/-- Routers with their base paths, and how they are mounted. -/
structure MountGraph (α : Type) where
  routers : List (α × String)
  mounts : List (Mount α)

namespace MountGraph

/-- Is the router known? -/
def knows (g : MountGraph α) (router : α) : Bool := Dict.has g.routers router

/-- The mounts between known routers; the others have no effect. -/
def links (g : MountGraph α) : List (Mount α) :=
  g.mounts.filter fun m => g.knows m.parent && g.knows m.child

/-- The mounts in one router. -/
def linksOf (g : MountGraph α) (router : α) : List (Mount α) :=
  g.links.filter fun m => m.parent == router

/-- The routers mounted nowhere, or all of them when there are none. -/
def roots (g : MountGraph α) : List α :=
  let names := g.routers.map (·.1)
  match names.filter fun r => !g.links.any (·.child == r) with
  | [] => names
  | free => free

/-- The base path of a router. -/
def baseOf (g : MountGraph α) (router : α) : String := (Dict.get? g.routers router).getD ""

end MountGraph

/-- A router entered under a path, with the routers on the way to it. -/
structure Visit (α : Type) where
  router : α
  path : String
  onWay : List α

/-- What the search has found so far. -/
structure Search (α : Type) where
  /-- The paths each router was entered under. -/
  seen : List (α × String)
  /-- The paths each router's routes are reached under. -/
  found : List (α × List String)

namespace Search

/-- Adds a path to those of a router. -/
def record (s : Search α) (router : α) (path : String) : Search α :=
  let paths := (Dict.get? s.found router).getD []
  { s with found := Dict.put s.found router (if paths.contains path then paths else paths ++ [path]) }

/-- Enters the routers mounted in the one at hand: the new visits, and what is seen after them. -/
def enterAll (reached : String) (onWay : List α) :
    List (Mount α) → (seen : List (α × String)) → List (Visit α) × List (α × String)
  | [], seen => ([], seen)
  | m :: rest, seen =>
    if onWay.contains m.child then enterAll reached onWay rest seen
    else
      let path := join reached m.path
      if seen.contains (m.child, path) then enterAll reached onWay rest seen
      else
        let (visits, seen) := enterAll reached onWay rest (seen ++ [(m.child, path)])
        (⟨m.child, path, m.child :: onWay⟩ :: visits, seen)

end Search

/-! ## How much search is left -/

/-- The number of routers that are not on the way. -/
def MountGraph.ahead (g : MountGraph α) (onWay : List α) : Nat :=
  (g.routers.map (·.1)).countP fun r => !onWay.contains r

/-- The weight of a visit. -/
def MountGraph.weight (g : MountGraph α) (v : Visit α) : Nat :=
  (g.mounts.length + 1).pow (g.ahead v.onWay)

/-- The weight of all visits on the queue. -/
def MountGraph.totalWeight (g : MountGraph α) : List (Visit α) → Nat
  | [] => 0
  | v :: queue => g.weight v + g.totalWeight queue

theorem MountGraph.ahead_cons_lt (g : MountGraph α) {child : α} {onWay : List α}
    (known : g.knows child = true) (fresh : onWay.contains child = false) :
    g.ahead (child :: onWay) < g.ahead onWay := by
  unfold ahead
  have hmem : child ∈ g.routers.map (·.1) := by
    unfold knows Dict.has at known
    cases hl : g.routers.lookup child with
    | none => simp [hl] at known
    | some base =>
      obtain ⟨l₁, l₂, h, _⟩ := List.lookup_eq_some_iff.1 hl
      rw [h]; simp
  generalize g.routers.map (·.1) = names at hmem
  have le : ∀ l : List α, l.countP (fun r => !(child :: onWay).contains r)
      ≤ l.countP (fun r => !onWay.contains r) := fun l =>
    List.countP_mono_left fun r _ hr => by
      simp only [List.contains_cons, Bool.not_or, Bool.and_eq_true] at hr
      exact hr.2
  induction names with
  | nil => cases hmem
  | cons r names ih =>
    by_cases hr : r = child
    · subst hr
      have := le names
      rw [List.countP_cons_of_neg (by simp), List.countP_cons_of_pos (by simpa using fresh)]
      omega
    · have := ih ((List.mem_cons.1 hmem).resolve_left fun h => hr h.symm)
      have same : (!(child :: onWay).contains r) = !onWay.contains r := by
        simp [hr]
      simp only [List.countP_cons, same]
      omega

/-- The visits that one leads to weigh less than it. -/
theorem MountGraph.enterAll_weight (g : MountGraph α) (reached : String) (onWay : List α)
    (links : List (Mount α)) (seen : List (α × String))
    (known : ∀ m ∈ links, g.knows m.child = true) :
    g.totalWeight (Search.enterAll reached onWay links seen).1 * (g.mounts.length + 1)
      ≤ links.length * (g.mounts.length + 1).pow (g.ahead onWay) := by
  induction links generalizing seen with
  | nil => simp [Search.enterAll, totalWeight]
  | cons m rest ih =>
    have known' : ∀ m ∈ rest, g.knows m.child = true := fun x hx => known x (by simp [hx])
    have grow : rest.length * (g.mounts.length + 1).pow (g.ahead onWay)
        ≤ (m :: rest).length * (g.mounts.length + 1).pow (g.ahead onWay) :=
      Nat.mul_le_mul_right _ (by simp)
    unfold Search.enterAll
    split
    · exact Nat.le_trans (ih seen known') grow
    · rename_i hc
      dsimp only
      split
      · exact Nat.le_trans (ih seen known') grow
      · have hlt := g.ahead_cons_lt (known m (by simp)) (by simpa using hc)
        have hpow : (g.mounts.length + 1).pow (g.ahead (m.child :: onWay)) * (g.mounts.length + 1)
            ≤ (g.mounts.length + 1).pow (g.ahead onWay) := by
          show (g.mounts.length + 1).pow (g.ahead (m.child :: onWay) + 1) ≤ _
          exact Nat.pow_le_pow_right (Nat.succ_pos _) hlt
        have := ih (seen ++ [(m.child, join reached m.path)]) known'
        simp only [totalWeight, weight, List.length_cons, Nat.add_mul, Nat.one_mul] at *
        omega

theorem MountGraph.totalWeight_append (g : MountGraph α) (a b : List (Visit α)) :
    g.totalWeight (a ++ b) = g.totalWeight a + g.totalWeight b := by
  induction a with
  | nil => simp [totalWeight]
  | cons v a ih => simp only [List.cons_append, totalWeight, ih]; omega

theorem MountGraph.totalWeight_step (g : MountGraph α) (v : Visit α) (queue : List (Visit α))
    (reached : String) (seen : List (α × String)) :
    g.totalWeight (queue ++ (Search.enterAll reached v.onWay (g.linksOf v.router) seen).1)
      < g.totalWeight (v :: queue) := by
  have known : ∀ m ∈ g.linksOf v.router, g.knows m.child = true := by
    intro m hm
    have := (List.mem_filter.1 (List.mem_filter.1 hm).1).2
    simp_all
  have hlen : (g.linksOf v.router).length ≤ g.mounts.length :=
    Nat.le_trans (List.length_filter_le _ _) (List.length_filter_le _ _)
  have h := g.enterAll_weight reached v.onWay (g.linksOf v.router) seen known
  rw [totalWeight_append]
  have hcons : g.totalWeight (v :: queue)
      = (g.mounts.length + 1).pow (g.ahead v.onWay) + g.totalWeight queue := by
    simp only [totalWeight, weight]
  have hpos : 0 < (g.mounts.length + 1).pow (g.ahead v.onWay) := Nat.pow_pos (by omega)
  have : g.totalWeight (Search.enterAll reached v.onWay (g.linksOf v.router) seen).1
      < (g.mounts.length + 1).pow (g.ahead v.onWay) := by
    generalize g.totalWeight (Search.enterAll reached v.onWay (g.linksOf v.router) seen).1 = w at *
    generalize (g.mounts.length + 1).pow (g.ahead v.onWay) = p at *
    have h2 : (g.linksOf v.router).length * p ≤ g.mounts.length * p :=
      Nat.mul_le_mul_right _ hlen
    by_cases hw : w < p
    · exact hw
    · have h3 : p * (g.mounts.length + 1) ≤ w * (g.mounts.length + 1) :=
        Nat.mul_le_mul_right _ (by omega)
      have h4 : p * (g.mounts.length + 1) = g.mounts.length * p + p := by
        rw [Nat.mul_add, Nat.mul_one, Nat.mul_comm]
      omega
  omega

/-! ## The search -/

/-- Makes the visits of the queue, first come first. -/
def MountGraph.spread (g : MountGraph α) : List (Visit α) → Search α → Search α
  | [], s => s
  | v :: queue, s =>
    let reached := join v.path (g.baseOf v.router)
    let entered := Search.enterAll reached v.onWay (g.linksOf v.router) s.seen
    g.spread (queue ++ entered.1) { s.record v.router reached with seen := entered.2 }
termination_by queue => g.totalWeight queue
decreasing_by exact g.totalWeight_step v queue _ _

/-- Every router with the paths its routes are reached under. -/
def MountGraph.resolve (g : MountGraph α) : List (α × List String) :=
  let start : Search α := ⟨g.roots.map (·, ""), []⟩
  let search := g.spread (g.roots.map fun r => ⟨r, "", [r]⟩) start
  g.routers.foldl (fun found (r, base) => Dict.putNew found r [join "" base]) search.found

end RouteAtlas.Route
