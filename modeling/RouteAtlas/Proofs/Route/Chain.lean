/-
  Where a chain of links ends.

  ==== Problem ====

  A name may stand for another name, and that one for a third.  What a name stands for in the end is
  found by following the links; where links go round in circles, there is no end.

  ==== Program ====

  1. `Links` says where a name leads, `EndsAt` what it stands for in the end: the links lead there,
     and no further.

  2. **Sound** - following goes along links only (`leads_followFrom`).

  3. **Complete** - a name is met a second time only on a circle.  So without circles the following
     stops for want of a link, at the end (`endsAt_follow`).

  ==== The crux ====

  `get?_followFrom`: links lead from every name met so far to the one at hand, so if that one was met
  before, it leads to itself.
-/
import Mathlib.Logic.Relation
import RouteAtlas.Route.Chain

namespace RouteAtlas.Route

variable {α : Type} [DecidableEq α] {links : List (α × α)}

/-- There is a link from one name to another. -/
def Links (links : List (α × α)) (x y : α) : Prop := Dict.get? links x = some y

/-- A relation leads from `x` to `t`, and from there no further. -/
def EndsAt (leads : α → α → Prop) (x t : α) : Prop :=
  Relation.ReflTransGen leads x t ∧ ∀ y, ¬leads t y

/-- Following stays on the links. -/
theorem leads_followFrom (links : List (α × α)) (seen : List α) (x : α) :
    Relation.ReflTransGen (Links links) x (followFrom links seen x) := by
  fun_induction followFrom links seen x with
  | case1 seen x hnone => exact .refl
  | case2 seen x y hlink hseen => exact .refl
  | case3 seen x y hlink hseen ih => exact .head hlink ih

/-- **Without circles the following stops for want of a link.** -/
theorem get?_followFrom (acyclic : ∀ x, ¬Relation.TransGen (Links links) x x) (seen : List α) (x : α)
    (hseen : ∀ s ∈ seen, Relation.TransGen (Links links) s x) :
    Dict.get? links (followFrom links seen x) = none := by
  fun_induction followFrom links seen x with
  | case1 seen x hnone => exact hnone
  | case2 seen x y hlink hmet => exact absurd (hseen x (List.contains_iff_mem.mp hmet)) (acyclic x)
  | case3 seen x y hlink hmet ih =>
    refine ih fun s hs => ?_
    rcases List.mem_cons.mp hs with rfl | hs
    · exact .single hlink
    · exact (hseen s hs).tail hlink

/-- **What following finds is what the name stands for in the end.** -/
theorem endsAt_follow (acyclic : ∀ x, ¬Relation.TransGen (Links links) x x) (x : α) :
    EndsAt (Links links) x (follow links x) := by
  have hend : Dict.get? links (follow links x) = none :=
    get?_followFrom acyclic [] x fun _ hs => absurd hs List.not_mem_nil
  exact ⟨leads_followFrom links [] x, fun y hy => Option.some_ne_none y (hy.symm.trans hend)⟩

/-- A name without a link stands for itself. -/
theorem follow_of_get?_eq_none {x : α} (h : Dict.get? links x = none) : follow links x = x := by
  unfold follow
  rw [followFrom]
  split
  · rfl
  · rename_i y hlink
    exact absurd (hlink.symm.trans h) (Option.some_ne_none y)

end RouteAtlas.Route
