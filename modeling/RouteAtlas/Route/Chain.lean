/-
  Following a chain of links to its end.

  A name may stand for another name, and that for a third: `followFrom` goes on as long as there is
  a link and the name was not met before, so a circle ends at the first name met twice.  Every step
  uses up the link of a name not seen before, of which there are finitely many.
-/
import RouteAtlas.Json.Basic

namespace RouteAtlas.Route

variable {α : Type} [DecidableEq α]

theorem mem_keys_of_get? {β : Type} {links : List (α × β)} {x : α} {y : β}
    (h : Dict.get? links x = some y) : ∃ l ∈ links, l.1 = x := by
  unfold Dict.get? at h
  obtain ⟨l₁, l₂, hl, _⟩ := List.lookup_eq_some_iff.1 h
  exact ⟨(x, y), by rw [hl]; simp, rfl⟩

/-- Seeing one more linked name leaves fewer links unseen. -/
theorem unseen_lt {links : List (α × α)} {seen : List α} {x : α} (linked : ∃ l ∈ links, l.1 = x)
    (fresh : seen.contains x = false) :
    links.countP (fun l => !(x :: seen).contains l.1) < links.countP (fun l => !seen.contains l.1) := by
  have le : ∀ l : List (α × α), l.countP (fun l => !(x :: seen).contains l.1)
      ≤ l.countP (fun l => !seen.contains l.1) := fun l =>
    List.countP_mono_left fun r _ hr => by
      simp only [List.contains_cons, Bool.not_or, Bool.and_eq_true] at hr
      exact hr.2
  induction links with
  | nil => obtain ⟨l, hl, _⟩ := linked; cases hl
  | cons l links ih =>
    by_cases hl : l.1 = x
    · have := le links
      rw [List.countP_cons_of_neg (by simp [hl]), List.countP_cons_of_pos (by simpa [hl] using fresh)]
      omega
    · obtain ⟨m, hm, hx⟩ := linked
      have hm : m ∈ links := (List.mem_cons.1 hm).resolve_left fun h => hl (h ▸ hx)
      have := ih ⟨m, hm, hx⟩
      have same : (!(x :: seen).contains l.1) = !seen.contains l.1 := by
        simp [hl]
      simp only [List.countP_cons, same]
      omega

set_option linter.unusedVariables false in
/-- Follows links from `x`, the names in `seen` having been met already. -/
def followFrom (links : List (α × α)) (seen : List α) (x : α) : α :=
  match h : Dict.get? links x with
  | none => x
  | some y => if hx : seen.contains x = true then x else followFrom links (x :: seen) y
termination_by links.countP fun l => !seen.contains l.1
decreasing_by exact unseen_lt (mem_keys_of_get? h) (by simpa using hx)

/-- The end of the chain of links that starts at `x`. -/
def follow (links : List (α × α)) (x : α) : α := followFrom links [] x

end RouteAtlas.Route
