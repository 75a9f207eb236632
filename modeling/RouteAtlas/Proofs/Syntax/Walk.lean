/-
  A walk through a tree, and sites read like nodes.

  ==== Problem ====

  A walk keeps the sites still to be visited on a stack, so its definition says nothing of what it
  does with one node and what with the next.  A proof about all nodes of a tree wants the walk of a
  node in terms of the walks of its children, and it wants the fields and wrappers of a node as sites,
  with what stands around them.

  ==== Program ====

  1. **Walks** - a walk is the site, then the walks of its meaningful children (`walk_eq`).

  2. **Readings** - the first meaningful child, a field and the expression inside wrappers, each as a
     site; the node of what is found is what the reading of the node finds.

  3. **Induction** - a child is smaller than its parent, so what holds of a site if it holds of its
     children holds of all sites (`childInduction`).

  Trees that are written out, for the instances of a theorem, are made of `branch`, `leaf` and
  `calling`.  Their nodes stand at no place of a text, which only matters where two nodes are compared.
-/
import RouteAtlas.Syntax.Site

namespace RouteAtlas.Syntax

namespace Node

/-! ## Trees written out -/

/-- A named node and its children. -/
def branch (kind role text : String) (children : List Node) : Node :=
  ⟨kind, true, 0, 0, role, text, children⟩

/-- A named node with a text of its own. -/
def leaf (kind role text : String) : Node := branch kind role text []

/-- A method called on something. -/
def calling (object : Node) (method : String) (args : List Node) : Node :=
  branch "call_expression" "" "" [
    branch "member_expression" "function" "" [{ object with role := "object" },
      leaf "property_identifier" "property" method],
    branch "arguments" "arguments" "" args]

end Node

namespace Site

/-! ## Walks

The stack of a walk holds sites that are still to be visited; what comes out is their walks, from
the top down. -/

theorem visit_nil : visit [] = [] := by rw [visit]

/-- The site on top is visited, and its children take its place. -/
theorem visit_cons (s : Site) (stack : List Site) :
    visit (s :: stack) = s :: visit (s.namedChildren ++ stack) := by rw [visit]

/-- What is below on the stack waits until all above it is visited. -/
theorem visit_append (l r : List Site) : visit (l ++ r) = visit l ++ visit r := by
  induction hweight : weight l using Nat.strongRecOn generalizing l with
  | _ n ih =>
    cases l with
    | nil => rw [visit_nil, List.nil_append, List.nil_append]
    | cons s l =>
      have hless : weight (s.namedChildren ++ l) < n := hweight ▸ weight_visit s l
      rw [List.cons_append, visit_cons, visit_cons, ← List.append_assoc, ih _ hless _ rfl,
        List.cons_append]

/-- Visiting a stack is walking from each of its sites. -/
theorem visit_eq_flatMap (sites : List Site) : visit sites = sites.flatMap walk := by
  induction sites with
  | nil => exact visit_nil
  | cons s sites ih =>
    rw [List.flatMap_cons, ← ih]
    exact visit_append [s] sites

/-- **A walk** is the site, then the walks of its meaningful children in their order. -/
theorem walk_eq (s : Site) : s.walk = s :: s.namedChildren.flatMap walk := by
  rw [← visit_eq_flatMap]
  show visit [s] = _
  rw [visit_cons, List.append_nil]

/-- A walk begins with the site. -/
theorem self_mem_walk (s : Site) : s ∈ s.walk := by
  rw [walk_eq]
  exact List.mem_cons_self

theorem walk_subset_of_mem_namedChildren {c s : Site} (hc : c ∈ s.namedChildren) :
    ∀ t ∈ c.walk, t ∈ s.walk := by
  intro t ht
  rw [walk_eq s]
  exact List.mem_cons_of_mem s (List.mem_flatMap.mpr ⟨c, hc, ht⟩)

/-! ## Children -/

/-- The children of a site are those of its node, in their places. -/
theorem children_map_node (s : Site) : s.children.map (·.node) = s.node.children :=
  placeFrom_map_node ..

/-- Siblings have the same around them. -/
theorem above_of_mem_placeFrom {above before cs : List Node} {c : Site}
    (hc : c ∈ placeFrom above before cs) : c.above = above := by
  induction cs generalizing before with
  | nil => exact absurd hc List.not_mem_nil
  | cons n cs ih =>
    rcases List.mem_cons.mp hc with rfl | hc
    · rfl
    · exact ih hc

/-- Around a child is its parent, then what is around the parent. -/
theorem above_of_mem_children {c s : Site} (hc : c ∈ s.children) : c.above = s.node :: s.above :=
  above_of_mem_placeFrom hc

/-- A child is smaller than its parent. -/
theorem size_lt_of_mem_children {c s : Site} (hc : c ∈ s.children) : c.node.size < s.node.size := by
  refine Node.size_lt_of_mem ?_
  rw [← children_map_node]
  exact List.mem_map_of_mem hc

theorem mem_children_of_mem_namedChildren {c s : Site} (hc : c ∈ s.namedChildren) : c ∈ s.children :=
  (List.mem_filter.mp hc).1

/-- What holds of every site whose meaningful children have it holds of all sites. -/
theorem childInduction {motive : Site → Prop}
    (step : ∀ s, (∀ c ∈ s.namedChildren, motive c) → motive s) (s : Site) : motive s := by
  induction hsize : s.node.size using Nat.strongRecOn generalizing s with
  | _ n ih =>
    refine step s fun c hc => ?_
    have hless := size_lt_of_mem_children (mem_children_of_mem_namedChildren hc)
    exact ih c.node.size (hsize ▸ hless) c rfl

/-! ## Readings

What is read of a node can be read of it in its place, with the same result. -/

/-- The first meaningful child, in its place. -/
def firstNamed? (s : Site) : Option Site := s.children.find? (·.node.isMeaningful)

/-- The first child that passes a test is the same in its place. -/
theorem find?_children_node (s : Site) (p : Node → Bool) :
    (s.children.find? fun c => p c.node).map (·.node) = s.node.children.find? p := by
  rw [← children_map_node, List.find?_map]
  rfl

theorem firstNamed?_node (s : Site) : s.firstNamed?.map (·.node) = s.node.firstNamed? :=
  find?_children_node s Node.isMeaningful

theorem field?_node (s : Site) (role : String) :
    (s.field? role).map (·.node) = s.node.field? role :=
  find?_children_node s (·.role == role)

/-- The first meaningful child is the first of them. -/
theorem firstNamed?_eq_head? (s : Site) : s.firstNamed? = s.namedChildren.head? :=
  (List.head?_filter ..).symm

theorem mem_children_of_firstNamed? {c s : Site} (h : s.firstNamed? = some c) : c ∈ s.children :=
  List.mem_of_find?_eq_some h

/-- A child in some role is a child. -/
theorem mem_children_of_field? {c s : Site} {role : String} (h : s.field? role = some c) :
    c ∈ s.children :=
  List.mem_of_find?_eq_some h

set_option linter.unusedVariables false in
/-- The expression inside all wrappers, in its place; none when a wrapper is empty. -/
def unwrap (s : Site) : Option Site :=
  if Node.isWrapperKind s.node.kind then
    match h : s.firstNamed? with
    | some c => c.unwrap
    | none => none
  else some s
termination_by s.node.size
decreasing_by exact size_lt_of_mem_children (mem_children_of_firstNamed? h)

/-- Unwrapping peels one wrapper after another. -/
theorem unwrap_eq (s : Site) :
    s.unwrap = if Node.isWrapperKind s.node.kind then s.firstNamed?.bind unwrap else some s := by
  rw [unwrap]
  split
  · split
    · rename_i c hc
      rw [hc]
      rfl
    · rename_i hnone
      rw [hnone]
      rfl
  · rfl

/-- An expression that is no wrapper is inside none. -/
theorem unwrap_of_not_wrapper {s : Site} (h : Node.isWrapperKind s.node.kind = false) :
    s.unwrap = some s := by
  rw [unwrap_eq, h]
  rfl

/-- Unwrapping in place is unwrapping. -/
theorem unwrap_node (s : Site) : s.unwrap.map (·.node) = s.node.unwrap := by
  induction hsize : s.node.size using Nat.strongRecOn generalizing s with
  | _ n ih =>
    rw [unwrap_eq, Node.unwrap_eq, ← firstNamed?_node]
    split
    · cases hfirst : s.firstNamed? with
      | none => rfl
      | some c =>
        have hless := size_lt_of_mem_children (mem_children_of_firstNamed? hfirst)
        exact ih c.node.size (hsize ▸ hless) c rfl
    · rfl

/-- The expression in some role, inside all wrappers, in its place. -/
def inner? (s : Site) (role : String) : Option Site := (s.field? role).bind unwrap

/-- The expression in a role is the same in its place. -/
theorem inner?_node (s : Site) (role : String) :
    (s.inner? role).map (·.node) = s.node.inner? role := by
  unfold inner? Node.inner?
  rw [← field?_node]
  cases s.field? role with
  | none => rfl
  | some c => exact unwrap_node c

theorem size_lt_of_inner? {s t : Site} {role : String} (h : s.inner? role = some t) :
    t.node.size < s.node.size := by
  have hinner : s.node.inner? role = some t.node := by
    rw [← inner?_node, h]
    rfl
  exact Node.size_lt_of_inner? hinner

end Site

end RouteAtlas.Syntax
