/-
  The members of a union, and traversals at large.

  ==== Problem ====

  The first member of a union stands for all of it, and the first literal is the sample of a choice.
  So the order of the members decides the shape.  They are found with an explicit stack, on which
  unions and parentheses are replaced by what is in them; nothing in that says what the members of a
  union have to do with those of the unions inside it.

  ==== Spec ====

  `alternatives?` is what a type is flattened into: a union into its meaningful children, parentheses
  into what they are around, and any other type, empty parentheses included, into nothing at all.
  Then the members of a type are the members of its alternatives, in their order, or the type itself
  (`unionMembers_eq`).  That recursion lists the types without alternatives in document order, each
  place once (`unionMembers_inOrder`).

  Together with walks and searches, `traversals_structural` says of every traversal with a stack that
  it is the recursion along the tree.
-/
import RouteAtlas.Proofs.Syntax.DocumentOrder
import RouteAtlas.Shape.TypeExpr

namespace RouteAtlas.Shape.TypeExpr

open Syntax (Node ListsInOrder itemAt? listsInOrder_of_recursion)

/-- What a type is flattened into, if it is. -/
def alternatives? (n : Node) : Option (List Node) :=
  if n.kind == "union_type" then some n.namedChildren
  else if n.kind == "parenthesized_type" then n.firstNamed?.map fun c => [c]
  else none

/-- What a type is flattened into; nothing for a type that is not. -/
def alternatives (n : Node) : List Node := (alternatives? n).getD []

/-- An alternative is smaller than the type it is one of. -/
theorem size_lt_of_mem_alternatives {c n : Node} (h : c ∈ alternatives n) : c.size < n.size := by
  unfold alternatives alternatives? at h
  split at h
  · exact Node.size_lt_of_mem_namedChildren h
  · split at h
    · cases hfirst : n.firstNamed? with
      | none =>
        rw [hfirst] at h
        exact absurd h List.not_mem_nil
      | some d =>
        rw [hfirst] at h
        obtain rfl := List.mem_singleton.mp h
        exact Node.size_lt_of_firstNamed? hfirst
    · exact absurd h List.not_mem_nil

/-! ## The stack

The program flattens a type with a stack of its own.  What is on the stack is worked off from the
top, so the stack as a whole gives the members of each in turn. -/

theorem flattenFrom_nil : flattenFrom [] = [] := by rw [flattenFrom]

/-- The type on top of the stack gives way to its alternatives, or comes off. -/
theorem flattenFrom_cons (n : Node) (stack : List Node) : flattenFrom (n :: stack) =
    match alternatives? n with
    | some types => flattenFrom (types ++ stack)
    | none => n :: flattenFrom stack := by
  rw [flattenFrom, alternatives?]
  split
  · rfl
  · split
    · cases hfirst : n.firstNamed? <;> rfl
    · rfl

/-- What is below on the stack waits until all above it is flattened. -/
theorem flattenFrom_append (l r : List Node) :
    flattenFrom (l ++ r) = flattenFrom l ++ flattenFrom r := by
  fun_induction flattenFrom l with
  | case1 => rfl
  | case2 n l hunion ih =>
    rw [List.cons_append, flattenFrom, if_pos hunion, ← List.append_assoc, ih]
  | case3 n l hunion hparen c hfirst ih =>
    have halternatives : alternatives? n = some [c] := by
      rw [alternatives?, if_neg hunion, if_pos hparen, hfirst, Option.map_some]
    rw [List.cons_append, flattenFrom_cons, halternatives, ← ih]
    rfl
  | case4 n l hunion hparen hfirst ih =>
    have halternatives : alternatives? n = none := by
      rw [alternatives?, if_neg hunion, if_pos hparen, hfirst, Option.map_none]
    rw [List.cons_append, flattenFrom_cons, halternatives, ih, List.cons_append]
  | case5 n l hunion hparen ih =>
    have halternatives : alternatives? n = none := by
      rw [alternatives?, if_neg hunion, if_neg hparen]
    rw [List.cons_append, flattenFrom_cons, halternatives, ih, List.cons_append]

/-- What is on the stack gives its members, from the top down. -/
theorem flattenFrom_eq_flatMap (types : List Node) :
    flattenFrom types = types.flatMap unionMembers := by
  induction types with
  | nil => exact flattenFrom_nil
  | cons n types ih =>
    rw [List.flatMap_cons, ← ih]
    exact flattenFrom_append [n] types

/-! ## The recursion -/

/-- **The members of a type** are those of its alternatives in their order, or the type itself. -/
theorem unionMembers_eq (n : Node) : unionMembers n =
    match alternatives? n with
    | some types => types.flatMap unionMembers
    | none => [n] := by
  rw [unionMembers, flattenFrom_cons]
  cases alternatives? n with
  | none => exact congrArg (n :: ·) flattenFrom_nil
  | some types =>
    show flattenFrom (types ++ []) = _
    rw [List.append_nil, flattenFrom_eq_flatMap]

/-- The members of a type are listed in the order in which they stand in it. -/
theorem unionMembers_inOrder (n : Node) :
    ListsInOrder (itemAt? alternatives n) (fun m => (alternatives? m).isNone) (unionMembers n) := by
  refine listsInOrder_of_recursion Node.size (fun _ _ => size_lt_of_mem_alternatives) (fun m => ?_) n
  rw [unionMembers_eq, alternatives]
  cases alternatives? m <;> rfl

end RouteAtlas.Shape.TypeExpr

namespace RouteAtlas

open Syntax (Site Node ListsInOrder itemAt?)
open Shape.TypeExpr (unionMembers alternatives alternatives?)

/-- **Traversals follow the tree.**  A walk is the node and then the walks of its meaningful children
    in their order; it passes every place below the node once, in document order, and so a search
    gives what it looks for.  The members of a union are found by flattening it from the outside
    in, each once and in document order. -/
theorem traversals_structural (s : Site) (n : Node) (kinds : List String) :
    (s.walk = s :: s.namedChildren.flatMap Site.walk ∧
      ListsInOrder (itemAt? Site.namedChildren s) (fun _ => true) s.walk ∧
      ListsInOrder (itemAt? Site.namedChildren s) (fun t => kinds.contains t.node.kind)
        (s.findAll kinds)) ∧
    (n.walk = n :: n.namedChildren.flatMap Node.walk ∧
      ListsInOrder (itemAt? Node.namedChildren n) (fun _ => true) n.walk ∧
      ListsInOrder (itemAt? Node.namedChildren n) (fun m => kinds.contains m.kind)
        (n.findAll kinds)) ∧
    (unionMembers n = (match alternatives? n with
        | some types => types.flatMap unionMembers
        | none => [n]) ∧
      ListsInOrder (itemAt? alternatives n) (fun m => (alternatives? m).isNone) (unionMembers n)) :=
  ⟨⟨s.walk_eq, s.walk_inOrder, s.findAll_inOrder kinds⟩,
    ⟨n.walk_eq, n.walk_inOrder, n.findAll_inOrder kinds⟩,
    ⟨Shape.TypeExpr.unionMembers_eq n, Shape.TypeExpr.unionMembers_inOrder n⟩⟩

end RouteAtlas
