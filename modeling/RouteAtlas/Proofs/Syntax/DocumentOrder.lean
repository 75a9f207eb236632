/-
  Document order.

  ==== Problem ====

  Whoever looks for something in a tree relies on the order in which it is found: of several
  definitions of a name the first one counts, or the last.  Nothing may be found twice either, and
  that cannot be said of the nodes, since two that look alike can stand in different places.

  ==== Spec ====

  A place is told by its `Address`: which part to go into, at every step.  `ListsInOrder` says of a
  list that it holds what stands at certain places, in the lexicographic order of their addresses,
  and that these are all the places with something wanted.  So an item comes before what is below it,
  and what is below one part before what is below the next.

  ==== The crux ====

  Whatever lists an item, if it is wanted, and then what its parts list, part by part, lists in
  document order (`listsInOrder_of_recursion`).  The induction is on the size of the item; in it the
  parts are taken one by one, and every further part moves the places of those behind it
  (`Listing.cons`).

  A walk is such a recursion, of sites (`Site.walk_eq`) as well as of nodes (`Node.walk_eq`), whose
  surroundings do not matter (`Site.walk_map_node`).
-/
import RouteAtlas.Proofs.Syntax.Walk
import Mathlib.Data.List.Basic

namespace RouteAtlas.Syntax

/-- A place below an item: which part to go into, at every step. -/
abbrev Address := List Nat

section

variable {α : Type}

/-- What stands at a place below an item that consists of `parts`. -/
def itemAt? (parts : α → List α) : α → Address → Option α
  | x, [] => some x
  | x, i :: rest => (parts x)[i]?.bind fun y => itemAt? parts y rest

/-- What stands at a place below one of several items; the first step says which. -/
def itemAmong? (parts : α → List α) (xs : List α) : Address → Option α
  | [] => none
  | i :: rest => xs[i]?.bind fun y => itemAt? parts y rest

/-- The list holds what stands at the given places, which are those with something wanted, each once
    and in lexicographic order. -/
structure Listing (at? : Address → Option α) (wanted : α → Bool) (found : List α)
    (places : List Address) : Prop where
  ordered : places.Pairwise (List.Lex (· < ·))
  all : ∀ place, place ∈ places ↔ ∃ x, at? place = some x ∧ wanted x = true
  found : places.map at? = found.map some

/-- The list holds what is wanted, place by place, in document order. -/
def ListsInOrder (at? : Address → Option α) (wanted : α → Bool) (found : List α) : Prop :=
  ∃ places, Listing at? wanted found places

/-! ## Several items

The places of a list of items begin with the position of the item, so that those of the first come
before all others. -/

/-- The place when there is one more item in front. -/
def later : Address → Address
  | [] => []
  | i :: rest => (i + 1) :: rest

/-- Places keep their order when there is one more item in front. -/
theorem lex_later {a b : Address} (h : List.Lex (· < ·) a b) :
    List.Lex (· < ·) (later a) (later b) := by
  cases h with
  | nil => exact .nil
  | cons h => exact .cons h
  | rel h => exact .rel (Nat.succ_lt_succ h)

variable {parts : α → List α} {wanted : α → Bool}

/-- Of no items nothing is listed. -/
theorem Listing.nil : Listing (itemAmong? parts []) wanted [] [] := by
  refine ⟨.nil, fun place => ⟨fun h => absurd h List.not_mem_nil, ?_⟩, rfl⟩
  rintro ⟨x, hx, -⟩
  cases place with
  | nil => cases hx
  | cons i rest => cases hx

/-- A place among several items takes at least one step. -/
theorem Listing.ne_nil {xs found : List α} {places : List Address}
    (h : Listing (itemAmong? parts xs) wanted found places) {place : Address} (hp : place ∈ places) :
    place ≠ [] := by
  rintro rfl
  obtain ⟨x, hx, -⟩ := (h.all []).mp hp
  cases hx

/-- One more item in front: what is listed below it comes first.  Its places begin with zero, and
    those of the other items move on by one. -/
theorem Listing.cons {x : α} {xs found found' : List α} {places places' : List Address}
    (hx : Listing (itemAt? parts x) wanted found places)
    (hxs : Listing (itemAmong? parts xs) wanted found' places') :
    Listing (itemAmong? parts (x :: xs)) wanted (found ++ found')
      (places.map (0 :: ·) ++ places'.map later) := by
  have hlater : ∀ a ∈ places', ∃ i rest, a = i :: rest := fun a ha =>
    List.exists_cons_of_ne_nil (hxs.ne_nil ha)
  refine ⟨?_, fun place => ?_, ?_⟩
  · refine List.pairwise_append.mpr ⟨?_, ?_, ?_⟩
    · exact List.pairwise_map.mpr (hx.ordered.imp .cons)
    · exact List.pairwise_map.mpr (hxs.ordered.imp lex_later)
    · intro first hfirst second hsecond
      obtain ⟨a, -, rfl⟩ := List.mem_map.mp hfirst
      obtain ⟨b, hb, rfl⟩ := List.mem_map.mp hsecond
      obtain ⟨i, rest, rfl⟩ := hlater b hb
      exact .rel (Nat.succ_pos i)
  · rw [List.mem_append, List.mem_map, List.mem_map]
    constructor
    · rintro (⟨a, ha, rfl⟩ | ⟨a, ha, rfl⟩)
      · exact (hx.all a).mp ha
      · obtain ⟨i, rest, rfl⟩ := hlater a ha
        exact (hxs.all _).mp ha
    · intro h
      match place with
      | [] =>
        obtain ⟨y, hy, -⟩ := h
        cases hy
      | 0 :: rest => exact .inl ⟨rest, (hx.all rest).mpr h, rfl⟩
      | (i + 1) :: rest => exact .inr ⟨i :: rest, (hxs.all (i :: rest)).mpr h, rfl⟩
  · rw [List.map_append, List.map_append, List.map_map, List.map_map, ← hx.found, ← hxs.found]
    congr 1
    refine List.map_congr_left fun a ha => ?_
    obtain ⟨i, rest, rfl⟩ := hlater a ha
    rfl

/-- What lists each item in order lists several in order, one after the other. -/
theorem listsInOrder_among {collect : α → List α} {xs : List α}
    (h : ∀ x ∈ xs, ListsInOrder (itemAt? parts x) wanted (collect x)) :
    ListsInOrder (itemAmong? parts xs) wanted (xs.flatMap collect) := by
  induction xs with
  | nil => exact ⟨[], .nil⟩
  | cons x xs ih =>
    obtain ⟨places, hx⟩ := h x List.mem_cons_self
    obtain ⟨places', hxs⟩ := ih fun y hy => h y (List.mem_cons_of_mem x hy)
    exact ⟨_, hx.cons hxs⟩

/-! ## An item and what is below it

A place is empty for the item itself, and goes on with a position among its parts for what is below. -/

/-- An item comes before all that is below it.  Its own place is the empty one, which comes before
    all others. -/
theorem Listing.item {x : α} {found : List α} {places : List Address}
    (h : Listing (itemAmong? parts (parts x)) wanted found places) :
    Listing (itemAt? parts x) wanted ((if wanted x = true then [x] else []) ++ found)
      ((if wanted x = true then [[]] else []) ++ places) := by
  refine ⟨?_, fun place => ?_, ?_⟩
  · refine List.pairwise_append.mpr ⟨?_, h.ordered, fun a ha b hb => ?_⟩
    · split
      · exact List.pairwise_singleton ..
      · exact .nil
    · have ha : a = [] := by
        split at ha
        · exact List.mem_singleton.mp ha
        · exact absurd ha List.not_mem_nil
      obtain ⟨i, rest, rfl⟩ := List.exists_cons_of_ne_nil (h.ne_nil hb)
      exact ha ▸ .nil
  · rw [List.mem_append]
    match place with
    | [] =>
      -- here stands the item itself
      have hbelow : [] ∉ places := fun hp => h.ne_nil hp rfl
      by_cases hx : wanted x = true
      · rw [if_pos hx]
        exact ⟨fun _ => ⟨x, rfl, hx⟩, fun _ => .inl (List.mem_singleton_self _)⟩
      · rw [if_neg hx]
        refine ⟨fun hp => absurd (hp.resolve_left List.not_mem_nil) hbelow, ?_⟩
        rintro ⟨y, hy, hwanted⟩
        exact absurd (Option.some.inj hy ▸ hwanted) hx
    | i :: rest =>
      have hself : i :: rest ∉ if wanted x = true then [([] : Address)] else [] := by
        split <;> simp
      exact (or_iff_right hself).trans (h.all (i :: rest))
  · have hplaces : places.map (itemAt? parts x) = places.map (itemAmong? parts (parts x)) := by
      refine List.map_congr_left fun a ha => ?_
      obtain ⟨i, rest, rfl⟩ := List.exists_cons_of_ne_nil (h.ne_nil ha)
      rfl
    rw [List.map_append, List.map_append, hplaces, h.found]
    congr 1
    split <;> rfl

/-- **Document order**: what lists an item, if it is wanted, and then what its parts list, lists in
    document order. -/
theorem listsInOrder_of_recursion (size : α → Nat) (hsize : ∀ x, ∀ y ∈ parts x, size y < size x)
    {collect : α → List α} (hcollect : ∀ x, collect x
      = (if wanted x = true then [x] else []) ++ (parts x).flatMap collect) (x : α) :
    ListsInOrder (itemAt? parts x) wanted (collect x) := by
  induction hn : size x using Nat.strongRecOn generalizing x with
  | _ n ih =>
    have hparts : ∀ y ∈ parts x, ListsInOrder (itemAt? parts y) wanted (collect y) :=
      fun y hy => ih (size y) (hn ▸ hsize x y hy) y rfl
    obtain ⟨places, hbelow⟩ := listsInOrder_among hparts
    rw [hcollect]
    exact ⟨_, hbelow.item⟩

/-- What a walk passes that is wanted is in document order, too. -/
theorem listsInOrder_filter (size : α → Nat) (hsize : ∀ x, ∀ y ∈ parts x, size y < size x)
    {walk : α → List α} (hwalk : ∀ x, walk x = x :: (parts x).flatMap walk) (wanted : α → Bool)
    (x : α) : ListsInOrder (itemAt? parts x) wanted ((walk x).filter wanted) := by
  have hfilter : ∀ x, (walk x).filter wanted = (if wanted x = true then [x] else [])
      ++ (parts x).flatMap fun y => (walk y).filter wanted := by
    intro x
    rw [hwalk, List.filter_cons, List.filter_flatMap]
    split <;> rfl
  exact listsInOrder_of_recursion size hsize hfilter x

end

/-! ## Walks in document order

The program walks with a stack; a node before what is below it, children in their order. -/

namespace Node

mutual
/-- A node, then what is below each of its meaningful children in turn. -/
def preorder : Node → List Node
  | ⟨kind, named, start, stop, role, text, children⟩ =>
    ⟨kind, named, start, stop, role, text, children⟩ :: preorderAll children
/-- The meaningful ones among siblings, each with what is below it. -/
def preorderAll : List Node → List Node
  | [] => []
  | c :: cs => if c.isMeaningful then preorder c ++ preorderAll cs else preorderAll cs
end

/-- Several nodes, one after the other. -/
theorem preorderAll_eq (cs : List Node) :
    preorderAll cs = (cs.filter isMeaningful).flatMap preorder := by
  induction cs with
  | nil => rw [preorderAll, List.filter_nil, List.flatMap_nil]
  | cons c cs ih =>
    rw [preorderAll, List.filter_cons, ih]
    split
    · rw [List.flatMap_cons]
    · rfl

/-- A node, and then what is below each of its children. -/
theorem preorder_eq (n : Node) : n.preorder = n :: n.namedChildren.flatMap preorder := by
  cases n with
  | mk kind named start stop role text children => rw [preorder, preorderAll_eq, namedChildren]

theorem size_lt_of_mem_namedChildren {c n : Node} (h : c ∈ n.namedChildren) : c.size < n.size :=
  size_lt_of_mem (List.mem_filter.mp h).1

end Node

namespace Site

/-- The nodes on a walk are told by the node it starts from, wherever that stands. -/
theorem walk_map_node (s : Site) : s.walk.map (·.node) = s.node.preorder := by
  induction s using childInduction with
  | step s ih =>
    rw [walk_eq, Node.preorder_eq, List.map_cons, ← namedChildren_map_node, List.map_flatMap,
      List.flatMap_map]
    congr 1
    exact List.flatMap_congr ih

/-- A child in its place is smaller than its parent, too. -/
theorem size_lt_of_mem_namedChildren {c s : Site} (h : c ∈ s.namedChildren) :
    c.node.size < s.node.size :=
  size_lt_of_mem_children (mem_children_of_mem_namedChildren h)

/-- A walk lists all that is below a site, in document order. -/
theorem walk_inOrder (s : Site) :
    ListsInOrder (itemAt? namedChildren s) (fun _ => true) s.walk :=
  listsInOrder_of_recursion (·.node.size) (fun _ _ => size_lt_of_mem_namedChildren) walk_eq s

/-- What is found of some kinds is listed in document order. -/
theorem findAll_inOrder (s : Site) (kinds : List String) :
    ListsInOrder (itemAt? namedChildren s) (fun t => kinds.contains t.node.kind) (s.findAll kinds) :=
  listsInOrder_filter (·.node.size) (fun _ _ => size_lt_of_mem_namedChildren) walk_eq _ s

end Site

namespace Node

theorem walk_eq_preorder (n : Node) : n.walk = n.preorder := Site.walk_map_node (Site.root n)

/-- **A walk** is the node, then the walks of its meaningful children in their order. -/
theorem walk_eq (n : Node) : n.walk = n :: n.namedChildren.flatMap walk := by
  rw [funext walk_eq_preorder, preorder_eq]

theorem walk_inOrder (n : Node) :
    ListsInOrder (itemAt? namedChildren n) (fun _ => true) n.walk :=
  listsInOrder_of_recursion size (fun _ _ => size_lt_of_mem_namedChildren) walk_eq n

theorem findAll_inOrder (n : Node) (kinds : List String) :
    ListsInOrder (itemAt? namedChildren n) (fun m => kinds.contains m.kind) (n.findAll kinds) :=
  listsInOrder_filter size (fun _ _ => size_lt_of_mem_namedChildren) walk_eq _ n

end Node

end RouteAtlas.Syntax
