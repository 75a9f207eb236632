/-
  Nodes in their place, and the traversal of a tree.

  Some readings depend on what stands around a node: decorators stand before a class member among
  its siblings, an exported class has them on the export, and a call is a link of a chain or its end.
  A `Site` is a node together with the siblings before it, nearest first, and the nodes that enclose
  it, innermost first.

  `walk` visits a node and all its meaningful descendants, each before its own descendants and all
  in source order.  It keeps the sites still to be visited on an explicit stack, so that its depth
  does not grow with the tree; it ends because the stack's total size falls with every visit.
-/
import RouteAtlas.Syntax.Node

namespace RouteAtlas.Syntax

/-- A node in its place. -/
structure Site where
  node : Node
  /-- The siblings before it, nearest first. -/
  before : List Node
  /-- The nodes around it, innermost first. -/
  above : List Node
  deriving Inhabited

namespace Site

/-- A node seen on its own. -/
def root (n : Node) : Site := ⟨n, [], []⟩

/-- The sites of a list of siblings. -/
def placeFrom (above : List Node) : (before : List Node) → List Node → List Site
  | _, [] => []
  | before, c :: cs => ⟨c, before, above⟩ :: placeFrom above (c :: before) cs

/-- The children in their places. -/
def children (s : Site) : List Site := placeFrom (s.node :: s.above) [] s.node.children

/-- The meaningful children in their places. -/
def namedChildren (s : Site) : List Site := s.children.filter (·.node.isMeaningful)

/-- The child in some role, in its place. -/
def field? (s : Site) (role : String) : Option Site := s.children.find? (·.node.role == role)

/-- The node around. -/
def parent? (s : Site) : Option Node := s.above.head?

/-- The total size of the nodes of a list of sites. -/
def weight (sites : List Site) : Nat := Node.sizeAll (sites.map (·.node))

theorem placeFrom_map_node (above before cs : List Node) :
    (placeFrom above before cs).map (·.node) = cs := by
  induction cs generalizing before with
  | nil => rfl
  | cons c cs ih => simp [placeFrom, ih]

theorem filter_map_node (l : List Site) (p : Node → Bool) :
    (l.filter fun s => p s.node).map (·.node) = (l.map (·.node)).filter p := by
  induction l with
  | nil => rfl
  | cons s l ih => simp only [List.filter_cons, List.map_cons]; split <;> simp [ih]

/-- The places of the meaningful children are those of the meaningful children. -/
theorem namedChildren_map_node (s : Site) :
    s.namedChildren.map (·.node) = s.node.namedChildren := by
  unfold namedChildren children Node.namedChildren
  rw [filter_map_node, placeFrom_map_node]

/-- Replacing the top of the stack by its children makes the stack lighter. -/
theorem weight_visit (s : Site) (stack : List Site) :
    weight (s.namedChildren ++ stack) < weight (s :: stack) := by
  have h := Node.sizeAll_filter_le Node.isMeaningful s.node.children
  simp only [weight, List.map_append, List.map_cons, Node.sizeAll_append, Node.sizeAll,
    namedChildren_map_node, Node.size_eq s.node]
  unfold Node.namedChildren
  omega

/-- Visits the sites on the stack, top first, each followed by its descendants. -/
def visit : List Site → List Site
  | [] => []
  | s :: stack => s :: visit (s.namedChildren ++ stack)
termination_by stack => weight stack
decreasing_by exact weight_visit s stack

/-- A site and its meaningful descendants, in source order. -/
def walk (s : Site) : List Site := visit [s]

/-- The sites of some kinds below `s`, itself included. -/
def findAll (s : Site) (kinds : List String) : List Site :=
  s.walk.filter fun t => kinds.contains t.node.kind

end Site

namespace Node

/-- A node and its meaningful descendants, in source order. -/
def walk (n : Node) : List Node := (Site.root n).walk.map (·.node)

/-- The nodes of some kinds below `n`, itself included. -/
def findAll (n : Node) (kinds : List String) : List Node :=
  n.walk.filter fun m => kinds.contains m.kind

/-- Does the tree hold a place the parser could not make sense of? -/
def hasErrors (n : Node) : Bool := n.walk.any (·.kind == "ERROR")

end Node

end RouteAtlas.Syntax
