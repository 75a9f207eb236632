/-
  Concrete syntax trees.

  A tree is given by a grammar's parser and keeps everything it saw: named nodes for the rules of
  the grammar, anonymous ones for its tokens, comments wherever they stand.  A node knows the text it
  spans, and its role (the field it fills) in the node around it.

  Nothing here fails on a shape that was not expected: a missing role or child is `none` or an
  empty list, so code that cannot be understood yields less and never stops anything.

  The children that matter are the named ones other than comments.  `unwrap` sees through the
  wrappers that do not change which value an expression denotes: parentheses, casts, the
  non-null mark and `await`.
-/

namespace RouteAtlas.Syntax

/-- A node of a concrete syntax tree. -/
structure Node where
  /-- The grammar rule, or the token of an anonymous node. -/
  kind : String
  named : Bool
  /-- First code point of the span. -/
  start : Nat
  /-- First code point behind the span. -/
  stop : Nat
  /-- The field this node fills in its parent, empty for none. -/
  role : String
  text : String
  children : List Node
  deriving Inhabited

namespace Node

/-- A child that carries meaning: named, and not a comment. -/
def isMeaningful (n : Node) : Bool := n.named && n.kind != "comment"

/-- The meaningful children in order. -/
def namedChildren (n : Node) : List Node := n.children.filter isMeaningful

/-- The first meaningful child. -/
def firstNamed? (n : Node) : Option Node := n.children.find? isMeaningful

/-- The children of some kinds, comments and tokens included. -/
def childrenOfKind (n : Node) (kinds : List String) : List Node :=
  n.children.filter fun c => kinds.contains c.kind

/-- Is there an anonymous child with this text? -/
def hasToken (n : Node) (token : String) : Bool :=
  n.children.any fun c => !c.named && c.text == token

/-- The child in some role: the first one that fills it. -/
def field? (n : Node) (role : String) : Option Node := n.children.find? (·.role == role)

/-- The span and kind of a node tell it from any other of its file. -/
def sameAs (a b : Node) : Bool := a.start == b.start && a.stop == b.stop && a.kind == b.kind

/-! ## Size, the measure for recursion along a tree -/

mutual
/-- The number of nodes of a tree. -/
def size : Node → Nat
  | ⟨_, _, _, _, _, _, children⟩ => sizeAll children + 1
/-- The number of nodes of a forest. -/
def sizeAll : List Node → Nat
  | [] => 0
  | c :: cs => size c + sizeAll cs
end

theorem size_eq (n : Node) : n.size = sizeAll n.children + 1 := by
  cases n; simp [size]

theorem size_pos (n : Node) : 0 < n.size := by rw [size_eq]; omega

theorem sizeAll_append (l r : List Node) : sizeAll (l ++ r) = sizeAll l + sizeAll r := by
  induction l with
  | nil => simp [sizeAll]
  | cons c cs ih => simp only [List.cons_append, sizeAll, ih]; omega

theorem sizeAll_filter_le (p : Node → Bool) (l : List Node) : sizeAll (l.filter p) ≤ sizeAll l := by
  induction l with
  | nil => simp [sizeAll]
  | cons c cs ih =>
    simp only [List.filter_cons]
    split <;> simp only [sizeAll] <;> omega

theorem size_le_sizeAll {c : Node} {l : List Node} (h : c ∈ l) : c.size ≤ sizeAll l := by
  induction l with
  | nil => cases h
  | cons d ds ih =>
    simp only [sizeAll]
    rcases List.mem_cons.1 h with rfl | h
    · omega
    · have := ih h; omega

/-- A child is smaller than its parent. -/
theorem size_lt_of_mem {c n : Node} (h : c ∈ n.children) : c.size < n.size := by
  have := size_le_sizeAll h
  rw [size_eq n]; omega

theorem size_lt_of_field? {c n : Node} {role : String} (h : n.field? role = some c) :
    c.size < n.size := size_lt_of_mem (List.mem_of_find?_eq_some h)

theorem size_lt_of_firstNamed? {c n : Node} (h : n.firstNamed? = some c) : c.size < n.size :=
  size_lt_of_mem (List.mem_of_find?_eq_some h)

/-! ## Wrappers -/

/-- The kinds of expression that denote the same value as the expression inside. -/
def isWrapperKind (kind : String) : Bool :=
  ["parenthesized_expression", "as_expression", "satisfies_expression", "non_null_expression",
   "await_expression", "type_assertion"].contains kind

mutual
/-- The expression inside all wrappers; none when a wrapper is empty. -/
def unwrap : Node → Option Node
  | ⟨kind, named, start, stop, role, text, children⟩ =>
    if isWrapperKind kind then unwrapFirst children
    else some ⟨kind, named, start, stop, role, text, children⟩
/-- The first meaningful child, unwrapped. -/
def unwrapFirst : List Node → Option Node
  | [] => none
  | c :: cs => if c.isMeaningful then unwrap c else unwrapFirst cs
end

theorem unwrapFirst_eq (l : List Node) : unwrapFirst l = (l.find? isMeaningful).bind unwrap := by
  induction l with
  | nil => simp [unwrapFirst]
  | cons c cs ih =>
    simp only [unwrapFirst, List.find?_cons]
    cases c.isMeaningful <;> simp [ih]

/-- Unwrapping peels one wrapper after another. -/
theorem unwrap_eq (n : Node) :
    n.unwrap = if isWrapperKind n.kind then n.firstNamed?.bind unwrap else some n := by
  cases n with
  | mk kind named start stop role text children =>
    simp only [unwrap, unwrapFirst_eq, firstNamed?]

/-- What is left after unwrapping is no larger. -/
theorem size_le_of_unwrap {n m : Node} (h : n.unwrap = some m) : m.size ≤ n.size := by
  rw [unwrap_eq] at h
  split at h
  · obtain ⟨c, hc, hm⟩ := Option.bind_eq_some_iff.1 h
    have := size_lt_of_firstNamed? hc
    have := size_le_of_unwrap hm
    omega
  · cases h; exact Nat.le_refl _
termination_by n.size

/-- The unwrapped child in some role. -/
def inner? (n : Node) (role : String) : Option Node := (n.field? role).bind unwrap

theorem size_lt_of_inner? {n m : Node} {role : String} (h : n.inner? role = some m) :
    m.size < n.size := by
  obtain ⟨c, hc, hm⟩ := Option.bind_eq_some_iff.1 h
  have := size_lt_of_field? hc
  have := size_le_of_unwrap hm
  omega

end Node

end RouteAtlas.Syntax
