/-
  Type expressions of TypeScript, as far as shapes go.

  A `TypeExpr` keeps of a type what decides the shape of its values and drops the rest: names to be
  looked up, arrays, objects, `Partial`, `Pick` and `Omit`, unions and intersections.  Whatever has
  its shape written on it is `fixed`.

  A union is represented by its first member, marked nullable when `null`, `undefined` or `void` is
  among the members, unless all its members are literals: then it is a choice.  `unionMembers` lists
  the members of nested unions in source order, seeing through parentheses, with an explicit stack.
-/
import RouteAtlas.Shape.Basic
import RouteAtlas.Syntax.Literal
import RouteAtlas.Text.Rule

namespace RouteAtlas.Shape

open Syntax (Node)

/-- The kinds of primitive by the name of their type. -/
def primitives : Dict Kind :=
  [("string", .string), ("String", .string), ("number", .number), ("Number", .number),
   ("bigint", .number), ("boolean", .boolean), ("Boolean", .boolean)]

/-- A type expression. -/
inductive TypeExpr where
  /-- No type is written. -/
  | absent
  /-- The shape is known from the text alone. -/
  | fixed (shape : Shape)
  | named (name : String)
  | array (item : TypeExpr)
  /-- The properties of `base`, all optional. -/
  | partially (base : TypeExpr)
  /-- The properties of `base` whose names are in `names`, or those whose names are not. -/
  | restricted (base : TypeExpr) (names : List String) (keep : Bool)
  /-- The first member of a union. -/
  | variant (nullable : Bool) (first : TypeExpr)
  /-- An intersection. -/
  | every (parts : List TypeExpr)
  /-- An object: each property's name, whether it is optional, and its type. -/
  | record (members : List (String × Bool × TypeExpr))
  deriving Inhabited

namespace TypeExpr

/-! ## Unions -/

set_option linter.unusedVariables false in
/-- The union members on a stack of types, top first. -/
def flattenFrom : List Node → List Node
  | [] => []
  | n :: stack =>
    if n.kind == "union_type" then flattenFrom (n.namedChildren ++ stack)
    else if n.kind == "parenthesized_type" then
      match h : n.firstNamed? with
      | some c => flattenFrom (c :: stack)
      | none => n :: flattenFrom stack
    else n :: flattenFrom stack
termination_by stack => Node.sizeAll stack
decreasing_by
  · have := Node.sizeAll_filter_le Node.isMeaningful n.children
    simp only [Node.sizeAll_append, Node.sizeAll, Node.size_eq n, Node.namedChildren]
    omega
  · have := Node.size_lt_of_firstNamed? h
    simp only [Node.sizeAll]
    omega
  · have := Node.size_pos n
    simp only [Node.sizeAll]
    omega
  · have := Node.size_pos n
    simp only [Node.sizeAll]
    omega

/-- The members of a union, those of unions inside it included. -/
def unionMembers (n : Node) : List Node := flattenFrom [n]

/-- What comes off the stack is no larger than the stack. -/
theorem size_le_of_mem_flattenFrom {m : Node} {stack : List Node} (h : m ∈ flattenFrom stack) :
    m.size ≤ Node.sizeAll stack := by
  fun_induction flattenFrom stack with
  | case1 => cases h
  | case2 n stack hn ih =>
    have := Node.sizeAll_filter_le Node.isMeaningful n.children
    have := ih h
    simp only [Node.sizeAll_append, Node.namedChildren] at this
    simp only [Node.sizeAll, Node.size_eq n]
    omega
  | case3 n stack _ _ c hc ih =>
    have := Node.size_lt_of_firstNamed? hc
    have := ih h
    simp only [Node.sizeAll] at *
    omega
  | case4 n stack _ _ _ ih =>
    simp only [Node.sizeAll]
    rcases List.mem_cons.1 h with rfl | h
    · omega
    · have := ih h; omega
  | case5 n stack _ _ ih =>
    simp only [Node.sizeAll]
    rcases List.mem_cons.1 h with rfl | h
    · omega
    · have := ih h; omega

/-- The members of a union are smaller than the union. -/
theorem size_lt_of_mem_unionMembers {m n : Node} (hn : (n.kind == "union_type") = true)
    (h : m ∈ unionMembers n) : m.size < n.size := by
  unfold unionMembers at h
  rw [flattenFrom, if_pos hn] at h
  have := size_le_of_mem_flattenFrom h
  have := Node.sizeAll_filter_le Node.isMeaningful n.children
  simp only [List.append_nil, Node.namedChildren] at *
  rw [Node.size_eq n]
  omega

/-- The value of a literal type. -/
def literalTypeValue? (n : Node) : Option Json :=
  match n.firstNamed? with
  | some inner => inner.literal?
  | none =>
    match n.text with
    | "true" => some (.bool true)
    | "false" => some (.bool false)
    | "null" => some .null
    | _ => none

set_option linter.unusedVariables false in
/-- The type behind the colon of an annotated name. -/
def unannotated (n : Node) : Option Node :=
  if ["type_annotation", "opting_type_annotation"].contains n.kind then
    match h : n.firstNamed? with
    | some c => unannotated c
    | none => none
  else some n
termination_by n.size
decreasing_by exact Node.size_lt_of_firstNamed? h

theorem size_le_of_unannotated {m n : Node} (h : unannotated n = some m) : m.size ≤ n.size := by
  fun_induction unannotated n with
  | case1 n _ c hc ih =>
    have := Node.size_lt_of_firstNamed? hc
    have := ih h
    omega
  | case2 => cases h
  | case3 => cases h; exact Nat.le_refl _

/-- The texts among the literals of a union, or of a single literal type. -/
def unionTexts (n : Node) : List String :=
  match unannotated n with
  | none => []
  | some n =>
    let members := if n.kind == "union_type" then unionMembers n else [n]
    ((members.filter (·.kind == "literal_type")).filterMap literalTypeValue?).filterMap Json.string?

/-- The members that say no more than that a value may be missing. -/
def isNothing (n : Node) : Bool := ["null", "undefined", "void"].contains n.text

/-- The choice among literal members, when there is one. -/
def choiceOfLiterals? (nullable : Bool) (kept : List Node) : Option Shape :=
  if kept.all (·.kind == "literal_type") then
    match kept.filterMap literalTypeValue? with
    | [] => none
    | values => some { choiceOf values with nullable := nullable }
  else none

/-! ## Reading a type -/

/-- The last of the names that points join. -/
def lastName (text : String) : String := Text.afterLast '.' text

/-- The shape of a type that is named by a keyword. -/
def keywordShape (text : String) : Shape :=
  match Dict.get? primitives text with
  | some kind => plain kind
  | none => unknown

/-- The shape of a literal type. -/
def literalTypeShape (n : Node) : Shape :=
  match literalTypeValue? n with
  | none | some .null => Shape.text
  | some value => choiceOf [value]

/-- Generic types whose values are those of their first argument. -/
def transparentGenerics : List String :=
  ["Promise", "Observable", "Readonly", "Required", "NonNullable", "Awaited"]

/-- The generic type's name and arguments. -/
def genericParts (n : Node) : String × List Node :=
  (((n.field? "name").map fun m => lastName m.text).getD "",
   ((n.field? "type_arguments").map Node.namedChildren).getD [])

theorem size_lt_of_mem_genericParts {a n : Node} (h : a ∈ (genericParts n).2) : a.size < n.size := by
  unfold genericParts at h
  cases hf : n.field? "type_arguments" with
  | none => simp [hf] at h
  | some args =>
    simp only [hf, Option.map_some, Option.getD_some, Node.namedChildren] at h
    have := Node.size_lt_of_field? hf
    have := Node.size_lt_of_mem (List.mem_filter.1 h).1
    omega

/-- The property signatures of an object type: name, optional or not, and the node of the type. -/
def signatures (members : List Node) : List (String × Bool × Option Node) :=
  members.filterMap fun m =>
    if m.kind == "property_signature" then
      m.propertyKey?.map fun name => (name, m.hasToken "?", m.field? "type")
    else none

theorem size_lt_of_mem_signatures {members : List Node} {name : String} {opt : Bool} {t : Node}
    (h : (name, opt, some t) ∈ signatures members) : ∃ m ∈ members, t.size < m.size := by
  unfold signatures at h
  obtain ⟨m, hm, h⟩ := List.mem_filterMap.1 h
  refine ⟨m, hm, ?_⟩
  split at h
  · obtain ⟨key, _, hk⟩ := Option.map_eq_some_iff.1 h
    have ht : m.field? "type" = some t := congrArg (fun p => p.2.2) hk
    exact Node.size_lt_of_field? ht
  · cases h

set_option linter.unusedVariables false in
/-- Reads a type. -/
def ofNode (node : Node) : TypeExpr :=
  match hu : unannotated node with
  | none => .absent
  | some n =>
    if n.kind == "predefined_type" then .fixed (keywordShape n.text)
    else if n.kind == "type_identifier" then .named n.text
    else if n.kind == "nested_type_identifier" then .named (lastName n.text)
    else if n.kind == "generic_type" then
      let name := (genericParts n).1
      match ha : (genericParts n).2 with
      | [] =>
        if ["Array", "ReadonlyArray", "Set"].contains name then .array .absent
        else if transparentGenerics.contains name || name == "Partial" then .fixed unknown
        else if ["Record", "Map"].contains name then .fixed unknown
        else .named name
      | first :: rest =>
        if ["Array", "ReadonlyArray", "Set"].contains name then .array (ofNode first)
        else if transparentGenerics.contains name then ofNode first
        else if name == "Partial" then .partially (ofNode first)
        else match rest with
        | keys :: _ =>
          if name == "Pick" then .restricted (ofNode first) (unionTexts keys) true
          else if name == "Omit" then .restricted (ofNode first) (unionTexts keys) false
          else if ["Record", "Map"].contains name then .fixed unknown
          else .named name
        | [] => if ["Record", "Map"].contains name then .fixed unknown else .named name
    else if n.kind == "readonly_type" || n.kind == "parenthesized_type" then
      match hf : n.firstNamed? with
      | some inner => ofNode inner
      | none => .fixed unknown
    else if n.kind == "array_type" then
      match hf : n.firstNamed? with
      | some inner => .array (ofNode inner)
      | none => .array .absent
    else if n.kind == "tuple_type" then
      match hf : n.firstNamed? with
      | some inner => .array (ofNode inner)
      | none => .fixed (arrayOf Shape.text)
    else if hk : (n.kind == "union_type") = true then
      let members := unionMembers n
      let nullable := members.any isNothing
      match hm : members.filter (fun m => !isNothing m) with
      | [] => .fixed unknown
      | first :: rest =>
        match choiceOfLiterals? nullable (first :: rest) with
        | some shape => .fixed shape
        | none => .variant nullable (ofNode first)
    else if n.kind == "intersection_type" then
      .every (n.namedChildren.attach.map fun ⟨c, _⟩ => ofNode c)
    else if n.kind == "literal_type" then .fixed (literalTypeShape n)
    else if n.kind == "object_type" || n.kind == "interface_body" then
      .record ((signatures n.namedChildren).attach.map fun
        | ⟨(name, opt, some t), _⟩ => (name, opt, ofNode t)
        | ⟨(name, opt, none), _⟩ => (name, opt, .absent))
    else .fixed unknown
termination_by node.size
decreasing_by
  all_goals have hle := size_le_of_unannotated hu
  · have := size_lt_of_mem_genericParts (n := n) (a := first) (by rw [ha]; simp); omega
  · have := size_lt_of_mem_genericParts (n := n) (a := first) (by rw [ha]; simp); omega
  · have := size_lt_of_mem_genericParts (n := n) (a := first) (by rw [ha]; simp); omega
  · have := size_lt_of_mem_genericParts (n := n) (a := first) (by rw [ha]; simp); omega
  · have := size_lt_of_mem_genericParts (n := n) (a := first) (by rw [ha]; simp); omega
  · have := Node.size_lt_of_firstNamed? hf; omega
  · have := Node.size_lt_of_firstNamed? hf; omega
  · have := Node.size_lt_of_firstNamed? hf; omega
  · have hmem : first ∈ unionMembers n := by
      have : first ∈ (unionMembers n).filter (fun m => !isNothing m) := by rw [hm]; simp
      exact (List.mem_filter.1 this).1
    have := size_lt_of_mem_unionMembers hk hmem; omega
  · rename_i hc
    have := Node.size_lt_of_mem (List.mem_filter.1 hc).1; omega
  · rename_i hs
    obtain ⟨m, hm, ht⟩ := size_lt_of_mem_signatures hs
    have := Node.size_lt_of_mem (List.mem_filter.1 hm).1
    omega

/-- Reads a type that may not be written. -/
def ofNode? (node : Option Node) : TypeExpr := (node.map ofNode).getD .absent

/-- The members of an object type, given as nodes. -/
def membersOf (members : List Node) : List (String × Bool × TypeExpr) :=
  (signatures members).map fun (name, opt, type) => (name, opt, ofNode? type)

end TypeExpr

end RouteAtlas.Shape
