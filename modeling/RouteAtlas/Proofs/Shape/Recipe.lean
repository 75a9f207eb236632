/-
  What one step of reading an expression asks for, and what it makes of the answers.

  ==== Problem ====

  Reading an expression of schema builders mixes two things: which parts and which names are read
  further down, and how their shapes are put together.  To follow the readings alone - which names are
  opened inside which, how deep they go - the two have to be taken apart.

  ==== Program ====

  1. **Recipes** - a list of requests, each for a part of the expression or for a name, and a way to
     make one shape of the answers (`Recipe`).

  2. **One step** - `recipeOf` gives the recipe for an expression, with one definition for each kind of
     expression.  What is asked for is known beforehand: no answer decides on the next request.

  3. **A reading** - with one level more, a reading is the recipe, its requests answered with one level
     less (`shapeWithin_succ`).
-/
import RouteAtlas.Shape.Builder

namespace RouteAtlas.Shape.Builder

open Syntax (Node)

/-- What a step of a reading asks for. -/
inductive Request where
  /-- The shape of a part of the expression. -/
  | part (node : Option Node)
  /-- The shape of what a name is defined as. -/
  | definition (name : String)

/-- The answer to a request, when `sub` reads parts and `expand` names. -/
def Request.answer (sub : Option Node → Shape) (expand : String → Shape) : Request → Shape
  | .part node => sub node
  | .definition name => expand name

/-- What a step asks for, one after the other, and what it makes of the answers. -/
structure Recipe where
  requests : List Request
  make : List Shape → Shape

namespace Recipe

/-- A shape that needs no answer. -/
def fixed (shape : Shape) : Recipe := ⟨[], fun _ => shape⟩

/-- The answer to one request, changed. -/
def one (request : Request) (change : Shape → Shape) : Recipe :=
  ⟨[request], fun answers => change (answers.headD text)⟩

/-- The shape that comes out when every request is answered by `answer`. -/
def shape (recipe : Recipe) (answer : Request → Shape) : Shape :=
  recipe.make (recipe.requests.map answer)

end Recipe

/-! ## The recipe for a call

Beside each function of the program there is a recipe: what the function asks of its parts, and what
it makes of the answers.  The recipes are the data that runs and bounds are read off. -/

/-- The first argument as it is, and `missing` without one. -/
def argumentRecipe (missing : Shape) (args : List Node) : Recipe :=
  if args.isEmpty then .fixed missing else .one (.part args.head?) id

/-- The recipe for a call that modifies a schema. -/
def modifierRecipe (method : Option String) (receiver : Option Node) (args : List Node)
    (onNamespace : Bool) : Recipe :=
  let target : Request := .part (if onNamespace && !args.isEmpty then args.head? else receiver)
  let picked := ((args.head?.map Node.properties).getD []).map (·.1)
  match method.getD "" with
  | "optional" => .one target (·.asOptional true)
  | "nullable" => .one target fun base => { base with nullable := true }
  | "nullish" => .one target fun base => { base with nullable := true, optional := true }
  | "default" | "catch" | "prefault" => .one (.part receiver) fun base =>
    match args.head?.bind Node.literal? with
    | some value => { base.asOptional true with sample := value }
    | none => base.asOptional true
  | "openapi" | "meta" => .one (.part receiver) (withMetadata · args)
  | "describe" => .one (.part receiver) fun base =>
    match args.head?.bind Node.stringValue? with
    | some words => { base with description := some words }
    | none => base
  | "partial" => .one (.part receiver) allOptional
  | "required" => .one (.part receiver) allRequired
  | "extend" | "merge" | "safeExtend" =>
    if args.isEmpty then .one (.part receiver) fun base => intersect [base, unknown]
    else ⟨[.part receiver, .part args.head?], intersect⟩
  | "pick" => .one (.part receiver) (·.restrict picked true)
  | "omit" => .one (.part receiver) (·.restrict picked false)
  | "element" => .one (.part receiver) fun base =>
    match base.kind, base.items with
    | .array, some items => items
    | _, _ => base
  | _ => .one (.part receiver) id

/-- The recipe for a choice among the members of an array literal. -/
def firstRecipe (arg : Option Node) : Recipe :=
  match (arg.bind Node.unwrap).filter (·.kind == "array") with
  | some list => argumentRecipe text list.namedChildren
  | none => .fixed text

/-- The recipe for a tuple, whose first item stands for all of them. -/
def tupleRecipe (arg : Option Node) : Recipe :=
  match arg.filter (·.kind == "array") with
  | some list =>
    if list.namedChildren.isEmpty then .fixed (arrayOf text)
    else .one (.part list.namedChildren.head?) arrayOf
  | none => .fixed (arrayOf text)

/-- The recipe for a call of a method. -/
def methodRecipe (definitions : Dict Node) (method : Option String) (receiver : Option Node)
    (args : List Node) : Recipe :=
  let onNamespace := (receiver.map (isNamespace (Dict.has definitions))).getD false
  let name := method.getD ""
  if name == "string" then .fixed text
  else if numberBuilders.contains name then .fixed (plain .number)
  else if name == "boolean" then .fixed (plain .boolean)
  else match Dict.get? formatBuilders name with
  | some format =>
    if onNamespace || name == "date" then .fixed (formatted format)
    else .one (.part receiver) fun base => { base with format := some format }
  | none =>
    if objectBuilders.contains name then argumentRecipe unknown args
    else if unknownBuilders.contains name && onNamespace then .fixed unknown
    else match name with
    | "literal" => .fixed (literalShape args)
    | "enum" => .fixed (enumShape definitions args.head?)
    | "nativeEnum" => .fixed (nativeEnumShape definitions args.head?)
    | "array" => .one (.part (if onNamespace || !args.isEmpty then args.head? else receiver)) arrayOf
    | "tuple" => tupleRecipe args.head?
    | "union" => firstRecipe args.head?
    | "discriminatedUnion" => firstRecipe args[1]?
    | "or" => .one (.part receiver) id
    | "and" =>
      match args with
      | [] => .fixed unknown
      | arg :: _ => ⟨[.part receiver, .part (some arg)], intersect⟩
    | "intersection" => ⟨(args.take 2).map fun a => .part (some a), intersect⟩
    | "lazy" => argumentRecipe unknown args
    | _ => modifierRecipe method receiver args onNamespace

/-- The recipe for a call. -/
def callRecipe (definitions : Dict Node) (call : Node) : Recipe :=
  match call.callee? with
  | none => .fixed text
  | some callee =>
    if callee.kind == "identifier" then
      if Dict.has definitions callee.text then .one (.definition callee.text) id else .fixed text
    else if callee.kind == "member_expression" then
      methodRecipe definitions callee.property? callee.object? call.arguments
    else .fixed text

/-! ## The recipe for an expression

The same for the other kinds of expressions, and for all of them together. -/

/-- The recipe for a member of a schema. -/
def memberRecipe (member : Node) : Recipe :=
  let name := member.property?.getD ""
  if name == "string" then .fixed text
  else if numberBuilders.contains name then .fixed (plain .number)
  else if name == "boolean" then .fixed (plain .boolean)
  else .one (.part member.object?) fun base =>
    match member.property?.bind (Dict.get? base.properties) with
    | some property => property
    | none => base

/-- The recipe for an arrow function. -/
def arrowRecipe (arrow : Node) : Recipe :=
  match arrow.inner? "body" with
  | some body =>
    if body.kind == "statement_block" then
      match body.namedChildren.find? (·.kind == "return_statement") with
      | some stmt => .one (.part stmt.firstNamed?) id
      | none => .fixed unknown
    else .one (.part (some body)) id
  | none => .one (.part none) id

/-- The recipe for an object literal: the answers for what it spreads, then those for its own
    properties. -/
def objectRecipe (object : Node) : Recipe where
  requests :=
    (object.spreads.map fun s => .part (some s)) ++ object.properties.map fun p => .part (some p.2)
  make answers :=
    ofProperties (Dict.putAll (unionOf (answers.take object.spreads.length))
      ((object.properties.map (·.1)).zip (answers.drop object.spreads.length)))

/-- The recipe for an expression without wrappers. -/
def recipeOf (definitions : Dict Node) (n : Node) : Recipe :=
  match n.kind with
  | "identifier" | "shorthand_property_identifier" => .one (.definition n.text) id
  | "object" => objectRecipe n
  | "call_expression" => callRecipe definitions n
  | "member_expression" => memberRecipe n
  | "arrow_function" => arrowRecipe n
  | _ => .fixed text

/-! ## Every step follows its recipe

One lemma for each function: its recipe, with the answers that the program finds, gives its shape. -/

section

variable (sub : Option Node → Shape) (expand : String → Shape)

/-- Reading the first argument follows its recipe. -/
theorem shape_argumentRecipe (missing : Shape) (args : List Node) :
    (argumentRecipe missing args).shape (Request.answer sub expand) =
      if args.isEmpty then missing else sub args.head? := by
  unfold argumentRecipe
  split <;> rfl

/-- Modifying a schema follows its recipe, whatever the modifier. -/
theorem shape_modifierRecipe (method : Option String) (receiver : Option Node) (args : List Node)
    (onNamespace : Bool) :
    (modifierRecipe method receiver args onNamespace).shape (Request.answer sub expand) =
      modifierShape sub method receiver args onNamespace := by
  unfold modifierRecipe modifierShape
  dsimp only
  generalize method.getD "" = name
  split
  case h_12 | h_13 | h_14 => cases args <;> rfl
  case h_18 =>
    -- the match of the step may still stand, on the names that are left
    try simp only
    rfl
  all_goals rfl

/-- Choosing the first of several alternatives follows its recipe. -/
theorem shape_firstRecipe (arg : Option Node) :
    (firstRecipe arg).shape (Request.answer sub expand) = firstMember sub arg := by
  unfold firstRecipe firstMember
  generalize (arg.bind Node.unwrap).filter (·.kind == "array") = list
  cases list with
  | none => rfl
  | some list => exact shape_argumentRecipe sub expand text list.namedChildren

/-- A tuple follows its recipe. -/
theorem shape_tupleRecipe (arg : Option Node) :
    (tupleRecipe arg).shape (Request.answer sub expand) =
      match arg.filter (·.kind == "array") with
      | some list =>
        arrayOf (if list.namedChildren.isEmpty then text else sub list.namedChildren.head?)
      | none => arrayOf text := by
  unfold tupleRecipe
  generalize arg.filter (·.kind == "array") = list
  cases list with
  | none => rfl
  | some list =>
    dsimp only
    split <;> rfl

/-- **A call of a method follows its recipe.**  Both run through the same tests in the same order. -/
theorem shape_methodRecipe (definitions : Dict Node) (method : Option String)
    (receiver : Option Node) (args : List Node) :
    (methodRecipe definitions method receiver args).shape (Request.answer sub expand) =
      methodShape definitions sub method receiver args := by
  have hmodifier := shape_modifierRecipe sub expand method receiver args
  unfold methodRecipe methodShape
  dsimp only
  generalize (receiver.map (isNamespace (Dict.has definitions))).getD false = onNamespace
  generalize method.getD "" = name
  split
  · rfl
  split
  · rfl
  split
  · rfl
  -- primitive types are behind us; next come texts of a format
  cases Dict.get? formatBuilders name with
  | some format =>
    dsimp only
    split <;> rfl
  | none =>
    dsimp only
    split
    · exact shape_argumentRecipe sub expand unknown args
    split
    · rfl
    split
    case h_4 => split <;> rfl
    case h_5 => exact shape_tupleRecipe sub expand args.head?
    case h_6 => exact shape_firstRecipe sub expand args.head?
    case h_7 => exact shape_firstRecipe sub expand args[1]?
    case h_9 => cases args <;> rfl
    case h_10 =>
      simp only [Recipe.shape, List.map_map]
      rfl
    case h_11 => exact shape_argumentRecipe sub expand unknown args
    -- any other method modifies what it is called on
    case h_12 =>
      try simp only
      exact hmodifier onNamespace
    all_goals rfl

/-- Any call follows its recipe. -/
theorem shape_callRecipe (definitions : Dict Node) (call : Node) :
    (callRecipe definitions call).shape (Request.answer sub expand) =
      callShape definitions sub expand call := by
  unfold callRecipe callShape
  cases call.callee? with
  | none => rfl
  | some callee =>
    dsimp only
    split
    · split <;> rfl
    split
    · exact shape_methodRecipe sub expand definitions _ _ _
    · rfl

/-- A property access follows its recipe. -/
theorem shape_memberRecipe (member : Node) :
    (memberRecipe member).shape (Request.answer sub expand) = memberShape sub member := by
  unfold memberRecipe memberShape
  dsimp only
  split
  · rfl
  split
  · rfl
  split <;> rfl

/-- An arrow function follows its recipe. -/
theorem shape_arrowRecipe (arrow : Node) :
    (arrowRecipe arrow).shape (Request.answer sub expand) = arrowShape sub arrow := by
  unfold arrowRecipe arrowShape
  cases arrow.inner? "body" with
  | none => rfl
  | some body =>
    dsimp only
    split
    · cases body.namedChildren.find? (·.kind == "return_statement") <;> rfl
    · rfl

/-- An object literal follows its recipe. -/
theorem shape_objectRecipe (object : Node) :
    (objectRecipe object).shape (Request.answer sub expand) = literalObjectShape sub object := by
  have hspread : (object.spreads.map fun s => Request.part (some s)).map (Request.answer sub expand) =
      object.spreads.map fun s => sub (some s) := by
    rw [List.map_map]
    rfl
  have hown : (object.properties.map fun p => Request.part (some p.2)).map (Request.answer sub expand) =
      object.properties.map fun p => sub (some p.2) := by
    rw [List.map_map]
    rfl
  have hlength : object.spreads.length = (object.spreads.map fun s => sub (some s)).length :=
    (List.length_map ..).symm
  show ofProperties (Dict.putAll (unionOf (List.take _ (List.map _ (_ ++ _))))
    (List.zip _ (List.drop _ (List.map _ (_ ++ _))))) = _
  rw [List.map_append, hspread, hown, hlength, List.take_left, List.drop_left, List.zip_map']
  rfl

/-- An expression without wrappers follows its recipe, by its kind. -/
theorem shape_recipeOf (definitions : Dict Node) (n : Node) :
    (recipeOf definitions n).shape (Request.answer sub expand) =
      match n.kind with
      | "identifier" | "shorthand_property_identifier" => expand n.text
      | "object" => literalObjectShape sub n
      | "call_expression" => callShape definitions sub expand n
      | "member_expression" => memberShape sub n
      | "arrow_function" => arrowShape sub n
      | _ => text := by
  unfold recipeOf
  generalize n.kind = kind
  split
  case h_3 => exact shape_objectRecipe ..
  case h_4 => exact shape_callRecipe ..
  case h_5 => exact shape_memberRecipe ..
  case h_6 => exact shape_arrowRecipe ..
  all_goals rfl

end

/-- The shape of what a name is defined as, unless that is being read. -/
def expandWithin (definitions : Dict Node) (levels : Nat) (busy : List String) (name : String) :
    Shape :=
  match Dict.get? definitions name with
  | some target =>
    if busy.contains name then unknown
    else shapeWithin definitions levels (name :: busy) (some target)
  | none => unknown

/-- The answer to a request with so many levels left. -/
def answerWithin (definitions : Dict Node) (levels : Nat) (busy : List String) : Request → Shape :=
  Request.answer (shapeWithin definitions levels busy) (expandWithin definitions levels busy)

/-- **Every step follows its recipe**: with one level more, an expression has the shape that its recipe
    makes of the answers with one level less. -/
theorem shapeWithin_succ (definitions : Dict Node) (levels : Nat) (busy : List String)
    (node : Option Node) :
    shapeWithin definitions (levels + 1) busy node =
      match node.bind Node.unwrap with
      | none => text
      | some n => (recipeOf definitions n).shape (answerWithin definitions levels busy) := by
  rw [shapeWithin]
  cases node.bind Node.unwrap with
  | none => rfl
  | some n => exact (shape_recipeOf _ (expandWithin definitions levels busy) definitions n).symm

end RouteAtlas.Shape.Builder
