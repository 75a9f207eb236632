/-
  Reading schema expressions, step by step.

  ==== Problem ====

  The recursion of a reading leaves the syntax tree whenever a name is looked up, so no measure of the
  tree bounds it, and definitions may refer to themselves and to each other.  What stops it is kept
  beside the tree: how deep the reading is, and which names are in progress.  The names in progress are
  one set that every step shares, changed when a name is opened and changed back when it is done.

  ==== Program ====

  1. **Runs** - `Runs` relates requests, read one after the other from a depth on, to the shapes that
     come out, the names that were opened, inside which others, and the names in progress before and
     after.  It says what each step does to that set, and nothing of what the set is in the end.

  2. **Existence and uniqueness** - `runs_iff`: there is one run for any requests, its shapes are those
     of `shapeWithin`, and after it the same names are in progress as before.

  3. **Expansions** - a name is opened only if it is not in progress, so it is not opened inside
     itself (`unrepeated_expansionsWithin`).

  4. **Together** - that run, with the levels of its shapes (`levels_at_depth`).

  ==== The crux ====

  A run may be read off its end, because every request inside it leaves the names in progress as they
  were: `middle` in the rules below is what was before, and closing a name takes out the one that
  opening it put in.
-/
import RouteAtlas.Proofs.Shape.Level
import RouteAtlas.Proofs.Syntax.Walk

namespace RouteAtlas.Shape.Builder

open Syntax (Node)

/-- The depth of the deepest step, the first one being at depth 0. -/
def maxDepth : Nat := 12

/-! ## Expansions

Which names are opened, and inside which others.  An expansion is a tree, computed beside the shape
by the same recursion on the levels that are left. -/

/-- A name that was opened, with those opened while its definition was read. -/
inductive Expansion where
  | of (name : String) (inside : List Expansion)

mutual
/-- The names opened in an expansion, its own one first. -/
def Expansion.names : Expansion → List String
  | .of name inside => name :: namesOf inside
/-- The names opened in several expansions. -/
def namesOf : List Expansion → List String
  | [] => []
  | expansion :: rest => expansion.names ++ namesOf rest
end

/-- No name was opened inside its own expansion. -/
inductive Expansion.Unrepeated : Expansion → Prop
  | intro {name : String} {inside : List Expansion} (fresh : name ∉ namesOf inside)
      (all : ∀ expansion ∈ inside, expansion.Unrepeated) : (Expansion.of name inside).Unrepeated

/-- A name is among those of several expansions if it is in one of them. -/
theorem mem_namesOf {expansions : List Expansion} {name : String} :
    name ∈ namesOf expansions ↔ ∃ expansion ∈ expansions, name ∈ expansion.names := by
  induction expansions with
  | nil => simp [namesOf]
  | cons expansion rest ih => simp [namesOf, ih]

/-- What a request opens, with so many levels left. -/
def Request.expansions (definitions : Dict Node) (busy : List String)
    (within : List String → Option Node → List Expansion) : Request → List Expansion
  | .part node => within busy node
  | .definition name =>
    match Dict.get? definitions name with
    | some target =>
      if busy.contains name then [] else [.of name (within (name :: busy) (some target))]
    | none => []

/-- What the reading of an expression opens. -/
def expansionsWithin (definitions : Dict Node) :
    (levels : Nat) → (busy : List String) → Option Node → List Expansion
  | 0, _, _ => []
  | levels + 1, busy, node =>
    match node.bind Node.unwrap with
    | none => []
    | some n => (recipeOf definitions n).requests.flatMap
        (Request.expansions definitions busy (expansionsWithin definitions levels))

/-- What a request opens with so many levels left. -/
def openedWithin (definitions : Dict Node) (levels : Nat) (busy : List String) :
    Request → List Expansion :=
  Request.expansions definitions busy (expansionsWithin definitions levels)

/-- A name that is in progress is not opened, nor is one without a definition.  The names in
    progress only grow on the way down, so what is opened further below was not in progress here. -/
theorem not_busy_of_opened {definitions : Dict Node} {levels : Nat} {busy : List String}
    {node : Option Node} {name : String}
    (h : name ∈ namesOf (expansionsWithin definitions levels busy node)) : name ∉ busy := by
  induction levels generalizing busy node with
  | zero => exact absurd h List.not_mem_nil
  | succ levels ih =>
    rw [expansionsWithin] at h
    split at h
    · exact absurd h List.not_mem_nil
    obtain ⟨expansion, hexpansion, hname⟩ := mem_namesOf.mp h
    obtain ⟨request, -, hopened⟩ := List.mem_flatMap.mp hexpansion
    cases request with
    | part node => exact ih (mem_namesOf.mpr ⟨expansion, hopened, hname⟩)
    | definition opened =>
      unfold Request.expansions at hopened
      dsimp only at hopened
      split at hopened
      · split at hopened
        · exact absurd hopened List.not_mem_nil
        · rename_i hbusy
          obtain rfl := List.mem_singleton.mp hopened
          rw [Expansion.names] at hname
          rcases List.mem_cons.mp hname with rfl | hinside
          · exact fun hmem => hbusy (List.contains_iff_mem.mpr hmem)
          · exact fun hmem => ih hinside (List.mem_cons_of_mem _ hmem)
      · exact absurd hopened List.not_mem_nil

/-- **No name is opened inside its own expansion.** A name is in progress as long as its definition
    is read, and a name in progress is not opened. -/
theorem unrepeated_expansionsWithin {definitions : Dict Node} {levels : Nat} {busy : List String}
    {node : Option Node} {expansion : Expansion}
    (h : expansion ∈ expansionsWithin definitions levels busy node) : expansion.Unrepeated := by
  induction levels generalizing busy node expansion with
  | zero => exact absurd h List.not_mem_nil
  | succ levels ih =>
    rw [expansionsWithin] at h
    split at h
    · exact absurd h List.not_mem_nil
    obtain ⟨request, -, hopened⟩ := List.mem_flatMap.mp h
    cases request with
    | part node => exact ih hopened
    | definition name =>
      unfold Request.expansions at hopened
      dsimp only at hopened
      split at hopened
      · split at hopened
        · exact absurd hopened List.not_mem_nil
        · obtain rfl := List.mem_singleton.mp hopened
          refine .intro ?_ fun inner hinner => ih hinner
          -- the name is in progress while its definition is read
          intro hagain
          exact not_busy_of_opened hagain List.mem_cons_self
      · exact absurd hopened List.not_mem_nil

/-! ## Runs

A run answers requests one after the other and threads the names in progress through, as the program
does with its one set of them.  It is told as a relation, so that nothing about it depends on how
far down it goes. -/

/-- `Runs definitions depth requests busy shapes expansions after`: with the names of `busy` in
    progress, the requests are answered at `depth`, one after the other, with these shapes; they open
    these names, and leave those of `after` in progress. -/
inductive Runs (definitions : Dict Node) : (depth : Nat) → (requests : List Request) →
    (busy : List String) → (shapes : List Shape) → (expansions : List Expansion) →
    (after : List String) → Prop
  | done {depth : Nat} {busy : List String} : Runs definitions depth [] busy [] [] busy
  /-- At the end of the levels everything is a text. -/
  | tooDeep {depth : Nat} {node : Option Node} {requests : List Request} {busy after : List String}
      {shapes : List Shape} {expansions : List Expansion}
      (hdepth : maxDepth < depth)
      (rest : Runs definitions depth requests busy shapes expansions after) :
      Runs definitions depth (.part node :: requests) busy (text :: shapes) expansions after
  /-- So is a part that is not there. -/
  | nothing {depth : Nat} {node : Option Node} {requests : List Request} {busy after : List String}
      {shapes : List Shape} {expansions : List Expansion}
      (hnode : node.bind Node.unwrap = none)
      (rest : Runs definitions depth requests busy shapes expansions after) :
      Runs definitions depth (.part node :: requests) busy (text :: shapes) expansions after
  /-- A part is read by the requests of its recipe, one level further down. -/
  | step {depth : Nat} {node : Option Node} {n : Node} {requests : List Request}
      {busy middle after : List String} {answers shapes : List Shape}
      {inner expansions : List Expansion}
      (hdepth : depth ≤ maxDepth) (hnode : node.bind Node.unwrap = some n)
      (inside : Runs definitions (depth + 1) (recipeOf definitions n).requests busy answers inner
        middle)
      (rest : Runs definitions depth requests middle shapes expansions after) :
      Runs definitions depth (.part node :: requests) busy
        ((recipeOf definitions n).make answers :: shapes) (inner ++ expansions) after
  /-- Nothing is known of a name without a definition. -/
  | missing {depth : Nat} {name : String} {requests : List Request} {busy after : List String}
      {shapes : List Shape} {expansions : List Expansion}
      (hname : Dict.get? definitions name = none)
      (rest : Runs definitions depth requests busy shapes expansions after) :
      Runs definitions depth (.definition name :: requests) busy (unknown :: shapes) expansions after
  /-- Nor of one that is in progress. -/
  | again {depth : Nat} {name : String} {requests : List Request} {busy after : List String}
      {shapes : List Shape} {expansions : List Expansion}
      (hbusy : name ∈ busy)
      (rest : Runs definitions depth requests busy shapes expansions after) :
      Runs definitions depth (.definition name :: requests) busy (unknown :: shapes) expansions after
  /-- Any other name is opened, its definition read, and the name closed again. -/
  | opened {depth : Nat} {name : String} {target : Node} {requests : List Request}
      {busy middle after : List String} {shape : Shape} {shapes : List Shape}
      {inner expansions : List Expansion}
      (hname : Dict.get? definitions name = some target) (hbusy : name ∉ busy)
      (inside : Runs definitions depth [.part (some target)] (name :: busy) [shape] inner middle)
      (rest : Runs definitions depth requests (middle.erase name) shapes expansions after) :
      Runs definitions depth (.definition name :: requests) busy (shape :: shapes)
        (.of name inner :: expansions) after

section

variable {definitions : Dict Node} {depth : Nat} {busy : List String}

/-- The levels that are left at a depth. -/
def levelsAt (depth : Nat) : Nat := maxLevels - depth

/-- Below the deepest step no level is left. -/
theorem levelsAt_of_tooDeep (h : maxDepth < depth) : levelsAt depth = 0 := by
  unfold levelsAt maxLevels
  unfold maxDepth at h
  omega

/-- Above it there is one level more than one step further down. -/
theorem levelsAt_of_le (h : depth ≤ maxDepth) : levelsAt depth = levelsAt (depth + 1) + 1 := by
  unfold levelsAt maxLevels
  unfold maxDepth at h
  omega

/-- A request is answered by a shape and opens some names. -/
structure Answers (definitions : Dict Node) (levels : Nat) (busy : List String) (request : Request)
    (shape : Shape) (inner : List Expansion) : Prop where
  shape : answerWithin definitions levels busy request = shape
  opened : openedWithin definitions levels busy request = inner

/-- Too deep down, a part is a text, whatever it is. -/
theorem answers_tooDeep (hdepth : maxDepth < depth) (node : Option Node) :
    Answers definitions (levelsAt depth) busy (.part node) text [] := by
  rw [levelsAt_of_tooDeep hdepth]
  exact ⟨rfl, rfl⟩

/-- A part that is not there is a text, at any depth. -/
theorem answers_nothing {node : Option Node} (hnode : node.bind Node.unwrap = none) (levels : Nat) :
    Answers definitions levels busy (.part node) text [] := by
  cases levels with
  | zero => exact ⟨rfl, rfl⟩
  | succ levels =>
    refine ⟨?_, ?_⟩
    · show shapeWithin definitions (levels + 1) busy node = text
      rw [shapeWithin_succ, hnode]
    · show expansionsWithin definitions (levels + 1) busy node = []
      rw [expansionsWithin, hnode]

/-- A part that is there is what its recipe makes of the answers one level further down. -/
theorem answers_part {node : Option Node} {n : Node} (hnode : node.bind Node.unwrap = some n)
    (hdepth : depth ≤ maxDepth) :
    Answers definitions (levelsAt depth) busy (.part node)
      ((recipeOf definitions n).make ((recipeOf definitions n).requests.map
        (answerWithin definitions (levelsAt (depth + 1)) busy)))
      ((recipeOf definitions n).requests.flatMap
        (openedWithin definitions (levelsAt (depth + 1)) busy)) := by
  rw [levelsAt_of_le hdepth]
  refine ⟨?_, ?_⟩
  · show shapeWithin definitions (levelsAt (depth + 1) + 1) busy node = _
    rw [shapeWithin_succ, hnode]
    rfl
  · show expansionsWithin definitions (levelsAt (depth + 1) + 1) busy node = _
    rw [expansionsWithin, hnode]
    rfl

/-- A name without a definition is anything, at any depth. -/
theorem answers_missing {name : String} (hname : Dict.get? definitions name = none) (levels : Nat) :
    Answers definitions levels busy (.definition name) unknown [] := by
  refine ⟨?_, ?_⟩
  · show expandWithin definitions levels busy name = unknown
    rw [expandWithin, hname]
  · simp only [openedWithin, Request.expansions, hname]

/-- A name that is in progress is anything, at any depth: this is what breaks a circle. -/
theorem answers_again {name : String} (hbusy : name ∈ busy) (levels : Nat) :
    Answers definitions levels busy (.definition name) unknown [] := by
  have hcontains : busy.contains name = true := List.contains_iff_mem.mpr hbusy
  cases hname : Dict.get? definitions name with
  | none => exact answers_missing hname levels
  | some target =>
    refine ⟨?_, ?_⟩
    · show expandWithin definitions levels busy name = unknown
      rw [expandWithin, hname]
      exact if_pos hcontains
    · simp only [openedWithin, Request.expansions, hname, hcontains, if_true]

/-- A name that is opened is answered as its definition, with the name in progress. -/
theorem answers_opened {name : String} {target : Node}
    (hname : Dict.get? definitions name = some target) (hbusy : name ∉ busy) (levels : Nat) :
    Answers definitions levels busy (.definition name)
      (answerWithin definitions levels (name :: busy) (.part (some target)))
      [.of name (openedWithin definitions levels (name :: busy) (.part (some target)))] := by
  have hcontains : ¬ busy.contains name = true := fun h => hbusy (List.contains_iff_mem.mp h)
  refine ⟨?_, ?_⟩
  · show expandWithin definitions levels busy name = _
    rw [expandWithin, hname]
    exact if_neg hcontains
  · simp only [openedWithin, Request.expansions, hname, if_neg hcontains]

/-! ## The one run of any requests

First that a run can only answer each request for itself; then, by induction on the levels that are
left, that there is one. -/

/-- What a run gives if every request is answered for itself and the names in progress stay. -/
def Settles (definitions : Dict Node) (depth : Nat) (requests : List Request) (busy : List String)
    (shapes : List Shape) (expansions : List Expansion) (after : List String) : Prop :=
  shapes = requests.map (answerWithin definitions (levelsAt depth) busy) ∧
    expansions = requests.flatMap (openedWithin definitions (levelsAt depth) busy) ∧
    after = busy

/-- If the first request is answered for itself and the others are, all are. -/
theorem Answers.settles {request : Request} {requests : List Request} {shape : Shape}
    {shapes : List Shape} {inner expansions : List Expansion} {after : List String}
    (h : Answers definitions (levelsAt depth) busy request shape inner)
    (rest : Settles definitions depth requests busy shapes expansions after) :
    Settles definitions depth (request :: requests) busy (shape :: shapes) (inner ++ expansions)
      after := by
  obtain ⟨rfl, rfl⟩ := h
  obtain ⟨rfl, rfl, rfl⟩ := rest
  exact ⟨rfl, rfl, rfl⟩

/-- The induction is on the run; every request leaves in progress what was, so the next one finds the
    same names. -/
theorem Runs.settles {requests : List Request} {shapes : List Shape} {expansions : List Expansion}
    {after : List String} (h : Runs definitions depth requests busy shapes expansions after) :
    Settles definitions depth requests busy shapes expansions after := by
  induction h with
  | done => exact ⟨rfl, rfl, rfl⟩
  | tooDeep hdepth _ ih => exact (answers_tooDeep hdepth _).settles ih
  | nothing hnode _ ih => exact (answers_nothing hnode _).settles ih
  | step hdepth hnode _ _ ihinside ihrest =>
    obtain ⟨rfl, rfl, rfl⟩ := ihinside
    exact (answers_part hnode hdepth).settles ihrest
  | missing hname _ ih => exact (answers_missing hname _).settles ih
  | again hbusy _ ih => exact (answers_again hbusy _).settles ih
  | opened hname hbusy _ _ ihinside ihrest =>
    obtain ⟨hshape, rfl, rfl⟩ := ihinside
    obtain rfl := (List.cons.inj hshape).1
    rw [List.erase_cons_head] at ihrest
    rw [List.flatMap_cons, List.flatMap_nil, List.append_nil]
    exact (answers_opened hname hbusy _).settles ihrest

/-- The requests have a run, with the answers that each has for itself. -/
def HasRun (definitions : Dict Node) (depth : Nat) (requests : List Request) (busy : List String) :
    Prop :=
  Runs definitions depth requests busy
    (requests.map (answerWithin definitions (levelsAt depth) busy))
    (requests.flatMap (openedWithin definitions (levelsAt depth) busy)) busy

/-- Where the first request has a run of its own, all have one. -/
theorem Answers.hasRun {request : Request} {requests : List Request} {shape : Shape}
    {inner : List Expansion} (h : Answers definitions (levelsAt depth) busy request shape inner)
    (run : Runs definitions depth (request :: requests) busy
      (shape :: requests.map (answerWithin definitions (levelsAt depth) busy))
      (inner ++ requests.flatMap (openedWithin definitions (levelsAt depth) busy)) busy) :
    HasRun definitions depth (request :: requests) busy := by
  obtain ⟨rfl, rfl⟩ := h
  exact run

/-- A part has a run if what it asks one level further down has one. -/
theorem hasRun_part
    (hbelow : depth ≤ maxDepth → ∀ requests, HasRun definitions (depth + 1) requests busy)
    (node : Option Node) {requests : List Request} (rest : HasRun definitions depth requests busy) :
    HasRun definitions depth (.part node :: requests) busy := by
  by_cases hdepth : depth ≤ maxDepth
  · cases hnode : node.bind Node.unwrap with
    | none => exact (answers_nothing hnode _).hasRun (.nothing hnode rest)
    | some n =>
      have hinside := hbelow hdepth (recipeOf definitions n).requests
      exact (answers_part hnode hdepth).hasRun (.step hdepth hnode hinside rest)
  · have hdeep : maxDepth < depth := Nat.lt_of_not_le hdepth
    exact (answers_tooDeep hdeep node).hasRun (.tooDeep hdeep rest)

/-- A name has a run if its definition has one, with the name in progress. -/
theorem hasRun_definition (hpart : ∀ busy node, HasRun definitions depth [.part node] busy)
    (name : String) {requests : List Request} (rest : HasRun definitions depth requests busy) :
    HasRun definitions depth (.definition name :: requests) busy := by
  cases hname : Dict.get? definitions name with
  | none => exact (answers_missing hname _).hasRun (.missing hname rest)
  | some target =>
    by_cases hbusy : name ∈ busy
    · exact (answers_again hbusy _).hasRun (.again hbusy rest)
    · have hinside := hpart (name :: busy) (some target)
      unfold HasRun at hinside
      rw [List.flatMap_cons, List.flatMap_nil, List.append_nil] at hinside
      refine (answers_opened hname hbusy _).hasRun (.opened hname hbusy hinside ?_)
      rw [List.erase_cons_head]
      exact rest

/-- **There is a run**: the reading of any requests comes to an end, from any depth on and whatever
    names are in progress. -/
theorem hasRun (definitions : Dict Node) (depth : Nat) (requests : List Request)
    (busy : List String) : HasRun definitions depth requests busy := by
  -- a step goes one level down, so the induction is on the levels that are left
  induction hlevels : levelsAt depth using Nat.strong_induction_on
    generalizing depth requests busy with
  | _ levels ih =>
    have hbelow : ∀ busy, depth ≤ maxDepth →
        ∀ requests, HasRun definitions (depth + 1) requests busy := by
      intro busy hdepth requests
      have hfewer : levelsAt depth = levelsAt (depth + 1) + 1 := levelsAt_of_le hdepth
      exact ih (levelsAt (depth + 1)) (by omega) (depth + 1) requests busy rfl
    have hpart : ∀ busy node, HasRun definitions depth [.part node] busy :=
      fun busy node => hasRun_part (hbelow busy) node .done
    induction requests with
    | nil => exact .done
    | cons request requests ihrest =>
      cases request with
      | part node => exact hasRun_part (hbelow busy) node ihrest
      | definition name => exact hasRun_definition hpart name ihrest

/-- The run of any requests is the one that answers each for itself. -/
theorem runs_iff {requests : List Request} {shapes : List Shape} {expansions : List Expansion}
    {after : List String} :
    Runs definitions depth requests busy shapes expansions after ↔
      Settles definitions depth requests busy shapes expansions after := by
  refine ⟨Runs.settles, ?_⟩
  rintro ⟨rfl, rfl, rfl⟩
  exact hasRun definitions depth requests _

end

/-! ## Bounds

Each level further down costs one of the levels that are left, and there are as many as the program
begins with. -/

/-- A part at some depth has no more levels than are left there. -/
theorem levels_at_depth (definitions : Dict Node) {depth : Nat} (hdepth : depth ≤ maxDepth)
    (busy : List String) (node : Option Node) :
    (shapeWithin definitions (levelsAt depth) busy node).levels ≤ maxDepth + 2 - depth := by
  have hlevels := levels_shapeWithin definitions (levelsAt depth) busy node
  have hleft : levelsAt depth + 1 = maxDepth + 2 - depth := by
    unfold levelsAt maxLevels
    unfold maxDepth at hdepth ⊢
    omega
  exact hleft ▸ hlevels

/-- What several parts open is opened by one of them. -/
theorem mem_opened_of_parts {definitions : Dict Node} {depth : Nat} {busy : List String}
    {nodes : List (Option Node)} {expansion : Expansion}
    (h : expansion ∈ (nodes.map Request.part).flatMap
      (openedWithin definitions (levelsAt depth) busy)) :
    ∃ node ∈ nodes, expansion ∈ expansionsWithin definitions (levelsAt depth) busy node := by
  obtain ⟨request, hrequest, hopened⟩ := List.mem_flatMap.mp h
  obtain ⟨node, hnode, rfl⟩ := List.mem_map.mp hrequest
  exact ⟨node, hnode, hopened⟩

/-- **Any readings one after the other come to an end, with bounded shapes.**  Among any definitions,
    from any depth on and whatever names are in progress, expressions have one run: each of them gets
    the shape that it has when it is read alone, with no more levels than the depth leaves; no name is
    opened that is in progress, so none is opened inside its own expansion; and in the end the names in
    progress are those of the beginning. -/
theorem readings_bounded (definitions : Dict Node) (depth : Nat) (busy : List String)
    (nodes : List (Option Node)) :
    ∃ (shapes : List Shape) (expansions : List Expansion),
      (∀ shapes' expansions' after,
        Runs definitions depth (nodes.map .part) busy shapes' expansions' after ↔
          shapes' = shapes ∧ expansions' = expansions ∧ after = busy) ∧
      shapes = nodes.map (shapeWithin definitions (maxLevels - depth) busy) ∧
      (depth ≤ maxDepth → ∀ shape ∈ shapes, shape.levels ≤ maxDepth + 2 - depth) ∧
      (∀ expansion ∈ expansions, expansion.Unrepeated) ∧
      ∀ name ∈ namesOf expansions, name ∉ busy := by
  refine ⟨(nodes.map Request.part).map (answerWithin definitions (levelsAt depth) busy),
    (nodes.map Request.part).flatMap (openedWithin definitions (levelsAt depth) busy),
    fun _ _ _ => runs_iff, ?_, ?_, ?_, ?_⟩
  · rw [List.map_map]
    rfl
  · intro hdepth shape hshape
    obtain ⟨request, hrequest, rfl⟩ := List.mem_map.mp hshape
    obtain ⟨node, -, rfl⟩ := List.mem_map.mp hrequest
    exact levels_at_depth definitions hdepth busy node
  · intro expansion hexpansion
    obtain ⟨node, -, hopened⟩ := mem_opened_of_parts hexpansion
    exact unrepeated_expansionsWithin hopened
  · intro name hname
    obtain ⟨expansion, hexpansion, hnames⟩ := mem_namesOf.mp hname
    obtain ⟨node, -, hopened⟩ := mem_opened_of_parts hexpansion
    exact not_busy_of_opened (mem_namesOf.mpr ⟨expansion, hopened, hnames⟩)

namespace Circle

open Syntax.Node (branch leaf)

/-- A name. -/
def name (text : String) : Node := leaf "identifier" "value" text

/-- An object literal with one property, which is a name. -/
def literal (key value : String) : Node :=
  branch "object" "" "" [branch "pair" "" "" [leaf "property_identifier" "key" key, name value]]

/-- A parent has a child, a child has a parent. -/
def definitions : Dict Node :=
  [("parent", literal "child" "child"), ("child", literal "parent" "parent")]

end Circle

/-- The parent is read, then the child: each is opened inside the other, and the second reading is not
    changed by the first. -/
theorem readings_bounded_circle :
    ∃ shapes, Runs Circle.definitions 0
        [.part (some (Circle.name "parent")), .part (some (Circle.name "child"))] [] shapes
        [.of "parent" [.of "child" []], .of "child" [.of "parent" []]] [] ∧
      shapes.map levels = [3, 3] ∧ ∀ shape ∈ shapes, shape.levels ≤ 14 := by
  obtain ⟨shapes, expansions, hruns, hshapes, hlevels, -, -⟩ := readings_bounded Circle.definitions 0 []
    [some (Circle.name "parent"), some (Circle.name "child")]
  obtain ⟨hsame, hexpansions, -⟩ := runs_iff.mp ((hruns _ _ _).mpr ⟨rfl, rfl, rfl⟩)
  refine ⟨shapes, (hruns _ _ _).mpr ⟨rfl, ?_, rfl⟩, ?_, hlevels (by decide)⟩
  · rw [hexpansions]
    rfl
  · rw [hshapes]
    decide +kernel

end RouteAtlas.Shape.Builder
