/-
  How many levels a shape has.

  ==== Problem ====

  The levels that a reading may go down bound the shape that comes out only if no step puts more than
  one level on top of what it is answered.  Steps move shapes about: a member of an object or the items
  of an array come out of the shape they were in, spread properties change their object, several
  objects become one.

  ==== Program ====

  1. **Levels** - `levels` counts the shape itself, and below it the deepest of its properties and
     items.

  2. **Operations** - marks keep the levels; picking, leaving out and uniting never raise them.

  3. **Steps** - a recipe is `Modest` if it adds at most one level to its answers, and every recipe is
     (`modest_recipeOf`).

  4. **Readings** - so a reading has at most one level more than it may go down
     (`levels_shapeWithin`).

  ==== The crux ====

  An object made of the properties of others has no more levels than they have, since its properties
  are one level further down in both.  The bound to carry is therefore the one on the properties, and
  the level that the object adds is the level that was taken off.
-/
import RouteAtlas.Proofs.Json.Table
import RouteAtlas.Proofs.Shape.Recipe

namespace RouteAtlas.Shape

mutual
/-- The levels of a shape: one for itself, then those of its properties and items. -/
def levels : Shape → Nat
  | ⟨_, properties, _, items, _, _, _, _, _, _⟩ =>
    1 + max (levelsOfProperties properties) (levelsOfItems items)
/-- The levels of the deepest property. -/
def levelsOfProperties : List (String × Shape) → Nat
  | [] => 0
  | (_, shape) :: rest => max shape.levels (levelsOfProperties rest)
/-- The levels of the items, if there are any. -/
def levelsOfItems : Option Shape → Nat
  | some shape => shape.levels
  | none => 0
end

/-! ## What the levels are bounded by

Levels are computed by recursion on the shape.  These lemmas say what they mean, and are all that is
used of them. -/

/-- The levels of a shape: one for itself, and those of its properties or items. -/
theorem levels_eq (s : Shape) :
    s.levels = 1 + max (levelsOfProperties s.properties) (levelsOfItems s.items) := by
  obtain ⟨_, properties, _, items, _, _, _, _, _, _⟩ := s
  rw [levels]

/-- Every shape has a level of its own. -/
theorem one_le_levels (s : Shape) : 1 ≤ s.levels := by
  rw [levels_eq]
  omega

/-- Properties are bounded if each of them is. -/
theorem levelsOfProperties_le_iff {properties : List (String × Shape)} {n : Nat} :
    levelsOfProperties properties ≤ n ↔ ∀ p ∈ properties, p.2.levels ≤ n := by
  induction properties with
  | nil =>
    rw [levelsOfProperties]
    simp
  | cons p rest ih =>
    rw [levelsOfProperties, List.forall_mem_cons, ← ih]
    exact max_le_iff

/-- A shape is one level higher than its properties and items. -/
theorem levels_le_succ_iff {s : Shape} {n : Nat} :
    s.levels ≤ n + 1 ↔
      (∀ p ∈ s.properties, p.2.levels ≤ n) ∧ levelsOfItems s.items ≤ n := by
  rw [levels_eq, ← levelsOfProperties_le_iff]
  omega

/-- A property is lower than the shape it belongs to. -/
theorem levels_of_mem_properties {s t : Shape} {name : String} (ht : (name, t) ∈ s.properties) :
    t.levels + 1 ≤ s.levels := by
  have hall := levelsOfProperties_le_iff.mp (Nat.le_refl (levelsOfProperties s.properties)) _ ht
  have hs := levels_eq s
  dsimp only at hall
  omega

theorem levels_of_items {s t : Shape} (ht : s.items = some t) : t.levels + 1 ≤ s.levels := by
  have hitems : levelsOfItems s.items = t.levels := by
    rw [ht]
    rfl
  have hs := levels_eq s
  omega

/-- The levels do not depend on any mark. -/
theorem levels_marked {s t : Shape} (hproperties : t.properties = s.properties)
    (hitems : t.items = s.items) : t.levels = s.levels := by
  rw [levels_eq t, levels_eq s, hproperties, hitems]

theorem levels_asOptional (s : Shape) (optional : Bool) : (s.asOptional optional).levels = s.levels :=
  levels_marked rfl rfl

/-- An array is one level higher than its items. -/
theorem levels_arrayOf (items : Shape) : (arrayOf items).levels = items.levels + 1 := by
  rw [levels_eq]
  show 1 + max 0 items.levels = items.levels + 1
  omega

/-! ## Objects made of properties

Picking, omitting, merging and making optional all rearrange properties; none of them goes deeper. -/

/-- An object is one level higher than its properties. -/
theorem levels_ofProperties {properties : List (String × Shape)} {n : Nat}
    (h : ∀ p ∈ properties, p.2.levels ≤ n) : (ofProperties properties).levels ≤ n + 1 :=
  levels_le_succ_iff.mpr ⟨h, Nat.zero_le n⟩

/-- An object that is made of properties of a shape has no more levels than the shape. -/
theorem levels_ofProperties_of_mem {properties : List (String × Shape)} {s : Shape}
    (h : ∀ p ∈ properties, p ∈ s.properties) : (ofProperties properties).levels ≤ s.levels := by
  have hs := one_le_levels s
  have hparts : ∀ p ∈ properties, p.2.levels ≤ s.levels - 1 := by
    intro p hp
    have hmem : (p.1, p.2) ∈ s.properties := h p hp
    have := levels_of_mem_properties hmem
    omega
  have := levels_ofProperties hparts
  omega

/-- Picking or omitting properties adds no level. -/
theorem levels_restrict (s : Shape) (names : List String) (keep : Bool) :
    (s.restrict names keep).levels ≤ s.levels :=
  levels_ofProperties_of_mem fun _ hp => (List.mem_filter.mp hp).1

/-- Making properties optional leaves their levels. -/
theorem levelsOfProperties_asOptional (properties : List (String × Shape)) (optional : Bool) :
    levelsOfProperties (properties.map fun (k, v) => (k, v.asOptional optional)) =
      levelsOfProperties properties := by
  induction properties with
  | nil => rfl
  | cons p rest ih =>
    rw [List.map_cons, levelsOfProperties, levelsOfProperties, levels_asOptional, ih]

theorem levels_allOptional (s : Shape) : s.allOptional.levels = s.levels := by
  rw [levels_eq s, levels_eq s.allOptional]
  show 1 + max (levelsOfProperties (List.map _ s.properties)) (levelsOfItems s.items) = _
  rw [levelsOfProperties_asOptional]

theorem levels_allRequired (s : Shape) : s.allRequired.levels = s.levels := by
  rw [levels_eq s, levels_eq s.allRequired]
  show 1 + max (levelsOfProperties (List.map _ s.properties)) (levelsOfItems s.items) = _
  rw [levelsOfProperties_asOptional]

/-- Each property of a union is that of one of its parts. -/
theorem mem_unionOf {parts : List Shape} {p : String × Shape} (hp : p ∈ unionOf parts) :
    ∃ s ∈ parts, ∃ name, (name, p.2) ∈ s.properties := by
  -- on the parts still to be added, whatever was united before
  have hfold : ∀ (parts : List Shape) (d : Dict Shape),
      p ∈ parts.foldl (fun d s => Dict.putAll d s.properties) d →
        p ∈ d ∨ ∃ s ∈ parts, ∃ name, (name, p.2) ∈ s.properties := by
    intro parts
    induction parts with
    | nil => exact fun d hd => .inl hd
    | cons s parts ih =>
      intro d hd
      rcases ih _ hd with hs | ⟨t, ht, hname⟩
      · rcases Dict.mem_putAll hs with hold | ⟨name, hnew, -⟩
        · exact .inl hold
        · exact .inr ⟨s, List.mem_cons_self, name, hnew⟩
      · exact .inr ⟨t, List.mem_cons_of_mem s ht, hname⟩
  rcases hfold parts [] hp with hnil | hpart
  · exact absurd hnil List.not_mem_nil
  · exact hpart

/-- A property of a union is lower than the highest of the parts. -/
theorem levels_of_mem_unionOf {parts : List Shape} {n : Nat} (h : ∀ s ∈ parts, s.levels ≤ n)
    {p : String × Shape} (hp : p ∈ unionOf parts) : p.2.levels + 1 ≤ n := by
  obtain ⟨s, hs, name, hname⟩ := mem_unionOf hp
  exact Nat.le_trans (levels_of_mem_properties hname) (h s hs)

namespace Builder

open Syntax (Node)

/-- An intersection has no more levels than the highest of its parts. -/
theorem levels_intersect {parts : List Shape} {n : Nat} (hn : 1 ≤ n)
    (h : ∀ s ∈ parts, s.levels ≤ n) : (intersect parts).levels ≤ n := by
  cases parts with
  | nil => exact hn
  | cons first rest =>
    rw [intersect]
    split
    · have hparts : ∀ p ∈ unionOf (first :: rest), p.2.levels ≤ n - 1 := by
        intro p hp
        have := levels_of_mem_unionOf h hp
        omega
      calc Shape.levels _ = (ofProperties (unionOf (first :: rest))).levels := levels_marked rfl rfl
        _ ≤ n - 1 + 1 := levels_ofProperties hparts
        _ = n := Nat.sub_add_cancel hn
    · exact h first List.mem_cons_self

/-! ## Recipes

A recipe says what a step asks one level further down, and what it makes of the answers.  Every
recipe is modest, which is shown function by function and then put together in `modest_recipeOf`. -/

/-- A recipe that adds at most one level to the answers it is given. -/
def Recipe.Modest (recipe : Recipe) : Prop :=
  ∀ (n : Nat) (answers : List Shape), 1 ≤ n → (∀ a ∈ answers, a.levels ≤ n) →
    (recipe.make answers).levels ≤ n + 1

/-- A recipe that asks nothing is modest if its shape is. -/
theorem modest_fixed {shape : Shape} (h : shape.levels ≤ 2) : (Recipe.fixed shape).Modest := by
  intro n answers hn _
  show shape.levels ≤ n + 1
  omega

/-- A recipe with one request is modest if its change adds at most one level. -/
theorem modest_one {request : Request} {change : Shape → Shape}
    (h : ∀ s, (change s).levels ≤ s.levels + 1) : (Recipe.one request change).Modest := by
  intro n answers hn hanswers
  show (change (answers.headD text)).levels ≤ n + 1
  have hhead : (answers.headD text).levels ≤ n := by
    cases answers with
    | nil => exact hn
    | cons a rest => exact hanswers a List.mem_cons_self
  have := h (answers.headD text)
  omega

/-- A change that only sets marks is modest. -/
theorem modest_marked {request : Request} {change : Shape → Shape}
    (hproperties : ∀ s, (change s).properties = s.properties)
    (hitems : ∀ s, (change s).items = s.items) : (Recipe.one request change).Modest := by
  refine modest_one fun s => ?_
  rw [levels_marked (hproperties s) (hitems s)]
  omega

theorem modest_answer (request : Request) : (Recipe.one request id).Modest :=
  modest_marked (fun _ => rfl) fun _ => rfl

theorem modest_arrayOf (request : Request) : (Recipe.one request arrayOf).Modest :=
  modest_one fun s => Nat.le_of_eq (levels_arrayOf s)

/-- Intersecting answers is modest. -/
theorem modest_intersect (requests : List Request) : (Recipe.mk requests intersect).Modest := by
  intro n answers hn hanswers
  show (intersect answers).levels ≤ n + 1
  exact Nat.le_succ_of_le (levels_intersect hn hanswers)

/-- Reading the first argument is modest. -/
theorem modest_argumentRecipe {missing : Shape} (h : missing.levels ≤ 2) (args : List Node) :
    (argumentRecipe missing args).Modest := by
  unfold argumentRecipe
  split
  · exact modest_fixed h
  · exact modest_answer _

/-- Metadata adds no level. -/
theorem levels_withMetadata (base : Shape) (args : List Node) :
    (withMetadata base args).levels = base.levels := by
  unfold withMetadata
  split
  · rfl
  · dsimp only
    -- a sample, then a description: either may be there or not
    split <;> split <;> exact levels_marked rfl rfl

/-- The shape of a literal is flat. -/
theorem levels_literalShape (args : List Node) : (literalShape args).levels = 1 := by
  unfold literalShape
  split <;> rfl

/-- The shape of an enumeration is flat. -/
theorem levels_enumShape (definitions : Dict Node) (arg : Option Node) :
    (enumShape definitions arg).levels = 1 := by
  unfold enumShape
  dsimp only
  generalize Option.bind _ Node.literal? = listed
  split <;> rfl

theorem levels_nativeEnumShape (definitions : Dict Node) (arg : Option Node) :
    (nativeEnumShape definitions arg).levels = 1 := by
  unfold nativeEnumShape
  split
  · split
    · split <;> rfl
    · rfl
  · rfl

/-- **A modifier is modest**: it changes marks, rearranges properties or wraps what it modifies in
    an array. -/
theorem modest_modifierRecipe (method : Option String) (receiver : Option Node) (args : List Node)
    (onNamespace : Bool) : (modifierRecipe method receiver args onNamespace).Modest := by
  -- extending and merging by an object that may be missing
  have hextend : (if args.isEmpty then Recipe.one (.part receiver) fun base => intersect [base, unknown]
      else ⟨[.part receiver, .part args.head?], intersect⟩).Modest := by
    split
    · refine modest_one fun s => ?_
      have hpair : ∀ t ∈ [s, unknown], t.levels ≤ s.levels := by
        intro t ht
        rcases List.mem_cons.mp ht with rfl | ht
        · exact Nat.le_refl _
        · exact List.mem_singleton.mp ht ▸ one_le_levels s
      exact Nat.le_succ_of_le (levels_intersect (one_le_levels s) hpair)
    · exact modest_intersect _
  unfold modifierRecipe
  dsimp only
  split
  -- optional and null marks
  case h_1 | h_2 | h_3 => exact modest_marked (fun _ => rfl) fun _ => rfl
  case h_4 | h_5 | h_6 => split <;> exact modest_marked (fun _ => rfl) fun _ => rfl
  case h_7 | h_8 =>
    refine modest_one fun s => ?_
    rw [levels_withMetadata]
    omega
  case h_9 => split <;> exact modest_marked (fun _ => rfl) fun _ => rfl
  -- all properties optional, or required
  case h_10 => exact modest_one fun s => by rw [levels_allOptional]; omega
  case h_11 => exact modest_one fun s => by rw [levels_allRequired]; omega
  case h_12 | h_13 | h_14 => exact hextend
  case h_15 => exact modest_one fun s => Nat.le_succ_of_le (levels_restrict s _ true)
  case h_16 => exact modest_one fun s => Nat.le_succ_of_le (levels_restrict s _ false)
  -- the items of an array
  case h_17 =>
    refine modest_one fun s => ?_
    split
    · rename_i hitems
      have := levels_of_items hitems
      omega
    · omega
  case h_18 => exact modest_answer _

/-- Reading the first of several alternatives is modest. -/
theorem modest_firstRecipe (arg : Option Node) : (firstRecipe arg).Modest := by
  unfold firstRecipe
  split
  · exact modest_argumentRecipe (by decide) _
  · exact modest_fixed (by decide)

/-- A tuple is read as an array of its first item. -/
theorem modest_tupleRecipe (arg : Option Node) : (tupleRecipe arg).Modest := by
  unfold tupleRecipe
  split
  · split
    · exact modest_fixed (Nat.le_of_eq (levels_arrayOf text))
    · exact modest_arrayOf _
  · exact modest_fixed (Nat.le_of_eq (levels_arrayOf text))

/-- **A call of a method is modest**, whatever the method and what it is called on.  Only arrays,
    tuples and objects add a level, and those ask for their parts one level further down. -/
theorem modest_methodRecipe (definitions : Dict Node) (method : Option String)
    (receiver : Option Node) (args : List Node) :
    (methodRecipe definitions method receiver args).Modest := by
  have hbare : ∀ {s : Shape}, s.levels = 1 → (Recipe.fixed s).Modest :=
    fun hs => modest_fixed (by omega)
  unfold methodRecipe
  dsimp only
  generalize (receiver.map (isNamespace (Dict.has definitions))).getD false = onNamespace
  split
  · exact hbare rfl
  split
  · exact hbare rfl
  split
  · exact hbare rfl
  split
  · split
    · exact hbare rfl
    · exact modest_marked (fun _ => rfl) fun _ => rfl
  split
  · exact modest_argumentRecipe (by decide) args
  split
  · exact hbare rfl
  split
  -- the constructors in the order of the program: flat shapes first, then those that ask for a part
  case h_1 => exact hbare (levels_literalShape args)
  case h_2 => exact hbare (levels_enumShape definitions args.head?)
  case h_3 => exact hbare (levels_nativeEnumShape definitions args.head?)
  case h_4 => exact modest_arrayOf _
  case h_5 => exact modest_tupleRecipe args.head?
  case h_6 => exact modest_firstRecipe args.head?
  case h_7 => exact modest_firstRecipe args[1]?
  case h_8 => exact modest_answer _
  case h_9 =>
    split
    · exact hbare rfl
    · exact modest_intersect _
  case h_10 => exact modest_intersect _
  case h_11 => exact modest_argumentRecipe (by decide) args
  case h_12 => exact modest_modifierRecipe method receiver args onNamespace

theorem modest_callRecipe (definitions : Dict Node) (call : Node) :
    (callRecipe definitions call).Modest := by
  have htext : (Recipe.fixed text).Modest := modest_fixed (by decide)
  unfold callRecipe
  split
  · exact htext
  split
  · split
    · exact modest_answer _
    · exact htext
  split
  · exact modest_methodRecipe definitions _ _ _
  · exact htext

/-- A property access is modest. -/
theorem modest_memberRecipe (member : Node) : (memberRecipe member).Modest := by
  have hbare : ∀ {s : Shape}, s.levels = 1 → (Recipe.fixed s).Modest :=
    fun hs => modest_fixed (by omega)
  unfold memberRecipe
  dsimp only
  split
  · exact hbare rfl
  split
  · exact hbare rfl
  split
  · exact hbare rfl
  refine modest_one fun s => ?_
  split
  · rename_i property hproperty
    obtain ⟨name, -, hget⟩ := Option.bind_eq_some_iff.mp hproperty
    have : property.levels + 1 ≤ s.levels := levels_of_mem_properties (Dict.mem_of_get? hget)
    omega
  · omega

/-- An arrow function stands for what it returns. -/
theorem modest_arrowRecipe (arrow : Node) : (arrowRecipe arrow).Modest := by
  unfold arrowRecipe
  split
  · split
    · split
      · exact modest_answer _
      · exact modest_fixed (by decide)
    · exact modest_answer _
  · exact modest_answer _

/-- An object literal is an object of its properties. -/
theorem modest_objectRecipe (object : Node) : (objectRecipe object).Modest := by
  intro n answers _ hanswers
  show (ofProperties (Dict.putAll _ _)).levels ≤ n + 1
  refine levels_ofProperties fun p hp => ?_
  obtain ⟨name, property⟩ := p
  rcases Dict.mem_putAll hp with hspread | ⟨name, hown, -⟩
  · have hparts : ∀ s ∈ answers.take object.spreads.length, s.levels ≤ n :=
      fun s hs => hanswers s (List.mem_of_mem_take hs)
    exact Nat.le_of_succ_le (levels_of_mem_unionOf hparts hspread)
  · exact hanswers property (List.mem_of_mem_drop (List.of_mem_zip hown).2)

/-- **No step adds more than one level** to what it is answered. -/
theorem modest_recipeOf (definitions : Dict Node) (n : Node) : (recipeOf definitions n).Modest := by
  unfold recipeOf
  split
  · exact modest_answer _
  · exact modest_answer _
  · exact modest_objectRecipe n
  · exact modest_callRecipe definitions n
  · exact modest_memberRecipe n
  · exact modest_arrowRecipe n
  · exact modest_fixed (by decide)

/-! ## Readings

A reading is its recipe, answered one level further down, and a modest recipe adds one level to what
it is given. -/

/-- **A reading has at most one level more than it may go down**, whatever the expression, the
    definitions and the names being read. -/
theorem levels_shapeWithin (definitions : Dict Node) (levels : Nat) (busy : List String)
    (node : Option Node) : (shapeWithin definitions levels busy node).levels ≤ levels + 1 := by
  induction levels generalizing busy node with
  | zero => exact Nat.le_refl 1
  | succ levels ih =>
    have hanswer : ∀ request, (answerWithin definitions levels busy request).levels ≤ levels + 1 := by
      intro request
      cases request with
      | part node => exact ih busy node
      | definition name =>
        show (expandWithin definitions levels busy name).levels ≤ levels + 1
        unfold expandWithin
        split
        · split
          · exact Nat.le_add_left 1 levels
          · exact ih (name :: busy) _
        · exact Nat.le_add_left 1 levels
    rw [shapeWithin_succ]
    split
    · exact Nat.le_add_left 1 (levels + 1)
    · rename_i n _
      refine modest_recipeOf definitions n (levels + 1) _ (Nat.le_add_left 1 levels) fun a ha => ?_
      obtain ⟨request, -, rfl⟩ := List.mem_map.mp ha
      exact hanswer request

end Builder

end RouteAtlas.Shape
