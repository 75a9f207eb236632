/-
  The required list of a shape keeps in step with its properties.

  ==== Problem ====

  A shape says twice which properties may be left out: each property is marked optional or not, and
  `required` lists the names of those that are not.  The two are set apart in many places: marks are
  put on shapes that were made before, properties are picked, left out, overwritten and united, and
  whole objects are made optional or required.  No order of these may bring the two apart, at any
  depth.

  ==== Program ====

  1. **Specification** - `InStep`: at every node of a shape the names of the properties are distinct,
     and `required` is the list that the properties say.

  2. **Operations** - one lemma for each operation on shapes: what it is given is in step, so is what
     it makes.

  3. **Expressions** - `inStep_shapeWithin`: an expression of schema builders is in step, whatever its
     tree, the definitions, the names being read and the levels left.

  ==== The crux ====

  An operation that sets marks on a whole shape leaves its properties alone, and an operation that
  sets marks on properties sets the required list anew.  So every operation is either one that keeps
  what counts (`InStep.marked`), or one that makes an object of properties that are in step each for
  itself (`PropertiesInStep`), with a list that is right for them.
-/
import RouteAtlas.Proofs.Json.Table
import RouteAtlas.Shape.Builder

namespace RouteAtlas.Shape

/-- At every node the required list names the properties that are not optional, in their order. -/
inductive InStep : Shape → Prop
  | intro {s : Shape} (listed : s.required = requiredOf s.properties)
      (distinct : (Dict.keys s.properties).Nodup)
      (inside : ∀ p ∈ s.properties, InStep p.2)
      (items : ∀ i, s.items = some i → InStep i) : InStep s

/-- Properties of distinct names, each of them in step. -/
structure PropertiesInStep (properties : List (String × Shape)) : Prop where
  distinct : (Dict.keys properties).Nodup
  inside : ∀ p ∈ properties, InStep p.2

/-! ## Shapes that keep what counts

Whether a shape is in step depends on its properties, its list and its items only.  Marks such as
nullable or a format can be set freely. -/

/-- The properties of a shape in step are in step. -/
theorem InStep.properties {s : Shape} (h : InStep s) : PropertiesInStep s.properties := by
  cases h with
  | intro _ distinct inside _ => exact ⟨distinct, inside⟩

theorem InStep.ofItems {s i : Shape} (h : InStep s) (hi : s.items = some i) : InStep i := by
  cases h with
  | intro _ _ _ items => exact items i hi

/-- A shape is in step with one that has its properties, its list and its items. -/
theorem InStep.marked {s t : Shape} (h : InStep s) (hrequired : t.required = s.required)
    (hproperties : t.properties = s.properties) (hitems : t.items = s.items) : InStep t := by
  cases h with
  | intro listed distinct inside items =>
    refine .intro ?_ ?_ ?_ ?_
    · rw [hrequired, hproperties, listed]
    · rwa [hproperties]
    · rwa [hproperties]
    · rwa [hitems]

/-- A shape without parts is in step. -/
theorem inStep_bare {s : Shape} (hrequired : s.required = []) (hproperties : s.properties = [])
    (hitems : s.items = none) : InStep s := by
  refine .intro ?_ ?_ ?_ ?_
  · rw [hrequired, hproperties]
    rfl
  · rw [hproperties]
    exact List.nodup_nil
  · intro p hp
    rw [hproperties] at hp
    exact absurd hp List.not_mem_nil
  · intro i hi
    rw [hitems] at hi
    cases hi

theorem inStep_text : InStep text := inStep_bare rfl rfl rfl

theorem inStep_plain (kind : Kind) : InStep (plain kind) := inStep_bare rfl rfl rfl

theorem inStep_formatted (format : String) : InStep (formatted format) := inStep_bare rfl rfl rfl

theorem inStep_unknown : InStep unknown := inStep_bare rfl rfl rfl

theorem inStep_choiceOf (values : List Json) : InStep (choiceOf values) := inStep_bare rfl rfl rfl

/-- An array is in step with its items. -/
theorem inStep_arrayOf {items : Shape} (h : InStep items) : InStep (arrayOf items) := by
  refine .intro rfl List.nodup_nil ?_ ?_
  · intro p hp
    exact absurd hp List.not_mem_nil
  · intro i hi
    cases hi
    exact h

/-- A shape that is marked optional stays in step: the list is that of the object around it. -/
theorem InStep.asOptional {s : Shape} (h : InStep s) (optional : Bool) :
    InStep (s.asOptional optional) := h.marked rfl rfl rfl

/-! ## Objects made of properties

Every function that makes an object computes the list from the properties it puts in. -/

/-- An object made of properties is in step with them. -/
theorem inStep_ofProperties {properties : List (String × Shape)} (h : PropertiesInStep properties) :
    InStep (ofProperties properties) := by
  refine .intro rfl h.distinct h.inside ?_
  intro i hi
  cases hi

/-- Marks on the properties change no name, and leave each of them in step. -/
theorem PropertiesInStep.asOptional {properties : List (String × Shape)}
    (h : PropertiesInStep properties) (optional : Bool) :
    PropertiesInStep (properties.map fun (k, v) => (k, v.asOptional optional)) := by
  refine ⟨?_, ?_⟩
  · unfold Dict.keys
    rw [List.map_map]
    exact h.distinct
  · intro p hp
    obtain ⟨q, hq, rfl⟩ := List.mem_map.mp hp
    exact (h.inside q hq).asOptional optional

/-- All properties made optional are required by none, all made required by all. -/
theorem requiredOf_asOptional (properties : List (String × Shape)) (optional : Bool) :
    requiredOf (properties.map fun (k, v) => (k, v.asOptional optional)) =
      if optional then [] else Dict.keys properties := by
  induction properties with
  | nil => cases optional <;> rfl
  | cons p properties ih =>
    cases optional with
    | true => exact ih
    | false => exact congrArg (p.1 :: ·) ih

/-- Making all properties optional keeps the list in step. -/
theorem InStep.allOptional {s : Shape} (h : InStep s) : InStep s.allOptional := by
  have hprops := h.properties.asOptional true
  refine .intro ?_ hprops.distinct hprops.inside fun i hi => h.ofItems hi
  exact (requiredOf_asOptional s.properties true).symm

theorem InStep.allRequired {s : Shape} (h : InStep s) : InStep s.allRequired := by
  have hprops := h.properties.asOptional false
  refine .intro ?_ hprops.distinct hprops.inside fun i hi => h.ofItems hi
  exact (requiredOf_asOptional s.properties false).symm

theorem InStep.restrict {s : Shape} (h : InStep s) (names : List String) (keep : Bool) :
    InStep (s.restrict names keep) := by
  refine inStep_ofProperties ⟨?_, fun p hp => h.properties.inside p (List.mem_filter.mp hp).1⟩
  exact List.Nodup.sublist (List.filter_sublist.map _) h.properties.distinct

/-- Properties that are put over others, each in step, are properties in step. -/
theorem PropertiesInStep.putAll {properties entries : List (String × Shape)}
    (h : PropertiesInStep properties) (hentries : ∀ e ∈ entries, InStep e.2) :
    PropertiesInStep (Dict.putAll properties entries) := by
  refine ⟨Dict.nodup_keys_putAll h.distinct entries, ?_⟩
  rintro ⟨k, v⟩ hkv
  rcases Dict.mem_putAll hkv with hold | ⟨k', hnew, -⟩
  · exact h.inside _ hold
  · exact hentries (k', v) hnew

theorem propertiesInStep_nil : PropertiesInStep [] :=
  ⟨List.nodup_nil, fun _ hp => absurd hp List.not_mem_nil⟩

/-- A list of entries, each in step, makes properties in step; of one name, the last. -/
theorem propertiesInStep_ofList {entries : List (String × Shape)}
    (h : ∀ e ∈ entries, InStep e.2) : PropertiesInStep (Dict.ofList entries) :=
  propertiesInStep_nil.putAll h

/-- The properties of several shapes in step are in step together. -/
theorem propertiesInStep_unionOf {parts : List Shape} (h : ∀ s ∈ parts, InStep s) :
    PropertiesInStep (unionOf parts) := by
  -- on the parts still to be added, whatever the dictionary that was united from those before
  have hfold : ∀ (parts : List Shape) (d : Dict Shape), (∀ s ∈ parts, InStep s) →
      PropertiesInStep d → PropertiesInStep (parts.foldl (fun d s => Dict.putAll d s.properties) d) := by
    intro parts
    induction parts with
    | nil => intro d _ hd; exact hd
    | cons s parts ih =>
      intro d hparts hd
      have hs : InStep s := hparts s List.mem_cons_self
      exact ih _ (fun t ht => hparts t (List.mem_cons_of_mem _ ht)) (hd.putAll hs.properties.inside)
  exact hfold parts [] h propertiesInStep_nil

/-! ## Calls of a builder

`sub` stands for the reading one level further down.  Each function keeps shapes in step if `sub`
gives only such shapes; the induction on the levels comes last. -/

namespace Builder

open Syntax (Node)

/-- An intersection of shapes in step is in step. -/
theorem inStep_intersect {parts : List Shape} (h : ∀ s ∈ parts, InStep s) :
    InStep (intersect parts) := by
  cases parts with
  | nil => exact inStep_unknown
  | cons first rest =>
    rw [intersect]
    split
    · exact (inStep_ofProperties (propertiesInStep_unionOf h)).marked rfl rfl rfl
    · exact h first List.mem_cons_self

/-- Two shapes in step intersect in one. -/
theorem inStep_intersect_pair {first second : Shape} (hfirst : InStep first)
    (hsecond : InStep second) : InStep (intersect [first, second]) := by
  refine inStep_intersect fun s hs => ?_
  rcases List.mem_cons.mp hs with rfl | hs
  · exact hfirst
  · exact List.mem_singleton.mp hs ▸ hsecond

/-- A literal is in step. -/
theorem inStep_literalShape (args : List Node) : InStep (literalShape args) := by
  unfold literalShape
  split
  · exact inStep_choiceOf _
  · exact inStep_text

/-- An enumeration is in step. -/
theorem inStep_enumShape (definitions : Dict Node) (arg : Option Node) :
    InStep (enumShape definitions arg) := by
  unfold enumShape
  dsimp only
  generalize Option.bind _ Node.literal? = listed
  split
  · exact inStep_text
  · exact inStep_choiceOf _

theorem inStep_nativeEnumShape (definitions : Dict Node) (arg : Option Node) :
    InStep (nativeEnumShape definitions arg) := by
  unfold nativeEnumShape
  split
  · split
    · split
      · exact inStep_choiceOf _
      · exact inStep_text
    · exact inStep_text
  · exact inStep_text

/-- Metadata leaves a shape in step. -/
theorem inStep_withMetadata {base : Shape} (h : InStep base) (args : List Node) :
    InStep (withMetadata base args) := by
  unfold withMetadata
  split
  · exact h
  · dsimp only
    -- a sample, then a description: either may be there or not
    split <;> split <;> exact h.marked rfl rfl rfl

variable {sub : Option Node → Shape} (hsub : ∀ node, InStep (sub node))
include hsub

/-- **Modifiers keep shapes in step.**  Most set marks only; the others rearrange properties or take
    the items of an array. -/
theorem inStep_modifierShape (method : Option String) (receiver : Option Node) (args : List Node)
    (onNamespace : Bool) : InStep (modifierShape sub method receiver args onNamespace) := by
  have harg : InStep (if args.isEmpty then unknown else sub args.head?) := by
    split
    · exact inStep_unknown
    · exact hsub _
  unfold modifierShape
  split
  -- marks and metadata
  case h_1 => exact (hsub _).asOptional true
  case h_2 => exact (hsub _).marked rfl rfl rfl
  case h_3 => exact (hsub _).marked rfl rfl rfl
  case h_4 => split <;> exact (hsub receiver).marked rfl rfl rfl
  case h_5 => split <;> exact (hsub receiver).marked rfl rfl rfl
  case h_6 => split <;> exact (hsub receiver).marked rfl rfl rfl
  case h_7 => exact inStep_withMetadata (hsub receiver) args
  case h_8 => exact inStep_withMetadata (hsub receiver) args
  case h_9 => split <;> exact (hsub receiver).marked rfl rfl rfl
  -- properties, and the list with them
  case h_10 => exact (hsub receiver).allOptional
  case h_11 => exact (hsub receiver).allRequired
  case h_12 => exact inStep_intersect_pair (hsub receiver) harg
  case h_13 => exact inStep_intersect_pair (hsub receiver) harg
  case h_14 => exact inStep_intersect_pair (hsub receiver) harg
  case h_15 => exact (hsub receiver).restrict _ true
  case h_16 => exact (hsub receiver).restrict _ false
  -- the items of an array, or what is no array as it is
  case h_17 =>
    dsimp only
    split
    · rename_i hitems
      exact (hsub receiver).ofItems hitems
    · exact hsub receiver
  case h_18 => exact hsub receiver

/-- The first of several alternatives is in step. -/
theorem inStep_firstMember (arg : Option Node) : InStep (firstMember sub arg) := by
  unfold firstMember
  split
  · split
    · exact inStep_text
    · exact hsub _
  · exact inStep_text

/-- **A method of a builder gives a shape in step**, whatever the method and what it is called on:
    flat shapes for the constructors of primitive types, objects made of properties, arrays of what
    `sub` gives, and otherwise a modifier. -/
theorem inStep_methodShape (definitions : Dict Node) (method : Option String)
    (receiver : Option Node) (args : List Node) :
    InStep (methodShape definitions sub method receiver args) := by
  have harg : InStep (if args.isEmpty then unknown else sub args.head?) := by
    split
    · exact inStep_unknown
    · exact hsub _
  unfold methodShape
  dsimp only
  generalize (receiver.map (isNamespace (Dict.has definitions))).getD false = onNamespace
  split
  · exact inStep_text
  split
  · exact inStep_plain .number
  split
  · exact inStep_plain .boolean
  split
  · split
    · exact inStep_formatted _
    · exact (hsub receiver).marked rfl rfl rfl
  split
  · exact harg
  split
  · exact inStep_unknown
  split
  case h_1 => exact inStep_literalShape args
  case h_2 => exact inStep_enumShape definitions args.head?
  case h_3 => exact inStep_nativeEnumShape definitions args.head?
  case h_4 => split <;> exact inStep_arrayOf (hsub _)
  case h_5 =>
    split
    · split
      · exact inStep_arrayOf inStep_text
      · exact inStep_arrayOf (hsub _)
    · exact inStep_arrayOf inStep_text
  case h_6 => exact inStep_firstMember hsub args.head?
  case h_7 => exact inStep_firstMember hsub args[1]?
  case h_8 => exact hsub receiver
  case h_9 =>
    split
    · exact inStep_unknown
    · exact inStep_intersect_pair (hsub receiver) (hsub _)
  case h_10 =>
    refine inStep_intersect fun s hs => ?_
    obtain ⟨a, -, rfl⟩ := List.mem_map.mp hs
    exact hsub (some a)
  case h_11 => exact harg
  case h_12 => exact inStep_modifierShape hsub method receiver args onNamespace

/-- A property access gives a shape in step. -/
theorem inStep_memberShape (member : Node) : InStep (memberShape sub member) := by
  unfold memberShape
  dsimp only
  split
  · exact inStep_text
  split
  · exact inStep_plain .number
  split
  · exact inStep_plain .boolean
  split
  · rename_i property hproperty
    obtain ⟨name, -, hget⟩ := Option.bind_eq_some_iff.mp hproperty
    exact (hsub member.object?).properties.inside _ (Dict.mem_of_get? hget)
  · exact hsub _

theorem inStep_arrowShape (arrow : Node) : InStep (arrowShape sub arrow) := by
  unfold arrowShape
  split
  · split
    · split
      · exact hsub _
      · exact inStep_unknown
    · exact hsub _
  · exact hsub none

theorem inStep_literalObjectShape (object : Node) : InStep (literalObjectShape sub object) := by
  have hspread : PropertiesInStep (unionOf (object.spreads.map fun s => sub (some s))) := by
    refine propertiesInStep_unionOf fun s hs => ?_
    obtain ⟨spread, -, rfl⟩ := List.mem_map.mp hs
    exact hsub (some spread)
  refine inStep_ofProperties (hspread.putAll fun e he => ?_)
  obtain ⟨p, -, rfl⟩ := List.mem_map.mp he
  exact hsub (some p.2)

theorem inStep_callShape {expand : String → Shape} (hexpand : ∀ name, InStep (expand name))
    (definitions : Dict Node) (call : Node) : InStep (callShape definitions sub expand call) := by
  unfold callShape
  split
  · exact inStep_text
  · split
    · split
      · exact hexpand _
      · exact inStep_text
    · split
      · exact inStep_methodShape hsub definitions _ _ _
      · exact inStep_text

omit hsub

/-- A name stands for its definition, unless that is being read. -/
theorem inStep_expanded {definitions : Dict Node} {levels : Nat} (busy : List String)
    (h : ∀ busy node, InStep (shapeWithin definitions levels busy node)) (name : String) :
    InStep (match Dict.get? definitions name with
      | some target =>
        if busy.contains name then unknown
        else shapeWithin definitions levels (name :: busy) (some target)
      | none => unknown) := by
  split
  · split
    · exact inStep_unknown
    · exact h (name :: busy) _
  · exact inStep_unknown

/-- **Every expression is in step**, whatever its tree and the definitions, however many levels are
    left and whichever names are being read. -/
theorem inStep_shapeWithin (definitions : Dict Node) (levels : Nat) (busy : List String)
    (node : Option Node) : InStep (shapeWithin definitions levels busy node) := by
  induction levels generalizing busy node with
  | zero => exact inStep_text
  | succ levels ih =>
    have hexpand := inStep_expanded busy ih
    rw [shapeWithin]
    dsimp only
    split
    · exact inStep_text
    · split
      · exact hexpand _
      · exact hexpand _
      · exact inStep_literalObjectShape (ih busy) _
      · exact inStep_callShape (ih busy) hexpand definitions _
      · exact inStep_memberShape (ih busy) _
      · exact inStep_arrowShape (ih busy) _
      · exact inStep_text

end Builder

end RouteAtlas.Shape
