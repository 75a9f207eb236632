/-
  Examples have the form of their shapes.

  ==== Problem ====

  Where a shape says nothing of its values, an example of it is made up: from the kinds of shape, from
  formats, and from the names that values stand under.  A shape may be deeper than an example goes, and
  a name may stand for a variable that requests share, whatever is expected there.

  ==== Program ====

  1. **Specification** - `Conforms levels name shape value`: the value has the form of the shape that
     stands under the name, for as many levels down.  Below these there are texts only.

  2. **Leaves** - what is made up for a primitive is the shared reference if its name stands for one,
     and else a value of its kind (`fits_primitive`, `fits_formatted`).

  3. **Objects** - their fields are the properties in order, each with its own example
     (`listed_ofProperties`).

  4. **All levels** - so every example conforms (`conforms_ofShapeAt`), and what conforms nests no
     deeper than its levels (`nesting_of_conforms`).

  ==== The crux ====

  The levels that are left are the measure of everything: of the example, of what it is compared with
  and of the depth.  The shape is not; where the levels end it may go on.
-/
import RouteAtlas.Proofs.Collection.Leaf
import RouteAtlas.Proofs.Persisted.Success
import RouteAtlas.Proofs.Text.Order

namespace RouteAtlas

/-! ## Depth of values

How deep lists and objects are nested in a value.  The bound on examples is stated in these terms,
since a document has no shape to count the levels of. -/

namespace Json

mutual
/-- The number of lists and objects that stand one inside the other. -/
def nesting : Json → Nat
  | .arr items => nestingAmong items + 1
  | .obj fields => nestingOfFields fields + 1
  | _ => 0
/-- The nesting of the deepest of several values. -/
def nestingAmong : List Json → Nat
  | [] => 0
  | value :: rest => max (nesting value) (nestingAmong rest)
/-- The nesting of the deepest field. -/
def nestingOfFields : List (String × Json) → Nat
  | [] => 0
  | (_, value) :: rest => max (nesting value) (nestingOfFields rest)
end

/-- Fields are no deeper than some bound if each of them is not. -/
theorem nestingOfFields_le_iff {fields : List (String × Json)} {n : Nat} :
    nestingOfFields fields ≤ n ↔ ∀ f ∈ fields, f.2.nesting ≤ n := by
  induction fields with
  | nil => simp [nestingOfFields]
  | cons f fields ih => simp only [nestingOfFields, List.forall_mem_cons, ← ih, Nat.max_le]

/-- The values that stand inside as many lists and objects. -/
def atDepth : Nat → Json → List Json
  | 0, value => [value]
  | n + 1, .arr items => items.flatMap (atDepth n)
  | n + 1, .obj fields => fields.flatMap fun f => atDepth n f.2
  | _ + 1, _ => []

end Json

/-! ## Form

What an example has to look like, as a recursion over the levels and the shape and without reference
to how it is made: which fields there are, in which order, and what may stand at a leaf. -/

/-- No part of a shape has a sample or lists its values. -/
inductive Shape.Unsampled : Shape → Prop
  | mk {shape : Shape} : shape.sample = .null → shape.values = [] →
      (∀ p ∈ shape.properties, Unsampled p.2) → (∀ items, shape.items = some items → Unsampled items) →
      Unsampled shape

namespace Example

/-- The value fits where a primitive stands under a name. -/
inductive Fits (name : String) : Shape.Kind → Json → Prop
  /-- A name that stands for a shared variable has a reference to it, whatever the kind. -/
  | shared {kind : Shape.Kind} {v : String} : shared? name = some v →
      Fits name kind (.str (reference v))
  | number (n : Int) : shared? name = none → Fits name .number (.int n)
  | boolean : shared? name = none → Fits name .boolean (.bool false)
  | text {kind : Shape.Kind} (text : String) : shared? name = none → kind ≠ .number →
      kind ≠ .boolean → Fits name kind (.str text)

/-- The first of two names of properties may stand before the second. -/
inductive Precedes (required : List String) (a b : String) : Prop
  | required (ha : a ∈ required) (hb : b ∉ required)
  | byName (h : a ∈ required ↔ b ∈ required) (hname : Text.textLe a b = true)

/-- These are the properties of an object: the required ones first, each group by name. -/
structure Listed (shape : Shape) (properties : List (String × Shape)) : Prop where
  perm : properties.Perm shape.properties
  ordered : (properties.map (·.1)).Pairwise (Precedes shape.required)

/-- The value has the form of a shape that stands under a name, for as many levels down; what stands
    further down is a text. -/
def Conforms : (levels : Nat) → (name : String) → Shape → Json → Prop
  | 0, name, _, value => Fits name .string value
  | levels + 1, name, shape, value =>
    match shape.kind with
    | .object => ∃ properties fields, Listed shape properties ∧ value = .obj fields ∧
        List.Forall₂ (fun (f : String × Json) (p : String × Shape) =>
          f.1 = p.1 ∧ Conforms levels p.1 p.2 f.2) fields properties
    | .array => ∃ item, value = .arr [item] ∧
        match shape.items with
        | some items => Conforms levels "item" items item
        | none => ∃ text, item = .str text
    | kind => Fits name kind value

/-! ## Leaves

A leaf is guessed from its name and kind.  Whatever is guessed has the kind that was asked for. -/

/-- **What is guessed fits** the name and the kind. -/
theorem fits_primitive (name : String) (kind : Shape.Kind) (place : Place) :
    Fits name kind (primitive name kind.word place) := by
  cases hshared : shared? name with
  | some v =>
    rw [primitive_of_shared hshared]
    exact .shared hshared
  | none =>
    have hnone := hshared
    rw [shared?] at hnone
    rw [primitive, hnone]
    cases kind with
    | number => exact .number _ hshared
    | boolean => exact .boolean hshared
    | _ => exact .text _ hshared (by decide) (by decide)

/-- A text of some format fits where a text is expected. -/
theorem fits_formatted {name : String} {format : Option String} {text : String}
    (h : formattedText? name format = some text) : Fits name .string (.str text) := by
  cases hshared : shared? name with
  | some v =>
    rw [formattedText?_of_shared hshared h]
    exact .shared hshared
  | none => exact .text text hshared (by decide) (by decide)

/-- What fits at a leaf is no list and no object. -/
theorem Fits.nesting_eq {name : String} {kind : Shape.Kind} {value : Json} (h : Fits name kind value) :
    value.nesting = 0 := by
  cases h <;> rfl

/-- What fits is a text, unless a number or a truth value is expected. -/
theorem Fits.isText {name : String} {kind : Shape.Kind} {value : Json} (h : Fits name kind value)
    (hnumber : kind ≠ .number) (hboolean : kind ≠ .boolean) : ∃ text, value = .str text := by
  cases h with
  | shared _ => exact ⟨_, rfl⟩
  | number _ _ => exact absurd rfl hnumber
  | boolean _ => exact absurd rfl hboolean
  | text text _ _ _ => exact ⟨text, rfl⟩

/-! ## Objects

The program sorts the fields of an object; the order is that of the properties, required ones first. -/

/-- The group of a property: the required ones come first. -/
def groupOf (required : List String) (name : String) : Nat := if required.contains name then 0 else 1

/-- The order of the fields is a sort by group and then by name. -/
theorem inOrder_eq (required : List String) (fields : List (String × Json)) :
    inOrder required fields
      = fields.mergeSort fun a b => Text.placeLe (groupOf required) a.1 b.1 := by
  unfold inOrder
  congr 1
  funext a b
  unfold Text.placeLe groupOf
  cases required.contains a.1 <;> cases required.contains b.1 <;> rfl

/-- What the sort puts first may stand first. -/
theorem precedes_of_placeLe {required : List String} {a b : String}
    (h : Text.placeLe (groupOf required) a b = true) : Precedes required a b := by
  rw [Text.placeLe_iff, groupOf, groupOf] at h
  by_cases ha : a ∈ required <;> by_cases hb : b ∈ required <;> simp [ha, hb] at h
  · exact .byName (iff_of_true ha hb) h
  · exact .required ha hb
  · exact .byName (iff_of_false ha hb) h

/-- Each property gives one field. -/
theorem ofProperties_eq_map (levels : Nat) (properties : List (String × Shape)) :
    ofProperties levels properties = properties.map fun p => (p.1, ofShapeAt p.1 levels p.2) := by
  induction properties with
  | nil => rfl
  | cons p rest ih => rw [ofProperties, List.map_cons, ih]

/-- **The fields of an example** are those of the properties in order. -/
theorem listed_ofProperties (levels : Nat) (shape : Shape) :
    ∃ properties, Listed shape properties ∧
      inOrder shape.required (ofProperties levels shape.properties)
        = properties.map fun p => (p.1, ofShapeAt p.1 levels p.2) := by
  refine ⟨shape.properties.mergeSort fun a b => Text.placeLe (groupOf shape.required) a.1 b.1,
    ⟨List.mergeSort_perm .., ?_⟩, ?_⟩
  · rw [List.pairwise_map]
    have hsorted := @List.pairwise_mergeSort (String × Shape)
      (fun a b => Text.placeLe (groupOf shape.required) a.1 b.1)
      (fun _ _ _ => Text.placeLe_trans) (fun _ _ => Text.placeLe_total ..) shape.properties
    exact hsorted.imp precedes_of_placeLe
  · rw [inOrder_eq, ofProperties_eq_map]
    refine (List.map_mergeSort ?_).symm
    exact fun _ _ _ _ => rfl

/-! ## All levels

By induction on the levels that are left, for every name and shape at once. -/

/-- **The example of a shape has its form**, on every level.  The induction is on the levels, as the
    example goes down: a field or an item is one level below, and where no level is left the example
    is a text whatever the shape. -/
theorem conforms_ofShapeAt {levels : Nat} {name : String} {shape : Shape} (h : shape.Unsampled) :
    Conforms levels name shape (ofShapeAt name levels shape) := by
  induction levels generalizing name shape with
  | zero =>
    rw [ofShapeAt]
    exact fits_primitive name .string .body
  | succ levels ih =>
    obtain ⟨hsample, hvalues, hproperties, hitems⟩ := h
    have hlisted := listed_ofProperties levels shape
    obtain ⟨kind, properties, required, items, values, sample, _, _, format, _⟩ := shape
    dsimp only at hsample hvalues hproperties hitems hlisted
    subst hsample hvalues
    cases kind with
    -- the fields in order, each one level further down
    | object =>
      obtain ⟨ordered, hordered, hfields⟩ := hlisted
      refine ⟨ordered, _, hordered, congrArg Json.obj hfields, ?_⟩
      rw [List.forall₂_map_left_iff, List.forall₂_same]
      exact fun p hp => ⟨rfl, ih (hproperties p (hordered.perm.mem_iff.mp hp))⟩
    -- a list has one item, of the shape of the items, or a text when nothing is known of them
    | array =>
      refine ⟨_, rfl, ?_⟩
      cases items with
      | some items => exact ih (hitems items rfl)
      | none =>
        exact (fits_primitive "item" .string .body).isText (by decide) (by decide)
    | string =>
      show Fits name .string _
      rw [ofShapeAt]
      split
      · rename_i text htext
        exact fits_formatted htext
      · exact fits_primitive name .string .body
    | number => exact fits_primitive name .number .body
    | boolean => exact fits_primitive name .boolean .body
    | choice => exact fits_primitive name .choice .body

/-- Nothing stands inside a leaf. -/
theorem Fits.atDepth_succ {name : String} {kind : Shape.Kind} {value : Json}
    (h : Fits name kind value) (n : Nat) : value.atDepth (n + 1) = [] := by
  cases h <;> rfl

/-- **What conforms to a shape** nests no deeper than its levels, and at the last of them there are
    only texts. -/
theorem nesting_of_conforms {levels : Nat} {name : String} {shape : Shape} {value : Json}
    (h : Conforms levels name shape value) :
    value.nesting ≤ levels ∧ ∀ v ∈ value.atDepth levels, ∃ text, v = .str text := by
  induction levels generalizing name shape value with
  | zero =>
    have hfits : Fits name .string value := h
    refine ⟨Nat.le_of_eq hfits.nesting_eq, fun v hv => ?_⟩
    obtain rfl := List.mem_singleton.mp hv
    exact hfits.isText (by decide) (by decide)
  | succ levels ih =>
    rw [Conforms.eq_def] at h
    dsimp only at h
    split at h
    · -- an object
      obtain ⟨properties, fields, -, rfl, hfields⟩ := h
      have hdeep : ∀ f ∈ fields, f.2.nesting ≤ levels ∧
          ∀ v ∈ f.2.atDepth levels, ∃ text, v = .str text := by
        intro f hf
        obtain ⟨p, -, -, hconforms⟩ := Persisted.exists_of_forall₂_left hfields hf
        exact ih hconforms
      refine ⟨?_, fun v hv => ?_⟩
      · rw [Json.nesting, Nat.add_le_add_iff_right, Json.nestingOfFields_le_iff]
        exact fun f hf => (hdeep f hf).1
      · obtain ⟨f, hf, hv⟩ := List.mem_flatMap.mp hv
        exact (hdeep f hf).2 v hv
    · -- an array
      obtain ⟨item, rfl, hitem⟩ := h
      have hdeep : item.nesting ≤ levels ∧ ∀ v ∈ item.atDepth levels, ∃ text, v = .str text := by
        split at hitem
        · exact ih hitem
        · obtain ⟨text, rfl⟩ := hitem
          refine ⟨Nat.zero_le levels, fun v hv => ?_⟩
          cases levels with
          | zero => exact ⟨text, List.mem_singleton.mp hv⟩
          | succ levels => exact absurd hv List.not_mem_nil
      refine ⟨?_, fun v hv => ?_⟩
      · rw [Json.nesting, Json.nestingAmong, Json.nestingAmong, Nat.max_zero]
        exact Nat.succ_le_succ hdeep.1
      · obtain ⟨i, hi, hinner⟩ := List.mem_flatMap.mp hv
        obtain rfl := List.mem_singleton.mp hi
        exact hdeep.2 v hinner
    · -- a primitive
      rename_i hfits
      rw [h.nesting_eq, h.atDepth_succ]
      exact ⟨Nat.zero_le _, fun _ hv => absurd hv List.not_mem_nil⟩

/-- **An example has the form of its shape.**  Where no part of the shape has a sample or lists its
    values, the first seven levels of the example are as the shape says, whatever stands below them in
    the example is a text, and nothing nests deeper than seven levels. -/
theorem conforms_ofShape (shape : Shape) (h : shape.Unsampled) :
    Conforms 7 "" shape (ofShape shape) ∧
    (∀ v ∈ (ofShape shape).atDepth 7, ∃ text, v = .str text) ∧ (ofShape shape).nesting ≤ 7 := by
  have hconforms : Conforms 7 "" shape (ofShape shape) := conforms_ofShapeAt h
  obtain ⟨hnesting, htexts⟩ := nesting_of_conforms hconforms
  exact ⟨hconforms, htexts, hnesting⟩

/-- Lists in lists, and numbers in the innermost. -/
def nestedLists (n : Nat) : Shape := n.repeat Shape.arrayOf (.plain .number)

/-- Lists in lists have no samples. -/
theorem unsampled_nestedLists (n : Nat) : (nestedLists n).Unsampled := by
  induction n with
  | zero =>
    exact .mk rfl rfl (fun _ hp => absurd hp List.not_mem_nil)
      fun _ h => absurd h.symm (Option.some_ne_none _)
  | succ n ih =>
    refine .mk rfl rfl (fun _ hp => absurd hp List.not_mem_nil) fun items h => ?_
    rw [← Option.some.inj h]
    exact ih

/-- An object with a shared name, a guessed one that may be left out, and a list that goes on below
    the levels of an example. -/
def orderShape : Shape :=
  .ofProperties [("limit", (Shape.plain .number).asOptional true), ("userId", .formatted "uuid"),
    ("parts", nestedLists 9)]

/-- The example of an order has three fields in this order, and a list of one item. -/
theorem conforms_ofShape_order : orderShape.Unsampled ∧ Conforms 7 "" orderShape (ofShape orderShape) ∧
    (∀ v ∈ (ofShape orderShape).atDepth 7, ∃ text, v = .str text) ∧
    (ofShape orderShape).nesting ≤ 7 := by
  have horder : orderShape.Unsampled := by
    refine .mk rfl rfl (fun p hp => ?_) (fun _ h => absurd h.symm (Option.some_ne_none _))
    have hleaf : ∀ {shape : Shape}, shape.sample = .null → shape.values = [] →
        shape.properties = [] → shape.items = none → shape.Unsampled := by
      intro shape hsample hvalues hproperties hitems
      refine .mk hsample hvalues (fun p hp => ?_) fun items h => ?_
      · exact absurd (hproperties ▸ hp) List.not_mem_nil
      · exact absurd (h.symm.trans hitems) (Option.some_ne_none _)
    rcases List.mem_cons.mp hp with rfl | hp
    · exact hleaf rfl rfl rfl rfl
    rcases List.mem_cons.mp hp with rfl | hp
    · exact hleaf rfl rfl rfl rfl
    · obtain rfl := List.mem_singleton.mp hp
      exact unsampled_nestedLists 9
  exact ⟨horder, conforms_ofShape orderShape horder⟩

-- the numbers are too deep
example : ofShape (nestedLists 7) = .arr [.arr [.arr [.arr [.arr [.arr [.arr [.str "string"]]]]]]] := rfl

end Example

end RouteAtlas
