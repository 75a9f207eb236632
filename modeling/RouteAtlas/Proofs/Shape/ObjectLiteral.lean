/-
  The last entry of an object literal that gives a name.

  ==== Problem ====

  An object literal has its entries in an order, own properties and spreads mixed, and where two of
  them give the same name the later one stands.  A reading does not follow that order: it lays out all
  spreads first and all own properties over them, each of the two sorts in its own order.

  ==== Program ====

  1. **Entries** - those of a literal, in their order; what one of them gives for a name, and what the
     last one gives (`lastGiven`).

  2. **The reading** - it has for each name what the last entry gives once the spreads are moved to the
     front (`get?_literalObjectShape`).

  3. **The difference** - moving them changes nothing for a name exactly when its own property
     `Stands`: behind the last one, no spread gives the name another shape (`lastGiven_spreadsFirst_iff`).

  ==== The crux ====

  Whether a name is given at all does not depend on the order, so the names are always those of all
  entries.  The order matters for a name only between an own property and the spreads behind it, and
  only behind the last own property of that name.
-/
import RouteAtlas.Proofs.Shape.Required
import RouteAtlas.Proofs.Syntax.Walk

namespace RouteAtlas.Shape.Builder

open Syntax (Node)

/-! ## Entries

An object literal is a list of entries, each of which gives something for some names.  Read as the
language reads it, the last entry that gives anything for a name decides. -/

/-- An entry of an object literal. -/
inductive Entry where
  /-- A property of its own. -/
  | own (name : String) (value : Node)
  /-- All properties of another expression. -/
  | spread (value : Node)

/-- What a child of an object literal enters. -/
def entryOf? (child : Node) : Option Entry :=
  if child.kind == "spread_element" then child.firstNamed?.map .spread
  else child.entry?.map fun (name, value) => .own name value

/-- The entries of an object literal, in their order. -/
def entriesOf (object : Node) : List Entry := object.namedChildren.filterMap entryOf?

namespace Entry

/-- The name and the value of an own property. -/
def own? : Entry → Option (String × Node)
  | .own name value => some (name, value)
  | .spread _ => none

/-- The expression that is spread. -/
def spread? : Entry → Option Node
  | .own _ _ => none
  | .spread value => some value

/-- The entries with all spreads in front. -/
def spreadsFirst (entries : List Entry) : List Entry :=
  (entries.filter fun e => e.spread?.isSome) ++ entries.filter fun e => e.own?.isSome

section

variable (sub : Option Node → Shape) (name : String)

/-- What an entry gives for a name, when `sub` reads expressions. -/
def gives : Entry → Option Shape
  | .own key value => if name = key then some (sub (some value)) else none
  | .spread value => Dict.get? (sub (some value)).properties name

/-- What the last entry gives that gives anything for a name. -/
def lastGiven : List Entry → Option Shape
  | [] => none
  | e :: entries => (lastGiven entries).or (e.gives sub name)

/-- Behind the last own property of a name, no spread gives the name another shape. -/
def Stands (entries : List Entry) : Prop :=
  ∀ (before : List Entry) (value : Node) (after : List Entry),
    entries = before ++ .own name value :: after →
    (∀ value', .own name value' ∉ after) →
    ∀ given, lastGiven sub name after = some given → given = sub (some value)

end

variable {sub : Option Node → Shape} {name : String}

/-- Later entries come first. -/
theorem lastGiven_append (l r : List Entry) :
    lastGiven sub name (l ++ r) = (lastGiven sub name r).or (lastGiven sub name l) := by
  induction l with
  | nil => rw [List.nil_append, lastGiven, Option.or_none]
  | cons e l ih => rw [List.cons_append, lastGiven, lastGiven, ih, Option.or_assoc]

/-- A name is given at all if any entry gives it. -/
theorem isSome_lastGiven_iff {entries : List Entry} :
    (lastGiven sub name entries).isSome ↔ ∃ e ∈ entries, (e.gives sub name).isSome := by
  induction entries with
  | nil => simp [lastGiven]
  | cons e entries ih =>
    rw [lastGiven, Option.isSome_or, Bool.or_eq_true, ih, or_comm]
    simp only [List.mem_cons, exists_eq_or_imp]

/-- Moving the spreads loses no entry. -/
theorem mem_spreadsFirst {entries : List Entry} {e : Entry} :
    e ∈ spreadsFirst entries ↔ e ∈ entries := by
  rw [spreadsFirst, List.mem_append, List.mem_filter, List.mem_filter]
  cases e with
  | own name value => simp [own?, spread?]
  | spread value => simp [own?, spread?]

/-! ### What the own properties give, and what the spreads -/

/-- Among the own properties of a literal the last one of a name decides. -/
theorem lastGiven_filter_own (entries : List Entry) :
    lastGiven sub name (entries.filter fun e => e.own?.isSome) =
      (Dict.get? (entries.filterMap own?).reverse name).map fun value => sub (some value) := by
  induction entries with
  | nil => rfl
  | cons e entries ih =>
    cases e with
    | spread value => exact ih
    | own key value =>
      show (lastGiven sub name (entries.filter _)).or (if name = key then _ else none) =
        (Dict.get? ((key, value) :: entries.filterMap own?).reverse name).map _
      rw [ih, List.reverse_cons, Dict.get?_append, Dict.get?_cons, Option.map_or]
      by_cases hkey : name = key
      · rw [if_pos hkey, if_pos (beq_iff_eq.mpr hkey)]
        rfl
      · rw [if_neg hkey, if_neg fun h => hkey (beq_iff_eq.mp h)]
        rfl

/-- The union of what is spread, over properties that were there before. -/
theorem lastGiven_filter_spread (hsub : ∀ node, (Dict.keys (sub node).properties).Nodup)
    (entries : List Entry) (d : Dict Shape) :
    Dict.get? (((entries.filterMap spread?).map fun value => sub (some value)).foldl
        (fun d s => Dict.putAll d s.properties) d) name =
      (lastGiven sub name (entries.filter fun e => e.spread?.isSome)).or (Dict.get? d name) := by
  induction entries generalizing d with
  | nil => rfl
  | cons e entries ih =>
    cases e with
    | own key value => exact ih d
    | spread value =>
      have hlast : Dict.get? (sub (some value)).properties.reverse name =
          Dict.get? (sub (some value)).properties name := by
        rw [← Dict.get?_ofList, Dict.ofList_eq_self (hsub _)]
      show Dict.get? (List.foldl _ (Dict.putAll d (sub (some value)).properties) _) name =
        ((lastGiven sub name (entries.filter _)).or (gives sub name (.spread value))).or _
      rw [ih, Dict.get?_putAll, hlast, Option.or_assoc]
      rfl

/-! ### Where moving the spreads makes a difference

An own property that a spread comes after is the only thing that can change its place. -/

/-- An own property gives its value for its own name. -/
theorem gives_own_self (value : Node) :
    (Entry.own name value).gives sub name = some (sub (some value)) := if_pos rfl

theorem gives_own_of_ne {key : String} (h : name ≠ key) (value : Node) :
    (Entry.own key value).gives sub name = none := if_neg h

/-- Without an own property of the name, the own properties give nothing for it. -/
theorem lastGiven_filter_own_eq_none {entries : List Entry}
    (h : ∀ value, .own name value ∉ entries) :
    lastGiven sub name (entries.filter fun e => e.own?.isSome) = none := by
  rw [← Option.not_isSome_iff_eq_none, isSome_lastGiven_iff]
  rintro ⟨e, he, hgives⟩
  obtain ⟨hmem, hown⟩ := List.mem_filter.mp he
  cases e with
  | spread value => exact absurd hown Bool.false_ne_true
  | own key value =>
    by_cases hkey : name = key
    · subst hkey
      exact h value hmem
    · rw [gives_own_of_ne hkey] at hgives
      exact absurd hgives Bool.false_ne_true

/-- Without an own property of the name, the order of the two sorts does not matter. -/
theorem lastGiven_filter_spread_of_no_own {entries : List Entry}
    (h : ∀ value, .own name value ∉ entries) :
    lastGiven sub name (entries.filter fun e => e.spread?.isSome) = lastGiven sub name entries := by
  induction entries with
  | nil => rfl
  | cons e entries ih =>
    have hrest := ih fun value hmem => h value (List.mem_cons_of_mem e hmem)
    cases e with
    | spread value =>
      show (lastGiven sub name (entries.filter _)).or _ = (lastGiven sub name entries).or _
      rw [hrest]
    | own key value =>
      have hkey : name ≠ key := by
        rintro rfl
        exact h value List.mem_cons_self
      show lastGiven sub name (entries.filter _) = (lastGiven sub name entries).or _
      rw [hrest, gives_own_of_ne hkey, Option.or_none]

/-- The last own property of a name, if there is one. -/
theorem exists_last_own (name : String) (entries : List Entry) :
    (∀ value, .own name value ∉ entries) ∨
      ∃ before value after, entries = before ++ .own name value :: after ∧
        ∀ value', .own name value' ∉ after := by
  induction entries with
  | nil => exact .inl fun _ => List.not_mem_nil
  | cons e entries ih =>
    rcases ih with hnone | ⟨before, value, after, rfl, hafter⟩
    · by_cases he : ∃ value, e = .own name value
      · obtain ⟨value, rfl⟩ := he
        exact .inr ⟨[], value, entries, rfl, hnone⟩
      · refine .inl fun value hmem => ?_
        rcases List.mem_cons.mp hmem with heq | hmem
        · exact he ⟨value, heq.symm⟩
        · exact hnone value hmem
    · exact .inr ⟨e :: before, value, after, rfl, hafter⟩

/-- With the spreads in front, the last own property of a name decides. -/
theorem lastGiven_spreadsFirst_of_own (before : List Entry) (value : Node) {after : List Entry}
    (hafter : ∀ value', .own name value' ∉ after) :
    lastGiven sub name (spreadsFirst (before ++ .own name value :: after)) =
      some (sub (some value)) := by
  have hown : lastGiven sub name ((before ++ .own name value :: after).filter fun e => e.own?.isSome) =
      some (sub (some value)) := by
    rw [List.filter_append, lastGiven_append, List.filter_cons_of_pos (by rfl), lastGiven,
      lastGiven_filter_own_eq_none hafter, gives_own_self]
    rfl
  rw [spreadsFirst, lastGiven_append, hown]
  rfl

/-- **Moving the spreads to the front** changes nothing for a name exactly when its own property
    stands. -/
theorem lastGiven_spreadsFirst_iff {entries : List Entry} :
    lastGiven sub name (spreadsFirst entries) = lastGiven sub name entries ↔
      Stands sub name entries := by
  have hsplit : ∀ (before : List Entry) (value : Node) (after : List Entry),
      lastGiven sub name (before ++ .own name value :: after) =
        (lastGiven sub name after).or (some (sub (some value))) := by
    intro before value after
    rw [lastGiven_append, lastGiven, gives_own_self, Option.or_assoc]
    rfl
  constructor
  · rintro heq before value after rfl hafter given hgiven
    rw [lastGiven_spreadsFirst_of_own before value hafter, hsplit, hgiven] at heq
    exact (Option.some.inj heq).symm
  · intro hstands
    rcases exists_last_own name entries with hnone | ⟨before, value, after, rfl, hafter⟩
    · rw [spreadsFirst, lastGiven_append, lastGiven_filter_own_eq_none hnone,
        lastGiven_filter_spread_of_no_own hnone]
      rfl
    · rw [lastGiven_spreadsFirst_of_own before value hafter, hsplit]
      cases hgiven : lastGiven sub name after with
      | none => rfl
      | some given =>
        rw [hstands before value after rfl hafter given hgiven]
        rfl

end Entry

open Entry (lastGiven spreadsFirst Stands)

/-! ## Readings of object literals -/

/-- An object literal is one. -/
theorem asObject?_self {object : Node} (hkind : object.kind = "object") :
    object.asObject? = some object := by
  have hunwrap : object.unwrap = some object := by
    rw [Node.unwrap_eq, hkind]
    exact if_neg (by decide)
  rw [Node.asObject?, hunwrap]
  exact if_pos (beq_iff_eq.mpr hkind)

/-- Own properties among the entries are those that the program reads. -/
theorem own?_entryOf? (child : Node) : (entryOf? child).bind Entry.own? = child.entry? := by
  unfold entryOf?
  split
  · rename_i hkind
    have hentry : child.entry? = none := by
      rw [Node.entry?, beq_iff_eq.mp hkind]
      rfl
    rw [hentry]
    cases child.firstNamed? <;> rfl
  · cases child.entry? <;> rfl

/-- What is spread among the entries is what the program spreads. -/
theorem spread?_entryOf? (child : Node) : (entryOf? child).bind Entry.spread? =
    if child.kind == "spread_element" then child.firstNamed? else none := by
  unfold entryOf?
  split
  · cases child.firstNamed? <;> rfl
  · cases child.entry? <;> rfl

/-- The program's table of properties is made of the own ones. -/
theorem properties_eq_ofEntries {object : Node} (hkind : object.kind = "object") :
    object.properties = Dict.ofList ((entriesOf object).filterMap Entry.own?) := by
  rw [Node.properties, asObject?_self hkind, entriesOf, List.filterMap_filterMap]
  simp only [own?_entryOf?]

/-- Its list of spreads is made of the others. -/
theorem spreads_eq_ofEntries {object : Node} (hkind : object.kind = "object") :
    object.spreads = (entriesOf object).filterMap Entry.spread? := by
  rw [Node.spreads, asObject?_self hkind, entriesOf, List.filterMap_filterMap]
  dsimp only
  rw [List.filterMap_filter]
  simp only [spread?_entryOf?]

/-- Changing all values of a table changes what is found in the same way. -/
theorem get?_map_values {α β : Type} (change : α → β) (d : Dict α) (name : String) :
    Dict.get? (d.map fun (k, v) => (k, change v)) name = (Dict.get? d name).map change := by
  induction d with
  | nil => rfl
  | cons entry d ih =>
    rw [List.map_cons, Dict.get?_cons, Dict.get?_cons, ih]
    split <;> rfl

/-- **A literal is read as if its spreads came first.** -/
theorem get?_literalObjectShape {sub : Option Node → Shape}
    (hsub : ∀ node, (Dict.keys (sub node).properties).Nodup) {object : Node}
    (hkind : object.kind = "object") (name : String) :
    Dict.get? (literalObjectShape sub object).properties name =
      lastGiven sub name (spreadsFirst (entriesOf object)) := by
  have hown : Dict.get? (object.properties.map fun (k, v) => (k, sub (some v))).reverse name =
      lastGiven sub name ((entriesOf object).filter fun e => e.own?.isSome) := by
    have hdistinct : (Dict.keys object.properties).Nodup := by
      rw [properties_eq_ofEntries hkind]
      exact Dict.nodup_keys_ofList _
    rw [← List.map_reverse, get?_map_values fun value => sub (some value), ← Dict.get?_ofList,
      Dict.ofList_eq_self hdistinct, properties_eq_ofEntries hkind, Dict.get?_ofList,
      Entry.lastGiven_filter_own]
  show Dict.get? (Dict.putAll (unionOf (object.spreads.map _)) _) name = _
  rw [Dict.get?_putAll, hown, spreads_eq_ofEntries hkind, unionOf,
    Entry.lastGiven_filter_spread hsub, spreadsFirst, Entry.lastGiven_append]
  exact congrArg _ (Option.or_none ..)

/-- **What a literal is read as.**  Its names are those that any entry gives; each of them has the shape
    that the last entry gives once the spreads are moved to the front; and that is the one the last
    entry in the order of the literal gives exactly when no spread behind the last own property of the
    name gives it another shape. -/
theorem literal_properties (definitions : Dict Node) (levels : Nat) (busy : List String)
    {node : Option Node} {object : Node} (hnode : node.bind Node.unwrap = some object)
    (hkind : object.kind = "object") :
    let sub := shapeWithin definitions levels busy
    let shape := shapeWithin definitions (levels + 1) busy node
    shape.kind = .object ∧ ∀ name,
      (name ∈ Dict.keys shape.properties ↔ ∃ e ∈ entriesOf object, (e.gives sub name).isSome) ∧
      Dict.get? shape.properties name = lastGiven sub name (spreadsFirst (entriesOf object)) ∧
      (Dict.get? shape.properties name = lastGiven sub name (entriesOf object) ↔
        Stands sub name (entriesOf object)) := by
  intro sub shape
  have hshape : shape = literalObjectShape sub object := by
    show shapeWithin definitions (levels + 1) busy node = _
    rw [shapeWithin, hnode]
    dsimp only
    rw [hkind]
    rfl
  have hget : ∀ name, Dict.get? shape.properties name =
      lastGiven sub name (spreadsFirst (entriesOf object)) := by
    intro name
    rw [hshape]
    exact get?_literalObjectShape
      (fun node => (inStep_shapeWithin definitions levels busy node).properties.distinct) hkind name
  refine ⟨hshape ▸ rfl, fun name => ⟨?_, hget name, ?_⟩⟩
  · rw [← Dict.has_iff]
    show (Dict.get? shape.properties name).isSome ↔ _
    rw [hget, Entry.isSome_lastGiven_iff]
    simp only [Entry.mem_spreadsFirst]
  · rw [hget]
    exact Entry.lastGiven_spreadsFirst_iff

namespace Overridden

open Syntax.Node (branch leaf calling)

/-- A builder without arguments. -/
def built (name : String) : Node := { calling (leaf "identifier" "" "z") name [] with role := "value" }

/-- An identifier that a builder makes. -/
def id (builder : String) : Node :=
  branch "pair" "" "" [leaf "property_identifier" "key" "id", built builder]

/-- What the base has. -/
def base : Node := branch "spread_element" "" "" [leaf "identifier" "" "base"]

/-- The identifier of the base is a number. -/
def definitions : Dict Node := [("base", branch "object" "" "" [id "number"])]

/-- The base, then an identifier that is a text. -/
def ownLast : Node := branch "object" "" "" [base, id "string"]

/-- An identifier that is a text, then the base. -/
def spreadLast : Node := branch "object" "" "" [id "string", base]

end Overridden

/-- An own identifier behind the base stands, one in front of it does not. -/
theorem literal_properties_base :
    Stands (shapeWithin Overridden.definitions 12 []) "id" (entriesOf Overridden.ownLast) ∧
      ¬ Stands (shapeWithin Overridden.definitions 12 []) "id" (entriesOf Overridden.spreadLast) := by
  have hown := @literal_properties Overridden.definitions 12 [] (some Overridden.ownLast)
    Overridden.ownLast rfl rfl
  have hspread := @literal_properties Overridden.definitions 12 [] (some Overridden.spreadLast)
    Overridden.spreadLast rfl rfl
  refine ⟨(hown.2 "id").2.2.mp rfl, fun hstands => ?_⟩
  have hkinds := congrArg (Option.map Shape.kind) ((hspread.2 "id").2.2.mpr hstands)
  exact absurd hkinds (by decide +kernel)

/-- A spread that comes last gives the identifier a number, but the shape has a text. -/
theorem spread_last_ignored :
    (Dict.get? (shapeOf Overridden.definitions (some Overridden.spreadLast)).properties "id").map
        Shape.kind = some .string ∧
      (lastGiven (shapeWithin Overridden.definitions (maxLevels - 1) []) "id"
        (entriesOf Overridden.spreadLast)).map Shape.kind = some .number := by
  decide +kernel

end RouteAtlas.Shape.Builder
