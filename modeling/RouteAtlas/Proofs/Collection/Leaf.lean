/-
  What examples are made of, and what is made up in them.

  ==== Problem ====

  Some of the values in an example are the shape's own: its sample, or the first of its listed values.
  All others are guessed from the name they stand under, and a guess may be a reference to a variable
  that requests share.  What is referred to that way should be known from the names alone.

  ==== Program ====

  1. **Leaves** - `Example.leaves` lists what an example is put together from; its texts are those of
     the leaves (`texts_ofShape`), whatever order properties are written in.

  2. **Guesses** - a guess is the reference to a shared variable, if its name is one of those that
     stand for it (`shared?`), and else it has no brace in it.

  3. **References** - `RefersTo`: the text has the reference in it.  In a text with one reference only
     that one is found (`braced_infix_unique`).

  ==== The crux ====

  Braces are all there is to count: a reference has two on either side, and where no others are there is
  one place for it.
-/
import Mathlib.Data.List.Count
import Mathlib.Data.List.Infix
import RouteAtlas.Collection.Example
import RouteAtlas.Proofs.Json.Dictionary

namespace RouteAtlas

/-! ## Texts of values

What a user reads in a value: the texts at its leaves, on whatever level.  References are looked for
among these. -/

namespace Json

mutual
/-- The texts in a value. -/
def texts : Json → List String
  | .str s => [s]
  | .arr items => textsAmong items
  | .obj fields => textsOfFields fields
  | _ => []
/-- The texts in several values. -/
def textsAmong : List Json → List String
  | [] => []
  | value :: rest => texts value ++ textsAmong rest
/-- The texts in the fields of an object. -/
def textsOfFields : List (String × Json) → List String
  | [] => []
  | (_, value) :: rest => texts value ++ textsOfFields rest
end

/-- A text is in the fields of an object if it is in one of them. -/
theorem mem_textsOfFields {text : String} {fields : List (String × Json)} :
    text ∈ textsOfFields fields ↔ ∃ f ∈ fields, text ∈ f.2.texts := by
  induction fields with
  | nil => simp [textsOfFields]
  | cons f fields ih => simp [textsOfFields, ih]

end Json

namespace Example

/-! ## Leaves

The places of an example where a text can stand, listed by the same recursion that makes the
example. What is said of all texts in an example is said leaf by leaf. -/

/-- What stands at one place of an example. -/
inductive Leaf where
  /-- What the shape says itself. -/
  | given (value : Json)
  /-- What is guessed from a name. -/
  | guessed (name type : String) (format : Option String)

/-- The value at a leaf. -/
def Leaf.value : Leaf → Json
  | .given value => value
  | .guessed name type format =>
    match formattedText? name format with
    | some text => .str text
    | none => primitive name type .body

/-- The name that is guessed from, if it is. -/
def Leaf.name? : Leaf → Option String
  | .given _ => none
  | .guessed name _ _ => some name

/-- The texts that are guessed. -/
def Leaf.guessedTexts : Leaf → List String
  | .given _ => []
  | leaf => leaf.value.texts

mutual
/-- The leaves of the example of a shape that stands under `name`. -/
def leavesAt (name : String) : (levels : Nat) → Shape → List Leaf
  | 0, _ => [.guessed name "string" none]
  | levels + 1, ⟨kind, properties, _, items, values, sample, _, _, format, _⟩ =>
    match sample with
    | .null =>
      match values with
      | value :: _ => [.given value]
      | [] =>
        match kind with
        | .object => leavesOfProperties levels properties
        | .array => leavesOfItems levels items
        | .string => [.guessed name "string" format]
        | kind => [.guessed name kind.word none]
    | sample => [.given sample]
/-- The leaves of properties. -/
def leavesOfProperties (levels : Nat) : List (String × Shape) → List Leaf
  | [] => []
  | (name, shape) :: rest => leavesAt name levels shape ++ leavesOfProperties levels rest
/-- The leaves of an array's item. -/
def leavesOfItems (levels : Nat) : Option Shape → List Leaf
  | some shape => leavesAt "item" levels shape
  | none => [.guessed "item" "string" none]
end

/-- The leaves of the example of a shape. -/
def leaves (shape : Shape) : List Leaf := leavesAt "" maxLevels shape

/-- The texts of a value are those of leaves. -/
def MadeOf (value : Json) (leaves : List Leaf) : Prop :=
  ∀ text, text ∈ value.texts ↔ ∃ leaf ∈ leaves, text ∈ leaf.value.texts

/-- The value at a leaf is made of that leaf. -/
theorem madeOf_leaf {value : Json} {leaf : Leaf} (h : value = leaf.value) : MadeOf value [leaf] := by
  intro text
  rw [h]
  constructor
  · exact fun ht => ⟨leaf, List.mem_singleton_self leaf, ht⟩
  · rintro ⟨other, hother, ht⟩
    obtain rfl := List.mem_singleton.mp hother
    exact ht

/-- The order of properties does not matter. -/
theorem madeOf_inOrder {required : List String} {fields : List (String × Json)} {leaves : List Leaf}
    (h : MadeOf (.obj fields) leaves) : MadeOf (.obj (inOrder required fields)) leaves := by
  intro text
  rw [← h text]
  show text ∈ Json.textsOfFields (inOrder required fields) ↔ text ∈ Json.textsOfFields fields
  rw [Json.mem_textsOfFields, Json.mem_textsOfFields, inOrder]
  simp only [List.mem_mergeSort]

section

variable {levels : Nat} (h : ∀ name shape, MadeOf (ofShapeAt name levels shape)
  (leavesAt name levels shape))
include h

/-- An object is made of the leaves of its properties. -/
theorem madeOf_ofProperties (properties : List (String × Shape)) :
    MadeOf (.obj (ofProperties levels properties)) (leavesOfProperties levels properties) := by
  intro text
  show text ∈ Json.textsOfFields _ ↔ _
  induction properties with
  | nil => simp [ofProperties, leavesOfProperties, Json.textsOfFields]
  | cons property rest ih =>
    obtain ⟨name, shape⟩ := property
    simp only [ofProperties, leavesOfProperties, Json.textsOfFields, List.mem_append, ih,
      h name shape text, or_and_right, exists_or]

/-- A list is made of the leaves of its item. -/
theorem madeOf_ofItems (items : Option Shape) :
    MadeOf (.arr [ofItems levels items]) (leavesOfItems levels items) := by
  have hone : ∀ {value : Json} {leaves : List Leaf}, MadeOf value leaves →
      MadeOf (.arr [value]) leaves := by
    intro value leaves hvalue text
    rw [← hvalue text]
    show text ∈ value.texts ++ [] ↔ text ∈ value.texts
    rw [List.append_nil]
  cases items with
  | none => exact hone (madeOf_leaf rfl)
  | some shape => exact hone (h "item" shape)

end

/-- An example is made of its leaves, on every level. -/
theorem madeOf_ofShapeAt (levels : Nat) (name : String) (shape : Shape) :
    MadeOf (ofShapeAt name levels shape) (leavesAt name levels shape) := by
  induction levels generalizing name shape with
  | zero =>
    rw [ofShapeAt, leavesAt]
    exact madeOf_leaf rfl
  | succ levels ih =>
    obtain ⟨kind, properties, required, items, values, sample, _, _, format, _⟩ := shape
    cases sample with
    | null =>
      cases values with
      | cons value rest => exact madeOf_leaf rfl
      | nil =>
        cases kind with
        | object => exact madeOf_inOrder (madeOf_ofProperties ih properties)
        | array => exact madeOf_ofItems ih items
        | _ => exact madeOf_leaf rfl
    | _ => exact madeOf_leaf rfl

/-- **The texts of an example** are those of its leaves. -/
theorem texts_ofShape (shape : Shape) : MadeOf (ofShape shape) (leaves shape) :=
  madeOf_ofShapeAt maxLevels "" shape

/-! ## Guesses

A name stands for a shared variable or for none.  In the first case the guess is a reference to it;
in the second one there is no brace in it. -/

/-- There is no brace in the text. -/
def Unbraced (text : String) : Prop := '\x7b' ∉ text.toList ∧ '\x7d' ∉ text.toList

instance (text : String) : Decidable (Unbraced text) := inferInstanceAs (Decidable (_ ∧ _))

/-- The shared variable that a name stands for. -/
def shared? (name : String) : Option String :=
  Dict.get? references (String.ofList (lookupKey name))

/-- What a name stands for is one of the shared variables. -/
theorem mem_sharedVariables_of_shared? {name v : String} (h : shared? name = some v) :
    v ∈ sharedVariables := by
  have hall : ∀ e ∈ references, e.2 ∈ sharedVariables := by decide
  exact hall _ (Dict.mem_of_get? h)

/-- A name that stands for a variable is guessed to be a reference to it, whatever its kind. -/
theorem primitive_of_shared {name v : String} (h : shared? name = some v) (type : String)
    (place : Place) : primitive name type place = .str (reference v) := by
  rw [shared?] at h
  rw [primitive, h]

/-- A text that is guessed has no brace in it. -/
theorem unbraced_textFor (key : List Char) (place : Place) : Unbraced (textFor key place) := by
  unfold textFor
  dsimp only
  repeat' split
  all_goals decide

theorem unbraced_numberFor (key : List Char) : Unbraced (urlText (.int (numberFor key))) := by
  unfold numberFor
  dsimp only
  repeat' split
  all_goals decide +kernel

/-- What is guessed from a name that stands for nothing has no brace in it. -/
theorem unbraced_primitive {name : String} (h : shared? name = none) (type : String) (place : Place) :
    Unbraced (urlText (primitive name type place)) ∧
      ∀ text ∈ (primitive name type place).texts, Unbraced text := by
  rw [shared?] at h
  rw [primitive, h]
  dsimp only
  split
  · exact ⟨unbraced_numberFor _, fun _ ht => absurd ht List.not_mem_nil⟩
  split
  · exact ⟨by decide, fun _ ht => absurd ht List.not_mem_nil⟩
  · refine ⟨unbraced_textFor _ place, fun text ht => ?_⟩
    obtain rfl := List.mem_singleton.mp ht
    exact unbraced_textFor _ place

/-- A text of some format is the reference, too. -/
theorem formattedText?_of_shared {name v : String} (h : shared? name = some v)
    {format : Option String} {text : String} (htext : formattedText? name format = some text) :
    text = reference v := by
  rw [formattedText?, ← shared?, h] at htext
  split at htext
  · cases htext
  · exact (Option.some.inj htext).symm

/-- Without a shared variable it has no brace in it. -/
theorem unbraced_formattedText? {name : String} (h : shared? name = none)
    {format : Option String} {text : String} (htext : formattedText? name format = some text) :
    Unbraced text := by
  have hall : ∀ e ∈ formatted, Unbraced e.2 := by decide
  rw [formattedText?, ← shared?, h] at htext
  split at htext
  · cases htext
  · rename_i found hfound
    obtain ⟨name, -, hget⟩ := Option.bind_eq_some_iff.mp hfound
    obtain rfl := Option.some.inj htext
    exact hall _ (Dict.mem_of_get? hget)

/-- **A guess is a reference** to the shared variable its name stands for. -/
theorem texts_of_shared {name v : String} (h : shared? name = some v) (type : String)
    (format : Option String) : (Leaf.guessed name type format).value.texts = [reference v] := by
  rw [Leaf.value]
  split
  · rename_i text htext
    rw [formattedText?_of_shared h htext]
    rfl
  · rw [primitive_of_shared h]
    rfl

/-- No text at a leaf has a brace in it if its name stands for nothing. -/
theorem unbraced_of_guessed {name : String} (h : shared? name = none) (type : String)
    (format : Option String) :
    ∀ text ∈ (Leaf.guessed name type format).value.texts, Unbraced text := by
  rw [Leaf.value]
  split
  · rename_i text htext
    intro other hother
    obtain rfl := List.mem_singleton.mp hother
    exact unbraced_formattedText? h htext
  · exact (unbraced_primitive h type .body).2

/-! ## References

A reference is a name in double braces.  Where a text has no other braces, it refers to that name
only. -/

/-- A name in two braces on either side. -/
def braced (name : List Char) : List Char := '\x7b' :: '\x7b' :: (name ++ ['\x7d', '\x7d'])

/-- **There is one reference** where there are no braces besides.

    Counting braces says that nothing before the first and nothing in the name is one, and then both
    sides are compared from their first brace on. -/
theorem braced_infix_unique {front name name' : List Char}
    (hfront : '\x7b' ∉ front ∧ '\x7d' ∉ front) (hname : '\x7b' ∉ name ∧ '\x7d' ∉ name)
    (h : braced name' <:+: front ++ braced name) : name' = name := by
  obtain ⟨before, after, heq⟩ := h
  have hopen := congrArg (List.count '\x7b') heq
  have hclose := congrArg (List.count '\x7d') heq
  simp only [braced, List.count_append, List.count_cons, List.count_nil,
    List.count_eq_zero.mpr hfront.1, List.count_eq_zero.mpr hfront.2,
    List.count_eq_zero.mpr hname.1, List.count_eq_zero.mpr hname.2] at hopen hclose
  have hbefore : '\x7b' ∉ before := List.count_eq_zero.mp (by simp at hopen; omega)
  have hname' : '\x7d' ∉ name' := List.count_eq_zero.mp (by simp at hclose; omega)
  -- both sides from their first brace on
  have hskip : ∀ {front rest : List Char}, '\x7b' ∉ front →
      (front ++ '\x7b' :: rest).dropWhile (· != '\x7b') = '\x7b' :: rest := by
    intro front rest hnone
    rw [List.dropWhile_append_of_pos fun c hc => bne_iff_ne.mpr (ne_of_mem_of_not_mem hc hnone)]
    rfl
  have hname_of : ∀ {name rest : List Char}, '\x7d' ∉ name →
      (name ++ '\x7d' :: rest).takeWhile (· != '\x7d') = name := by
    intro name rest hnone
    rw [List.takeWhile_append_of_pos fun c hc => bne_iff_ne.mpr (ne_of_mem_of_not_mem hc hnone)]
    exact List.append_nil _
  have hrest := congrArg (List.dropWhile (· != '\x7b')) heq
  rw [List.append_assoc, braced, braced, List.cons_append, hskip hbefore, hskip hfront.1] at hrest
  simp only [List.cons_append, List.cons.injEq, true_and, List.append_assoc] at hrest
  rw [← hname_of hname', hrest, hname_of hname.2]

/-- The text has a reference to the variable in it. -/
def RefersTo (text name : String) : Prop := (reference name).toList <:+: text.toList

/-- A reference, character by character. -/
theorem toList_reference_eq_braced (name : String) : (reference name).toList = braced name.toList := by
  rw [reference, String.toList_append, String.toList_append]
  rfl

/-- A text without braces has no reference in it, however written. -/
theorem Unbraced.notInfix_braced {text : String} (h : Unbraced text) (name : List Char) :
    ¬braced name <:+: text.toList := fun hin => h.1 (hin.subset List.mem_cons_self)

end Example

end RouteAtlas
