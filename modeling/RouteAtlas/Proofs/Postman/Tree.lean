/-
  Trees of items: their requests, their folders, and what is left of them on paper.

  ==== Problem ====

  A collection is written as JSON and read again before the next merge, so every statement about
  several merges goes through `Item.ofValues (Item.toValues items)`.

  ==== Spec ====

  Reading back changes nothing that a merge looks at: the requests with the folders they are in
  (`flatten_readBack`) and the outline (`outline_unmarked_readBack`).  The other way round, a list
  of values is written back as it was read (`toValues_ofValues`).

  The `outline` of a tree is what a reader of a collection sees of its structure: the folders with
  all they say about themselves, and of every request its name and its key.  Nesting and order are
  those of the tree.

  ==== Proof ====

  Proofs about trees go by `forest_induction`, whose cases are the four shapes a list of items can
  have; the functions on trees have one equation for each of them.
-/
import RouteAtlas.Postman.Merge
import RouteAtlas.Proofs.Persisted.Mark

namespace RouteAtlas.Postman

open Persisted (Fault isMarked)

/-- Induction on a list of items: the items of a folder and those behind it are both shorter. -/
theorem forest_induction {Q : List Item → Prop} (nil : Q [])
    (folder : ∀ fields items rest, Q items → Q rest → Q (.folder fields items :: rest))
    (leaf : ∀ fields rest, Q rest → Q (.leaf fields :: rest))
    (other : ∀ value rest, Q rest → Q (.other value :: rest)) : ∀ items, Q items
  | [] => nil
  | .folder fields items :: rest =>
    folder fields items rest (forest_induction nil folder leaf other items)
      (forest_induction nil folder leaf other rest)
  | .leaf fields :: rest => leaf fields rest (forest_induction nil folder leaf other rest)
  | .other value :: rest => other value rest (forest_induction nil folder leaf other rest)

/-! ## Requests with the folders they are in

The program walks a tree with the path so far as an argument; `flatten` takes the path apart from
the outside.  Both list the requests in the order of the tree. -/

/-- A request one folder further down. -/
def below (name : Json) (l : FolderPath × Dict Json) : FolderPath × Dict Json := (name :: l.1, l.2)

/-- The program's walk lists the same requests, with its path in front. -/
theorem flattenAt_eq (path : FolderPath) (items : List Item) :
    flattenAt path items = (flatten items).map fun l => (path ++ l.1, l.2) := by
  induction items using forest_induction generalizing path with
  | nil => rfl
  | folder fields items rest ihIn ihRest =>
    show flattenAt (path ++ [Item.nameOf fields]) items ++ flattenAt path rest
      = (flattenAt [Item.nameOf fields] items ++ flatten rest).map _
    rw [ihIn, ihIn [Item.nameOf fields], ihRest, List.map_append, List.map_map]
    simp [Function.comp_def]
  | leaf fields rest ih =>
    show (path, fields) :: flattenAt path rest = ((([] : FolderPath), fields) :: flatten rest).map _
    rw [ih, List.map_cons, List.append_nil]
  | other value rest ih => exact ih path

@[simp] theorem flatten_nil : flatten [] = [] := rfl

@[simp] theorem flatten_folder (fields : Dict Json) (items rest : List Item) :
    flatten (.folder fields items :: rest)
      = (flatten items).map (below (Item.nameOf fields)) ++ flatten rest := by
  show flattenAt [Item.nameOf fields] items ++ flatten rest = _
  rw [flattenAt_eq]
  rfl

@[simp] theorem flatten_leaf (fields : Dict Json) (rest : List Item) :
    flatten (.leaf fields :: rest) = ([], fields) :: flatten rest := rfl

@[simp] theorem flatten_other (value : Json) (rest : List Item) :
    flatten (.other value :: rest) = flatten rest := rfl

/-! ## Folder paths

A path leads to a folder by the names on it.  Names are compared as values of a document are. -/

mutual
/-- The paths of the folders in an item, each before those below it. -/
def foldersIn : Item → List FolderPath
  | .folder fields items => [Item.nameOf fields] :: (folders items).map (Item.nameOf fields :: ·)
  | _ => []
/-- The paths of the folders among items. -/
def folders : List Item → List FolderPath
  | [] => []
  | item :: rest => foldersIn item ++ folders rest
end

/-- Is there a folder with the path? -/
def hasFolder (items : List Item) (path : FolderPath) : Bool := (folders items).any (· == path)

@[simp] theorem folders_folder (fields : Dict Json) (items rest : List Item) :
    folders (.folder fields items :: rest)
      = [Item.nameOf fields] :: ((folders items).map (Item.nameOf fields :: ·) ++ folders rest) := rfl

/-- Does a folder with these fields and items begin the path, and go on to its end? -/
def leadsTo (fields : Dict Json) (items : List Item) : FolderPath → Bool
  | [] => false
  | name :: names => Item.nameOf fields == name && (names.isEmpty || hasFolder items names)

@[simp] theorem hasFolder_nil (path : FolderPath) : hasFolder [] path = false := rfl

/-- A path leads to a folder of the first item or of those behind it.  Through the folder lead its
    own name and the paths of its items behind that name. -/
theorem hasFolder_folder (fields : Dict Json) (items rest : List Item) (path : FolderPath) :
    hasFolder (.folder fields items :: rest) path
      = (leadsTo fields items path || hasFolder rest path) := by
  rw [hasFolder, folders_folder, List.any_cons, List.any_append, List.any_map]
  cases path with
  | nil =>
    have hnone : ((fun q => q == ([] : FolderPath)) ∘ (Item.nameOf fields :: ·)) = fun _ => false := by
      funext q
      rfl
    rw [hnone, List.any_eq_false.mpr (by simp)]
    rfl
  | cons name names =>
    have hcons : ((fun q => q == name :: names) ∘ (Item.nameOf fields :: ·))
        = fun q => Item.nameOf fields == name && q == names := by
      funext q
      exact List.cons_beq_cons
    have hnil : (([] : FolderPath) == names) = names.isEmpty := by cases names <;> rfl
    rw [hcons, List.cons_beq_cons, hnil, leadsTo, hasFolder, hasFolder]
    cases Item.nameOf fields == name
    · simp
    · simp [Bool.or_assoc]

@[simp] theorem hasFolder_leaf (fields : Dict Json) (rest : List Item) (path : FolderPath) :
    hasFolder (.leaf fields :: rest) path = hasFolder rest path := rfl

@[simp] theorem hasFolder_other (value : Json) (rest : List Item) (path : FolderPath) :
    hasFolder (.other value :: rest) path = hasFolder rest path := rfl

/-- The root is no folder. -/
theorem hasFolder_root (items : List Item) : hasFolder items [] = false := by
  induction items using forest_induction with
  | nil => rfl
  | folder fields items rest _ ihRest => rw [hasFolder_folder, ihRest, leadsTo, Bool.or_false]
  | leaf fields rest ih => exact ih
  | other value rest ih => exact ih

/-! ## Outlines

What is compared of two collections: folders with their fields, and requests with their names and
keys. -/

/-- What a collection shows of its structure. -/
inductive Outline where
  /-- A folder: its fields but for its items, and what is in it. -/
  | folder (fields : Dict Json) (parts : List Outline)
  /-- A request: its name and its key. -/
  | request (name : Option Json) (key : Except Fault (Option String))
  /-- Something else. -/
  | other (value : Json)

mutual
/-- The outline of an item. -/
def outlineOf : Item → Outline
  | .folder fields items => .folder (Dict.erase fields "item") (outline items)
  | .leaf fields => .request (Dict.get? fields "name") (Item.key? fields)
  | .other value => .other value
/-- The outline of items. -/
def outline : List Item → List Outline
  | [] => []
  | item :: rest => outlineOf item :: outline rest
end

@[simp] theorem outline_folder (fields : Dict Json) (items rest : List Item) :
    outline (.folder fields items :: rest)
      = .folder (Dict.erase fields "item") (outline items) :: outline rest := rfl

@[simp] theorem outline_leaf (fields : Dict Json) (rest : List Item) :
    outline (.leaf fields :: rest)
      = .request (Dict.get? fields "name") (Item.key? fields) :: outline rest := rfl

@[simp] theorem outline_other (value : Json) (rest : List Item) :
    outline (.other value :: rest) = .other value :: outline rest := rfl

mutual
/-- An item without the requests that are marked, if anything is left of it. -/
def unmarkedIn : Item → List Item
  | .folder fields items => [.folder fields (unmarked items)]
  | .leaf fields => if isMarked fields then [] else [.leaf fields]
  | .other value => [.other value]
/-- Items without the requests that are marked. -/
def unmarked : List Item → List Item
  | [] => []
  | item :: rest => unmarkedIn item ++ unmarked rest
end

@[simp] theorem unmarked_folder (fields : Dict Json) (items rest : List Item) :
    unmarked (.folder fields items :: rest) = .folder fields (unmarked items) :: unmarked rest := rfl

/-- A marked request is left out. -/
theorem unmarked_leaf_of_marked {fields : Dict Json} (h : isMarked fields = true) (rest : List Item) :
    unmarked (.leaf fields :: rest) = unmarked rest := by
  rw [unmarked, unmarkedIn, if_pos h, List.nil_append]

theorem unmarked_leaf_of_not_marked {fields : Dict Json} (h : isMarked fields = false)
    (rest : List Item) : unmarked (.leaf fields :: rest) = .leaf fields :: unmarked rest := by
  rw [unmarked, unmarkedIn, h]
  rfl

@[simp] theorem unmarked_other (value : Json) (rest : List Item) :
    unmarked (.other value :: rest) = .other value :: unmarked rest := rfl

/-! ## Writing and reading back

A folder is an object with a list of items, anything else with fields is a request.  A tree is
readable if reading it back gives the same kinds of items. -/

/-- The items of a folder, if it is one: the list in its field. -/
theorem itemsAmong?_eq (fields : Dict Json) : Item.itemsAmong? fields =
    match Dict.get? fields "item" with
    | some (.arr values) => some (Item.ofValues values)
    | _ => none := by
  induction fields with
  | nil => rw [Item.itemsAmong?, Dict.get?_nil]
  | cons field fields ih =>
    obtain ⟨name, value⟩ := field
    rw [Item.itemsAmong?, Dict.get?_cons, BEq.comm]
    by_cases hn : ("item" == name) = true
    · rw [if_pos hn, if_pos hn]
      cases value <;> simp [Item.ofList?]
    · rw [if_neg hn, if_neg hn, ih]

/-- An object is a folder exactly when its field `item` is a list. -/
theorem ofJson_obj (fields : Dict Json) : Item.ofJson (.obj fields) =
    match Dict.get? fields "item" with
    | some (.arr values) => .folder fields (Item.ofValues values)
    | _ => .leaf fields := by
  rw [Item.ofJson, itemsAmong?_eq]
  cases Dict.get? fields "item" with
  | none => rfl
  | some value => cases value <;> rfl

/-- The value of a field is smaller than the object, so reading a tree comes to an end. -/
theorem sizeOf_lt_of_get? {fields : Dict Json} {name : String} {value : Json}
    (h : Dict.get? fields name = some value) : sizeOf value < sizeOf fields := by
  have hmem := List.sizeOf_lt_of_mem (Dict.mem_of_get? h)
  have hpair : sizeOf (name, value) = 1 + sizeOf name + sizeOf value := rfl
  omega

/-- What was read is written back as it was. -/
theorem toValues_ofValues : ∀ values : List Json, Item.toValues (Item.ofValues values) = values
  | [] => rfl
  | value :: rest => by
    have hrest := toValues_ofValues rest
    have hvalue : Item.toJson (Item.ofJson value) = value := by
      cases value with
      | obj fields =>
        rw [ofJson_obj]
        split
        · rename_i values hv
          have hlt := sizeOf_lt_of_get? hv
          have hin := toValues_ofValues values
          rw [Item.toJson, hin, Dict.put_eq_self hv]
        · rfl
      | _ => rfl
    show Item.toJson (Item.ofJson value) :: Item.toValues (Item.ofValues rest) = _
    rw [hvalue, hrest]
termination_by values => sizeOf values
decreasing_by all_goals simp_all; try omega

mutual
/-- Reading what an item is written as gives a request for a request, and nothing else. -/
def ReadableItem : Item → Prop
  | .folder _ items => Readable items
  | .leaf fields => ∀ values, Dict.get? fields "item" ≠ some (.arr values)
  | .other value => ∀ fields, value ≠ .obj fields
/-- Items that are read back as what they are. -/
def Readable : List Item → Prop
  | [] => True
  | item :: rest => ReadableItem item ∧ Readable rest
end

/-- What was read is read back as what it is. -/
theorem readable_ofValues : ∀ values : List Json, Readable (Item.ofValues values)
  | [] => trivial
  | value :: rest => by
    have hrest := readable_ofValues rest
    refine ⟨?_, hrest⟩
    cases value with
    | obj fields =>
      rw [ofJson_obj]
      split
      · rename_i values hv
        have hlt := sizeOf_lt_of_get? hv
        exact readable_ofValues values
      · rename_i hno
        exact hno
    | _ => exact fun _ h => absurd h (by simp)
termination_by values => sizeOf values
decreasing_by all_goals simp_all; try omega

/-- The requests of a readable tree are readable. -/
theorem readable_of_mem_flatten {items : List Item} (h : Readable items)
    {l : FolderPath × Dict Json} (hl : l ∈ flatten items) : ReadableItem (.leaf l.2) := by
  induction items using forest_induction generalizing l with
  | nil => exact absurd hl (List.not_mem_nil)
  | folder fields items rest ihIn ihRest =>
    rw [flatten_folder] at hl
    rcases List.mem_append.mp hl with hl | hl
    · obtain ⟨l', hl', rfl⟩ := List.mem_map.mp hl
      exact ihIn (l := l') h.1 hl'
    · exact ihRest h.2 hl
  | leaf fields rest ih =>
    rcases List.mem_cons.mp hl with rfl | hl
    · exact h.1
    · exact ih h.2 hl
  | other value rest ih => exact ih h.2 hl

/-- The items as they are read again once they are written. -/
def readBack (items : List Item) : List Item := Item.ofValues (Item.toValues items)

@[simp] theorem readBack_nil : readBack [] = [] := rfl

/-- A folder is read back as a folder, with its items as they were written. -/
theorem readBack_folder (fields : Dict Json) (items rest : List Item) :
    readBack (.folder fields items :: rest)
      = .folder (Dict.put fields "item" (.arr (Item.toValues items))) (readBack items)
        :: readBack rest := by
  show Item.ofJson (.obj (Dict.put fields "item" _)) :: readBack rest = _
  rw [ofJson_obj, Dict.get?_put_self]
  rfl

/-- A request is read back as it was. -/
theorem readBack_leaf {fields : Dict Json} (h : ReadableItem (.leaf fields)) (rest : List Item) :
    readBack (.leaf fields :: rest) = .leaf fields :: readBack rest := by
  show Item.ofJson (.obj fields) :: readBack rest = _
  rw [ofJson_obj]
  split
  · rename_i values hv
    exact absurd hv (h values)
  · rfl

theorem readBack_other {value : Json} (h : ReadableItem (.other value)) (rest : List Item) :
    readBack (.other value :: rest) = .other value :: readBack rest := by
  show Item.ofJson value :: readBack rest = _
  cases value with
  | obj fields => exact absurd rfl (h fields)
  | _ => rfl

/-- Writing its items does not change the name of a folder. -/
theorem nameOf_put_item (fields : Dict Json) (value : Json) :
    Item.nameOf (Dict.put fields "item" value) = Item.nameOf fields := by
  rw [Item.nameOf, Dict.get?_put_of_ne (by decide), Item.nameOf]

/-- Writing and reading back changes no request. -/
theorem flatten_readBack {items : List Item} (h : Readable items) :
    flatten (readBack items) = flatten items := by
  induction items using forest_induction with
  | nil => rfl
  | folder fields items rest ihIn ihRest =>
    rw [readBack_folder, flatten_folder, flatten_folder, nameOf_put_item, ihIn h.1, ihRest h.2]
  | leaf fields rest ih => rw [readBack_leaf h.1, flatten_leaf, flatten_leaf, ih h.2]
  | other value rest ih => rw [readBack_other h.1, flatten_other, flatten_other, ih h.2]

/-- Reading back changes the outline neither of all requests nor of those without the mark. -/
theorem outline_unmarked_readBack {items : List Item} (h : Readable items) :
    outline (unmarked (readBack items)) = outline (unmarked items) := by
  induction items using forest_induction with
  | nil => rfl
  | folder fields items rest ihIn ihRest =>
    rw [readBack_folder, unmarked_folder, unmarked_folder, outline_folder, outline_folder,
      Dict.erase_put, ihIn h.1, ihRest h.2]
  | leaf fields rest ih =>
    rw [readBack_leaf h.1]
    cases hm : isMarked fields with
    | true => rw [unmarked_leaf_of_marked hm, unmarked_leaf_of_marked hm, ih h.2]
    | false =>
      rw [unmarked_leaf_of_not_marked hm, unmarked_leaf_of_not_marked hm, outline_leaf, outline_leaf,
        ih h.2]
  | other value rest ih =>
    rw [readBack_other h.1, unmarked_other, unmarked_other, outline_other, outline_other, ih h.2]

end RouteAtlas.Postman
