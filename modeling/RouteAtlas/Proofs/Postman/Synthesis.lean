/-
  What is in a synthesized collection.

  ==== Problem ====

  A collection is built endpoint by endpoint: each request is put at the end of its folder, and the
  folders on the way are made when they are not there; at last the folders may be sorted.

  ==== Spec ====

  `flatten_items_perm`: the requests of the collection are those of the endpoints, once each, in the
  folders where they belong.  `built_items`: there is nothing else in it, and what is there is read
  back as what it is.

  ==== The crux ====

  A folder is found by its name, and a text counts as one with itself only; so the folder that a
  request is put into has the very name that was asked for, and the path of the request is the one
  that was given.  The rest is an induction on the path, with the search among the items of one
  level inside it (`flatten_inFolder_perm`, `flatten_addAt_perm`).
-/
import RouteAtlas.Postman.Document
import RouteAtlas.Proofs.Collection.Request
import RouteAtlas.Proofs.Postman.Refresh

namespace RouteAtlas.Postman

open Persisted (isBodyless)
open Route (opening closing)

/-! ## Requests of lists of items

Which requests a list of items holds, up to their order; sorting and putting into folders move them
only. -/

/-- The requests of two lists of items are those of either. -/
theorem flatten_append (items items' : List Item) :
    flatten (items ++ items') = flatten items ++ flatten items' := by
  induction items with
  | nil => rfl
  | cons item items ih =>
    show leaves [] item ++ flatten (items ++ items') = (leaves [] item ++ flatten items) ++ _
    rw [ih, List.append_assoc]

/-- The requests of a list of items, item by item. -/
theorem flatten_eq_flatMap (items : List Item) : flatten items = items.flatMap (leaves []) := by
  induction items with
  | nil => rfl
  | cons item items ih =>
    show leaves [] item ++ flatten items = _
    rw [ih, List.flatMap_cons]

/-- Sorting items moves their requests along. -/
theorem flatten_perm {items items' : List Item} (h : items.Perm items') :
    (flatten items).Perm (flatten items') := by
  rw [flatten_eq_flatMap, flatten_eq_flatMap]
  exact h.flatMap_right _

/-! ## Putting a request into a folder

A request is put into the first folder of the name, or into a new one behind all items.  Either way
there is one more request, at the path that was asked for. -/

/-- What is done in the folder is done on the path through it.  If there is no such folder it is
    made, empty, and then the change is all there is in it. -/
theorem flatten_inFolder_perm {name : String} {change : List Item → List Item} {path : FolderPath}
    {leaf : Dict Json} (hchange : ∀ items, (flatten (change items)).Perm ((path, leaf) :: flatten items))
    (items : List Item) : (flatten (addAt.inFolder name change items)).Perm
      ((.str name :: path, leaf) :: flatten items) := by
  induction items using forest_induction with
  | nil =>
    have hnew : (flatten [Item.named name (change [])]).Perm
        (((path, leaf) :: flatten []).map (below (.str name))) := by
      show (flatten (.folder _ (change []) :: [])).Perm _
      rw [flatten_folder, flatten_nil, List.append_nil]
      exact (hchange []).map _
    exact hnew
  | folder fields items rest _ ihRest =>
    rw [addAt.inFolder]
    split
    · rename_i hsame
      have hname : Item.nameOf fields = .str name := Json.beq_str_iff.mp hsame
      rw [flatten_folder, flatten_folder, hname]
      exact ((hchange items).map (below (.str name))).append_right (flatten rest)
    · rw [flatten_folder, flatten_folder]
      exact (ihRest.append_left _).trans List.perm_middle
  | leaf fields rest ih =>
    rw [addAt.inFolder, flatten_leaf, flatten_leaf]
    exact (ih.cons _).trans (.swap _ _ _)
    all_goals exact fun _ _ h => Item.noConfusion h
  | other value rest ih =>
    rw [addAt.inFolder, flatten_other, flatten_other]
    exact ih
    all_goals exact fun _ _ h => Item.noConfusion h

/-- **One more request**, at the path that was given. -/
theorem flatten_addAt_perm (leaf : Dict Json) (names : List String) (items : List Item) :
    (flatten (addAt (.leaf leaf) names items)).Perm ((names.map .str, leaf) :: flatten items) := by
  induction names generalizing items with
  | nil =>
    rw [addAt, flatten_append]
    exact List.perm_append_singleton _ _
  | cons name names ih => exact flatten_inFolder_perm ih items

/-! ## Nothing else

A synthesis makes nothing but folders with a name and requests, which are read back as such. -/

mutual
/-- A folder as it is made for a name, or a request that is not read as a folder. -/
def BuiltItem : Item → Prop
  | .folder fields items =>
    (∃ name : String, fields = [("name", .str name), ("item", .arr [])]) ∧ Built items
  | .leaf fields => Dict.get? fields "item" = none
  | .other _ => False
/-- Items as they are built. -/
def Built : List Item → Prop
  | [] => True
  | item :: rest => BuiltItem item ∧ Built rest
end

/-- Items are built if each of them is. -/
theorem built_iff {items : List Item} : Built items ↔ ∀ item ∈ items, BuiltItem item := by
  induction items with
  | nil => exact ⟨fun _ item hitem => absurd hitem (List.not_mem_nil), fun _ => trivial⟩
  | cons item items ih =>
    rw [Built, ih, List.forall_mem_cons]

/-- Items that are built are requests and folders. -/
theorem proper_of_built {items : List Item} (h : Built items) : Proper items := by
  induction items using forest_induction with
  | nil => trivial
  | folder fields items rest ihIn ihRest =>
    obtain ⟨⟨⟨name, rfl⟩, hin⟩, hrest⟩ := h
    exact ⟨⟨rfl, ihIn hin⟩, ihRest hrest⟩
  | leaf fields rest ih => exact ⟨trivial, ih h.2⟩
  | other value rest _ => exact h.1.elim

theorem readable_of_built {items : List Item} (h : Built items) : Readable items := by
  induction items using forest_induction with
  | nil => trivial
  | folder fields items rest ihIn ihRest => exact ⟨ihIn h.1.2, ihRest h.2⟩
  | leaf fields rest ih =>
    refine ⟨fun values hvalues => ?_, ih h.2⟩
    have hnone : Dict.get? fields "item" = none := h.1
    exact absurd (hnone.symm.trans hvalues) (by simp)
  | other value rest _ => exact h.1.elim

/-- Reading back keeps the names of folders. -/
theorem proper_readBack {items : List Item} (hread : Readable items) (h : Proper items) :
    Proper (readBack items) := by
  induction items using forest_induction with
  | nil => trivial
  | folder fields items rest ihIn ihRest =>
    rw [readBack_folder]
    refine ⟨⟨?_, ihIn hread.1 h.1.2⟩, ihRest hread.2 h.2⟩
    rw [nameOf_put_item]
    exact h.1.1
  | leaf fields rest ih =>
    rw [readBack_leaf hread.1]
    exact ⟨trivial, ih hread.2 h.2⟩
  | other value rest _ => exact h.1.elim

/-- Putting something built into a folder leaves all items built. -/
theorem built_inFolder {name : String} {change : List Item → List Item}
    (hchange : ∀ items, Built items → Built (change items)) {items : List Item} (h : Built items) :
    Built (addAt.inFolder name change items) := by
  induction items with
  | nil => exact ⟨⟨⟨name, rfl⟩, hchange [] trivial⟩, trivial⟩
  | cons item rest ih =>
    cases item with
    | folder fields items =>
      rw [addAt.inFolder]
      split
      · exact ⟨⟨h.1.1, hchange items h.1.2⟩, h.2⟩
      · exact ⟨h.1, ih h.2⟩
    | leaf fields => exact ⟨h.1, ih h.2⟩
    | other value => exact h.1.elim

theorem built_addAt {leaf : Dict Json} (hleaf : Dict.get? leaf "item" = none) (names : List String)
    {items : List Item} (h : Built items) : Built (addAt (.leaf leaf) names items) := by
  induction names generalizing items with
  | nil =>
    rw [addAt, built_iff]
    intro item hitem
    rcases List.mem_append.mp hitem with hitem | hitem
    · exact built_iff.mp h item hitem
    · rw [List.mem_singleton.mp hitem]
      exact hleaf
  | cons name names ih => exact built_inFolder (fun _ => ih) h

/-! ## The requests of endpoints

One endpoint: its request has all its parts, and the key of the request is that of the endpoint. -/

section

variable (apps : List String) (e : Endpoint)

/-- The URL of an endpoint's request as one text. -/
def rawUrl : String :=
  Example.reference (Folder.baseVariable e apps) ++ Route.doubleBraced e.path
    ++ queryText (Example.queryEntries e.parameters.query)

/-- The key of an endpoint's request. -/
def requestKey : String := Persisted.keyOf e.method.word (rawUrl apps e)

/-- The item of an endpoint is no folder. -/
theorem item_itemOf : Dict.get? (itemOf apps e) "item" = none := by
  rw [itemOf, fieldIf]
  split <;> rfl

/-- Its request is the one that is made for the endpoint. -/
theorem request_itemOf : Dict.get? (itemOf apps e) "request" = some (.obj (requestOf e apps)) := rfl

/-- Its key is that of the endpoint's request. -/
theorem key?_itemOf : Item.key? (itemOf apps e) = .ok (some (requestKey apps e)) := by
  rw [Item.key?, request_itemOf]
  exact persistedKey?_eq_some_iff.mpr ⟨_, _, rfl, e.method.word_ne_empty, rfl, rfl⟩

/-- The body of the request is the endpoint's, if it has one. -/
theorem body_requestOf : Dict.get? (requestOf e apps) "body" = e.parameters.body.map bodyJson := by
  rw [requestOf]
  cases e.parameters.body <;> rfl

/-- Its headers have names of their own. -/
theorem distinctlyNamed_headersOf : Persisted.DistinctlyNamed "key" (headersOf e) := by
  have hne : Text.lower "Content-Type" ≠ Text.lower "Authorization" := by decide
  exact Persisted.distinctlyNamed_pair rfl rfl hne _ _

/-- The item of an endpoint has all its parts, if its method sends the body. -/
theorem completeItem_itemOf
    (hbody : isBodyless (.str e.method.word) = true → e.parameters.body = none) :
    CompleteItem (itemOf apps e) := by
  refine ⟨⟨_, rfl⟩, _, request_itemOf apps e, ⟨.str e.method.word, rfl, fun hless => ?_⟩, ⟨_, rfl⟩,
    _, rfl, distinctlyNamed_headersOf e⟩
  rw [body_requestOf, hbody hless]
  rfl

/-- What stands behind the path is nothing, or begins with a question mark. -/
theorem queryText_cases (query : List Example.QueryEntry) :
    (queryText query).toList = [] ∨ ∃ tail, (queryText query).toList = '?' :: tail := by
  rw [queryText]
  split
  · exact .inl rfl
  · exact .inr ⟨_, String.toList_append⟩

/-- A reference to a variable, character by character. -/
theorem toList_reference (name : String) : (Example.reference name).toList
    = opening :: opening :: (name.toList ++ [closing, closing]) := by
  rw [Example.reference, String.toList_append, String.toList_append]
  rfl

/-- **The key of an endpoint's request is the endpoint's own.** -/
theorem requestKey_eq_key {e : Endpoint} (hpath : Route.CleanPath e.path)
    (hfree : Persisted.BaseFree (Route.writtenChars Route.inDoubleBraces e.path.toList)) :
    requestKey apps e = e.key := by
  have hurl : (rawUrl apps e).toList
      = (fun name => opening :: opening :: (name ++ [closing, closing]))
          (Folder.baseVariable e apps).toList
        ++ (Route.writtenChars Route.inDoubleBraces e.path.toList
          ++ (queryText (Example.queryEntries e.parameters.query)).toList) := by
    rw [rawUrl, String.toList_append, String.toList_append, List.append_assoc, toList_reference,
      Route.doubleBraced, String.toList_ofList]
  show Persisted.keyOf e.method.word (rawUrl apps e) = Route.key e.method.word e.path
  exact Persisted.keyOf_url .plain (Folder.isBaseName_baseVariable e apps) hpath .double hfree
    (queryText_cases _) hurl e.method.word

end

/-! ## Whole collections

By induction on the endpoints: each adds one request, in its folder. -/

/-- The request of an endpoint, in its folder. -/
def placedLeaf (grouping : Grouping) (apps : List String) (e : Endpoint) : FolderPath × Dict Json :=
  ((Folder.placement grouping apps e).map .str, itemOf apps e)

/-- Before any sorting, the requests are those of the endpoints, each in its folder. -/
theorem flatten_placed_perm (grouping : Grouping) (apps : List String) (endpoints : List Endpoint) :
    (flatten (placed grouping apps endpoints)).Perm (endpoints.map (placedLeaf grouping apps)) := by
  have hall : ∀ items : List Item, (flatten (endpoints.foldl (fun items e =>
      addAt (.leaf (itemOf apps e)) (Folder.placement grouping apps e) items) items)).Perm
        (endpoints.map (placedLeaf grouping apps) ++ flatten items) := by
    induction endpoints with
    | nil => exact fun items => .refl _
    | cons e endpoints ih =>
      intro items
      have hone := flatten_addAt_perm (itemOf apps e) (Folder.placement grouping apps e) items
      exact (ih _).trans ((hone.append_left _).trans List.perm_middle)
  have hempty := hall []
  rwa [flatten_nil, List.append_nil] at hempty

/-- Before any sorting, the items are built. -/
theorem built_placed (grouping : Grouping) (apps : List String) (endpoints : List Endpoint) :
    Built (placed grouping apps endpoints) := by
  have hall : ∀ items : List Item, Built items → Built (endpoints.foldl (fun items e =>
      addAt (.leaf (itemOf apps e)) (Folder.placement grouping apps e) items) items) := by
    induction endpoints with
    | nil => exact fun items h => h
    | cons e endpoints ih => exact fun items h => ih _ (built_addAt (item_itemOf apps e) _ h)
  exact hall [] trivial

/-- The order of the services moves folders only. -/
theorem inServiceOrder_perm (apps : List String) (items : List Item) :
    (inServiceOrder apps items).Perm items := by
  rw [inServiceOrder]
  split
  · exact .refl _
  · exact List.mergeSort_perm ..

/-- The order of the services moves items only. -/
theorem items_perm (settings : Settings) (endpoints : List Endpoint) :
    (items settings endpoints).Perm
      (placed settings.grouping settings.serviceNames endpoints) := by
  rw [items]
  cases settings.grouping with
  | folder => exact inServiceOrder_perm ..
  | tags => exact .refl _

/-- **The requests of a collection** are those of the endpoints, each in its folder. -/
theorem flatten_items_perm (settings : Settings) (endpoints : List Endpoint) :
    (flatten (items settings endpoints)).Perm
      (endpoints.map (placedLeaf settings.grouping settings.serviceNames)) :=
  (flatten_perm (items_perm settings endpoints)).trans (flatten_placed_perm ..)

/-- The items of a collection are built. -/
theorem built_items (settings : Settings) (endpoints : List Endpoint) :
    Built (items settings endpoints) := by
  have hplaced := built_iff.mp
    (built_placed settings.grouping settings.serviceNames endpoints)
  exact built_iff.mpr fun item hitem => hplaced item ((items_perm settings endpoints).mem_iff.mp hitem)

end RouteAtlas.Postman
