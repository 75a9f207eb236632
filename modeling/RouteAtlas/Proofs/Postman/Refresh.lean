/-
  The fresh tree with what was persisted for its requests.

  ==== Program ====

  Refreshing walks through the fresh tree and looks every request up by its key.  What it looks in
  is made of the `entries` of the persisted tree: its requests that have a key, each under that key
  and with the folders it is in.  Of several with one key the last one counts
  (`persisted_eq_ok_iff`, `get?_ofList_entries`).

  A request is refreshed by itself (`refreshLeaf`): merged with what was found, or left as it is.

  ==== The crux ====

  Refreshing changes requests one by one and nothing else.  `refreshAll_induction` says so once: a
  relation between trees that holds request by request holds between a tree and the refreshed one.
  Paths, folders, outline and readability are such relations, and so is the outcome of refreshing
  with another table that gives the same requests (`refreshAll_congr`).
-/
import RouteAtlas.Proofs.Json.Sameness
import RouteAtlas.Proofs.Postman.Request

namespace RouteAtlas.Postman

open Persisted (Fault lookupKey_of_key lookupKey_eq_ok_iff bind_eq_ok_iff pure_eq_ok_iff)
open Json (KeyPath)

/-! ## Requests by key

The persisted requests are found by their keys, which are read off method and URL. -/

/-- The key of an item, if it has one. -/
def Item.keyGiven? (fields : Dict Json) : Option String := Persisted.given Item.key? fields

/-- A key is given if there is one. -/
theorem keyGiven?_eq_some_iff {fields : Dict Json} {key : String} :
    Item.keyGiven? fields = some key ↔ Item.key? fields = .ok (some key) :=
  Persisted.given_eq_some_iff

/-- No request has a method or a URL that cannot make a key. -/
def Keyable (items : List Item) : Prop := ∀ l ∈ flatten items, ∃ key, Item.key? l.2 = .ok key

/-- The requests that have a key, each under it. -/
def entries (items : List Item) : Dict (FolderPath × Dict Json) :=
  (flatten items).filterMap fun l => (Item.keyGiven? l.2).map (·, l)

/-- A request is listed under the key that it has. -/
theorem mem_entries {items : List Item} {key : String} {l : FolderPath × Dict Json} :
    (key, l) ∈ entries items ↔ l ∈ flatten items ∧ Item.key? l.2 = .ok (some key) := by
  rw [entries, List.mem_filterMap, ← keyGiven?_eq_some_iff]
  constructor
  · rintro ⟨l', hl', h⟩
    obtain ⟨k, hk, heq⟩ := Option.map_eq_some_iff.mp h
    obtain ⟨rfl, rfl⟩ := Prod.mk.inj heq
    exact ⟨hl', hk⟩
  · rintro ⟨hl, hk⟩
    exact ⟨l, hl, by rw [hk]; rfl⟩

/-- A key is listed if a request has it. -/
theorem mem_keys_entries {items : List Item} {key : String} :
    key ∈ Dict.keys (entries items) ↔ ∃ l ∈ flatten items, Item.key? l.2 = .ok (some key) := by
  rw [Dict.keys, List.mem_map]
  constructor
  · rintro ⟨⟨k, l⟩, h, rfl⟩
    exact ⟨l, mem_entries.mp h⟩
  · rintro ⟨l, h⟩
    exact ⟨(key, l), mem_entries.mpr h, rfl⟩

/-- The keys of a tree, if all its requests can make one. -/
theorem keysOf_eq_ok_iff {items : List Item} {ks : List String} :
    keysOf items = .ok ks ↔ Keyable items ∧ ks = Dict.keys (entries items) := by
  have hkeys : ((flatten items).map fun l => Item.keyGiven? l.2).filterMap id
      = Dict.keys (entries items) := by
    rw [Dict.keys, entries, List.filterMap_map, List.map_filterMap]
    refine List.filterMap_congr fun l _ => ?_
    show Item.keyGiven? l.2 = _
    cases Item.keyGiven? l.2 <;> rfl
  rw [keysOf, bind_eq_ok_iff]
  constructor
  · rintro ⟨ks', h, hks⟩
    obtain ⟨hall, rfl⟩ := Persisted.mapM_given_eq_ok_iff.mp h
    exact ⟨hall, (pure_eq_ok_iff.mp hks).symm.trans hkeys⟩
  · rintro ⟨hall, rfl⟩
    exact ⟨_, Persisted.mapM_given_eq_ok_iff.mpr ⟨hall, rfl⟩, pure_eq_ok_iff.mpr hkeys⟩

/-- The persisted requests are the entries; the last one with a key is kept. -/
theorem persisted_eq_ok_iff {items : List Item} {previous : Dict (FolderPath × Dict Json)} :
    persisted items = .ok previous ↔ Keyable items ∧ previous = Dict.ofList (entries items) := by
  have hpersisted : persisted items
      = (((flatten items).mapM fun l => do return (← Item.key? l.2).map (·, l)) >>=
        fun keyed => return Dict.ofList (keyed.filterMap id)) := rfl
  have hentries : ((flatten items).map fun l =>
      (Persisted.given (fun l : FolderPath × Dict Json => Item.key? l.2) l).map (·, l)).filterMap id
        = entries items := List.filterMap_map ..
  rw [hpersisted, bind_eq_ok_iff]
  constructor
  · rintro ⟨ls, h, hprev⟩
    obtain ⟨hall, rfl⟩ := Persisted.mapM_keyed_eq_ok_iff.mp h
    rw [hentries] at hprev
    exact ⟨hall, (pure_eq_ok_iff.mp hprev).symm⟩
  · rintro ⟨hall, rfl⟩
    refine ⟨_, Persisted.mapM_keyed_eq_ok_iff.mpr ⟨hall, rfl⟩, ?_⟩
    rw [hentries]
    rfl

/-- What is found under a key is a request that has it. -/
theorem mem_of_get?_persisted {items : List Item} {key : String} {l : FolderPath × Dict Json}
    (h : Dict.get? (Dict.ofList (entries items)) key = some l) :
    l ∈ flatten items ∧ Item.key? l.2 = .ok (some key) := by
  rw [Dict.get?_ofList] at h
  exact mem_entries.mp (List.mem_reverse.mp (Dict.mem_of_get? h))

/-! ## One request

A fresh request is merged with the persisted one of its key; without one it stays as it is. -/

/-- A fresh request with what was persisted under its key. -/
def refreshLeaf (previous : Dict (FolderPath × Dict Json)) (fields : Dict Json) :
    Except Fault (Dict Json) := do
  match (← Item.key? fields).bind (Dict.get? previous) with
  | some (_, existing) => mergeLeaf fields existing
  | none => return fields

/-- The two ways in which refreshing a request can succeed. -/
theorem refreshLeaf_eq_ok_iff {previous : Dict (FolderPath × Dict Json)} {fields fields' : Dict Json} :
    refreshLeaf previous fields = .ok fields' ↔
      (∃ key path existing, Item.key? fields = .ok (some key) ∧
        Dict.get? previous key = some (path, existing) ∧ mergeLeaf fields existing = .ok fields') ∨
      (∃ key, Item.key? fields = .ok key ∧ key.bind (Dict.get? previous) = none ∧ fields' = fields) := by
  rw [refreshLeaf, bind_eq_ok_iff]
  constructor
  · rintro ⟨key, hkey, h⟩
    cases hl : key.bind (Dict.get? previous) with
    | none =>
      rw [hl] at h
      exact .inr ⟨key, hkey, hl, (Except.ok.inj h).symm⟩
    | some l =>
      obtain ⟨k, rfl, hk⟩ := Option.bind_eq_some_iff.mp hl
      rw [hl] at h
      exact .inl ⟨k, l.1, l.2, hkey, hk, h⟩
  · rintro (⟨key, path, existing, hkey, hl, h⟩ | ⟨key, hkey, hl, rfl⟩)
    · exact ⟨some key, hkey, by rw [Option.bind_some, hl]; exact h⟩
    · exact ⟨key, hkey, by rw [hl]; rfl⟩

/-- A refreshed request has the key it had. -/
theorem key?_refreshLeaf {previous : Dict (FolderPath × Dict Json)} {fields fields' : Dict Json}
    (h : refreshLeaf previous fields = .ok fields') : Item.key? fields' = Item.key? fields := by
  rcases refreshLeaf_eq_ok_iff.mp h with ⟨key, path, existing, hkey, -, hmerge⟩ | ⟨key, hkey, -, rfl⟩
  · rw [key?_mergeLeaf hmerge hkey, hkey]
  · rfl

/-- A refreshed request has the name it had, if that counts as given. -/
theorem name_refreshLeaf {previous : Dict (FolderPath × Dict Json)} {fields fields' : Dict Json}
    {name : Json} (hname : Dict.get? fields "name" = some name) (htruthy : name.truthy = true)
    (h : refreshLeaf previous fields = .ok fields') : Dict.get? fields' "name" = some name := by
  rcases refreshLeaf_eq_ok_iff.mp h with ⟨key, path, existing, hkey, -, hmerge⟩ | ⟨key, hkey, -, rfl⟩
  · rw [name_mergeLeaf hmerge, mergedName, hname, orElse_of_truthy htruthy]
  · exact hname

/-- A refreshed request is still read as a request. -/
theorem readable_refreshLeaf {previous : Dict (FolderPath × Dict Json)} {fields fields' : Dict Json}
    (hprevious : ∀ key l, Dict.get? previous key = some l → ReadableItem (.leaf l.2))
    (hfields : ReadableItem (.leaf fields))
    (h : refreshLeaf previous fields = .ok fields') : ReadableItem (.leaf fields') := by
  rcases refreshLeaf_eq_ok_iff.mp h with ⟨key, path, existing, hkey, hl, hmerge⟩ | ⟨key, hkey, -, rfl⟩
  · intro values
    rw [item_mergeLeaf hmerge]
    exact hprevious key _ hl values
  · exact hfields

/-! ## All requests of a tree

Refreshing keeps the tree and changes its requests one by one.  What is said of single requests is
carried to the tree by `refreshAll_induction`. -/

mutual
/-- An item is a request, or a folder whose name can be looked up by. -/
def ProperItem : Item → Prop
  | .folder fields items => (Item.nameOf fields).kind.isKey = true ∧ Proper items
  | .leaf _ => True
  | .other _ => False
/-- All items are requests and folders. -/
def Proper : List Item → Prop
  | [] => True
  | item :: rest => ProperItem item ∧ Proper rest
end

section

variable {previous : Dict (FolderPath × Dict Json)}

/-- A request of a tree is refreshed as one by itself.  On the left is what the walk through the
    tree does with it. -/
theorem refresh_leaf_eq_ok_iff {fields : Dict Json} {item : Item} :
    refresh previous (.leaf fields) = .ok item ↔
      ∃ fields', refreshLeaf previous fields = .ok fields' ∧ item = .leaf fields' := by
  rw [refresh, bind_eq_ok_iff]
  constructor
  · rintro ⟨key, hkey, h⟩
    cases hl : key.bind (Dict.get? previous) with
    | none =>
      rw [hl] at h
      exact ⟨fields, refreshLeaf_eq_ok_iff.mpr (.inr ⟨key, hkey, hl, rfl⟩), (Except.ok.inj h).symm⟩
    | some l =>
      rw [hl] at h
      obtain ⟨fields', hmerge, h⟩ := bind_eq_ok_iff.mp h
      obtain ⟨k, rfl, hk⟩ := Option.bind_eq_some_iff.mp hl
      exact ⟨fields', refreshLeaf_eq_ok_iff.mpr (.inl ⟨k, l.1, l.2, hkey, hk, hmerge⟩),
        (Except.ok.inj h).symm⟩
  · rintro ⟨fields', hleaf, rfl⟩
    rcases refreshLeaf_eq_ok_iff.mp hleaf with ⟨key, path, existing, hkey, hl, hmerge⟩ |
      ⟨key, hkey, hl, rfl⟩
    · refine ⟨some key, hkey, ?_⟩
      rw [Option.bind_some, hl]
      exact bind_eq_ok_iff.mpr ⟨fields', hmerge, rfl⟩
    · exact ⟨key, hkey, by rw [hl]; rfl⟩

/-- **Refreshing changes requests one by one**: what holds of trees that differ in refreshed
    requests holds of a tree and the refreshed one. -/
theorem refreshAll_induction {Q : List Item → List Item → Prop} (nil : Q [] [])
    (folder : ∀ fields items items' rest rest', (Item.nameOf fields).kind.isKey = true →
      Q items items' → Q rest rest' → Q (.folder fields items :: rest) (.folder fields items' :: rest'))
    (leaf : ∀ fields fields' rest rest', refreshLeaf previous fields = .ok fields' →
      Q rest rest' → Q (.leaf fields :: rest) (.leaf fields' :: rest')) {items items' : List Item}
    (h : refreshAll previous items = .ok items') : Q items items' := by
  induction items using forest_induction generalizing items' with
  | nil =>
    obtain rfl := Except.ok.inj h
    exact nil
  | folder fields items rest ihIn ihRest =>
    obtain ⟨item', hitem, h⟩ := bind_eq_ok_iff.mp h
    obtain ⟨rest', hrest, h⟩ := bind_eq_ok_iff.mp h
    obtain rfl := Except.ok.inj h
    obtain ⟨key, hkey, hitem⟩ := bind_eq_ok_iff.mp hitem
    obtain ⟨inner, hinner, hitem⟩ := bind_eq_ok_iff.mp hitem
    obtain rfl := Except.ok.inj hitem
    exact folder _ _ _ _ _ (lookupKey_eq_ok_iff.mp hkey).1 (ihIn hinner) (ihRest hrest)
  | leaf fields rest ih =>
    obtain ⟨item', hitem, h⟩ := bind_eq_ok_iff.mp h
    obtain ⟨rest', hrest, h⟩ := bind_eq_ok_iff.mp h
    obtain rfl := Except.ok.inj h
    obtain ⟨fields', hf, rfl⟩ := refresh_leaf_eq_ok_iff.mp hitem
    exact leaf _ _ _ _ hf (ih hrest)
  | other value rest ih =>
    obtain ⟨item', hitem, -⟩ := bind_eq_ok_iff.mp h
    exact absurd hitem (by simp [refresh])

/-- A tree that begins with a request. -/
theorem refreshAll_leaf {fields fields' : Dict Json} {rest rest' : List Item}
    (hleaf : refreshLeaf previous fields = .ok fields')
    (hrest : refreshAll previous rest = .ok rest') :
    refreshAll previous (.leaf fields :: rest) = .ok (.leaf fields' :: rest') := by
  have hitem := refresh_leaf_eq_ok_iff.mpr ⟨fields', hleaf, rfl⟩
  exact bind_eq_ok_iff.mpr ⟨_, hitem, bind_eq_ok_iff.mpr ⟨_, hrest, rfl⟩⟩

/-- A tree that begins with a folder. -/
theorem refreshAll_folder {fields : Dict Json} {items items' rest rest' : List Item}
    (hname : (Item.nameOf fields).kind.isKey = true)
    (hitems : refreshAll previous items = .ok items')
    (hrest : refreshAll previous rest = .ok rest') :
    refreshAll previous (.folder fields items :: rest) = .ok (.folder fields items' :: rest') := by
  have hitem : refresh previous (.folder fields items) = .ok (.folder fields items') := by
    rw [refresh, lookupKey_of_key hname]
    exact bind_eq_ok_iff.mpr ⟨_, rfl, bind_eq_ok_iff.mpr ⟨_, hitems, rfl⟩⟩
  exact bind_eq_ok_iff.mpr ⟨_, hitem, bind_eq_ok_iff.mpr ⟨_, hrest, rfl⟩⟩

/-- The requests stay in their folders and in their order. -/
theorem flatten_refreshAll {items items' : List Item} (h : refreshAll previous items = .ok items') :
    List.Forall₂ (fun l l' => l'.1 = l.1 ∧ refreshLeaf previous l.2 = .ok l'.2)
      (flatten items) (flatten items') := by
  refine refreshAll_induction (Q := fun items items' => List.Forall₂ _ (flatten items) (flatten items'))
    .nil ?_ ?_ h
  · intro fields items items' rest rest' _ hin hout
    rw [flatten_folder, flatten_folder]
    refine List.rel_append ?_ hout
    rw [List.forall₂_map_left_iff, List.forall₂_map_right_iff]
    exact hin.imp fun l l' hl => ⟨congrArg (_ :: ·) hl.1, hl.2⟩
  · intro fields fields' rest rest' hleaf hout
    exact .cons ⟨rfl, hleaf⟩ hout

/-- The folders stay as they are, and paths can be looked up by. -/
theorem folders_refreshAll {items items' : List Item} (h : refreshAll previous items = .ok items') :
    folders items' = folders items ∧ ∀ path ∈ folders items, KeyPath path := by
  refine refreshAll_induction
    (Q := fun items items' => folders items' = folders items ∧ ∀ path ∈ folders items, KeyPath path)
    ⟨rfl, fun _ hp => absurd hp (List.not_mem_nil)⟩ ?_ ?_ h
  · intro fields items items' rest rest' hname hin hout
    rw [folders_folder, folders_folder, hin.1, hout.1]
    refine ⟨rfl, fun path hp => ?_⟩
    rcases List.mem_cons.mp hp with rfl | hp
    · exact fun j hj => (List.mem_singleton.mp hj) ▸ hname
    · rcases List.mem_append.mp hp with hp | hp
      · obtain ⟨path', hp', rfl⟩ := List.mem_map.mp hp
        intro j hj
        rcases List.mem_cons.mp hj with rfl | hj
        · exact hname
        · exact hin.2 path' hp' j hj
      · exact hout.2 path hp
  · exact fun _ _ _ _ _ hout => hout

/-- A refreshed tree is read back as what it is. -/
theorem readable_refreshAll {items items' : List Item} (h : refreshAll previous items = .ok items')
    (hprevious : ∀ key l, Dict.get? previous key = some l → ReadableItem (.leaf l.2))
    (hitems : Readable items) : Readable items' := by
  revert hitems
  refine refreshAll_induction (Q := fun items items' => Readable items → Readable items')
    id ?_ ?_ h
  · exact fun _ _ _ _ _ _ hin hout hr => ⟨hin hr.1, hout hr.2⟩
  · exact fun _ _ _ _ hleaf hout hr => ⟨readable_refreshLeaf hprevious hr.1 hleaf, hout hr.2⟩

/-- **The refreshed tree looks like the fresh one**: nesting, names, order and keys. -/
theorem outline_refreshAll {items items' : List Item} (h : refreshAll previous items = .ok items')
    (hnames : ∀ l ∈ flatten items, ∃ name, Dict.get? l.2 "name" = some name ∧ name.truthy = true) :
    outline items' = outline items := by
  revert hnames
  refine refreshAll_induction (Q := fun items items' => (∀ l ∈ flatten items, ∃ name,
    Dict.get? l.2 "name" = some name ∧ name.truthy = true) → outline items' = outline items)
    (fun _ => rfl) ?_ ?_ h
  · intro fields items items' rest rest' _ hin hout hnames
    rw [flatten_folder] at hnames
    rw [outline_folder, outline_folder, hin fun l hl => ?_,
      hout fun l hl => hnames l (List.mem_append_right _ hl)]
    exact hnames (below (Item.nameOf fields) l) (List.mem_append_left _ (List.mem_map_of_mem hl))
  · intro fields fields' rest rest' hleaf hout hnames
    rw [flatten_leaf] at hnames
    obtain ⟨name, hname, htruthy⟩ := hnames _ (List.mem_cons_self ..)
    rw [outline_leaf, outline_leaf, key?_refreshLeaf hleaf, name_refreshLeaf hname htruthy hleaf,
      hname, hout fun l hl => hnames l (List.mem_cons_of_mem _ hl)]

/-- Another table that gives the same requests gives the same tree. -/
theorem refreshAll_congr {previous' : Dict (FolderPath × Dict Json)} {items items' : List Item}
    (h : refreshAll previous items = .ok items')
    (hleaves : ∀ l ∈ flatten items, ∀ fields', refreshLeaf previous l.2 = .ok fields' →
      refreshLeaf previous' l.2 = .ok fields') : refreshAll previous' items = .ok items' := by
  revert hleaves
  refine refreshAll_induction (Q := fun items items' => (∀ l ∈ flatten items, ∀ fields',
    refreshLeaf previous l.2 = .ok fields' → refreshLeaf previous' l.2 = .ok fields') →
      refreshAll previous' items = .ok items') (fun _ => rfl) ?_ ?_ h
  · intro fields items items' rest rest' hname hin hout hleaves
    rw [flatten_folder] at hleaves
    refine refreshAll_folder hname (hin fun l hl => ?_)
      (hout fun l hl => hleaves l (List.mem_append_right _ hl))
    exact hleaves (below (Item.nameOf fields) l) (List.mem_append_left _ (List.mem_map_of_mem hl))
  · intro fields fields' rest rest' hleaf hout hleaves
    rw [flatten_leaf] at hleaves
    exact refreshAll_leaf (hleaves _ (List.mem_cons_self ..) _ hleaf)
      (hout fun l hl => hleaves l (List.mem_cons_of_mem _ hl))

/-- A tree whose requests stay as they are stays as it is. -/
theorem refreshAll_self {items : List Item} (hitems : Proper items)
    (hleaves : ∀ l ∈ flatten items, refreshLeaf previous l.2 = .ok l.2) :
    refreshAll previous items = .ok items := by
  induction items using forest_induction with
  | nil => rfl
  | folder fields items rest ihIn ihRest =>
    rw [flatten_folder] at hleaves
    refine refreshAll_folder hitems.1.1 (ihIn hitems.1.2 fun l hl => ?_)
      (ihRest hitems.2 fun l hl => hleaves l (List.mem_append_right _ hl))
    exact hleaves (below (Item.nameOf fields) l) (List.mem_append_left _ (List.mem_map_of_mem hl))
  | leaf fields rest ih =>
    rw [flatten_leaf] at hleaves
    exact refreshAll_leaf (hleaves _ (List.mem_cons_self ..))
      (ih hitems.2 fun l hl => hleaves l (List.mem_cons_of_mem _ hl))
  | other value rest ih => exact hitems.1.elim

end

end RouteAtlas.Postman
