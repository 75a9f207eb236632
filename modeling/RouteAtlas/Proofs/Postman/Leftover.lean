/-
  Where requests go whose endpoint is gone.

  `putLeftover` puts one request at the end of the first folder with its path, or of the whole
  collection.  Repeating that for a list of requests mixes searching with changing, and the order
  of the outcome is not the order of the list; so it is compared with a function that walks through
  the tree once:

  1. **Placement** - `fill leftovers items` gives every folder what belongs to it and passes on the
     rest.  The requests meant for the root, and those whose folder is gone, are what is left when
     the walk is over.  `putLeftovers_eq_fill` says that this is what repeated putting does.

  2. **Where they end up** - `arrivals leftovers items` lists the requests that `fill` adds, in the
     order of the tree and with the paths of the folders they are in (`filter_flatten_fill`).
     Each is in a folder with the path it asked for if there is one, else at the root
     (`mem_arrivals`).

  3. **The crux** - `fill_arrivals`: filling the tree with what was placed, in the order of the tree,
     gives the same tree.  Two requests in one folder never change places, and one that asks for a
     folder by the name it was found under is not taken by an earlier one.
-/
import RouteAtlas.Proofs.Json.Sameness
import RouteAtlas.Proofs.Persisted.Mark
import RouteAtlas.Proofs.Persisted.Success
import RouteAtlas.Proofs.Postman.Tree

namespace RouteAtlas.Postman

open Persisted (Fault isMarked)
open Json (KeyPath)

/-- Requests on their way, each with the path of the folder it is meant for. -/
abbrev Leftovers := List (FolderPath × Dict Json)

/-! ## Placement

The program puts leftovers into the tree one after the other.  `fill` puts all of them at once, by
one walk over the tree: each folder takes what is meant for it, and passes on the rest. -/

/-- The requests that an item takes for itself, from its own point of view. -/
def inside (fields : Dict Json) (items : List Item) (leftovers : Leftovers) : Leftovers :=
  (leftovers.filter fun l => leadsTo fields items l.1).map fun l => (l.1.tail, l.2)

/-- The requests that an item passes on. -/
def beyond : Item → Leftovers → Leftovers
  | .folder fields items, leftovers => leftovers.filter fun l => !leadsTo fields items l.1
  | _, leftovers => leftovers

mutual
/-- An item with the requests that belong into it. -/
def fillItem (leftovers : Leftovers) : Item → Item
  | .folder fields items => .folder fields (fill (inside fields items leftovers) items)
  | item => item
/-- Items with the requests that belong into their folders; the others come last. -/
def fill (leftovers : Leftovers) : List Item → List Item
  | [] => leftovers.map fun l => .leaf l.2
  | item :: rest => fillItem leftovers item :: fill (beyond item leftovers) rest
end

mutual
/-- The requests that are put into an item, with the paths they are then at. -/
def arrivalsIn (leftovers : Leftovers) : Item → Leftovers
  | .folder fields items =>
    (arrivals (inside fields items leftovers) items).map (below (Item.nameOf fields))
  | _ => []
/-- The requests that are put into items, in the order of the tree. -/
def arrivals (leftovers : Leftovers) : List Item → Leftovers
  | [] => leftovers.map fun l => ([], l.2)
  | item :: rest => arrivalsIn leftovers item ++ arrivals (beyond item leftovers) rest
end

@[simp] theorem fill_nil (leftovers : Leftovers) :
    fill leftovers [] = (leftovers.map (·.2)).map .leaf := by
  rw [List.map_map]
  rfl

@[simp] theorem fill_folder (leftovers : Leftovers) (fields : Dict Json) (items rest : List Item) :
    fill leftovers (.folder fields items :: rest)
      = .folder fields (fill (inside fields items leftovers) items)
        :: fill (beyond (.folder fields items) leftovers) rest := rfl

@[simp] theorem fill_leaf (leftovers : Leftovers) (fields : Dict Json) (rest : List Item) :
    fill leftovers (.leaf fields :: rest) = .leaf fields :: fill leftovers rest := rfl

@[simp] theorem fill_other (leftovers : Leftovers) (value : Json) (rest : List Item) :
    fill leftovers (.other value :: rest) = .other value :: fill leftovers rest := rfl

@[simp] theorem arrivals_nil (leftovers : Leftovers) :
    arrivals leftovers [] = leftovers.map fun l => ([], l.2) := rfl

@[simp] theorem arrivals_folder (leftovers : Leftovers) (fields : Dict Json) (items rest : List Item) :
    arrivals leftovers (.folder fields items :: rest)
      = (arrivals (inside fields items leftovers) items).map (below (Item.nameOf fields))
        ++ arrivals (beyond (.folder fields items) leftovers) rest := rfl

@[simp] theorem arrivals_leaf (leftovers : Leftovers) (fields : Dict Json) (rest : List Item) :
    arrivals leftovers (.leaf fields :: rest) = arrivals leftovers rest := rfl

@[simp] theorem arrivals_other (leftovers : Leftovers) (value : Json) (rest : List Item) :
    arrivals leftovers (.other value :: rest) = arrivals leftovers rest := rfl

/-- With nothing to put, nothing changes. -/
theorem fill_empty (items : List Item) : fill [] items = items := by
  induction items using forest_induction with
  | nil => rfl
  | folder fields items rest ihIn ihRest =>
    show Item.folder fields (fill [] items) :: fill [] rest = _
    rw [ihIn, ihRest]
  | leaf fields rest ih => rw [fill_leaf, ih]
  | other value rest ih => rw [fill_other, ih]

/-! ## Putting one after the other

One more leftover in the list of `fill` is one more that is put into the filled tree.  Folder by
folder, it is either taken or passed on. -/

/-- A request that a folder leads to is taken by it. -/
theorem fill_append_of_leadsTo {fields : Dict Json} {items : List Item} {path : FolderPath}
    (h : leadsTo fields items path = true) (leaf : Dict Json) (leftovers : Leftovers)
    (rest : List Item) :
    fill (leftovers ++ [(path, leaf)]) (.folder fields items :: rest)
      = .folder fields (fill (inside fields items leftovers ++ [(path.tail, leaf)]) items)
        :: fill (beyond (.folder fields items) leftovers) rest := by
  have hin : inside fields items (leftovers ++ [(path, leaf)])
      = inside fields items leftovers ++ [(path.tail, leaf)] := by simp [inside, h]
  have hout : beyond (.folder fields items) (leftovers ++ [(path, leaf)])
      = beyond (.folder fields items) leftovers := by simp [beyond, h]
  rw [fill_folder, hin, hout]

/-- A request that a folder does not lead to is passed on. -/
theorem fill_append_of_not_leadsTo {fields : Dict Json} {items : List Item} {path : FolderPath}
    (h : leadsTo fields items path = false) (leaf : Dict Json) (leftovers : Leftovers)
    (rest : List Item) :
    fill (leftovers ++ [(path, leaf)]) (.folder fields items :: rest)
      = .folder fields (fill (inside fields items leftovers) items)
        :: fill (beyond (.folder fields items) leftovers ++ [(path, leaf)]) rest := by
  have hin : inside fields items (leftovers ++ [(path, leaf)]) = inside fields items leftovers := by
    simp [inside, h]
  have hout : beyond (.folder fields items) (leftovers ++ [(path, leaf)])
      = beyond (.folder fields items) leftovers ++ [(path, leaf)] := by simp [beyond, h]
  rw [fill_folder, hin, hout]

/-- One more request that has no folder comes last. -/
theorem fill_append_of_no_folder {path : FolderPath} (leaf : Dict Json) (leftovers : Leftovers)
    {items : List Item} (h : hasFolder items path = false) :
    fill (leftovers ++ [(path, leaf)]) items = fill leftovers items ++ [.leaf leaf] := by
  induction items using forest_induction generalizing leftovers with
  | nil => simp
  | folder fields items rest _ ihRest =>
    rw [hasFolder_folder, Bool.or_eq_false_iff] at h
    rw [fill_append_of_not_leadsTo h.1, ihRest _ h.2, fill_folder, List.cons_append]
  | leaf fields rest ih => rw [fill_leaf, fill_leaf, ih leftovers h, List.cons_append]
  | other value rest ih => rw [fill_other, fill_other, ih leftovers h, List.cons_append]

/-- Among requests there is no folder to put anything into. -/
theorem addTo?_leaves (leaf : Item) (path : FolderPath) (leaves : List (Dict Json)) :
    addTo? leaf path (leaves.map .leaf) = none := by
  induction leaves with
  | nil => rfl
  | cons l leaves ih =>
    show (addTo? leaf path (leaves.map .leaf)).map _ = none
    rw [ih]
    rfl

/-- What the search does with a folder, once it is known what it does below it.  The hypothesis is
    about all paths below it, since the search goes on with the rest of the path. -/
theorem addInto?_folder {leaf fields : Dict Json} {items : List Item} {leftovers : Leftovers}
    (ih : ∀ path, addTo? (.leaf leaf) path (fill leftovers items)
      = if hasFolder items path then some (fill (leftovers ++ [(path, leaf)]) items) else none)
    (path : FolderPath) : addInto? (.leaf leaf) path (.folder fields (fill leftovers items))
      = if leadsTo fields items path
        then some (.folder fields (fill (leftovers ++ [(path.tail, leaf)]) items)) else none := by
  cases path with
  | nil => rfl
  | cons name names =>
    rw [leadsTo, Json.beq_eq_same]
    show (if (Item.nameOf fields).same name then _ else none) = _
    cases (Item.nameOf fields).same name with
    | false => rfl
    | true =>
      cases names with
      | nil =>
        show some (Item.folder fields (fill leftovers items ++ [.leaf leaf])) = _
        rw [← fill_append_of_no_folder leaf leftovers (hasFolder_root items)]
        rfl
      | cons next names =>
        show (addTo? (.leaf leaf) (next :: names) (fill leftovers items)).map (Item.folder fields) = _
        rw [ih]
        cases hasFolder items (next :: names) <;> rfl

/-- One more request is put where the walk would have brought it.  The first folder that leads to
    the path takes the request in the search and in the walk alike, and it goes behind the others
    that were meant for it. -/
theorem addTo?_fill (leaf : Dict Json) (path : FolderPath) (leftovers : Leftovers)
    (items : List Item) : addTo? (.leaf leaf) path (fill leftovers items)
      = if hasFolder items path then some (fill (leftovers ++ [(path, leaf)]) items) else none := by
  induction items using forest_induction generalizing path leftovers with
  | nil =>
    rw [fill_nil, addTo?_leaves]
    rfl
  | folder fields items rest ihIn ihRest =>
    rw [fill_folder, addTo?, addInto?_folder fun p => ihIn p _, hasFolder_folder]
    cases hlead : leadsTo fields items path with
    | true =>
      rw [fill_append_of_leadsTo hlead]
      rfl
    | false =>
      rw [fill_append_of_not_leadsTo hlead]
      show (addTo? (.leaf leaf) path (fill _ rest)).map _ = _
      rw [ihRest]
      cases hasFolder rest path <;> rfl
  | leaf fields rest ih =>
    show (addTo? (.leaf leaf) path (fill leftovers rest)).map _ = _
    rw [ih, fill_leaf, hasFolder_leaf]
    cases hasFolder rest path <;> rfl
  | other value rest ih =>
    show (addTo? (.leaf leaf) path (fill leftovers rest)).map _ = _
    rw [ih, fill_other, hasFolder_other]
    cases hasFolder rest path <;> rfl

/-- A request whose endpoint is gone: marked, and with a path that folders can be found by. -/
def markGone (l : FolderPath × Dict Json) : Except Fault (FolderPath × Dict Json) := do
  let name ← Persisted.deprecated (Dict.get? l.2 "name")
  let _ ← l.1.mapM Persisted.lookupKey
  return (l.1, Dict.put l.2 "name" name)

/-- Putting one more request into the filled tree fills the tree with one more. -/
theorem putLeftover_fill (leftovers : Leftovers) (items : List Item) (path : FolderPath)
    (leaf : Dict Json) : putLeftover (fill leftovers items) path leaf
      = (markGone (path, leaf)).map fun l => fill (leftovers ++ [l]) items := by
  rw [putLeftover, markGone]
  cases Persisted.deprecated (Dict.get? leaf "name") with
  | error e => rfl
  | ok name =>
    show (path.mapM Persisted.lookupKey >>= _) = Except.map _ (path.mapM Persisted.lookupKey >>= _)
    cases path.mapM Persisted.lookupKey with
    | error e => rfl
    | ok names =>
      show Except.ok _ = Except.ok _
      rw [addTo?_fill]
      cases hf : hasFolder items path with
      | true => rfl
      | false =>
        show _ = Except.ok (fill (leftovers ++ [(path, Dict.put leaf "name" name)]) items)
        rw [fill_append_of_no_folder _ _ hf]
        rfl

/-- **Repeated putting is one walk**: it marks all requests and fills the tree with them.  The tree
    is kept as a filled one, with one more leftover on each step, which is what the induction is on. -/
theorem putLeftovers_eq_fill (gone : Dict (FolderPath × Dict Json)) (leftovers : Leftovers)
    (items : List Item) :
    gone.foldlM (fun items g => putLeftover items g.2.1 g.2.2) (fill leftovers items)
      = (gone.mapM fun g => markGone g.2).map fun ls => fill (leftovers ++ ls) items := by
  induction gone generalizing leftovers with
  | nil =>
    show Except.ok (fill leftovers items) = Except.ok (fill (leftovers ++ []) items)
    rw [List.append_nil]
  | cons g gone ih =>
    obtain ⟨key, path, leaf⟩ := g
    rw [List.foldlM_cons, List.mapM_cons]
    show (putLeftover (fill leftovers items) path leaf >>= _) = _
    rw [putLeftover_fill]
    cases markGone (path, leaf) with
    | error e => rfl
    | ok l =>
      show gone.foldlM _ (fill (leftovers ++ [l]) items)
        = Except.map _ (gone.mapM (fun g => markGone g.2) >>= _)
      rw [ih]
      cases gone.mapM fun g => markGone g.2 with
      | error e => rfl
      | ok ls =>
        show Except.ok (fill (leftovers ++ [l] ++ ls) items) = Except.ok (fill (leftovers ++ l :: ls) items)
        rw [List.append_assoc, List.singleton_append]

/-! ## Where they end up

`arrivals` lists what was put, with the paths it is at now, in the order of the tree.  It is what
the next merge finds. -/

/-- What a folder takes was meant for a folder in it or for the folder itself. -/
theorem mem_inside {fields : Dict Json} {items : List Item} {leftovers : Leftovers}
    {l : FolderPath × Dict Json} (h : l ∈ inside fields items leftovers) :
    ∃ name, (name :: l.1, l.2) ∈ leftovers ∧ leadsTo fields items (name :: l.1) = true := by
  obtain ⟨⟨path, leaf⟩, hmem, rfl⟩ := List.mem_map.mp h
  obtain ⟨hmem, hlead⟩ := List.mem_filter.mp hmem
  cases path with
  | nil => exact absurd hlead (by simp [leadsTo])
  | cons name names => exact ⟨name, hmem, hlead⟩

/-- A request that was put somewhere is in the folder it was meant for, else at the root.  The path
    that it arrives on is spelled as the names of the folders are, which count as the names that it
    was meant for. -/
theorem mem_arrivals {leftovers : Leftovers} {items : List Item} {q : FolderPath} {leaf : Dict Json}
    (h : (q, leaf) ∈ arrivals leftovers items) : ∃ path, (path, leaf) ∈ leftovers ∧
      if hasFolder items path then q ∈ folders items ∧ (q == path) = true else q = [] := by
  induction items using forest_induction generalizing leftovers q with
  | nil =>
    obtain ⟨⟨path, leaf'⟩, hmem, heq⟩ := List.mem_map.mp h
    obtain ⟨rfl, rfl⟩ := Prod.mk.inj heq
    exact ⟨path, hmem, rfl⟩
  | folder fields items rest ihIn ihRest =>
    rw [arrivals_folder, List.mem_append] at h
    rcases h with h | h
    · obtain ⟨⟨q', leaf'⟩, hq', heq⟩ := List.mem_map.mp h
      obtain ⟨rfl, rfl⟩ := Prod.mk.inj heq
      obtain ⟨path, hpath, hplace⟩ := ihIn hq'
      obtain ⟨name, hmem, hlead⟩ := mem_inside hpath
      refine ⟨name :: path, hmem, ?_⟩
      rw [hasFolder_folder, hlead, Bool.true_or, if_pos rfl, folders_folder]
      rw [leadsTo, Bool.and_eq_true] at hlead
      -- the path ends at this folder, or goes on below it
      cases hf : hasFolder items path with
      | true =>
        rw [hf, if_pos rfl] at hplace
        refine ⟨List.mem_cons_of_mem _ (List.mem_append_left _ (List.mem_map_of_mem hplace.1)), ?_⟩
        rw [List.cons_beq_cons, hlead.1, hplace.2]
        rfl
      | false =>
        rw [hf] at hplace hlead
        obtain rfl := hplace
        rw [Bool.or_false, List.isEmpty_iff] at hlead
        obtain ⟨hname, rfl⟩ := hlead
        exact ⟨List.mem_cons_self .., by rw [List.cons_beq_cons, hname]; rfl⟩
    · obtain ⟨path, hpath, hplace⟩ := ihRest h
      obtain ⟨hmem, hlead⟩ := List.mem_filter.mp hpath
      refine ⟨path, hmem, ?_⟩
      rw [Bool.not_eq_true'] at hlead
      rw [hasFolder_folder, hlead, Bool.false_or]
      cases hf : hasFolder rest path with
      | true =>
        rw [hf, if_pos rfl] at hplace
        exact ⟨List.mem_cons_of_mem _ (List.mem_append_right _ hplace.1), hplace.2⟩
      | false =>
        rw [hf] at hplace
        exact hplace
  | leaf fields rest ih => exact ih h
  | other value rest ih => exact ih h

/-- A folder takes some and passes on the others. -/
theorem inside_append_beyond (fields : Dict Json) (items : List Item) (leftovers : Leftovers) :
    ((inside fields items leftovers).map (·.2) ++ (beyond (.folder fields items) leftovers).map (·.2)).Perm
      (leftovers.map (·.2)) := by
  rw [inside, List.map_map, beyond]
  show (List.map Prod.snd _ ++ List.map Prod.snd _).Perm _
  rw [← List.map_append]
  exact (List.filter_append_perm _ leftovers).map _

/-- Nothing is lost and nothing is put twice. -/
theorem arrivals_perm (leftovers : Leftovers) (items : List Item) :
    ((arrivals leftovers items).map (·.2)).Perm (leftovers.map (·.2)) := by
  induction items using forest_induction generalizing leftovers with
  | nil => rw [arrivals_nil, List.map_map]; rfl
  | folder fields items rest ihIn ihRest =>
    rw [arrivals_folder, List.map_append, List.map_map]
    exact ((ihIn _).append (ihRest _)).trans (inside_append_beyond fields items leftovers)
  | leaf fields rest ih => exact ih leftovers
  | other value rest ih => exact ih leftovers

/-- Requests outside all folders are at the root. -/
theorem flatten_leaves (leaves : List (Dict Json)) :
    flatten (leaves.map .leaf) = leaves.map fun leaf => ([], leaf) := by
  induction leaves with
  | nil => rfl
  | cons leaf leaves ih => rw [List.map_cons, flatten_leaf, ih, List.map_cons]

/-- The filled tree holds the requests of the tree and those that were put into it. -/
theorem flatten_fill_perm (leftovers : Leftovers) (items : List Item) :
    (flatten (fill leftovers items)).Perm (flatten items ++ arrivals leftovers items) := by
  induction items using forest_induction generalizing leftovers with
  | nil =>
    rw [fill_nil, flatten_leaves, arrivals_nil, List.map_map]
    rfl
  | folder fields items rest ihIn ihRest =>
    rw [fill_folder, flatten_folder, flatten_folder, arrivals_folder]
    have hin := (ihIn (inside fields items leftovers)).map (below (Item.nameOf fields))
    rw [List.map_append] at hin
    refine (hin.append (ihRest _)).trans ?_
    rw [List.append_assoc, List.append_assoc]
    refine List.Perm.append_left _ ?_
    rw [← List.append_assoc, ← List.append_assoc]
    exact List.perm_append_comm.append_right _
  | leaf fields rest ih => exact (ih leftovers).cons _
  | other value rest ih => exact ih leftovers

/-- With a test that tells them from the others, the requests that were put into the tree are found
    in the order in which they stand in it. -/
theorem filter_flatten_fill {g : Dict Json → Bool} {leftovers : Leftovers} {items : List Item}
    (hout : ∀ l ∈ flatten items, g l.2 = false) (hin : ∀ l ∈ leftovers, g l.2 = true) :
    (flatten (fill leftovers items)).filter (fun l => g l.2) = arrivals leftovers items := by
  induction items using forest_induction generalizing leftovers with
  | nil =>
    rw [fill_nil, flatten_leaves, arrivals_nil, List.map_map]
    refine List.filter_eq_self.mpr fun l hl => ?_
    obtain ⟨l', hl', rfl⟩ := List.mem_map.mp hl
    exact hin l' hl'
  | folder fields items rest ihIn ihRest =>
    rw [flatten_folder] at hout
    rw [fill_folder, flatten_folder, arrivals_folder, List.filter_append, List.filter_map]
    -- what the folder took, and behind it what it passed on
    have hhead : (flatten (fill (inside fields items leftovers) items)).filter (fun l => g l.2)
        = arrivals (inside fields items leftovers) items := by
      refine ihIn (fun l hl => ?_) fun l hl => ?_
      · exact hout (below (Item.nameOf fields) l) (List.mem_append_left _ (List.mem_map_of_mem hl))
      · obtain ⟨name, hmem, -⟩ := mem_inside hl
        exact hin (name :: l.1, l.2) hmem
    have htail : (flatten (fill (beyond (.folder fields items) leftovers) rest)).filter
        (fun l => g l.2) = arrivals (beyond (.folder fields items) leftovers) rest :=
      ihRest (fun l hl => hout l (List.mem_append_right _ hl))
        fun l hl => hin l (List.mem_filter.mp hl).1
    rw [htail, ← hhead]
    rfl
  | leaf fields rest ih =>
    rw [flatten_leaf] at hout
    have hg : g fields = false := hout _ (List.mem_cons_self ..)
    rw [fill_leaf, flatten_leaf, arrivals_leaf, List.filter_cons_of_neg (by simp [hg])]
    exact ih (fun l hl => hout l (List.mem_cons_of_mem _ hl)) hin
  | other value rest ih => exact ih hout hin

/-- A filled tree is read back as what it is, if the tree and the requests are. -/
theorem readable_fill {leftovers : Leftovers} {items : List Item} (h : Readable items)
    (hl : ∀ l ∈ leftovers, ReadableItem (.leaf l.2)) : Readable (fill leftovers items) := by
  induction items using forest_induction generalizing leftovers with
  | nil =>
    induction leftovers with
    | nil => trivial
    | cons l leftovers ih =>
      exact ⟨hl l (List.mem_cons_self ..), ih fun l' hl' => hl l' (List.mem_cons_of_mem _ hl')⟩
  | folder fields items rest ihIn ihRest =>
    refine ⟨ihIn h.1 fun l hmem => ?_, ihRest h.2 fun l hmem => hl l (List.mem_filter.mp hmem).1⟩
    obtain ⟨name, hmem, -⟩ := mem_inside hmem
    exact hl (name :: l.1, l.2) hmem
  | leaf fields rest ih => exact ⟨h.1, ih h.2 hl⟩
  | other value rest ih => exact ⟨h.1, ih h.2 hl⟩

/-- Of marked requests nothing remains. -/
theorem unmarked_leaves {leaves : List (Dict Json)} (h : ∀ leaf ∈ leaves, isMarked leaf = true) :
    unmarked (leaves.map .leaf) = [] := by
  induction leaves with
  | nil => rfl
  | cons leaf leaves ih =>
    rw [List.map_cons, unmarked_leaf_of_marked (h leaf (List.mem_cons_self ..))]
    exact ih fun l hl => h l (List.mem_cons_of_mem _ hl)

/-- Without what is marked, the tree is what it was before marked requests were put into
    it.  Putting requests in makes no folder, so dropping them again leaves every folder in its
    place. -/
theorem unmarked_fill {leftovers : Leftovers} {items : List Item}
    (hout : ∀ l ∈ flatten items, isMarked l.2 = false)
    (hin : ∀ l ∈ leftovers, isMarked l.2 = true) : unmarked (fill leftovers items) = items := by
  induction items using forest_induction generalizing leftovers with
  | nil =>
    rw [fill_nil]
    refine unmarked_leaves fun leaf hleaf => ?_
    obtain ⟨l, hl, rfl⟩ := List.mem_map.mp hleaf
    exact hin l hl
  | folder fields items rest ihIn ihRest =>
    rw [flatten_folder] at hout
    rw [fill_folder, unmarked_folder, ihIn, ihRest]
    · exact fun l hl => hout l (List.mem_append_right _ hl)
    · exact fun l hl => hin l (List.mem_filter.mp hl).1
    · exact fun l hl => hout (below (Item.nameOf fields) l)
        (List.mem_append_left _ (List.mem_map_of_mem hl))
    · intro l hl
      obtain ⟨name, hmem, -⟩ := mem_inside hl
      exact hin (name :: l.1, l.2) hmem
  | leaf fields rest ih =>
    rw [flatten_leaf] at hout
    have hm : isMarked fields = false := hout _ (List.mem_cons_self ..)
    rw [fill_leaf, unmarked_leaf_of_not_marked hm,
      ih (fun l hl => hout l (List.mem_cons_of_mem _ hl)) hin]
  | other value rest ih => rw [fill_other, unmarked_other, ih hout hin]

/-! ## The same places again

A second merge puts the same leftovers into the same tree, in the order of the tree instead of the
order of their keys.  Every one comes to the same folder, so the filled tree is the same. -/

/-- Paths that count as one lead to a folder both or not at all. -/
theorem hasFolder_congr {items : List Item} (hkeys : ∀ q ∈ folders items, KeyPath q)
    {p q : FolderPath} (hp : KeyPath p) (hq : KeyPath q) (h : (p == q) = true) :
    hasFolder items p = hasFolder items q := by
  rw [hasFolder, hasFolder, Bool.eq_iff_iff, List.any_eq_true, List.any_eq_true]
  constructor
  · rintro ⟨r, hr, hrp⟩
    exact ⟨r, hr, Json.path_beq_trans (hkeys r hr) hp hrp h⟩
  · rintro ⟨r, hr, hrq⟩
    exact ⟨r, hr, Json.path_beq_trans (hkeys r hr) hq hrq (Json.path_beq_symm hp hq h)⟩

/-- A folder leads to paths that count as one in the same way.  Names that count as one are told
    apart nowhere, provided that they can be keys at all: a list equals no key and may not equal
    itself. -/
theorem leadsTo_congr {fields : Dict Json} {items : List Item}
    (hname : (Item.nameOf fields).kind.isKey = true) (hkeys : ∀ q ∈ folders items, KeyPath q)
    {p q : FolderPath} (hp : KeyPath p) (hq : KeyPath q) (h : (p == q) = true) :
    leadsTo fields items p = leadsTo fields items q := by
  cases p with
  | nil =>
    cases q with
    | nil => rfl
    | cons n ns => exact absurd h (by simp)
  | cons m ms =>
    cases q with
    | nil => exact absurd h (by simp)
    | cons n ns =>
      rw [List.cons_beq_cons, Bool.and_eq_true] at h
      have hm : m.kind.isKey = true := hp m (List.mem_cons_self ..)
      have hn : n.kind.isKey = true := hq n (List.mem_cons_self ..)
      have hms : KeyPath ms := fun j hj => hp j (List.mem_cons_of_mem _ hj)
      have hns : KeyPath ns := fun j hj => hq j (List.mem_cons_of_mem _ hj)
      have hhead : (Item.nameOf fields == m) = (Item.nameOf fields == n) := by
        rw [Bool.eq_iff_iff]
        exact ⟨fun hf => Json.beq_trans_of_key hname hm hf h.1,
          fun hf => Json.beq_trans_of_key hname hn hf (Json.beq_symm_of_key hm hn h.1)⟩
      -- both paths end here, or neither does
      have hempty : ms.isEmpty = ns.isEmpty := by
        cases ms with
        | nil =>
          cases ns with
          | nil => rfl
          | cons _ _ => exact absurd h.2 (by simp)
        | cons _ _ =>
          cases ns with
          | nil => exact absurd h.2 (by simp)
          | cons _ _ => rfl
      rw [leadsTo, leadsTo, hhead, hempty, hasFolder_congr hkeys hms hns h.2]

/-- What is put into a folder is put into it again.  The path it arrived on counts as the one it was
    meant for, and such paths lead the same way. -/
theorem leadsTo_of_mem_arrivals {fields : Dict Json} {items : List Item} {leftovers : Leftovers}
    (hname : (Item.nameOf fields).kind.isKey = true) (hkeys : ∀ q ∈ folders items, KeyPath q)
    (hl : ∀ l ∈ leftovers, KeyPath l.1) {q : FolderPath} {leaf : Dict Json}
    (h : (q, leaf) ∈ arrivals (inside fields items leftovers) items) :
    leadsTo fields items (Item.nameOf fields :: q) = true := by
  obtain ⟨path, hpath, hplace⟩ := mem_arrivals h
  obtain ⟨name, hmem, hlead⟩ := mem_inside hpath
  have hkey : KeyPath (name :: path) := hl _ hmem
  rw [leadsTo, Bool.and_eq_true] at hlead
  have hself : (Item.nameOf fields == Item.nameOf fields) = true :=
    Json.beq_trans_of_key hname (hkey name (List.mem_cons_self ..)) hlead.1
      (Json.beq_symm_of_key hname (hkey name (List.mem_cons_self ..)) hlead.1)
  rw [leadsTo, hself, Bool.true_and]
  cases hf : hasFolder items path with
  | false =>
    rw [hf] at hplace
    obtain rfl := hplace
    rfl
  | true =>
    rw [hf, if_pos rfl] at hplace
    have hpathKey : KeyPath path := fun j hj => hkey j (List.mem_cons_of_mem _ hj)
    rw [hasFolder_congr hkeys (hkeys q hplace.1) hpathKey hplace.2, hf, Bool.or_true]

/-- What a folder passes on is passed on again. -/
theorem not_leadsTo_of_mem_arrivals {fields : Dict Json} {items rest : List Item}
    {leftovers : Leftovers} (hname : (Item.nameOf fields).kind.isKey = true)
    (hkeys : ∀ q ∈ folders items, KeyPath q) (hrest : ∀ q ∈ folders rest, KeyPath q)
    (hl : ∀ l ∈ leftovers, KeyPath l.1) {q : FolderPath} {leaf : Dict Json}
    (h : (q, leaf) ∈ arrivals (beyond (.folder fields items) leftovers) rest) :
    leadsTo fields items q = false := by
  obtain ⟨path, hpath, hplace⟩ := mem_arrivals h
  obtain ⟨hmem, hlead⟩ := List.mem_filter.mp hpath
  rw [Bool.not_eq_true'] at hlead
  cases hf : hasFolder rest path with
  | false =>
    rw [hf] at hplace
    obtain rfl := hplace
    rfl
  | true =>
    rw [hf, if_pos rfl] at hplace
    rw [leadsTo_congr hname hkeys (hrest q hplace.1) (hl _ hmem) hplace.2, hlead]

section

variable {fields : Dict Json} {items rest : List Item} {leftovers : Leftovers}

/-- Of what arrived, a folder takes again what arrived in it. -/
theorem inside_arrivals (hname : (Item.nameOf fields).kind.isKey = true)
    (hkeys : ∀ q ∈ folders items, KeyPath q) (hrest : ∀ q ∈ folders rest, KeyPath q)
    (hl : ∀ l ∈ leftovers, KeyPath l.1) :
    inside fields items (arrivals leftovers (.folder fields items :: rest))
      = arrivals (inside fields items leftovers) items := by
  rw [arrivals_folder, inside, List.filter_append, List.filter_eq_self.mpr, List.filter_eq_nil_iff.mpr]
  · rw [List.append_nil, List.map_map]
    exact List.map_id _
  · intro l hmem
    rw [not_leadsTo_of_mem_arrivals hname hkeys hrest hl hmem]
    exact Bool.false_ne_true
  · intro l hmem
    obtain ⟨l', hl', rfl⟩ := List.mem_map.mp hmem
    exact leadsTo_of_mem_arrivals hname hkeys hl hl'

/-- Of what arrived, a folder passes on again what arrived behind it. -/
theorem beyond_arrivals (hname : (Item.nameOf fields).kind.isKey = true)
    (hkeys : ∀ q ∈ folders items, KeyPath q) (hrest : ∀ q ∈ folders rest, KeyPath q)
    (hl : ∀ l ∈ leftovers, KeyPath l.1) :
    beyond (.folder fields items) (arrivals leftovers (.folder fields items :: rest))
      = arrivals (beyond (.folder fields items) leftovers) rest := by
  rw [arrivals_folder, beyond, List.filter_append, List.filter_eq_nil_iff.mpr, List.filter_eq_self.mpr]
  · rfl
  · intro l hmem
    rw [not_leadsTo_of_mem_arrivals hname hkeys hrest hl hmem]
    rfl
  · intro l hmem
    obtain ⟨l', hl', rfl⟩ := List.mem_map.mp hmem
    rw [below, leadsTo_of_mem_arrivals hname hkeys hl hl']
    exact Bool.false_ne_true

end

/-- **Putting again what was put changes nothing**: in the order of the tree and with the paths of
    the folders they are in, the requests end up where they were. -/
theorem fill_arrivals {leftovers : Leftovers} {items : List Item}
    (hkeys : ∀ q ∈ folders items, KeyPath q) (hl : ∀ l ∈ leftovers, KeyPath l.1) :
    fill (arrivals leftovers items) items = fill leftovers items := by
  induction items using forest_induction generalizing leftovers with
  | nil =>
    rw [fill_nil, fill_nil, arrivals_nil, List.map_map (g := Prod.snd)]
    rfl
  | folder fields items rest ihIn ihRest =>
    have hname : (Item.nameOf fields).kind.isKey = true :=
      hkeys [Item.nameOf fields] (List.mem_cons_self ..) _ (List.mem_cons_self ..)
    have hin : ∀ q ∈ folders items, KeyPath q := fun q hq j hj =>
      hkeys (Item.nameOf fields :: q)
        (List.mem_cons_of_mem _ (List.mem_append_left _ (List.mem_map_of_mem hq)))
        j (List.mem_cons_of_mem _ hj)
    have hout : ∀ q ∈ folders rest, KeyPath q := fun q hq =>
      hkeys q (List.mem_cons_of_mem _ (List.mem_append_right _ hq))
    have hlin : ∀ l ∈ inside fields items leftovers, KeyPath l.1 := by
      intro l hmem
      obtain ⟨name, hmem, -⟩ := mem_inside hmem
      exact fun j hj => hl _ hmem j (List.mem_cons_of_mem _ hj)
    have hlout : ∀ l ∈ beyond (.folder fields items) leftovers, KeyPath l.1 :=
      fun l hmem => hl l (List.mem_filter.mp hmem).1
    rw [fill_folder, inside_arrivals hname hin hout hl, beyond_arrivals hname hin hout hl,
      ihIn hin hlin, ihRest hout hlout, fill_folder]
  | leaf fields rest ih => rw [arrivals_leaf, fill_leaf, ih hkeys hl, fill_leaf]
  | other value rest ih => rw [arrivals_other, fill_other, ih hkeys hl, fill_other]

end RouteAtlas.Postman
