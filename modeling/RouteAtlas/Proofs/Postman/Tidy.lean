/-
  The folders of a synthesized collection.

  ==== Problem ====

  A collection grows request by request: the way into a folder is looked for on every level, and what
  is missing of it is made.  Endpoints of different folders come in any order, a folder may be on the
  way to another one, and at last the top level is sorted.

  ==== Spec ====

  Sibling folders have different names and none is empty (`Tidy`), and what stands in a folder stands
  there in the order of the endpoints (`within_items`).

  ==== The crux ====

  The search stops at the first folder of a name.  On a tidy level there is no other one, so what is
  put there comes behind all that has the same path (`within_addAt`); and a level stays tidy, since a
  folder is made only if no other has its name, and is never left without the request it is made for
  (`tidy_addAt`).  What one search does to a level is said once (`inFolder_cases`).
-/
import RouteAtlas.Proofs.Insomnia.Place
import RouteAtlas.Proofs.Postman.Synthesis

namespace RouteAtlas.Postman

/-! ## Folders of a level

Tidiness is a predicate on whole trees, level by level.  Putting in a request keeps it, since a
folder is looked for before one is made. -/

/-- The name of a folder. -/
def folderName? : Item → Option Json
  | .folder fields _ => some (Item.nameOf fields)
  | _ => none

/-- The names of the folders among items. -/
def folderNames (items : List Item) : List Json := items.filterMap folderName?

/-- Sibling folders have different names and none is empty, on every level. -/
inductive Tidy : List Item → Prop
  | mk {items : List Item} (distinct : (folderNames items).Nodup)
      (full : ∀ fields inner, Item.folder fields inner ∈ items → inner ≠ [])
      (inside : ∀ fields inner, Item.folder fields inner ∈ items → Tidy inner) : Tidy items

/-- The folders of a level have different names. -/
theorem Tidy.distinct {items : List Item} : Tidy items → (folderNames items).Nodup
  | .mk distinct _ _ => distinct

/-- No folder is empty. -/
theorem Tidy.full {items : List Item} : Tidy items →
    ∀ fields inner, Item.folder fields inner ∈ items → inner ≠ []
  | .mk _ full _ => full

/-- Inside a folder it is as tidy. -/
theorem Tidy.inside {items : List Item} : Tidy items →
    ∀ fields inner, Item.folder fields inner ∈ items → Tidy inner
  | .mk _ _ inside => inside

theorem tidy_nil : Tidy [] :=
  .mk .nil (fun _ _ h => absurd h (List.not_mem_nil)) fun _ _ h => absurd h (List.not_mem_nil)

/-- Tidiness does not depend on the order of a level. -/
theorem tidy_of_perm {items items' : List Item} (hperm : items'.Perm items) (h : Tidy items) :
    Tidy items' :=
  .mk ((hperm.filterMap _).nodup_iff.mpr h.distinct)
    (fun fields inner hmem => h.full fields inner (hperm.mem_iff.mp hmem))
    fun fields inner hmem => h.inside fields inner (hperm.mem_iff.mp hmem)

/-- The folders of two lists of items are those of either. -/
theorem folderNames_append (items items' : List Item) :
    folderNames (items ++ items') = folderNames items ++ folderNames items' :=
  List.filterMap_append ..

theorem folderNames_cons_folder (fields : Dict Json) (inner rest : List Item) :
    folderNames (.folder fields inner :: rest) = Item.nameOf fields :: folderNames rest := rfl

/-- **What a search does to a level**: it changes what is in the folder of the name, or there is none,
    and it makes one behind all other items. -/
theorem inFolder_cases (name : String) (change : List Item → List Item) (items : List Item) :
    (∃ before fields inner after, items = before ++ .folder fields inner :: after ∧
      Item.nameOf fields = .str name ∧
      addAt.inFolder name change items = before ++ .folder fields (change inner) :: after) ∨
    (.str name ∉ folderNames items ∧
      addAt.inFolder name change items = items ++ [Item.named name (change [])]) := by
  induction items with
  | nil => exact .inr ⟨List.not_mem_nil, rfl⟩
  | cons item rest ih =>
    by_cases hfound : folderName? item = some (.str name)
    · cases item with
      | folder fields inner =>
        have hname : Item.nameOf fields = .str name := Option.some.inj hfound
        have hsame : (Item.nameOf fields).same (.str name) = true := Json.beq_str_iff.mpr hname
        refine .inl ⟨[], fields, inner, rest, rfl, hname, ?_⟩
        rw [addAt.inFolder, if_pos hsame]
        rfl
      | leaf fields => exact absurd hfound (by simp [folderName?])
      | other value => exact absurd hfound (by simp [folderName?])
    · -- the item is passed over, and what is found behind it is found behind it
      have hpassed : addAt.inFolder name change (item :: rest)
          = item :: addAt.inFolder name change rest := by
        cases item with
        | folder fields inner =>
          have hother : ¬(Item.nameOf fields).same (.str name) = true :=
            fun hsame => hfound (congrArg some (Json.beq_str_iff.mp hsame))
          rw [addAt.inFolder, if_neg hother]
        | leaf fields => rfl
        | other value => rfl
      rw [hpassed]
      rcases ih with ⟨before, fields, inner, after, rfl, hname, heq⟩ | ⟨hno, heq⟩
      · exact .inl ⟨item :: before, fields, inner, after, rfl, hname, congrArg (item :: ·) heq⟩
      · refine .inr ⟨fun hmem => ?_, congrArg (item :: ·) heq⟩
        obtain ⟨item', hitem', hname⟩ := List.mem_filterMap.mp hmem
        rcases List.mem_cons.mp hitem' with rfl | hitem'
        · exact hfound hname
        · exact hno (List.mem_filterMap.mpr ⟨item', hitem', hname⟩)

/-- Where something was put there is something. -/
theorem addAt_ne_nil (leaf : Item) (names : List String) (items : List Item) :
    addAt leaf names items ≠ [] := by
  cases names with
  | nil => exact List.append_ne_nil_of_right_ne_nil _ (List.cons_ne_nil _ _)
  | cons name names =>
    rw [addAt]
    rcases inFolder_cases name (addAt leaf names) items with ⟨before, fields, inner, after, -, -, heq⟩ |
      ⟨-, heq⟩
    · rw [heq]
      exact List.append_ne_nil_of_right_ne_nil _ (List.cons_ne_nil _ _)
    · rw [heq]
      exact List.append_ne_nil_of_right_ne_nil _ (List.cons_ne_nil _ _)

/-- A level whose folders are those of a tidy one, or hold what is tidy and not empty. -/
theorem tidy_of_changed {items items' new : List Item} (h : Tidy items)
    (hnames : (folderNames items').Nodup) (hne : new ≠ []) (hnew : Tidy new)
    (hcases : ∀ fields inner, Item.folder fields inner ∈ items' →
      inner = new ∨ Item.folder fields inner ∈ items) : Tidy items' := by
  refine .mk hnames (fun fields inner hmem => ?_) fun fields inner hmem => ?_
  · rcases hcases fields inner hmem with rfl | hmem
    · exact hne
    · exact h.full fields inner hmem
  · rcases hcases fields inner hmem with rfl | hmem
    · exact hnew
    · exact h.inside fields inner hmem

/-- **One more request** leaves the folders tidy.

    The induction is on the path, one folder further down on each step. -/
theorem tidy_addAt (leaf : Dict Json) (names : List String) {items : List Item} (h : Tidy items) :
    Tidy (addAt (.leaf leaf) names items) := by
  induction names generalizing items with
  -- at the end of the path the request is put behind all items, and no folder is changed
  | nil =>
    have hold : ∀ fields inner, Item.folder fields inner ∈ items ++ [.leaf leaf] →
        Item.folder fields inner ∈ items := by
      intro fields inner hmem
      rcases List.mem_append.mp hmem with hmem | hmem
      · exact hmem
      · exact absurd (List.mem_singleton.mp hmem) (by simp)
    rw [addAt]
    refine .mk ?_ (fun fields inner hmem => h.full _ _ (hold fields inner hmem))
      fun fields inner hmem => h.inside _ _ (hold fields inner hmem)
    rw [folderNames_append]
    exact (List.append_nil (folderNames items)).symm ▸ h.distinct
  -- on the way down one folder is changed, or a new one made
  | cons name names ih =>
    rw [addAt]
    rcases inFolder_cases name (addAt (.leaf leaf) names) items with
      ⟨before, fields, inner, after, rfl, -, heq⟩ | ⟨hno, heq⟩
    · have hin : Item.folder fields inner ∈ before ++ .folder fields inner :: after :=
        List.mem_append_right _ (List.mem_cons_self ..)
      rw [heq]
      refine tidy_of_changed h ?_ (addAt_ne_nil (.leaf leaf) names inner) (ih (h.inside _ _ hin)) ?_
      · -- the folder that is changed has the name it had
        have hdistinct := h.distinct
        rw [folderNames_append, folderNames_cons_folder] at hdistinct ⊢
        exact hdistinct
      · intro fields' inner' hmem
        rcases List.mem_append.mp hmem with hmem | hmem
        · exact .inr (List.mem_append_left _ hmem)
        · rcases List.mem_cons.mp hmem with hmem | hmem
          · exact .inl (Item.folder.inj hmem).2
          · exact .inr (List.mem_append_right _ (List.mem_cons_of_mem _ hmem))
    · rw [heq]
      refine tidy_of_changed h ?_ (addAt_ne_nil (.leaf leaf) names []) (ih tidy_nil) ?_
      · rw [folderNames_append]
        refine List.nodup_append.mpr ⟨h.distinct, List.nodup_singleton _, ?_⟩
        rintro a ha b hb rfl
        have hname : a = .str name := List.mem_singleton.mp hb
        exact hno (hname ▸ ha)
      · intro fields' inner' hmem
        rcases List.mem_append.mp hmem with hmem | hmem
        · exact .inr hmem
        · exact .inl (Item.folder.inj (List.mem_singleton.mp hmem)).2

/-! ## What stands in a folder

`within path` are the requests below a path, in their order, so that one folder can be looked at by
itself. -/

/-- The requests in the folder with a path, in order. -/
def within (path : List String) (items : List Item) : List (FolderPath × Dict Json) :=
  (flatten items).filter fun l => l.1 == path.map .str

/-- The requests of two lists of items are those of the first and then those of the second. -/
theorem within_append (path : List String) (items items' : List Item) :
    within path (items ++ items') = within path items ++ within path items' := by
  rw [within, flatten_append, List.filter_append]
  rfl

/-- In front of the folders, there is nothing of a folder. -/
theorem within_root_folder (fields : Dict Json) (inner : List Item) :
    within [] [.folder fields inner] = [] := by
  rw [within, flatten_folder, flatten_nil, List.append_nil]
  refine List.filter_eq_nil_iff.mpr fun l hl => ?_
  obtain ⟨l', -, rfl⟩ := List.mem_map.mp hl
  exact Bool.false_ne_true

/-- Below a folder of the name, the rest of the path counts. -/
theorem within_folder {fields : Dict Json} {name : String} (h : Item.nameOf fields = .str name)
    (path : List String) (inner : List Item) :
    within (name :: path) [.folder fields inner] = (within path inner).map (below (.str name)) := by
  rw [within, flatten_folder, flatten_nil, List.append_nil, h, List.filter_map, within]
  refine congrArg (List.map _) (List.filter_congr fun l _ => ?_)
  show (Json.str name :: l.1 == Json.str name :: path.map .str) = _
  rw [List.cons_beq_cons, Json.str_beq_iff.mpr rfl, Bool.true_and]

/-- A folder of another name holds nothing of the path. -/
theorem within_folder_of_ne {fields : Dict Json} {name : String} (h : Item.nameOf fields ≠ .str name)
    (path : List String) (inner : List Item) : within (name :: path) [.folder fields inner] = [] := by
  rw [within, flatten_folder, flatten_nil, List.append_nil]
  refine List.filter_eq_nil_iff.mpr fun l hl => ?_
  obtain ⟨l', -, rfl⟩ := List.mem_map.mp hl
  show ¬(Item.nameOf fields :: l'.1 == Json.str name :: path.map .str) = true
  rw [List.cons_beq_cons, Bool.and_eq_true]
  exact fun heq => h (Json.beq_str_iff.mp heq.1)

/-- Item by item. -/
theorem within_cons (path : List String) (item : Item) (rest : List Item) :
    within path (item :: rest) = within path [item] ++ within path rest :=
  within_append path [item] rest

/-- Only a folder of the first name holds anything of a path. -/
theorem within_eq_nil {name : String} (path : List String) {items : List Item}
    (h : .str name ∉ folderNames items) : within (name :: path) items = [] := by
  induction items with
  | nil => rfl
  | cons item rest ih =>
    have hrest : .str name ∉ folderNames rest := fun hmem => by
      obtain ⟨item', hitem', hname⟩ := List.mem_filterMap.mp hmem
      exact h (List.mem_filterMap.mpr ⟨item', List.mem_cons_of_mem _ hitem', hname⟩)
    rw [within_cons, ih hrest, List.append_nil]
    cases item with
    | folder fields inner =>
      refine within_folder_of_ne (fun heq => h ?_) path inner
      exact heq ▸ List.mem_cons_self ..
    | leaf fields => rfl
    | other value => rfl

/-- What is put at a path is at one folder further down behind the folder's name. -/
theorem map_below_placed (name : String) (path names : List String) (leaf : Dict Json) :
    (if path = names then [(names.map Json.str, leaf)] else []).map (below (.str name))
      = if name :: path = name :: names then [((name :: names).map Json.str, leaf)] else [] := by
  by_cases h : path = names
  · rw [if_pos h, if_pos (congrArg (name :: ·) h)]
    rfl
  · rw [if_neg h, if_neg fun heq => h (List.cons.inj heq).2]
    rfl

/-- One more request somewhere in a folder is, seen from outside, one more at the longer path.  A
    path that begins with another name does not lead into the folder, neither before nor after. -/
theorem within_folder_of_added {fields : Dict Json} {name : String} {names : List String}
    {leaf : Dict Json} {before after : List Item} (hname : Item.nameOf fields = .str name)
    (h : ∀ path, within path after
      = within path before ++ if path = names then [(names.map .str, leaf)] else [])
    (path : List String) : within path [.folder fields after]
      = within path [.folder fields before]
        ++ if path = name :: names then [((name :: names).map .str, leaf)] else [] := by
  cases path with
  | nil =>
    rw [within_root_folder, within_root_folder, if_neg (List.cons_ne_nil _ _).symm]
    rfl
  | cons first path =>
    by_cases hfirst : first = name
    · subst hfirst
      rw [within_folder hname, within_folder hname, h, List.map_append, map_below_placed]
    · have hother : Item.nameOf fields ≠ .str first := by
        rw [hname]
        exact fun heq => hfirst (Json.str.inj heq).symm
      rw [within_folder_of_ne hother, within_folder_of_ne hother,
        if_neg fun heq => hfirst (List.cons.inj heq).1, List.append_nil]

/-- A folder that holds nothing leaves every path empty. -/
theorem within_empty_folder (fields : Dict Json) (path : List String) :
    within path [.folder fields []] = [] := by
  rw [within, flatten_folder, flatten_nil, List.append_nil]
  rfl

/-- **One more request** comes behind all that stand in its folder, and changes no other one.

    Tidiness is needed where folders are searched by name: the first one found is then the only one. -/
theorem within_addAt (leaf : Dict Json) (names path : List String) {items : List Item}
    (h : Tidy items) : within path (addAt (.leaf leaf) names items)
      = within path items ++ if path = names then [(names.map .str, leaf)] else [] := by
  induction names generalizing items path with
  | nil =>
    rw [addAt, within_append]
    cases path with
    | nil => rfl
    | cons name path => rfl
  | cons name names ih =>
    rw [addAt]
    rcases inFolder_cases name (addAt (.leaf leaf) names) items with
      ⟨before, fields, inner, after, rfl, hname, heq⟩ | ⟨hno, heq⟩
    · have hin : Item.folder fields inner ∈ before ++ .folder fields inner :: after :=
        List.mem_append_right _ (List.mem_cons_self ..)
      have hadded := within_folder_of_added hname (fun path => ih path (h.inside _ _ hin)) path
      -- no folder behind this one has its name
      have hafter : path = name :: names → within path after = [] := by
        rintro rfl
        have hdistinct := h.distinct
        rw [folderNames_append, folderNames_cons_folder, hname] at hdistinct
        exact within_eq_nil names (List.nodup_cons.mp (List.nodup_append.mp hdistinct).2.1).1
      rw [heq, within_append, within_append, within_cons, within_cons path (.folder fields inner),
        hadded]
      by_cases hpath : path = name :: names
      · rw [if_pos hpath, hafter hpath, List.append_nil, List.append_nil, List.append_assoc]
      · rw [if_neg hpath, List.append_nil, List.append_nil]
    · have hname : Item.nameOf [("name", .str name), ("item", .arr [])] = .str name := rfl
      have hadded := within_folder_of_added hname (fun path => ih path tidy_nil) path
      rw [heq, within_append, Item.named, hadded, within_empty_folder, List.nil_append]

/-! ## Whole collections

The run over the endpoints: `within_addAt` is the step. -/

/-- Every request is put into some folder. -/
theorem placement_ne_nil (grouping : Grouping) (apps : List String) (e : Endpoint) :
    Folder.placement grouping apps e ≠ [] := by
  cases grouping with
  | tags => exact List.cons_ne_nil _ _
  | folder =>
    rw [Folder.placement, Ne, List.map_eq_nil_iff, Folder.segments]
    split
    · split <;> exact List.cons_ne_nil _ _
    · rename_i hsome
      exact hsome

/-- **Request by request**: the folders are tidy, and each holds its requests in the order of the
    endpoints. -/
theorem tidy_placed (grouping : Grouping) (apps : List String) (endpoints : List Endpoint) :
    Tidy (placed grouping apps endpoints) ∧ ∀ path, within path (placed grouping apps endpoints)
      = (endpoints.filter fun e => Folder.placement grouping apps e == path).map
        (placedLeaf grouping apps) := by
  have hall : ∀ items, Tidy items →
      Tidy (endpoints.foldl (fun items e => addAt (.leaf (itemOf apps e))
        (Folder.placement grouping apps e) items) items) ∧
      ∀ path, within path (endpoints.foldl (fun items e => addAt (.leaf (itemOf apps e))
        (Folder.placement grouping apps e) items) items)
          = within path items ++ (endpoints.filter fun e =>
            Folder.placement grouping apps e == path).map (placedLeaf grouping apps) := by
    induction endpoints with
    | nil => exact fun items h => ⟨h, fun path => (List.append_nil _).symm⟩
    | cons e endpoints ih =>
      intro items h
      obtain ⟨htidy, hwithin⟩ := ih _ (tidy_addAt (itemOf apps e) (Folder.placement grouping apps e) h)
      refine ⟨htidy, fun path => (hwithin path).trans ?_⟩
      rw [within_addAt _ _ _ h, List.append_assoc]
      refine congrArg (within path items ++ ·) ?_
      by_cases hpath : path = Folder.placement grouping apps e
      · rw [if_pos hpath, List.filter_cons, if_pos (beq_iff_eq.mpr hpath.symm)]
        rfl
      · rw [if_neg hpath, List.filter_cons, if_neg fun heq => hpath (beq_iff_eq.mp heq).symm]
        rfl
  exact hall [] tidy_nil

/-- Where at most one part is not empty, the order of parts does not matter. -/
theorem flatMap_eq_of_perm {α β : Type} {f : α → List β} {l l' : List α} (hperm : l.Perm l')
    (h : l.Pairwise fun a b => f a = [] ∨ f b = []) : l.flatMap f = l'.flatMap f := by
  induction hperm with
  | nil => rfl
  | cons a _ ih => rw [List.flatMap_cons, List.flatMap_cons, ih (List.pairwise_cons.mp h).2]
  | swap a b l =>
    rw [List.flatMap_cons, List.flatMap_cons, List.flatMap_cons, List.flatMap_cons]
    rcases (List.pairwise_cons.mp h).1 a (List.mem_cons_self ..) with hnil | hnil
    · rw [hnil]
      rfl
    · rw [hnil]
      rfl
  | trans hfirst _ ihFirst ihSecond =>
    have hmiddle := (hfirst.pairwise_iff fun hab => hab.symm).mp h
    rw [ihFirst h, ihSecond hmiddle]

/-- The requests of a path, item by item. -/
theorem within_eq_flatMap (path : List String) (items : List Item) :
    within path items = items.flatMap fun item => within path [item] := by
  induction items with
  | nil => rfl
  | cons item rest ih => rw [within_cons, ih, List.flatMap_cons]

/-- Sorting the folders of a tidy level changes nothing in any of them.  What a path holds is
    gathered item by item, and at most one item of a tidy level contributes. -/
theorem within_of_perm {items items' : List Item} (h : Tidy items) (hperm : items.Perm items')
    (name : String) (path : List String) :
    within (name :: path) items = within (name :: path) items' := by
  rw [within_eq_flatMap, within_eq_flatMap]
  refine flatMap_eq_of_perm hperm ?_
  have hheld : ∀ item : Item, within (name :: path) [item] = [] ∨ folderName? item = some (.str name) := by
    intro item
    cases item with
    | folder fields inner =>
      by_cases hname : Item.nameOf fields = .str name
      · exact .inr (congrArg some hname)
      · exact .inl (within_folder_of_ne hname path inner)
    | leaf fields => exact .inl rfl
    | other value => exact .inl rfl
  refine (List.pairwise_filterMap.mp h.distinct).imp fun {a b} hdistinct => ?_
  rcases hheld a with hnil | ha
  · exact .inl hnil
  · rcases hheld b with hnil | hb
    · exact .inr hnil
    · exact absurd rfl (hdistinct _ ha _ hb)

/-- **The folders of a collection** are tidy, and each holds its requests in the order of the
    endpoints. -/
theorem within_items (settings : Settings) (endpoints : List Endpoint) :
    Tidy (items settings endpoints) ∧ ∀ path, within path (items settings endpoints)
      = (endpoints.filter fun e =>
          Folder.placement settings.grouping settings.serviceNames e == path).map
        (placedLeaf settings.grouping settings.serviceNames) := by
  obtain ⟨htidy, hwithin⟩ := tidy_placed settings.grouping settings.serviceNames endpoints
  have hperm := items_perm settings endpoints
  refine ⟨tidy_of_perm hperm htidy, fun path => ?_⟩
  cases path with
  | nil =>
    -- no request stands outside of all folders
    have hnone : (endpoints.filter fun e =>
        Folder.placement settings.grouping settings.serviceNames e == []) = [] :=
      List.filter_eq_nil_iff.mpr fun e _ heq => placement_ne_nil _ _ e (beq_iff_eq.mp heq)
    rw [hnone, within]
    refine List.filter_eq_nil_iff.mpr fun l hl hroot => ?_
    obtain ⟨e, -, rfl⟩ := List.mem_map.mp ((flatten_items_perm settings endpoints).mem_iff.mp hl)
    exact placement_ne_nil _ _ e (Insomnia.texts_beq_iff.mp hroot)
  | cons name path => rw [← within_of_perm htidy hperm.symm, hwithin]

/-! ## What was written

Reading back a written tree changes nothing of this. -/

/-- Folders are read back under their names. -/
theorem folderNames_readBack {items : List Item} (h : Readable items) :
    folderNames (readBack items) = folderNames items := by
  induction items with
  | nil => rfl
  | cons item rest ih =>
    cases item with
    | folder fields inner =>
      rw [readBack_folder, folderNames_cons_folder, folderNames_cons_folder, nameOf_put_item, ih h.2]
    | leaf fields =>
      rw [readBack_leaf h.1]
      exact ih h.2
    | other value =>
      rw [readBack_other h.1]
      exact ih h.2

/-- All items are read back under their names. -/
theorem names_readBack {items : List Item} (h : Readable items) :
    (readBack items).map itemName = items.map itemName := by
  induction items with
  | nil => rfl
  | cons item rest ih =>
    cases item with
    | folder fields inner =>
      rw [readBack_folder, List.map_cons, List.map_cons, itemName, itemName,
        Dict.get?_put_of_ne (by decide), ih h.2]
    | leaf fields => rw [readBack_leaf h.1, List.map_cons, List.map_cons, ih h.2]
    | other value => rw [readBack_other h.1, List.map_cons, List.map_cons, ih h.2]

/-- A folder that is read back was written.  Nothing but a folder is read back as one. -/
theorem exists_of_folder_mem_readBack {items : List Item} (h : Readable items) {fields : Dict Json}
    {inner : List Item} (hmem : Item.folder fields inner ∈ readBack items) :
    ∃ fields' inner', Item.folder fields' inner' ∈ items ∧ Readable inner' ∧ inner = readBack inner' := by
  induction items with
  | nil => exact absurd hmem (List.not_mem_nil)
  | cons item rest ih =>
    have hrest : Item.folder fields inner ∈ readBack rest → ∃ fields' inner',
        Item.folder fields' inner' ∈ item :: rest ∧ Readable inner' ∧ inner = readBack inner' := by
      intro hmem
      obtain ⟨fields', inner', hin, hread, heq⟩ := ih h.2 hmem
      exact ⟨fields', inner', List.mem_cons_of_mem _ hin, hread, heq⟩
    cases item with
    | folder fields' inner' =>
      rw [readBack_folder] at hmem
      rcases List.mem_cons.mp hmem with heq | hmem
      · exact ⟨fields', inner', List.mem_cons_self .., h.1, (Item.folder.inj heq).2⟩
      · exact hrest hmem
    | leaf fields' =>
      rw [readBack_leaf h.1] at hmem
      exact hrest ((List.mem_cons.mp hmem).resolve_left (by simp))
    | other value =>
      rw [readBack_other h.1] at hmem
      exact hrest ((List.mem_cons.mp hmem).resolve_left (by simp))

/-- What is read back is as much as was written. -/
theorem readBack_ne_nil {items : List Item} (h : items ≠ []) : readBack items ≠ [] := by
  obtain ⟨item, rest, rfl⟩ := List.exists_cons_of_ne_nil h
  exact List.cons_ne_nil _ _

/-- What is tidy is so when it is read back. -/
theorem tidy_readBack {items : List Item} (h : Tidy items) (hread : Readable items) :
    Tidy (readBack items) := by
  induction h with
  | mk distinct full _ ih =>
    refine .mk (folderNames_readBack hread ▸ distinct) (fun fields inner hmem => ?_)
      fun fields inner hmem => ?_
    · obtain ⟨fields', inner', hin, -, rfl⟩ := exists_of_folder_mem_readBack hread hmem
      exact readBack_ne_nil (full fields' inner' hin)
    · obtain ⟨fields', inner', hin, hinner, rfl⟩ := exists_of_folder_mem_readBack hread hmem
      exact ih fields' inner' hin hinner

end RouteAtlas.Postman
