/-
  One merge, step by step.

  ==== Program ====

  A merge that has something to merge into reads the persisted tree, refreshes the fresh one with
  it, and puts the requests whose endpoint is gone into the refreshed tree.

  ==== Spec ====

  `MergedTree` says that of the trees alone (`mergeItems_eq_ok_iff`).  `merge_cases` and
  `merge_of_mergedTree` say that the document around the tree is no obstacle: what the merge decides
  about items it decides by the trees.

  The requests that are `gone` are those under a key that the fresh tree does not have.  Marked,
  they become the leftovers; a leftover keeps its key, and no two have the same one
  (`leftovers_of_mapM`, `nodup_gone`).

  ==== The crux ====

  The program puts leftovers into the tree one after the other, each into what the others have left.
  `putLeftovers_eq_fill` makes this one walk over the tree, and after it only lists are compared.
-/
import RouteAtlas.Proofs.Postman.Leftover
import RouteAtlas.Proofs.Postman.Refresh

namespace RouteAtlas.Postman

open Persisted (Fault isMarked bind_eq_ok_iff pure_eq_ok_iff)
open Json (KeyPath)

/-- The items of a document, none if it has no list of them. -/
def itemsOf (document : Dict Json) : List Item :=
  match Dict.get? document "item" with
  | some (.arr values) => Item.ofValues values
  | _ => []

/-- The items of a document whose list is known. -/
theorem itemsOf_of_get? {document : Dict Json} {values : List Json}
    (h : Dict.get? document "item" = some (.arr values)) :
    itemsOf document = Item.ofValues values := by
  rw [itemsOf, h]

/-- What was read from a document is read back as what it is. -/
theorem readable_itemsOf (document : Dict Json) : Readable (itemsOf document) := by
  rw [itemsOf]
  split
  · exact readable_ofValues _
  · trivial

/-- The keys of the requests among items, in their order. -/
def leafKeys (items : List Item) : List String := Dict.keys (entries items)

/-- The keys, request by request. -/
theorem leafKeys_eq (items : List Item) :
    leafKeys items = (flatten items).filterMap fun l => Item.keyGiven? l.2 := by
  rw [leafKeys, Dict.keys, entries, List.map_filterMap]
  refine List.filterMap_congr fun l _ => ?_
  cases Item.keyGiven? l.2 <;> rfl

theorem mem_leafKeys {items : List Item} {key : String} :
    key ∈ leafKeys items ↔ ∃ l ∈ flatten items, Item.key? l.2 = .ok (some key) := mem_keys_entries

/-- Writing and reading back changes no key. -/
theorem leafKeys_readBack {items : List Item} (h : Readable items) :
    leafKeys (readBack items) = leafKeys items := by
  rw [leafKeys_eq, flatten_readBack h, leafKeys_eq]

/-! ## Requests whose endpoint is gone

The persisted requests that no fresh one has the key of.  Of several persisted requests with one key
only the last one counts. -/

/-- The persisted requests under keys that the fresh items do not have. -/
def gone (old fresh : List Item) : Dict (FolderPath × Dict Json) :=
  (Dict.ofList (entries old)).filter fun e => !(leafKeys fresh).contains e.1

/-- What is gone is found under its key, and the fresh tree does not have it. -/
theorem mem_gone {old fresh : List Item} {key : String} {l : FolderPath × Dict Json} :
    (key, l) ∈ gone old fresh ↔
      Dict.get? (Dict.ofList (entries old)) key = some l ∧ key ∉ leafKeys fresh := by
  rw [gone, List.mem_filter, Bool.not_eq_true', ← Bool.not_eq_true, List.contains_iff_mem]
  refine and_congr_left fun _ => ⟨fun h => ?_, Dict.mem_of_get?⟩
  exact Dict.get?_of_mem (Dict.nodup_keys_ofList _) h

theorem nodup_gone (old fresh : List Item) : (Dict.keys (gone old fresh)).Nodup :=
  (Dict.nodup_keys_ofList _).sublist (List.filter_sublist.map _)

/-- What marking does: the name gets the mark, and the path can be looked up by. -/
theorem markGone_eq_ok_iff {l l' : FolderPath × Dict Json} : markGone l = .ok l' ↔
    ∃ name, Persisted.deprecated (Dict.get? l.2 "name") = .ok name ∧ KeyPath l.1 ∧
      l' = (l.1, Dict.put l.2 "name" name) := by
  rw [markGone, bind_eq_ok_iff]
  refine exists_congr fun name => and_congr_right fun _ => ?_
  rw [bind_eq_ok_iff]
  constructor
  · rintro ⟨names, hnames, h⟩
    exact ⟨(Persisted.mapM_lookupKey_eq_ok_iff.mp hnames).1, (pure_eq_ok_iff.mp h).symm⟩
  · rintro ⟨hpath, rfl⟩
    exact ⟨l.1, Persisted.mapM_lookupKey_eq_ok_iff.mpr ⟨hpath, rfl⟩, rfl⟩

/-- A leftover: a request with its key, marked, and the path and fields it had before. -/
structure IsLeftover (key : String) (l l' : FolderPath × Dict Json) : Prop where
  path : l'.1 = l.1
  keyPath : KeyPath l.1
  key : Item.key? l'.2 = .ok (some key)
  marked : isMarked l'.2 = true
  named : ∃ name, Dict.get? l'.2 "name" = some name ∧ Persisted.deprecated (some name) = .ok name
  item : Dict.get? l'.2 "item" = Dict.get? l.2 "item"

/-- What marking makes of a request that is gone is a leftover. -/
theorem isLeftover_of_markGone {key : String} {l l' : FolderPath × Dict Json}
    (hkey : Item.key? l.2 = .ok (some key)) (h : markGone l = .ok l') : IsLeftover key l l' := by
  obtain ⟨name, hname, hpath, rfl⟩ := markGone_eq_ok_iff.mp h
  exact ⟨rfl, hpath, (key?_put_name ..).trans hkey, Persisted.isMarked_put hname _,
    ⟨name, Dict.get?_put_self .., Persisted.deprecated_of_marked hname⟩,
    Dict.get?_put_of_ne (by decide) ..⟩

/-- The leftovers are the requests that are gone, one by one. -/
theorem leftovers_of_mapM {old fresh : List Item} {leftovers : Leftovers}
    (h : ((gone old fresh).mapM fun g => markGone g.2) = .ok leftovers) :
    List.Forall₂ (fun g l => IsLeftover g.1 g.2 l) (gone old fresh) leftovers := by
  have hall := Persisted.mapM_eq_ok_iff.mp h
  rw [List.forall₂_iff_zip] at hall ⊢
  refine ⟨hall.1, fun {g l} hgl => ?_⟩
  have hmem : (g.1, g.2) ∈ gone old fresh := (List.of_mem_zip hgl).1
  obtain ⟨hl, -⟩ := mem_gone.mp hmem
  exact isLeftover_of_markGone (mem_of_get?_persisted hl).2 (hall.2 hgl)

/-- Every leftover comes from a request that is gone. -/
theorem exists_gone_of_mem {old fresh : List Item} {leftovers : Leftovers}
    (h : List.Forall₂ (fun g l => IsLeftover g.1 g.2 l) (gone old fresh) leftovers)
    {l : FolderPath × Dict Json} (hl : l ∈ leftovers) : ∃ key l₀,
      Dict.get? (Dict.ofList (entries old)) key = some l₀ ∧ key ∉ leafKeys fresh ∧
      IsLeftover key l₀ l := by
  obtain ⟨g, hg, hgl⟩ := Persisted.exists_of_forall₂_right h hl
  obtain ⟨hget, hkey⟩ := mem_gone.mp hg
  exact ⟨g.1, g.2, hget, hkey, hgl⟩

/-- The keys of the leftovers are the keys that are gone. -/
theorem keys_leftovers {old fresh : List Item} {leftovers : Leftovers}
    (h : List.Forall₂ (fun g l => IsLeftover g.1 g.2 l) (gone old fresh) leftovers) :
    (leftovers.filterMap fun l => Item.keyGiven? l.2) = Dict.keys (gone old fresh) := by
  generalize gone old fresh = g at h
  induction h with
  | nil => rfl
  | cons hgl _ ih =>
    rw [List.filterMap_cons, keyGiven?_eq_some_iff.mpr hgl.key, ih]
    rfl

/-! ## The trees of a merge

`MergedTree` says in one place what a merge does with two trees: it refreshes the fresh one from the
requests of the old one, marks what is gone, and fills it in. -/

/-- `items` is the fresh tree merged into the old one. -/
def MergedTree (old fresh : List Item) (markDeprecated : Bool) (items : List Item) : Prop :=
  Keyable old ∧ ∃ refreshed leftovers,
    refreshAll (Dict.ofList (entries old)) fresh = .ok refreshed ∧
    items = fill leftovers refreshed ∧
    if markDeprecated then
      Keyable fresh ∧ ((gone old fresh).mapM fun g => markGone g.2) = .ok leftovers
    else leftovers = []

/-- **The program's merge of two trees is `MergedTree`.**  The program puts one leftover after the
    other into the refreshed tree; that this is one walk is `putLeftovers_eq_fill`. -/
theorem mergeItems_eq_ok_iff {old fresh items : List Item} {markDeprecated : Bool} :
    (persisted old >>= fun previous => mergeItems previous fresh markDeprecated) = .ok items ↔
      MergedTree old fresh markDeprecated items := by
  have hgone : ∀ keys, keysOf fresh = .ok keys →
      ((Dict.ofList (entries old)).filter fun e => !keys.contains e.1) = gone old fresh := by
    intro keys hkeys
    obtain ⟨-, rfl⟩ := keysOf_eq_ok_iff.mp hkeys
    rfl
  have hfill : ∀ refreshed, ((gone old fresh).foldlM
      (fun items g => putLeftover items g.2.1 g.2.2) refreshed)
      = ((gone old fresh).mapM fun g => markGone g.2).map fun ls => fill ls refreshed := by
    intro refreshed
    have h := putLeftovers_eq_fill (gone old fresh) [] refreshed
    rw [fill_empty] at h
    exact h
  rw [MergedTree, bind_eq_ok_iff]
  -- step by step through the program, once for each direction
  constructor
  · rintro ⟨previous, hprevious, h⟩
    obtain ⟨hold, rfl⟩ := persisted_eq_ok_iff.mp hprevious
    obtain ⟨refreshed, hrefreshed, h⟩ := bind_eq_ok_iff.mp h
    refine ⟨hold, refreshed, ?_⟩
    cases markDeprecated with
    | false => exact ⟨[], hrefreshed, by rw [fill_empty]; exact (Except.ok.inj h).symm, rfl⟩
    | true =>
      obtain ⟨keys, hkeys, h⟩ := bind_eq_ok_iff.mp h
      have hput : ((Dict.ofList (entries old)).filter fun e => !keys.contains e.1).foldlM
          (fun items g => putLeftover items g.2.1 g.2.2) refreshed = .ok items := h
      rw [hgone keys hkeys, hfill] at hput
      obtain ⟨leftovers, hl, rfl⟩ := Persisted.map_eq_ok_iff.mp hput
      exact ⟨leftovers, hrefreshed, rfl, (keysOf_eq_ok_iff.mp hkeys).1, hl⟩
  · rintro ⟨hold, refreshed, leftovers, hrefreshed, rfl, h⟩
    refine ⟨_, persisted_eq_ok_iff.mpr ⟨hold, rfl⟩, bind_eq_ok_iff.mpr ⟨refreshed, hrefreshed, ?_⟩⟩
    cases markDeprecated with
    | false =>
      obtain rfl : leftovers = [] := h
      rw [fill_empty]
      rfl
    | true =>
      obtain ⟨hfresh, hl⟩ : Keyable fresh ∧ _ := h
      have hkeys := keysOf_eq_ok_iff.mpr ⟨hfresh, rfl⟩
      refine bind_eq_ok_iff.mpr ⟨_, hkeys, ?_⟩
      show (gone old fresh).foldlM (fun items g => putLeftover items g.2.1 g.2.2) refreshed = _
      rw [hfill, hl]
      rfl

/-! ## The document around them

Items are read from the document and written back into it.  A document without items gives way to
the fresh one. -/

/-- The information on a collection: the persisted one, if there is any. -/
def infoOf (fresh existing : Dict Json) : Except Fault Json :=
  match Dict.get? existing "info" with
  | some info => if info.truthy then pure info else Persisted.required fresh "info"
  | none => Persisted.required fresh "info"

/-- The persisted document with other items. -/
def rebuilt (fresh existing : Dict Json) (info : Json) (items : List Item) : Dict Json :=
  Dict.putAll (existing.filter fun (name, _) => name != "variable" && name != "item")
    [("info", info), ("variable", (Dict.get? fresh "variable").getD (.arr [])),
      ("item", .arr (Item.toValues items))]

/-- The items of a rebuilt document are those that were put in, read back. -/
theorem itemsOf_rebuilt (fresh existing : Dict Json) (info : Json) (items : List Item) :
    itemsOf (rebuilt fresh existing info items) = readBack items := by
  refine itemsOf_of_get? ?_
  rw [rebuilt, Dict.get?_putAll]
  rfl

/-- Has a document, or none, no list of items? -/
def Itemless (existing : Option (Dict Json)) : Prop :=
  ∀ document, existing = some document → ∀ values, Dict.get? document "item" ≠ some (.arr values)

/-- The items of a document, none without it. -/
def itemsBefore (existing : Option (Dict Json)) : List Item := (existing.map itemsOf).getD []

/-- Where there is no list of items, there are none. -/
theorem itemsBefore_of_itemless {existing : Option (Dict Json)} (h : Itemless existing) :
    itemsBefore existing = [] := by
  cases existing with
  | none => rfl
  | some document =>
    show itemsOf document = []
    rw [itemsOf]
    split
    · rename_i values hv
      exact absurd hv (h document rfl values)
    · rfl

/-- Where there is nothing to merge into, the fresh document is written. -/
theorem merge_of_itemless {existing : Option (Dict Json)} (h : Itemless existing)
    (fresh : Dict Json) (markDeprecated : Bool) :
    merge fresh existing markDeprecated = .ok fresh := by
  cases existing with
  | none => rfl
  | some document =>
    rw [merge]
    cases hv : Dict.get? document "item" with
    | none => rfl
    | some value =>
      cases value with
      | arr values => exact absurd hv (h document rfl values)
      | _ => rfl

theorem merge_of_items {existing : Dict Json} {old : List Json}
    (h : Dict.get? existing "item" = some (.arr old)) (fresh : Dict Json) (markDeprecated : Bool) :
    merge fresh (some existing) markDeprecated = (do
      let previous ← persisted (Item.ofValues old)
      let new ← Persisted.sequence (← Persisted.required fresh "item")
      let items ← mergeItems previous (Item.ofValues new) markDeprecated
      let info ← infoOf fresh existing
      return rebuilt fresh existing info items) := by
  rw [merge, infoOf]
  simp only [h]
  refine bind_congr fun previous => bind_congr fun value => bind_congr fun new =>
    bind_congr fun items => ?_
  cases Dict.get? existing "info" with
  | none => rfl
  | some info =>
    show (if info.truthy = true then _ else _) = ((if info.truthy = true then _ else _) >>= _)
    cases info.truthy <;> rfl

/-- What is no list can only be merged when there is nothing in it.  A text is a list of characters
    to the program, and an object one of names; a text as an item is refused, so there are none. -/
theorem ofValues_sequence {previous : Dict (FolderPath × Dict Json)} {fresh : Dict Json}
    {value : Json} {new : List Json} {refreshed : List Item}
    (hvalue : Dict.get? fresh "item" = some value) (hnew : Persisted.sequence value = .ok new)
    (h : refreshAll previous (Item.ofValues new) = .ok refreshed) :
    Item.ofValues new = itemsOf fresh := by
  have htexts : ∀ texts : List String, new = texts.map .str → Item.ofValues new = [] := by
    rintro texts rfl
    cases texts with
    | nil => rfl
    | cons text texts =>
      obtain ⟨item', hitem, -⟩ := bind_eq_ok_iff.mp h
      exact absurd hitem (by simp [Item.ofJson, refresh])
  rw [itemsOf, hvalue]
  cases value with
  | arr values => rw [Except.ok.inj hnew]
  | str s =>
    refine htexts (s.toList.map fun c => c.toString) ((Except.ok.inj hnew).symm.trans ?_)
    rw [List.map_map]
    rfl
  | obj fields =>
    refine htexts (fields.map (·.1)) ((Except.ok.inj hnew).symm.trans ?_)
    rw [List.map_map]
    rfl
  | _ => exact absurd hnew (by simp [Persisted.sequence])

/-- **What a merge does**: the fresh document if there is nothing to merge into, else the persisted
    one around the merged tree. -/
theorem merge_cases {fresh merged : Dict Json} {existing : Option (Dict Json)}
    {markDeprecated : Bool} (h : merge fresh existing markDeprecated = .ok merged) :
    (Itemless existing ∧ merged = fresh) ∨
    ∃ document items info, existing = some document ∧
      MergedTree (itemsOf document) (itemsOf fresh) markDeprecated items ∧
      infoOf fresh document = .ok info ∧ merged = rebuilt fresh document info items := by
  by_cases hless : Itemless existing
  · rw [merge_of_itemless hless] at h
    exact .inl ⟨hless, (Except.ok.inj h).symm⟩
  · have hold : ∃ document values, existing = some document ∧
        Dict.get? document "item" = some (.arr values) := by
      by_contra hno
      exact hless fun document hd values hv => hno ⟨document, values, hd, hv⟩
    obtain ⟨document, old, rfl, hold⟩ := hold
    rw [merge_of_items hold] at h
    obtain ⟨previous, hprevious, h⟩ := bind_eq_ok_iff.mp h
    obtain ⟨value, hvalue, h⟩ := bind_eq_ok_iff.mp h
    obtain ⟨new, hnew, h⟩ := bind_eq_ok_iff.mp h
    obtain ⟨items, hitems, h⟩ := bind_eq_ok_iff.mp h
    obtain ⟨info, hinfo, h⟩ := bind_eq_ok_iff.mp h
    have htree := mergeItems_eq_ok_iff.mp (bind_eq_ok_iff.mpr ⟨previous, hprevious, hitems⟩)
    have hget : Dict.get? fresh "item" = some value := by
      rw [Persisted.required] at hvalue
      split at hvalue
      · rename_i v hv
        rw [hv, Except.ok.inj hvalue]
      · exact absurd hvalue (by simp)
    have hrefreshed := htree
    obtain ⟨-, refreshed, -, hrefreshed, -⟩ := hrefreshed
    rw [ofValues_sequence hget hnew hrefreshed, ← itemsOf_of_get? hold] at htree
    exact .inr ⟨document, items, info, rfl, htree, hinfo, (Except.ok.inj h).symm⟩

/-- A merge of trees makes a merge of documents. -/
theorem merge_of_mergedTree {fresh document : Dict Json} {old new : List Json} {items : List Item}
    {info : Json} {markDeprecated : Bool} (hold : Dict.get? document "item" = some (.arr old))
    (hnew : Dict.get? fresh "item" = some (.arr new))
    (htree : MergedTree (itemsOf document) (itemsOf fresh) markDeprecated items)
    (hinfo : infoOf fresh document = .ok info) :
    merge fresh (some document) markDeprecated = .ok (rebuilt fresh document info items) := by
  rw [merge_of_items hold]
  rw [itemsOf_of_get? hold, itemsOf_of_get? hnew] at htree
  obtain ⟨previous, hprevious, hitems⟩ := bind_eq_ok_iff.mp (mergeItems_eq_ok_iff.mpr htree)
  refine bind_eq_ok_iff.mpr ⟨previous, hprevious, ?_⟩
  rw [Persisted.required, hnew]
  refine bind_eq_ok_iff.mpr ⟨_, rfl, bind_eq_ok_iff.mpr ⟨_, rfl, ?_⟩⟩
  exact bind_eq_ok_iff.mpr ⟨_, hitems, bind_eq_ok_iff.mpr ⟨_, hinfo, rfl⟩⟩

end RouteAtlas.Postman
