/-
  A project's collection over many merges.

  ==== Problem ====

  A collection is merged again and again: every time the endpoints have changed, a fresh collection
  is merged into the document of the time before.  In between, endpoints go and come back.

  ==== Program ====

  `syncs` merges one fresh collection after the other, beginning with any document or none.

  ==== Spec ====

  After the last merge (`syncs_tree`):

  * the keys of the requests are all keys there ever were, each on one request;
  * marked are those requests whose key the last fresh collection does not have;
  * without the marked requests, the tree is that of the last fresh collection;
  * a marked request is in the folder its request was in before the last merge, or at the root when
    the last fresh collection has no such folder.

  ==== The crux ====

  Only the first of these needs an induction over the merges; its step is `leafKeys_perm`: the keys
  after a merge are the fresh ones, and the old ones that are gone.  All the rest is about the last
  merge, whatever the document before: a request of the merged tree is either a refreshed one, with
  the key and the name of the fresh one, or a leftover, with the mark and a key that is gone
  (`leaf_of_mergedTree`).
-/
import RouteAtlas.Proofs.Postman.Step

namespace RouteAtlas.Postman

open Persisted (Fault isMarked bind_eq_ok_iff)

/-! ## Fresh collections

What a run requires of every fresh collection: requests with keys of their own, none of them named
as if it were gone. -/

/-- Every request has a key. -/
def FullyKeyed (items : List Item) : Prop :=
  ∀ l ∈ flatten items, ∃ key, Item.key? l.2 = .ok (some key)

/-- Requests with keys, all different, and with names that are not marked. -/
structure Usable (items : List Item) : Prop where
  keyed : FullyKeyed items
  distinct : (leafKeys items).Nodup
  named : ∀ l ∈ flatten items, ∃ name, Dict.get? l.2 "name" = some name ∧ name.truthy = true
  unmarked : ∀ l ∈ flatten items, isMarked l.2 = false

/-- Usable, request by request. -/
theorem usable_iff {items : List Item} : Usable items ↔
    (leafKeys items).Nodup ∧ ∀ l ∈ flatten items, (Item.keyGiven? l.2).isSome = true ∧
      (Dict.get? l.2 "name").any Json.truthy = true ∧ isMarked l.2 = false := by
  constructor
  · intro h
    refine ⟨h.distinct, fun l hl => ⟨?_, ?_, h.unmarked l hl⟩⟩
    · obtain ⟨key, hkey⟩ := h.keyed l hl
      rw [keyGiven?_eq_some_iff.mpr hkey]
      rfl
    · obtain ⟨name, hname, htruthy⟩ := h.named l hl
      rw [hname]
      exact htruthy
  · rintro ⟨hdistinct, hall⟩
    refine ⟨fun l hl => ?_, hdistinct, fun l hl => ?_, fun l hl => (hall l hl).2.2⟩
    · obtain ⟨key, hkey⟩ := Option.isSome_iff_exists.mp (hall l hl).1
      exact ⟨key, keyGiven?_eq_some_iff.mp hkey⟩
    · exact (Option.any_eq_true _ _).mp (hall l hl).2.1

instance (items : List Item) : Decidable (Usable items) := decidable_of_iff _ usable_iff.symm

/-- The last request with a key. -/
def lastWithKey? (key : String) (items : List Item) : Option (FolderPath × Dict Json) :=
  (flatten items).reverse.find? fun l => Item.keyGiven? l.2 == some key

/-- Of several requests with a key, the last one is found under it.  Requests without a key are
    passed over in both. -/
theorem get?_ofList_entries (items : List Item) (key : String) :
    Dict.get? (Dict.ofList (entries items)) key = lastWithKey? key items := by
  rw [Dict.get?_ofList, entries, lastWithKey?, ← List.filterMap_reverse]
  induction (flatten items).reverse with
  | nil => rfl
  | cons l ls ih =>
    rw [List.filterMap_cons]
    cases hk : Item.keyGiven? l.2 with
    | none =>
      rw [List.find?_cons_of_neg (by rw [hk]; exact Bool.false_ne_true)]
      exact ih
    | some k =>
      show Dict.get? ((k, l) :: _) key = _
      rw [Dict.get?_cons]
      by_cases heq : key = k
      · rw [if_pos (beq_iff_eq.mpr heq), List.find?_cons_of_pos (by rw [hk, heq]; exact beq_self_eq_true _)]
      · rw [if_neg (fun h => heq (eq_of_beq h)), List.find?_cons_of_neg]
        · exact ih
        · rw [hk]
          exact fun h => heq (Option.some.inj (eq_of_beq h)).symm

/-! ## One merge

The step.  Keys: the fresh ones and those that are gone.  Marks: exactly on what is gone.  The tree
without the marked requests: the fresh one. -/

section

variable {old fresh items : List Item}

/-- Refreshing changes no key. -/
theorem leafKeys_refreshAll {previous : Dict (FolderPath × Dict Json)} {refreshed : List Item}
    (h : refreshAll previous fresh = .ok refreshed) : leafKeys refreshed = leafKeys fresh := by
  rw [leafKeys_eq, leafKeys_eq]
  have hall := flatten_refreshAll h
  generalize flatten fresh = ls, flatten refreshed = ls' at hall
  induction hall with
  | nil => rfl
  | @cons l l' ls ls' hl _ ih =>
    have hkey : Item.keyGiven? l'.2 = Item.keyGiven? l.2 := by
      rw [Item.keyGiven?, Item.keyGiven?, Persisted.given, key?_refreshLeaf hl.2, Persisted.given]
    rw [List.filterMap_cons, List.filterMap_cons, hkey, ih]

/-- Gone are the persisted keys that the fresh tree does not have. -/
theorem mem_keys_gone {key : String} :
    key ∈ Dict.keys (gone old fresh) ↔ key ∈ leafKeys old ∧ key ∉ leafKeys fresh := by
  constructor
  · intro h
    obtain ⟨⟨k, l⟩, hmem, rfl⟩ := List.mem_map.mp h
    obtain ⟨hget, hno⟩ := mem_gone.mp hmem
    exact ⟨mem_leafKeys.mpr ⟨l, mem_of_get?_persisted hget⟩, hno⟩
  · rintro ⟨hkey, hno⟩
    have hmem : key ∈ Dict.keys (Dict.ofList (entries old)) := Dict.mem_keys_ofList.mpr hkey
    obtain ⟨⟨k, l⟩, hl, rfl⟩ := List.mem_map.mp hmem
    exact List.mem_map.mpr ⟨(k, l), mem_gone.mpr
      ⟨Dict.get?_of_mem (Dict.nodup_keys_ofList _) hl, hno⟩, rfl⟩

/-- **The keys after a merge**: the fresh ones, and those that are gone. -/
theorem leafKeys_perm (h : MergedTree old fresh true items) :
    (leafKeys items).Perm (leafKeys fresh ++ Dict.keys (gone old fresh)) := by
  obtain ⟨-, refreshed, leftovers, hrefreshed, rfl, -, hleft⟩ := h
  have harrivals : ((arrivals leftovers refreshed).filterMap fun l => Item.keyGiven? l.2).Perm
      (Dict.keys (gone old fresh)) := by
    have hperm := (arrivals_perm leftovers refreshed).filterMap Item.keyGiven?
    rw [List.filterMap_map, List.filterMap_map] at hperm
    rw [← keys_leftovers (leftovers_of_mapM hleft)]
    exact hperm
  rw [leafKeys_eq (fill _ _), ← leafKeys_refreshAll hrefreshed, leafKeys_eq refreshed]
  have hperm := (flatten_fill_perm leftovers refreshed).filterMap fun l => Item.keyGiven? l.2
  rw [List.filterMap_append] at hperm
  exact hperm.trans (harrivals.append_left _)

/-- **A merge keeps keys apart.** -/
theorem nodup_leafKeys (hfresh : (leafKeys fresh).Nodup) (h : MergedTree old fresh true items) :
    (leafKeys items).Nodup := by
  refine (leafKeys_perm h).nodup_iff.mpr (List.nodup_append.mpr ⟨hfresh, nodup_gone old fresh, ?_⟩)
  rintro key hkey _ hgone rfl
  exact (mem_keys_gone.mp hgone).2 hkey

/-- The keys after a merge are the persisted and the fresh ones. -/
theorem mem_leafKeys_mergedTree (h : MergedTree old fresh true items) {key : String} :
    key ∈ leafKeys items ↔ key ∈ leafKeys old ∨ key ∈ leafKeys fresh := by
  rw [(leafKeys_perm h).mem_iff, List.mem_append, mem_keys_gone]
  constructor
  · rintro (hf | ⟨ho, -⟩)
    · exact .inr hf
    · exact .inl ho
  · rintro (ho | hf)
    · by_cases hf : key ∈ leafKeys fresh
      · exact .inl hf
      · exact .inr ⟨ho, hf⟩
    · exact .inl hf

/-- A request of the merged tree that was put there because its endpoint is gone. -/
structure LeftBehind (old fresh : List Item) (l : FolderPath × Dict Json) (key : String)
    (l₀ : FolderPath × Dict Json) : Prop where
  key_eq : Item.key? l.2 = .ok (some key)
  gone : key ∉ leafKeys fresh
  marked : isMarked l.2 = true
  before : lastWithKey? key old = some l₀
  place : if hasFolder fresh l₀.1 then l.1 ∈ folders fresh ∧ (l.1 == l₀.1) = true else l.1 = []

/-- **A request of the merged tree is a refreshed one or a leftover.** -/
theorem leaf_of_mergedTree (h : MergedTree old fresh true items) {l : FolderPath × Dict Json}
    (hl : l ∈ flatten items) :
    (∃ l₀ ∈ flatten fresh, l.1 = l₀.1 ∧
      refreshLeaf (Dict.ofList (entries old)) l₀.2 = .ok l.2) ∨
    ∃ key l₀, LeftBehind old fresh l key l₀ := by
  obtain ⟨-, refreshed, leftovers, hrefreshed, rfl, -, hleft⟩ := h
  rcases List.mem_append.mp ((flatten_fill_perm leftovers refreshed).mem_iff.mp hl) with hl | hl
  · exact .inl (Persisted.exists_of_forall₂_right (flatten_refreshAll hrefreshed) hl)
  · obtain ⟨path, hpath, hplace⟩ := mem_arrivals hl
    obtain ⟨key, l₀, hget, hgone, hleftover⟩ := exists_gone_of_mem (leftovers_of_mapM hleft) hpath
    have hfolders := (folders_refreshAll hrefreshed).1
    have hsame : hasFolder refreshed path = hasFolder fresh l₀.1 := by
      rw [hasFolder, hfolders, ← hleftover.path]
      rfl
    refine .inr ⟨key, l₀, hleftover.key, hgone, hleftover.marked, ?_, ?_⟩
    · rw [← get?_ofList_entries, hget]
    · rw [hsame, hfolders, show path = l₀.1 from hleftover.path] at hplace
      exact hplace

/-- A refreshed request is not marked, as the fresh one is not. -/
theorem not_isMarked_refreshLeaf {previous : Dict (FolderPath × Dict Json)} (hfresh : Usable fresh)
    {l : FolderPath × Dict Json} (hl : l ∈ flatten fresh) {fields' : Dict Json}
    (h : refreshLeaf previous l.2 = .ok fields') : isMarked fields' = false := by
  obtain ⟨name, hname, htruthy⟩ := hfresh.named l hl
  have hsame : isMarked fields' = isMarked l.2 := by
    rw [isMarked, name_refreshLeaf hname htruthy h, isMarked, hname]
  rw [hsame, hfresh.unmarked l hl]

/-- What a merge puts into the tree was there before, under a key that is gone. -/
theorem exists_gone_of_mem_leftovers {leftovers : Leftovers} {markDeprecated : Bool}
    (hmark : if markDeprecated then
        Keyable fresh ∧ ((gone old fresh).mapM fun g => markGone g.2) = .ok leftovers
      else leftovers = [])
    {l : FolderPath × Dict Json} (hl : l ∈ leftovers) : ∃ key l₀,
      Dict.get? (Dict.ofList (entries old)) key = some l₀ ∧ IsLeftover key l₀ l := by
  cases markDeprecated with
  | false =>
    obtain rfl : leftovers = [] := hmark
    exact absurd hl (List.not_mem_nil)
  | true =>
    obtain ⟨key, l₀, hget, -, hleftover⟩ := exists_gone_of_mem (leftovers_of_mapM hmark.2) hl
    exact ⟨key, l₀, hget, hleftover⟩

/-- **Marked is what is gone.** -/
theorem isMarked_iff (hfresh : Usable fresh) (h : MergedTree old fresh true items)
    {l : FolderPath × Dict Json} (hl : l ∈ flatten items) {key : String}
    (hkey : Item.key? l.2 = .ok (some key)) : isMarked l.2 = true ↔ key ∉ leafKeys fresh := by
  rcases leaf_of_mergedTree h hl with ⟨l₀, hl₀, -, hrefresh⟩ | ⟨key', l₀, hleft⟩
  · rw [not_isMarked_refreshLeaf hfresh hl₀ hrefresh]
    have hmem : key ∈ leafKeys fresh :=
      mem_leafKeys.mpr ⟨l₀, hl₀, (key?_refreshLeaf hrefresh).symm.trans hkey⟩
    exact ⟨fun hm => absurd hm (by decide), fun hno => absurd hmem hno⟩
  · obtain rfl : key' = key := Option.some.inj (Except.ok.inj (hleft.key_eq.symm.trans hkey))
    exact ⟨fun _ => hleft.gone, fun _ => hleft.marked⟩

/-- Every request of a merged tree has a key. -/
theorem fullyKeyed_mergedTree (hfresh : FullyKeyed fresh) (h : MergedTree old fresh true items) :
    FullyKeyed items := by
  intro l hl
  rcases leaf_of_mergedTree h hl with ⟨l₀, hl₀, -, hrefresh⟩ | ⟨key, l₀, hleft⟩
  · obtain ⟨key, hkey⟩ := hfresh l₀ hl₀
    exact ⟨key, (key?_refreshLeaf hrefresh).trans hkey⟩
  · exact ⟨key, hleft.key_eq⟩

/-- **Without the marked requests, the merged tree is the fresh one.** -/
theorem outline_mergedTree {markDeprecated : Bool} (hfresh : Usable fresh)
    (h : MergedTree old fresh markDeprecated items) :
    outline (unmarked items) = outline fresh := by
  obtain ⟨-, refreshed, leftovers, hrefreshed, rfl, hmark⟩ := h
  have hmarked : ∀ l ∈ leftovers, isMarked l.2 = true := by
    intro l hl
    obtain ⟨_, _, _, hleftover⟩ := exists_gone_of_mem_leftovers hmark hl
    exact hleftover.marked
  have hunmarked : ∀ l ∈ flatten refreshed, isMarked l.2 = false := by
    intro l hl
    obtain ⟨l₀, hl₀, -, hrefresh⟩ := Persisted.exists_of_forall₂_right (flatten_refreshAll hrefreshed) hl
    exact not_isMarked_refreshLeaf hfresh hl₀ hrefresh
  rw [unmarked_fill hunmarked hmarked, outline_refreshAll hrefreshed hfresh.named]

/-- A merged tree is read back as what it is. -/
theorem readable_mergedTree {markDeprecated : Bool} (hold : Readable old) (hfresh : Readable fresh)
    (h : MergedTree old fresh markDeprecated items) : Readable items := by
  obtain ⟨-, refreshed, leftovers, hrefreshed, rfl, hmark⟩ := h
  have hprevious : ∀ key l, Dict.get? (Dict.ofList (entries old)) key = some l →
      ReadableItem (.leaf l.2) :=
    fun key l hl => readable_of_mem_flatten hold (mem_of_get?_persisted hl).1
  refine readable_fill (readable_refreshAll hrefreshed hprevious hfresh) fun l hl => ?_
  obtain ⟨key, l₀, hget, hleftover⟩ := exists_gone_of_mem_leftovers hmark hl
  intro values
  rw [hleftover.item]
  exact hprevious key l₀ hget values

end

/-! ## Documents

The same of documents, which may have no items yet; then the fresh one is written. -/

section

variable {fresh merged : Dict Json} {before : Option (Dict Json)}

/-- What is said of merged trees holds of merged documents, which are written and read again. -/
theorem itemsOf_merge {markDeprecated : Bool} (h : merge fresh before markDeprecated = .ok merged) :
    (Itemless before ∧ merged = fresh) ∨
    ∃ items, MergedTree (itemsBefore before) (itemsOf fresh) markDeprecated items ∧
      Readable items ∧ itemsOf merged = readBack items := by
  rcases merge_cases h with hless | ⟨document, items, info, rfl, htree, -, rfl⟩
  · exact .inl hless
  · exact .inr ⟨items, htree, readable_mergedTree (readable_itemsOf _) (readable_itemsOf _) htree,
      itemsOf_rebuilt ..⟩

/-- The keys of a merged document are the persisted and the fresh ones. -/
theorem mem_leafKeys_merge (h : merge fresh before true = .ok merged) {key : String} :
    key ∈ leafKeys (itemsOf merged) ↔
      key ∈ leafKeys (itemsBefore before) ∨ key ∈ leafKeys (itemsOf fresh) := by
  rcases itemsOf_merge h with ⟨hless, rfl⟩ | ⟨items, htree, hread, heq⟩
  · rw [itemsBefore_of_itemless hless]
    exact ⟨.inr, fun h => h.elim (fun h => absurd h (List.not_mem_nil)) id⟩
  · rw [heq, leafKeys_readBack hread]
    exact mem_leafKeys_mergedTree htree

/-- Every request of a merged document has a key. -/
theorem fullyKeyed_merge (hfresh : FullyKeyed (itemsOf fresh))
    (h : merge fresh before true = .ok merged) : FullyKeyed (itemsOf merged) := by
  rcases itemsOf_merge h with ⟨-, rfl⟩ | ⟨items, htree, hread, heq⟩
  · exact hfresh
  · rw [heq, FullyKeyed, flatten_readBack hread]
    exact fullyKeyed_mergedTree hfresh htree

theorem nodup_leafKeys_merge (hfresh : (leafKeys (itemsOf fresh)).Nodup)
    (h : merge fresh before true = .ok merged) : (leafKeys (itemsOf merged)).Nodup := by
  rcases itemsOf_merge h with ⟨-, rfl⟩ | ⟨items, htree, hread, heq⟩
  · exact hfresh
  · rw [heq, leafKeys_readBack hread]
    exact nodup_leafKeys hfresh htree

/-- In a merged document, marked is what is gone. -/
theorem isMarked_iff_merge (hfresh : Usable (itemsOf fresh))
    (h : merge fresh before true = .ok merged) {l : FolderPath × Dict Json}
    (hl : l ∈ flatten (itemsOf merged)) {key : String} (hkey : Item.key? l.2 = .ok (some key)) :
    isMarked l.2 = true ↔ key ∉ leafKeys (itemsOf fresh) := by
  rcases itemsOf_merge h with ⟨-, rfl⟩ | ⟨items, htree, hread, heq⟩
  · rw [hfresh.unmarked l hl]
    exact ⟨fun hm => absurd hm (by decide), fun hno => absurd (mem_leafKeys.mpr ⟨l, hl, hkey⟩) hno⟩
  · rw [heq, flatten_readBack hread] at hl
    exact isMarked_iff hfresh htree hl hkey

/-- Where nothing is marked, nothing is left out. -/
theorem unmarked_eq_self {items : List Item} (h : ∀ l ∈ flatten items, isMarked l.2 = false) :
    unmarked items = items := by
  have hfill : unmarked (fill [] items) = items :=
    unmarked_fill h fun l hl => absurd hl (List.not_mem_nil)
  rwa [fill_empty] at hfill

/-- Without the marked requests, a merged document looks like the fresh one. -/
theorem outline_merge {markDeprecated : Bool} (hfresh : Usable (itemsOf fresh))
    (h : merge fresh before markDeprecated = .ok merged) :
    outline (unmarked (itemsOf merged)) = outline (itemsOf fresh) := by
  rcases itemsOf_merge h with ⟨-, rfl⟩ | ⟨items, htree, hread, heq⟩
  · rw [unmarked_eq_self hfresh.unmarked]
  · rw [heq, outline_unmarked_readBack hread]
    exact outline_mergedTree hfresh htree

/-- With marking switched off, nothing is marked and the tree is the fresh one. -/
theorem outline_merge_unmarked (hfresh : Usable (itemsOf fresh))
    (h : merge fresh before false = .ok merged) :
    outline (itemsOf merged) = outline (itemsOf fresh) := by
  rcases itemsOf_merge h with ⟨-, rfl⟩ | ⟨items, htree, hread, heq⟩
  · rfl
  · have hall : ∀ l ∈ flatten (itemsOf merged), isMarked l.2 = false := by
      intro l hl
      rw [heq, flatten_readBack hread] at hl
      obtain ⟨-, refreshed, leftovers, hrefreshed, rfl, rfl⟩ := htree
      rw [fill_empty] at hl
      obtain ⟨l₀, hl₀, -, hrefresh⟩ :=
        Persisted.exists_of_forall₂_right (flatten_refreshAll hrefreshed) hl
      exact not_isMarked_refreshLeaf hfresh hl₀ hrefresh
    rw [← outline_merge hfresh h, unmarked_eq_self hall]

/-- A marked request of a merged document was left behind. -/
theorem leftBehind_merge (hfresh : Usable (itemsOf fresh))
    (h : merge fresh before true = .ok merged) {l : FolderPath × Dict Json}
    (hl : l ∈ flatten (itemsOf merged)) (hm : isMarked l.2 = true) :
    ∃ key l₀, LeftBehind (itemsBefore before) (itemsOf fresh) l key l₀ := by
  rcases itemsOf_merge h with ⟨-, rfl⟩ | ⟨items, htree, hread, heq⟩
  · exact absurd ((hfresh.unmarked l hl).symm.trans hm) (by decide)
  · rw [heq, flatten_readBack hread] at hl
    rcases leaf_of_mergedTree htree hl with ⟨l₀, hl₀, -, hrefresh⟩ | hleft
    · have hunmarked := not_isMarked_refreshLeaf hfresh hl₀ hrefresh
      exact absurd (hunmarked.symm.trans hm) (by decide)
    · exact hleft

end

/-! ## Many merges

The run, by induction on the collections that are merged one after the other. -/

/-- One fresh collection after the other, merged into the document before. -/
def syncs (markDeprecated : Bool) (existing : Option (Dict Json)) (freshes : List (Dict Json)) :
    Except Fault (Option (Dict Json)) :=
  freshes.foldlM (fun document fresh => (merge fresh document markDeprecated).map some) existing

/-- A run is one merge and a run from there. -/
theorem syncs_cons {mark : Bool} {existing last : Option (Dict Json)} {fresh : Dict Json}
    {freshes : List (Dict Json)} : syncs mark existing (fresh :: freshes) = .ok last ↔
      ∃ merged, merge fresh existing mark = .ok merged ∧ syncs mark (some merged) freshes = .ok last :=
  Persisted.foldlM_some_cons

/-- No key is lost and none is invented.  The marks are set in each of the merges, since without
    them the requests that are gone would be dropped. -/
theorem mem_leafKeys_syncs {existing last : Option (Dict Json)} {freshes : List (Dict Json)}
    (h : syncs true existing freshes = .ok last) {key : String} :
    key ∈ leafKeys (itemsBefore last) ↔ key ∈ leafKeys (itemsBefore existing) ∨
      ∃ fresh ∈ freshes, key ∈ leafKeys (itemsOf fresh) := by
  induction freshes generalizing existing with
  | nil =>
    obtain rfl := Except.ok.inj h
    exact ⟨.inl, fun h => h.elim id fun ⟨_, hf, _⟩ => absurd hf (List.not_mem_nil)⟩
  | cons fresh freshes ih =>
    obtain ⟨merged, hmerge, hrest⟩ := syncs_cons.mp h
    rw [ih hrest]
    show (key ∈ leafKeys (itemsOf merged) ∨ _) ↔ _
    rw [mem_leafKeys_merge hmerge]
    constructor
    · rintro ((he | hf) | ⟨fresh', hmem, hf⟩)
      · exact .inl he
      · exact .inr ⟨fresh, List.mem_cons_self .., hf⟩
      · exact .inr ⟨fresh', List.mem_cons_of_mem _ hmem, hf⟩
    · rintro (he | ⟨fresh', hmem, hf⟩)
      · exact .inl (.inl he)
      · rcases List.mem_cons.mp hmem with rfl | hmem
        · exact .inl (.inr hf)
        · exact .inr ⟨fresh', hmem, hf⟩

/-- **A collection after many merges.**  `earlier` and then `fresh` are merged into any document, or
    none; `before` is the document the last of them is merged into. -/
theorem syncs_tree {existing before : Option (Dict Json)} {earlier : List (Dict Json)}
    {fresh merged : Dict Json} (hfresh : ∀ f ∈ earlier ++ [fresh], Usable (itemsOf f))
    (hrun : syncs true existing earlier = .ok before) (h : merge fresh before true = .ok merged) :
    -- every request has a key, and the keys are all there ever were, each on one request
    (FullyKeyed (itemsOf merged) ∧ (leafKeys (itemsOf merged)).Nodup ∧
      ∀ key, key ∈ leafKeys (itemsOf merged) ↔ key ∈ leafKeys (itemsBefore existing) ∨
        ∃ f ∈ earlier ++ [fresh], key ∈ leafKeys (itemsOf f)) ∧
    -- marked is what the last fresh collection does not have
    (∀ l ∈ flatten (itemsOf merged), ∀ key, Item.key? l.2 = .ok (some key) →
      (isMarked l.2 = true ↔ key ∉ leafKeys (itemsOf fresh))) ∧
    -- the other requests are in the tree of the last fresh collection
    outline (unmarked (itemsOf merged)) = outline (itemsOf fresh) ∧
    -- a marked request is in the folder it was in, if it still exists, else at the root
    (∀ l ∈ flatten (itemsOf merged), isMarked l.2 = true →
      ∃ key l₀, Item.key? l.2 = .ok (some key) ∧
        lastWithKey? key (itemsBefore before) = some l₀ ∧
        if hasFolder (itemsOf fresh) l₀.1 then
          l.1 ∈ folders (itemsOf fresh) ∧ (l.1 == l₀.1) = true
        else l.1 = []) ∧
    -- with marking switched off, the tree is that of the last fresh collection
    (∀ document merged', merge fresh document false = .ok merged' →
      outline (itemsOf merged') = outline (itemsOf fresh)) := by
  have hlast : Usable (itemsOf fresh) := hfresh fresh (List.mem_append_right _ (List.mem_singleton_self _))
  refine ⟨⟨fullyKeyed_merge hlast.keyed h, nodup_leafKeys_merge hlast.distinct h, ?_⟩,
    fun l hl key hkey => isMarked_iff_merge hlast h hl hkey, outline_merge hlast h, ?_, ?_⟩
  · intro key
    rw [mem_leafKeys_merge h, mem_leafKeys_syncs hrun, or_assoc]
    refine or_congr_right ?_
    constructor
    · rintro (⟨f, hf, hkey⟩ | hkey)
      · exact ⟨f, List.mem_append_left _ hf, hkey⟩
      · exact ⟨fresh, List.mem_append_right _ (List.mem_singleton_self _), hkey⟩
    · rintro ⟨f, hf, hkey⟩
      rcases List.mem_append.mp hf with hf | hf
      · exact .inl ⟨f, hf, hkey⟩
      · obtain rfl := List.mem_singleton.mp hf
        exact .inr hkey
  · intro l hl hm
    obtain ⟨key, l₀, hleft⟩ := leftBehind_merge hlast h hl hm
    exact ⟨key, l₀, hleft.key_eq, hleft.before, hleft.place⟩
  · exact fun document merged' h' => outline_merge_unmarked hlast h'

/-- A collection with one folder. -/
def sample (requests : List (String × String)) : Dict Json :=
  [("info", .obj [("name", .str "Shop")]), ("variable", .arr []),
    ("item", .arr [.obj [("name", .str "users"), ("item", .arr (requests.map fun (name, url) =>
      .obj [("name", .str name), ("request",
        .obj [("method", .str "GET"), ("header", .arr []), ("url", .str url)])]))]])]

/-- A request is given up: it is kept behind the fresh ones, and marked. -/
theorem syncs_tree_users : ∃ merged,
    merge (sample [("List", "/users")])
      (some (sample [("Me", "/users/me"), ("List", "/users")])) true = .ok merged ∧
    leafKeys (itemsOf merged) = ["GET /users", "GET /users/me"] ∧
    outline (unmarked (itemsOf merged)) = outline (itemsOf (sample [("List", "/users")])) := by
  have hrun : syncs true none [sample [("Me", "/users/me"), ("List", "/users")]]
    = .ok (some (sample [("Me", "/users/me"), ("List", "/users")])) := rfl
  exact ⟨_, rfl, by decide, (syncs_tree (by decide) hrun rfl).2.2.1⟩

end RouteAtlas.Postman
